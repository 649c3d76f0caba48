import Novella.Proofs.Json.Yields
import Novella.Proofs.Story.Document

/-!
# Documents of stories

Every story that the operations make, with any edits of its nodes that leave their ids and ports
alone, is disciplined and has ids that a document can hold. So as long as its places and sizes are
finite it comes back from its document, with nothing selected (`story_reloads`). That the text of a
number is read as the number (`Json.Exact`) is assumed.
-/

namespace Novella.Story

/-- The stories that the operations make. An id is handed out only while the counter can go on
after it, and editing a node keeps its id and its ports. -/
inductive StoryGraph.Reachable : StoryGraph → Prop
  | empty (name : String) : Reachable { name }
  | performed {g g' : StoryGraph} {op : Operation} (h : Reachable g)
      (hroom : ∀ id, op.issued g = some id → id < PortGraph.largestId)
      (hg : op.perform g = some g') : Reachable g'
  | edited {g : StoryGraph} (id : Nat) {f : Node → Node} (hid : ∀ n, (f n).id = n.id)
      (hinputs : ∀ n, (f n).inputs = n.inputs) (houtputs : ∀ n, (f n).outputs = n.outputs)
      (h : Reachable g) : Reachable (g.modify id f)

/-- The place and the size of a node. -/
def Node.numbers (n : Node) : List Binary64 := [n.x, n.y, n.width, n.height]

def StoryGraph.numbers (g : StoryGraph) : List Binary64 := g.nodes.flatMap Node.numbers

end Novella.Story

namespace Novella.Proofs

open Json Story Story.StoryGraph

variable {n : Story.Node} {g g' : StoryGraph}

/-! ## Ids -/

/-- The ids of the story have at most sixty-four bits. -/
def Addressed (g : StoryGraph) : Prop := ∀ id, g.graph.contains id = true → id < 2 ^ 64

lemma yields_story_node : Yields Story.Node.layout.decode fun n => n.id < 2 ^ 64 := by
  refine yields_layout (by decide) ?_
  simp only [Story.Node.layout, List.forall_mem_cons, List.not_mem_nil, false_imp_iff,
    implies_true, and_true]
  refine ⟨(yields_nat 64).keeps fun n id _ hid => hid, ?_⟩
  repeat' constructor
  all_goals exact (yields_true _).keeps fun n _ h _ => h

lemma yields_storyEntry :
    Yields StoryEntry.layout.decode fun d => ∀ n ∈ d.nodes, n.id < 2 ^ 64 := by
  refine yields_layout nofun ?_
  simp only [StoryEntry.layout, List.forall_mem_cons, List.not_mem_nil, false_imp_iff,
    implies_true, and_true]
  refine ⟨?_, ?_, ?_, ?_, ?_⟩
  · exact (yields_true _).keeps fun d _ h _ => h
  · exact (yields_true _).keeps fun d _ h _ => h
  · exact (yields_true _).keeps fun d _ h _ => h
  · exact yields_story_node.list.keeps fun d nodes _ hnodes => hnodes
  · exact (yields_true _).keeps fun d _ h _ => h

/-- No new ids, so none that is too large. -/
lemma Addressed.of_contains (h : Addressed g)
    (hcontains : ∀ id, g'.graph.contains id = true → g.graph.contains id = true) : Addressed g' :=
  fun id hid => h id (hcontains id hid)

lemma Addressed.modify (h : Addressed g) (id : Nat) (f : Story.Node → Story.Node) :
    Addressed (g.modify id f) :=
  h.of_contains fun id' hid' => (contains_modify g.graph id f id').symm.trans hid'

lemma Addressed.connect (h : Addressed g) {source target : Port}
    (hg : g.connect source target = .ok g') : Addressed g' := by
  obtain ⟨graph, hgraph, rfl, -⟩ := story_connect_eq_ok hg
  obtain ⟨-, -, rfl⟩ := connect_eq_ok.1 hgraph
  exact h

lemma Addressed.setStart (h : Addressed g) {id : Nat} (hg : g.setStart id = .ok g') :
    Addressed g' := by
  rw [StoryGraph.setStart] at hg
  split at hg
  · exact Except.ok.inj hg ▸ h
  · cases hg

lemma Addressed.addOutput (h : Addressed g) {id : Nat} {port : PortDecl} {added : Bool}
    (hg : g.addOutput id port = .ok (added, g')) : Addressed g' := by
  obtain rfl | rfl := addOutput_eq_ok hg
  · exact h
  · exact h.modify id _

lemma Addressed.removeOutput (h : Addressed g) {id : Nat} {name : String} {removed : Bool}
    (hg : g.removeOutput id name = .ok (removed, g')) : Addressed g' := by
  obtain ⟨rfl, -⟩ | rfl := removeOutput_eq_ok hg
  · exact h
  · have hcut : Addressed { g with
        graph := disconnectAll (g.graph.outgoingFrom id name) g.graph } := by
      refine List.foldlRecOn (motive := fun graph => Addressed { g with graph }) _ _ h ?_
      exact fun graph hgraph e _ => hgraph
    exact hcut.modify id _

lemma Addressed.addOption (h : Addressed g) {id : Nat} {text name : String}
    (hg : g.addOption id text = .ok (name, g')) : Addressed g' := by
  obtain ⟨_, _, hadded⟩ := addOption_eq_ok hg
  exact h.addOutput hadded

lemma addressed_ofJson {text : String} (hg : StoryGraph.ofJson text = .ok g) : Addressed g := by
  obtain ⟨entry, hentry, hg⟩ := exists_of_bind hg
  have hids := yields_storyEntry.readDocument hentry
  refine story_loaded_induct (P := Addressed) (fun _ => nofun) (fun n hn g g' hinsert h => ?_)
    (fun _ _ _ _ hconnect h => h.connect hconnect) (fun _ _ _ hstart h => h.setStart hstart) hg
  obtain ⟨graph, hgraph, rfl⟩ := Option.map_eq_some_iff.1 hinsert
  intro id hid
  rcases (contains_insert? hgraph id).1 hid with rfl | hid
  · exact hids n hn
  · exact h id hid

lemma Addressed.perform (h : Addressed g) {op : StoryGraph.Operation}
    (hroom : ∀ id, op.issued g = some id → id < PortGraph.largestId)
    (hg : op.perform g = some g') : Addressed g' := by
  cases op with
  | create kind x y =>
    obtain rfl := Option.some.inj hg
    intro id hid
    rcases (contains_add g.graph (fun id => Story.Node.ofKind id kind x y) id).1 hid with rfl | hid
    · exact Nat.lt_trans (hroom _ rfl) (by decide)
    · exact h id hid
  | load text => exact addressed_ofJson (eq_ok_of_toOption hg)
  | remove id =>
    obtain rfl := Option.some.inj hg
    rw [StoryGraph.remove]
    split
    · exact h.of_contains fun id' hid' => ((contains_remove g.graph id id').1 hid').1
    · exact h
  | setStart id => exact h.setStart (eq_ok_of_toOption hg)
  | addOutput id port =>
    obtain ⟨_, hadded, rfl⟩ := exists_of_map (eq_ok_of_toOption hg)
    exact h.addOutput hadded
  | removeOutput id name =>
    obtain ⟨_, hremoved, rfl⟩ := exists_of_map (eq_ok_of_toOption hg)
    exact h.removeOutput hremoved
  | addOption id text =>
    obtain ⟨_, hadded, rfl⟩ := exists_of_map (eq_ok_of_toOption hg)
    exact h.addOption hadded
  | connect source target => exact h.connect (eq_ok_of_toOption hg)
  | disconnect source target => exact Option.some.inj hg ▸ h
  | select source target selected => exact Option.some.inj hg ▸ h

/-! ## Stories within reach -/

lemma extends_of_ports {f : Story.Node → Story.Node} (hinputs : ∀ n, (f n).inputs = n.inputs)
    (houtputs : ∀ n, (f n).outputs = n.outputs) (n : Story.Node) : Extends n (f n) where
  output name p hp := by rwa [Story.Node.output?, houtputs]
  input name p hp := by rwa [Story.Node.input?, hinputs]

lemma contains_of_issued {op : StoryGraph.Operation} {id : Nat} (hid : op.issued g = some id)
    (hg : op.perform g = some g') : g'.graph.contains id = true := by
  cases op with
  | create kind x y =>
    obtain rfl := Option.some.inj hg
    obtain rfl := Option.some.inj hid
    exact (contains_add g.graph (fun id => Story.Node.ofKind id kind x y) _).2 (.inl rfl)
  | _ => cases hid

/-- An id below the largest one is not taken when it is handed out. -/
lemma not_contains_of_issued (h : Counted g.graph) {op : StoryGraph.Operation} {id : Nat}
    (hid : op.issued g = some id) (hroom : id < PortGraph.largestId) :
    g.graph.contains id = false := by
  rw [Bool.eq_false_iff]
  exact fun hlive => Nat.ne_of_lt (h.lt_nextId hlive hroom) (issued_eq hid)

theorem disciplined_of_reachable (h : g.Reachable) : Disciplined g ∧ Addressed g := by
  induction h with
  | empty name => exact ⟨disciplined_empty name, nofun⟩
  | performed _ hroom hg ih =>
    obtain ⟨hdisciplined, haddressed⟩ := ih
    refine ⟨hdisciplined.perform (fun id hid => ?_) hg, haddressed.perform hroom hg⟩
    exact not_contains_of_issued hdisciplined.counted hid (hroom id hid)
  | edited id hid hinputs houtputs _ ih =>
    obtain ⟨hdisciplined, haddressed⟩ := ih
    exact ⟨hdisciplined.modify id hid (extends_of_ports hinputs houtputs), haddressed.modify id _⟩

/-- Every run within bounds leads to a story within reach. -/
lemma reachable_of_within {name : String} {ops : List StoryGraph.Operation}
    (h : storyEditor.Within { name } ops) : (storyEditor.run { name } ops).Reachable := by
  suffices hdone : ∀ done, done <+: ops → (storyEditor.run { name } done).Reachable from
    hdone ops (List.prefix_refl ops)
  intro done
  induction done using List.reverseRecOn with
  | nil => exact fun _ => .empty name
  | append_singleton done op ih =>
    intro hprefix
    have hbefore := ih ((List.prefix_append done [op]).trans hprefix)
    have hlive : ∀ id, (storyEditor.run { name } (done ++ [op])).graph.contains id = true →
        id < PortGraph.largestId := fun id => h.lt hprefix
    rw [run_snoc, Editor.after] at hlive ⊢
    cases hperform : storyEditor.perform (storyEditor.run { name } done) op with
    | none => exact hbefore
    | some g =>
      rw [hperform] at hlive
      exact .performed hbefore (fun id hid => hlive id (contains_of_issued hid hperform)) hperform

/-! ## What is written -/

lemma placed_of_finite (h : ∀ x ∈ n.numbers, x.isFinite = true) : n.Placed := by
  simp only [Story.Node.numbers, List.forall_mem_cons] at h
  exact ⟨h.1, h.2.1, h.2.2.1, h.2.2.2.1⟩

lemma readable_ports (ports : List PortDecl) : Json.Readable (.list (ports.map PortDecl.toJson)) := by
  refine .list fun v hv => ?_
  obtain ⟨p, -, rfl⟩ := List.mem_map.1 hv
  refine .record fun m hm => ?_
  simp only [List.mem_cons, List.not_mem_nil, or_false] at hm
  rcases hm with rfl | rfl | rfl <;> exact .text

lemma readable_story_node (hid : n.id < 2 ^ 64) (hexact : ∀ x ∈ n.numbers, Exact x) :
    Json.Readable n.toJson := by
  have hproperties :
      Json.Readable (.record (n.properties.entries.map fun e => (e.1, Json.text e.2))) := by
    refine .record fun m hm => ?_
    obtain ⟨e, -, rfl⟩ := List.mem_map.1 hm
    exact .text
  simp only [Story.Node.numbers, List.forall_mem_cons] at hexact
  obtain ⟨hx, hy, hwidth, hheight, -⟩ := hexact
  refine .record fun m hm => ?_
  simp only [List.mem_cons, List.not_mem_nil, or_false] at hm
  rcases hm with rfl | rfl | rfl | rfl | rfl | rfl | rfl | rfl | rfl | rfl | rfl | rfl
  · exact readable_nat hid
  · exact .text
  · exact .text
  · exact .text
  · exact .float fun _ => hx
  · exact .float fun _ => hy
  · exact .float fun _ => hwidth
  · exact .float fun _ => hheight
  · exact readable_ports _
  · exact readable_ports _
  · exact hproperties
  · exact .bool

lemma readable_story (h : Disciplined g) (hids : Addressed g) (hexact : ∀ x ∈ g.numbers, Exact x) :
    Json.Readable g.document := by
  have hnodes : Json.Readable (.list (g.nodes.map Story.Node.toJson)) := by
    refine .list fun v hv => ?_
    obtain ⟨n, hn, rfl⟩ := List.mem_map.1 hv
    obtain ⟨id, hid⟩ := (mem_values_iff _ _).1 hn
    have hown : n.id = id := h.own id n hid
    refine readable_story_node ?_ fun x hx => hexact x (List.mem_flatMap.2 ⟨n, hn, hx⟩)
    exact hids n.id ((contains_iff_node? _).2 ⟨n, hown ▸ hid⟩)
  have hlinks : Json.Readable (.list (g.graph.edges.map fun e => (Link.ofEdge (fun _ => "") e).toJson)) :=
    readable_links fun e he =>
      have hjoined := h.wired.joined e he
      ⟨hids _ hjoined.source, hids _ hjoined.target⟩
  have hstart : Json.Readable (g.start?.elim .null .nat) := by
    cases hstart : g.start? with
    | none => exact .null
    | some id => exact readable_nat (hids id (h.start id hstart))
  refine .record fun m hm => ?_
  simp only [List.mem_cons, List.not_mem_nil, or_false] at hm
  rcases hm with rfl | rfl | rfl | rfl | rfl
  · exact .text
  · exact .text
  · exact hstart
  · exact hnodes
  · exact hlinks

/-! ## Reloading -/

/-- A story within reach whose places and sizes are finite is read from its document with the name,
the start, the nodes and the connections that it has, none of them selected. Its counter stands
after its greatest id. -/
theorem story_reloads (g : StoryGraph) (hreach : g.Reachable)
    (hfinite : ∀ x ∈ g.numbers, x.isFinite = true) (hexact : ∀ x ∈ g.numbers, Exact x) :
    StoryGraph.ofJson g.toJson = .ok {
      name := g.name
      start? := g.start?
      graph :=
        { nodes := g.graph.nodes.map fun _ n => { n with selected := false }
          edges := g.graph.edges.map fun e => { e with data := false }
          nextId := g.graph.ids.max?.elim 1 fun id => min (id + 1) PortGraph.largestId } } := by
  obtain ⟨hdisciplined, hids⟩ := disciplined_of_reachable hreach
  have hplaced : ∀ n ∈ g.nodes, n.Placed := fun n hn =>
    placed_of_finite fun x hx => hfinite x (List.mem_flatMap.2 ⟨n, hn, hx⟩)
  have hcounter : idAfter g.deselected.graph.ids =
      g.graph.ids.max?.elim 1 fun id => min (id + 1) PortGraph.largestId := by
    rw [← idAfter_eq, ids_deselected]
  rw [story_ofJson_toJson hdisciplined hplaced (readable_story hdisciplined hids hexact), recounted,
    hcounter]
  rfl

/-- A choice whose first option was taken away and came again, and what follows its two options,
after a node was removed. -/
def crossroads : StoryGraph :=
  (storyEditor.run { name := "crossroads" } [
    .create .comment .zero .zero, .create .choice 10 20, .create .dialogue .zero .zero,
    .create .stop .zero .zero, .addOption 2 "left", .addOption 2 "right",
    .connect (.output 2 "option_0") (.input 3 "in"), .connect (.output 2 "option_1") (.input 4 "in"),
    .removeOutput 2 "option_0", .addOption 2 "back",
    .connect (.output 2 "option_0") (.input 3 "in"),
    .select (.output 2 "option_1") (.input 4 "in") true, .setStart 2, .remove 1]).modify 3
      fun n => { n.set "text" "Who goes there?" with title := "Guard", selected := true }

theorem crossroads_reloads : (crossroads.Reachable ∧
      (∀ x ∈ crossroads.numbers, x.isFinite = true) ∧ ∀ x ∈ crossroads.numbers, Exact x) ∧
    ∃ g, StoryGraph.ofJson crossroads.toJson = .ok g ∧ g.start? = some 2 ∧
      g.graph.edges.map (fun e => (e.source, e.target, e.data)) =
        [(.output 2 "option_1", .input 4 "in", false), (.output 2 "option_0", .input 3 "in", false)] ∧
      g.graph.nextId = 5 := by
  have hreach : crossroads.Reachable :=
    .edited 3 (fun _ => rfl) (fun _ => rfl) (fun _ => rfl) (reachable_of_within (by decide +kernel))
  have hfinite : ∀ x ∈ crossroads.numbers, x.isFinite = true := by decide +kernel
  have hexact : ∀ x ∈ crossroads.numbers, Exact x := by decide +kernel
  refine ⟨⟨hreach, hfinite, hexact⟩, _, story_reloads crossroads hreach hfinite hexact, ?_⟩
  decide +kernel

end Novella.Proofs
