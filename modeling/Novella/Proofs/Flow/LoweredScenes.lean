import Novella.Proofs.Flow.Characters
import Novella.Proofs.Flow.LoweredChains

/-!
# Lowered scripts

Lowering a script never fails. Its scenes begin at the scene starts of the graph in the order of
their ids, also when scenes share a name and the table of scenes keeps only one of them, and
from the start of a scene the flow leads along its statements to a scene end.
-/

namespace Novella.Proofs

open Script Novella.Flow

/-- The nodes of a scene have the ids from `lo` up to `hi`: first its start, then those of its body,
and last its end. -/
structure SceneAt (g : FlowGraph) (s : SceneDecl) (lo hi : Nat) : Prop where
  first : ∃ n, g.node? lo = some n ∧ MadeFor lo .sceneStart s.loc [("scene", .text s.name)] n
  body : ∃ stop n, hi = stop + 1 ∧ g.node? stop = some n ∧
    MadeFor stop .sceneEnd s.loc [("scene", .text s.name)] n ∧
    Leads g true (.output lo "out") s.body (lo + 1) stop

lemma SceneAt.lt {g : FlowGraph} {s : SceneDecl} {lo hi : Nat} (h : SceneAt g s lo hi) :
    lo + 1 < hi := by
  obtain ⟨stop, n, rfl, -, -, hleads⟩ := h.body
  exact Nat.lt_succ_of_le (leads_le hleads)

/-- The scenes begin at the nodes `starts` and follow each other without gaps. -/
def ScenesAt (g : FlowGraph) (starts : List Nat) (scenes : List SceneDecl) (lo hi : Nat) : Prop :=
  Consecutive (fun x lo hi => x.1 = lo ∧ SceneAt g x.2 lo hi) (starts.zip scenes) lo hi

/-- The graph `g'` is `g` with a scene. -/
structure SceneAdded (s : SceneDecl) (g g' : FlowGraph) : Prop where
  tidy : Tidy g'.graph
  later : Later (fun q => g.graph.nextId ≤ q.node) g.graph g'.graph
  name : g'.name = g.name
  scenes : g'.scenes = g.scenes.insert s.name g.graph.nextId
  characters : g'.characters = g.characters
  lt : g.graph.nextId < g'.graph.nextId
  balance : Balance 1 g.graph g'.graph
  nodes : ∀ id n, g.graph.nextId ≤ id → g'.node? id = some n →
    n.id = id ∧ (n.kind = .sceneStart → id = g.graph.nextId)
  scene : ∀ {f : FlowGraph}, Tidy f.graph →
    Later (fun q => g'.graph.nextId ≤ q.node) g'.graph f.graph →
    SceneAt f s g.graph.nextId g'.graph.nextId

/-- The graph `g'` comes out of `g` by a scene start, the chain `c` of a body, a scene end and the
connection to it. -/
structure SceneSteps (s : SceneDecl) (g : FlowGraph) (d₁ : Draft) (c : Chain) (d₂ : Draft)
    (g' : FlowGraph) : Prop where
  start : NodeAdded .sceneStart s.loc [("scene", .text s.name)] g d₁.graph
  body : Extended s.body ⟨{ d₁ with graph := { d₁.graph with
    scenes := d₁.graph.scenes.insert s.name g.graph.nextId } }, .output g.graph.nextId "out", ""⟩ c
  stop : NodeAdded .sceneEnd s.loc [("scene", .text s.name)] c.draft.graph d₂.graph
  edge : EdgeAdded c.pending (.input (base c.draft).nextId "in") d₂.graph g'

section Scene

variable {p : Placement} {s : SceneDecl} {g g' : FlowGraph} {d₁ d₂ : Draft} {c : Chain}

lemma SceneSteps.nextId (h : SceneSteps s g d₁ c d₂ g') :
    g'.graph.nextId = (base c.draft).nextId + 1 :=
  h.edge.nextId.trans h.stop.nextId

/-- Every connection made after the scene start begins at a node of the scene. -/
lemma SceneSteps.later_start (h : SceneSteps s g d₁ c d₂ g') :
    Later (fun q => g.graph.nextId ≤ q.node) (base d₁) g'.graph := by
  have hafter : ∀ q : Port, q = .output g.graph.nextId "out" ∨ (base d₁).nextId ≤ q.node →
      g.graph.nextId ≤ q.node := by
    rintro q (rfl | hq)
    · exact Nat.le_refl _
    · exact h.start.later.nextId.trans hq
  refine (h.body.later.mono hafter).trans
    ((h.stop.later.mono fun _ h => h.elim).trans (h.edge.later.mono fun q hq => ?_))
  exact hq ▸ hafter _ h.body.pending

lemma SceneSteps.node?_start (h : SceneSteps s g d₁ c d₂ g') :
    g'.node? g.graph.nextId = d₁.graph.node? g.graph.nextId :=
  h.later_start.nodes _ (h.start.nextId ▸ Nat.lt_succ_self _)

lemma SceneSteps.lt (h : SceneSteps s g d₁ c d₂ g') : g.graph.nextId < g'.graph.nextId := by
  have hlt : g.graph.nextId < (base d₁).nextId := h.start.nextId ▸ Nat.lt_succ_self _
  exact hlt.trans_le h.later_start.nextId

lemma SceneSteps.nodes (h : SceneSteps s g d₁ c d₂ g') (id : Nat) (n : Node)
    (hid : g.graph.nextId ≤ id) (hn : g'.node? id = some n) :
    n.id = id ∧ (n.kind = .sceneStart → id = g.graph.nextId) := by
  rcases Nat.lt_or_eq_of_le hid with hlt | rfl
  · have hscene := (h.body.noScene.trans (h.stop.noNewScene (by decide)) h.stop.later).trans
      (noNewScene_of_nextId h.edge.tidy h.edge.nextId) h.edge.later
    have hle : (base d₁).nextId ≤ id := h.start.nextId ▸ hlt
    obtain ⟨hself, hkind⟩ := hscene id n hle hn
    exact ⟨hself, fun h => absurd h hkind⟩
  · obtain ⟨m, hm, hmade⟩ := h.start.node
    obtain rfl : n = m := Option.some.inj (hn.symm.trans (h.node?_start.trans hm))
    exact ⟨hmade.id_eq, fun _ => rfl⟩

/-- The body of a scene lies between its start and its end, whatever is added later. -/
lemma SceneSteps.sceneAt {f : FlowGraph} (h : SceneSteps s g d₁ c d₂ g') (hf : Tidy f.graph)
    (hlater : Later (fun q => g'.graph.nextId ≤ q.node) g'.graph f.graph) :
    SceneAt f s g.graph.nextId g'.graph.nextId := by
  have hstop : (base c.draft).nextId < g'.graph.nextId := h.nextId ▸ Nat.lt_succ_self _
  obtain ⟨m, hm, hmade⟩ := h.stop.node
  have hfound : f.node? (base c.draft).nextId = some m := by
    have hadded := h.edge.later.nodes (base c.draft).nextId (h.stop.nextId ▸ Nat.lt_succ_self _)
    exact (hlater.nodes _ hstop).trans (hadded.trans hm)
  refine ⟨?_, (base c.draft).nextId, m, h.nextId, hfound, hmade, ?_⟩
  · obtain ⟨n, hn, hmade⟩ := h.start.node
    exact ⟨n, (hlater.nodes _ h.lt).trans (h.node?_start.trans hn), hmade⟩
  · have hfinal : Final (base d₁).nextId c f := by
      refine ⟨hf, (h.stop.later.mono fun _ h => h.elim).trans
        ((h.edge.later.mono fun q hq => .inl hq).trans (hlater.mono fun q hq => ?_))⟩
      exact .inr (.inr (hstop.le.trans hq))
    obtain ⟨e, he, hsource, htarget⟩ := h.edge.edge
    have hentered : f.targetOf? c.pending.node c.pending.name = some (base c.draft).nextId := by
      have := targetOf?_of_mem hf (hlater.mem_edges he)
      rwa [hsource, htarget] at this
    have hends : EndsAt f true c.pending (base c.draft).nextId :=
      ⟨m, hentered, hfound, hmade.kind_eq⟩
    have hbody := h.body.leads hfinal (.stop hends)
    have hnext : (base d₁).nextId = g.graph.nextId + 1 := h.start.nextId
    rwa [List.append_nil, hnext] at hbody

lemma SceneSteps.added (h : SceneSteps s g d₁ c d₂ g') : SceneAdded s g g' where
  tidy := h.edge.tidy
  later := (h.start.later.mono fun _ h => h.elim).trans h.later_start
  name := h.edge.tables.name.trans (h.stop.tables.name.trans
    (h.body.tables.name.trans h.start.tables.name))
  scenes := by
    rw [h.edge.tables.scenes, h.stop.tables.scenes, h.body.tables.scenes]
    exact congrArg (fun scenes => scenes.insert s.name g.graph.nextId) h.start.tables.scenes
  characters := h.edge.tables.characters.trans (h.stop.tables.characters.trans
    (h.body.tables.characters.trans h.start.tables.characters))
  lt := h.lt
  balance := by
    have hbody : Balance 0 d₁.graph.graph c.draft.graph.graph := h.body.balance
    have hall := (h.start.balance.trans hbody).trans h.stop.balance
    have hedges := h.edge.edges
    have hnodes := h.edge.nextId
    unfold Balance at *
    omega
  nodes := h.nodes
  scene hf hlater := h.sceneAt hf hlater

lemma sceneAdded (index : Nat) (s : SceneDecl) (h : Tidy g.graph) :
    ∃ g', lowerScene p index s g = .ok g' ∧ SceneAdded s g g' := by
  have hpos : 1 ≤ g.graph.nextId := by
    have := h.size
    omega
  obtain ⟨x, hx⟩ : ∃ x, x = p.startX + .ofNat index * p.sceneSpacing := ⟨_, rfl⟩
  obtain ⟨d₁, hplace, hstart⟩ := nodeAdded (p := p) (d := ⟨g, x, p.startY⟩) h .sceneStart s.loc
    [("scene", .text s.name)]
  have hlt : g.graph.nextId < (base d₁).nextId := hstart.nextId ▸ Nat.lt_succ_self _
  have hready : Ready ⟨{ d₁ with graph := { d₁.graph with
      scenes := d₁.graph.scenes.insert s.name g.graph.nextId } }, .output g.graph.nextId "out", ""⟩ :=
    ⟨hstart.tidy, rfl, ⟨hpos, hlt⟩,
      Free.later (Free.of_new h (Nat.le_refl _)) hstart.later not_false⟩
  obtain ⟨c, hc, hbody⟩ := lowersBody p s.body x _ hready
  obtain ⟨d₂, hplace₂, hstop⟩ := nodeAdded (p := p) hbody.ready.tidy .sceneEnd s.loc
    [("scene", .text s.name)]
  have hlt₂ : (base c.draft).nextId < (base d₂).nextId := hstop.nextId ▸ Nat.lt_succ_self _
  obtain ⟨hknown, hpending⟩ := hbody.ready.known
  obtain ⟨g', hconnect, hedge⟩ := edgeAdded c.pending (.input (base c.draft).nextId "in") ""
    hstop.tidy hbody.ready.output rfl ⟨hknown, hpending.trans hlt₂⟩
    ⟨hknown.trans hpending.le, hlt₂⟩ (Free.later hbody.ready.free hstop.later not_false)
  refine ⟨g', ?_, SceneSteps.added ⟨hstart, hbody, hstop, hedge⟩⟩
  have hadd : d₁.graph.addScene s.name g.graph.nextId = .ok { d₁.graph with
      scenes := d₁.graph.scenes.insert s.name g.graph.nextId } := by
    have hcontains := (hstart.tidy.ids _).2 ⟨hpos, hlt⟩
    rw [FlowGraph.addScene, if_pos hcontains]
  rw [lowerScene, ← hx, hplace]
  dsimp only
  rw [hadd]
  change (lowerBody p x s.body _ >>= _) = _
  rw [hc]
  dsimp only [bind, Except.bind]
  rw [hplace₂]
  exact hconnect

/-- The graph `f` is `g` with scenes that begin at the nodes `starts`. -/
structure ScenesAdded (scenes : List SceneDecl) (starts : List Nat) (g f : FlowGraph) : Prop where
  tidy : Tidy f.graph
  later : Later (fun q => g.graph.nextId ≤ q.node) g.graph f.graph
  name : f.name = g.name
  characters : f.characters = g.characters
  ascending : starts.Pairwise (· < ·)
  fresh : ∀ start ∈ starts, g.graph.nextId ≤ start
  length : starts.length = scenes.length
  found : ScenesAt f starts scenes g.graph.nextId f.graph.nextId
  balance : Balance scenes.length g.graph f.graph
  nodes : ∀ id n, g.graph.nextId ≤ id → f.node? id = some n →
    n.id = id ∧ (n.kind = .sceneStart → id ∈ starts)
  table : ∀ name id, f.scenes.get? name = some id → g.scenes.get? name = some id ∨
    ∃ s, (id, s) ∈ starts.zip scenes ∧ s.name = name

theorem scenesAdded (index : Nat) (scenes : List SceneDecl) (h : Tidy g.graph) :
    ∃ f starts, lowerScenes p index scenes g = .ok f ∧ ScenesAdded scenes starts g f := by
  induction scenes generalizing index g with
  | nil =>
    refine ⟨g, [], rfl, h, .refl _ _, rfl, rfl, .nil,
      fun _ h => absurd h List.not_mem_nil, rfl, rfl, rfl, ?_, ?_⟩
    · intro id n hid hn
      have hlt := ((h.ids id).1 ((contains_iff_node? id).2 ⟨n, hn⟩)).2
      exact absurd hlt (Nat.not_lt.2 hid)
    · exact fun _ _ h => .inl h
  | cons s scenes ih =>
    obtain ⟨g', hg', hadded⟩ := sceneAdded (p := p) index s h
    obtain ⟨f, starts, hf, hall⟩ := ih (index + 1) hadded.tidy
    refine ⟨f, g.graph.nextId :: starts, by rw [lowerScenes, hg']; exact hf, hall.tidy, ?_,
      hall.name.trans hadded.name, hall.characters.trans hadded.characters, ?_, ?_,
      congrArg (· + 1) hall.length, ?_, ?_, ?_, ?_⟩
    · exact hadded.later.trans (hall.later.mono fun q hq => hadded.lt.le.trans hq)
    · exact .cons (fun start hstart => hadded.lt.trans_le (hall.fresh start hstart)) hall.ascending
    · intro start hstart
      rcases List.mem_cons.1 hstart with rfl | hstart
      · exact Nat.le_refl _
      · exact hadded.lt.le.trans (hall.fresh start hstart)
    · exact ⟨_, ⟨rfl, hadded.scene hall.tidy hall.later⟩, hall.found⟩
    · have hboth := hadded.balance.trans hall.balance
      rwa [Nat.add_comm] at hboth
    · intro id n hid hn
      by_cases hlt : id < g'.graph.nextId
      · obtain ⟨hself, hkind⟩ := hadded.nodes id n hid ((hall.later.nodes id hlt).symm.trans hn)
        exact ⟨hself, fun h => List.mem_cons.2 (.inl (hkind h))⟩
      · obtain ⟨hself, hkind⟩ := hall.nodes id n (Nat.not_lt.1 hlt) hn
        exact ⟨hself, fun h => List.mem_cons_of_mem _ (hkind h)⟩
    · intro name id hget
      rcases hall.table name id hget with hget | ⟨t, ht, hname⟩
      · rw [hadded.scenes, get?_insert] at hget
        split at hget
        · next hname =>
          obtain rfl := Option.some.inj hget
          exact .inr ⟨s, List.mem_cons_self, hname.symm⟩
        · exact .inl hget
      · exact .inr ⟨t, List.mem_cons_of_mem _ ht, hname⟩

end Scene

/-! ## Scripts -/

lemma tidy_empty : Tidy ({} : PortGraph Node String) where
  ids id := by
    have hnot : ({} : PortGraph Node String).contains id = false := rfl
    have hnext : ({} : PortGraph Node String).nextId = 1 := rfl
    rw [hnot, hnext]
    simp only [Bool.false_eq_true, false_iff]
    omega
  size := rfl
  outputs _ he := by cases he
  known _ he := by cases he
  sources := List.nodup_nil

/-- The graph `g` is made from a script, the scenes of which begin at the nodes `starts`. -/
structure Lowered (program : Program) (starts : List Nat) (g : FlowGraph) : Prop where
  tidy : Tidy g.graph
  characters : g.characters = putAll program.characters []
  ascending : starts.Pairwise (· < ·)
  fresh : ∀ start ∈ starts, 1 ≤ start
  length : starts.length = program.scenes.length
  found : ScenesAt g starts program.scenes 1 g.graph.nextId
  balance : g.graph.edges.length + starts.length = g.graph.size
  nodes : ∀ id n, g.node? id = some n → n.id = id ∧ (n.kind = .sceneStart → id ∈ starts)
  table : ∀ name id, g.scenes.get? name = some id →
    ∃ s, (id, s) ∈ starts.zip program.scenes ∧ s.name = name

/-- Lowering never fails. -/
theorem lower_ok (p : Placement) (program : Program) :
    ∃ g starts, lower p program = .ok g ∧ Lowered program starts g := by
  obtain ⟨g₀, hg₀⟩ : ∃ g₀ : FlowGraph, g₀ =
    ⟨(program.scenes.head?.map (·.name)).getD "script", {}, .empty, putAll program.characters []⟩ :=
    ⟨_, rfl⟩
  have hempty : Tidy g₀.graph := hg₀ ▸ tidy_empty
  obtain ⟨g, starts, hg, hadded⟩ := scenesAdded (p := p) 0 program.scenes hempty
  subst hg₀
  refine ⟨g, starts, ?_, hadded.tidy, hadded.characters, hadded.ascending, hadded.fresh,
    hadded.length, hadded.found, ?_, fun id n hn => ?_, fun name id hget => ?_⟩
  · rw [lower, foldl_addCharacter]
    exact hg
  · have hbalance := hadded.balance
    have hlength := hadded.length
    have hsize := hadded.tidy.size
    simp only [Balance, List.length_nil] at hbalance
    omega
  · have hpos := ((hadded.tidy.ids id).1 ((contains_iff_node? id).2 ⟨n, hn⟩)).1
    exact hadded.nodes id n hpos hn
  · rcases hadded.table name id hget with hget | h
    · cases hget
    · exact h

end Novella.Proofs
