import Novella.Proofs.Flow.ReadingOrder
import Novella.Proofs.Graph.Cycles

/-!
# Valid flow graphs

A flow graph is in order if the scenes of its table begin at nodes that start a scene, connections
lead from outputs to inputs that their nodes have, there are no cycles, and a node that starts a scene
leads to every node. Each check finds nothing exactly where its part of this holds, so all checks
together find nothing in exactly the graphs that are in order (`findings_eq_nil_iff`).
-/

namespace Novella.Flow

open Proofs (LeadsTo OnCycle)

/-- The graph is in order. -/
structure FlowGraph.InOrder (f : FlowGraph) : Prop where
  scenes : ∀ name id, f.scenes.get? name = some id → ∃ n, f.node? id = some n ∧ n.kind = .sceneStart
  outputs : ∀ e ∈ f.graph.edges, ∃ n, f.node? e.source.node = some n ∧ e.source.name ∈ n.outputs
  inputs : ∀ e ∈ f.graph.edges, ∃ n, f.node? e.target.node = some n ∧ e.target.name ∈ n.kind.inputs
  acyclic : ∀ i, ¬OnCycle f.graph i
  reached : ∀ id, f.graph.contains id = true →
    ∃ start n, f.node? start = some n ∧ n.kind = .sceneStart ∧ LeadsTo f.graph start id

end Novella.Flow

namespace Novella.Proofs

open Novella.Flow Novella.Flow.FlowGraph

variable {f : FlowGraph}

/-! ## Ports of arms -/

/-- Of the numbered ports of a list those below the count are there. -/
lemma mem_numbered_iff {port : Nat → String} (hport : ∀ {i j}, port i = port j → i = j)
    {i count : Nat} {others : List String} (hothers : port i ∉ others) :
    port i ∈ (List.range count).map port ++ others ↔ i < count := by
  simp only [List.mem_append, hothers, or_false, List.mem_map, List.mem_range]
  constructor
  · rintro ⟨j, hj, heq⟩
    exact hport heq ▸ hj
  · exact fun hi => ⟨i, hi, rfl⟩

lemma optionPort_mem_outputs {n : Node} (hkind : n.kind = .choice) {i : Nat} :
    optionPort i ∈ n.outputs ↔ i < (n.texts "options").length := by
  have hnext : optionPort i ≠ "next" := optionPort_ne (by decide) i
  have hothers : optionPort i ∉ ["next"] := by simp [hnext]
  rw [Node.outputs, Node.arms, hkind]
  exact mem_numbered_iff optionPort_injective hothers

lemma casePort_mem_outputs {n : Node} (hkind : n.kind = .switch) {i : Nat} :
    casePort i ∈ n.outputs ↔ i < (n.texts "cases").length := by
  have hdefault : casePort i ≠ "default" := casePort_ne (by decide) i
  have hnext : casePort i ≠ "next" := casePort_ne (by decide) i
  have hothers : casePort i ∉ ["default", "next"] := by simp [hdefault, hnext]
  rw [Node.outputs, Node.arms, hkind]
  dsimp only
  rw [List.append_assoc]
  exact mem_numbered_iff casePort_injective hothers

/-! ## The checks -/

lemma sceneFindings_eq_nil_iff {scene : String} {id : Nat} :
    f.sceneFindings scene id = [] ↔ ∃ n, f.node? id = some n ∧ n.kind = .sceneStart := by
  rw [sceneFindings]
  cases f.node? id with
  | none => simp
  | some n => by_cases hkind : n.kind = .sceneStart <;> simp [hkind]

/-- A connection between nodes of the graph is found at fault for a port that its node does not have,
and for leading back to the node that it comes from. -/
lemma edgeFindings_eq_nil_iff {e : Edge String} (h : Joined f.graph e) :
    f.edgeFindings e = [] ↔
      (∃ n, f.node? e.source.node = some n ∧ e.source.name ∈ n.outputs) ∧
      (∃ n, f.node? e.target.node = some n ∧ e.target.name ∈ n.kind.inputs) ∧
      e.source.node ≠ e.target.node := by
  obtain ⟨source, hsource⟩ := (contains_iff_node? _).1 h.source
  obtain ⟨target, htarget⟩ := (contains_iff_node? _).1 h.target
  have hsource : f.node? e.source.node = some source := hsource
  have htarget : f.node? e.target.node = some target := htarget
  unfold edgeFindings
  rw [hsource, htarget]
  simp only [List.append_eq_nil_iff, ite_eq_left_iff, ite_eq_right_iff, imp_false, Node.hasOutput,
    Node.hasInput, List.contains_iff_mem, Decidable.not_not, Option.some.injEq, exists_eq_left',
    and_assoc, List.cons_ne_nil]

/-- The nodes that are unreachable are all reported. -/
lemma unreachableFindings_eq_nil_iff (h : f.Sound) :
    (f.unreachable.filterMap fun id => (f.node? id).map fun n => Finding.unreachable id n.kind) = [] ↔
      ∀ id, f.graph.contains id = true → ∃ r ∈ f.entries, LeadsTo f.graph r id := by
  rw [List.filterMap_eq_nil_iff]
  constructor
  · intro hnone id hlive
    by_contra hfar
    obtain ⟨n, hn⟩ := (contains_iff_node? id).1 hlive
    have hmem : id ∈ f.unreachable := (mem_unreachable_iff h.stored.wired).2
      ⟨hlive, fun r hr hway => hfar ⟨r, hr, hway⟩⟩
    have hn : f.node? id = some n := hn
    have hreport := hnone id hmem
    rw [hn] at hreport
    cases hreport
  · intro hreached id hid
    obtain ⟨hlive, hfar⟩ := (mem_unreachable_iff h.stored.wired).1 hid
    obtain ⟨r, hr, hway⟩ := hreached id hlive
    exact absurd hway (hfar r hr)

/-! ## All checks together -/

lemma findings_eq_nil_iff_checks (f : FlowGraph) : f.findings = [] ↔
    (∀ name id, f.scenes.get? name = some id → f.sceneFindings name id = []) ∧
    (∀ e ∈ f.graph.edges, f.edgeFindings e = []) ∧ f.graph.cycles = [] ∧
    (f.unreachable.filterMap fun id => (f.node? id).map fun n => Finding.unreachable id n.kind) =
      [] := by
  simp only [findings, List.append_eq_nil_iff, List.flatMap_eq_nil_iff, List.map_eq_nil_iff,
    and_assoc, Prod.forall, mem_entries_iff]

/-- Where the scenes of the table begin at nodes that start a scene, these nodes are the entries. -/
lemma mem_entries_of_scenes (h : f.Sound)
    (hscenes : ∀ name id, f.scenes.get? name = some id →
      ∃ n, f.node? id = some n ∧ n.kind = .sceneStart) {i : Nat} :
    i ∈ f.entries ↔ ∃ n, f.node? i = some n ∧ n.kind = .sceneStart := by
  rw [mem_entries_of_sound h]
  exact ⟨fun hi => hi.elim (fun ⟨name, hname⟩ => hscenes name i hname) id, .inr⟩

/-- Where the nodes have their own ids, nothing is found in exactly the graphs that are in order. A
choice has the outputs for as many options as it lists, and a switch for as many cases. -/
theorem findings_eq_nil_iff (f : FlowGraph) (h : f.Reachable) (hown : f.OwnIds) :
    (f.findings = [] ↔ f.InOrder) ∧
    ∀ n : Node, (n.kind = .choice → ∀ i, optionPort i ∈ n.outputs ↔ i < (n.texts "options").length) ∧
      (n.kind = .switch → ∀ i, casePort i ∈ n.outputs ↔ i < (n.texts "cases").length) := by
  refine ⟨?_, fun n => ⟨fun hkind i => optionPort_mem_outputs hkind,
    fun hkind i => casePort_mem_outputs hkind⟩⟩
  have hsound := sound_of_reachable h hown
  have hwired := hsound.stored.wired
  rw [findings_eq_nil_iff_checks, cycles_eq_nil_iff hwired, unreachableFindings_eq_nil_iff hsound]
  constructor
  · rintro ⟨hscenes, hedges, hcycles, hreached⟩
    have hscenes : ∀ name id, f.scenes.get? name = some id →
        ∃ n, f.node? id = some n ∧ n.kind = .sceneStart := fun name id hid =>
      sceneFindings_eq_nil_iff.1 (hscenes name id hid)
    have hports := fun e he => (edgeFindings_eq_nil_iff (hwired.joined e he)).1 (hedges e he)
    refine ⟨hscenes, fun e he => (hports e he).1, fun e he => (hports e he).2.1, hcycles,
      fun id hlive => ?_⟩
    obtain ⟨start, hstart, hway⟩ := hreached id hlive
    obtain ⟨n, hn, hkind⟩ := (mem_entries_of_scenes hsound hscenes).1 hstart
    exact ⟨start, n, hn, hkind, hway⟩
  · intro horder
    refine ⟨fun name id hid => sceneFindings_eq_nil_iff.2 (horder.scenes name id hid),
      fun e he => ?_, horder.acyclic, fun id hlive => ?_⟩
    · -- A connection of a node with itself would be a cycle.
      have hapart : e.source.node ≠ e.target.node := fun heq =>
        horder.acyclic e.source.node (.single ⟨e, he, rfl, heq.symm⟩)
      exact (edgeFindings_eq_nil_iff (hwired.joined e he)).2
        ⟨horder.outputs e he, horder.inputs e he, hapart⟩
    · obtain ⟨start, n, hn, hkind, hway⟩ := horder.reached id hlive
      exact ⟨start, (mem_entries_of_scenes hsound horder.scenes).2 ⟨n, hn, hkind⟩, hway⟩

/-- A scene with a choice whose second option leads on. -/
def forked : FlowGraph := flowEditor.run {} [
  .create .sceneStart, .create .choice, .create .sceneEnd, .addScene "s" 1,
  .edit 2 (fun n => n.set "options" (.texts ["left", "right"])),
  .connect (.output 1 "out") (.input 2 "in") "",
  .connect (.output 2 "option_1") (.input 3 "in") "right"]

theorem findings_eq_nil_iff_forked : forked.Reachable ∧ forked.OwnIds ∧ forked.InOrder := by
  have hreach : forked.Reachable := reachable_run _ _
  have hown : forked.OwnIds := by decide +kernel
  exact ⟨hreach, hown, (findings_eq_nil_iff forked hreach hown).1.1 (by decide +kernel)⟩

/-- The entry has the other id of the overwritten node, and so validation finds no way to the node
itself and to what it leads to. -/
theorem overwritten_found_unreachable : overwritten.Reachable ∧ overwritten.InOrder ∧
    overwritten.findings = [.unreachable 1 .sceneStart, .unreachable 2 .sceneEnd] := by
  have hwired : Wired overwritten.graph := (housed_of_reachable reachable_overwritten).stored.wired
  have hstart : overwritten.node? 1 = some { id := 7, kind := .sceneStart } := by rfl
  have hstep : LeadsTo overwritten.graph 1 2 :=
    .single ⟨_, List.mem_singleton.2 rfl, rfl, rfl⟩
  refine ⟨reachable_overwritten, ⟨nofun, ?_, ?_, (cycles_eq_nil_iff hwired).1 (by decide +kernel),
    fun id hid => ⟨1, _, hstart, rfl, ?_⟩⟩, by decide +kernel⟩
  · decide
  · decide
  · obtain rfl | rfl := List.mem_pair.1 (mem_ids_iff.2 hid : id ∈ [1, 2])
    · exact .refl
    · exact hstep

end Novella.Proofs
