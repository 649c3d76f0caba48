import Novella.Proofs.Graph.Preorder
import Novella.Proofs.Graph.Reachability
import Novella.Proofs.Graph.TopologicalOrder
import Novella.Proofs.Runs

/-!
# The reading order of any flow graph

What the outputs of a node lead to are its followers in the flow, in the order of the outputs and, at
one output, in that of the connections. The reading order walks from each entry along them, depth
first, and lists what it comes to; it is the order of a loop with one stack. Every node that is listed
so is an entry or stands after a node that it follows. The nodes that no entry flows to, also those
that are entered only from ports that are not declared, come last, in topological order
(`executionOrder_reads`).
-/

namespace Novella.Flow

/-- A connection from an output that the node `i` has leads to the node `j`. -/
def FlowGraph.Flows (f : FlowGraph) (i j : Nat) : Prop :=
  ∃ n, f.node? i = some n ∧ ∃ e ∈ f.graph.edges,
    e.source.node = i ∧ e.source.name ∈ n.outputs ∧ e.target.node = j

end Novella.Flow

namespace Novella.Proofs

open Walk Novella.Flow

variable {f : FlowGraph}

/-! ## Following the flow -/

lemma mem_flowSuccessors_iff {i j : Nat} : j ∈ f.flowSuccessors i ↔ f.Flows i j := by
  rw [FlowGraph.flowSuccessors, FlowGraph.Flows]
  cases hn : f.node? i with
  | none => simp
  | some n =>
    simp only [List.mem_map, List.mem_flatMap, mem_outgoingFrom, Option.some.injEq,
      exists_eq_left']
    constructor
    · rintro ⟨e, ⟨port, hport, he, hnode, rfl⟩, htarget⟩
      exact ⟨e, he, hnode, hport, htarget⟩
    · rintro ⟨e, he, hnode, hport, htarget⟩
      exact ⟨e, ⟨e.source.name, hport, he, hnode, rfl⟩, htarget⟩

/-- A node is followed by the targets of its connections, by port, then in the order in which the
connections were made. -/
lemma flowSuccessors_of_wired (h : Wired f.graph) {id : Nat} {n : Node} (hn : f.node? id = some n) :
    f.flowSuccessors id = n.outputs.flatMap fun port =>
      (f.graph.edges.filter (·.source = .output id port)).map (·.target.node) := by
  have hport : ∀ port, f.graph.outgoingFrom id port =
      f.graph.edges.filter (·.source = .output id port) := by
    intro port
    rw [PortGraph.outgoingFrom, PortGraph.outgoing, List.filter_filter]
    refine List.filter_congr fun e he => ?_
    rw [← Bool.decide_and, decide_eq_decide]
    constructor
    · rintro ⟨rfl, rfl⟩
      rw [Port.output, ← (h.joined e he).output]
    · intro hsource
      exact ⟨congrArg Port.name hsource, congrArg Port.node hsource⟩
  rw [FlowGraph.flowSuccessors, hn]
  simp only [List.map_flatMap, hport]

lemma Wired.flowSuccessors (h : Wired f.graph) :
    ∀ i ∈ f.graph.ids, ∀ j ∈ f.flowSuccessors i, j ∈ f.graph.ids := by
  intro i _ j hj
  obtain ⟨n, -, e, he, -, -, rfl⟩ := mem_flowSuccessors_iff.1 hj
  exact mem_ids_iff.2 (h.joined e he).target

/-- In a sound graph the entries are the nodes of the table and those that start a scene. -/
lemma mem_entries_of_sound (h : f.Sound) {i : Nat} : i ∈ f.entries ↔
    (∃ name, f.scenes.get? name = some i) ∨ ∃ n, f.node? i = some n ∧ n.kind = .sceneStart := by
  rw [mem_entries]
  refine or_congr ⟨And.right, fun ⟨name, hi⟩ => ⟨h.scenes name i hi, name, hi⟩⟩ ⟨?_, ?_⟩
  · rintro ⟨n, hn, hkind, rfl⟩
    obtain ⟨id, hid⟩ := (mem_values_iff _ _).1 hn
    exact ⟨n, h.own id n hid ▸ hid, hkind⟩
  · rintro ⟨n, hn, hkind⟩
    exact ⟨n, (mem_values_iff _ _).2 ⟨i, hn⟩, hkind, h.own i n hn⟩

lemma mem_ids_of_mem_entries (h : f.Sound) {i : Nat} (hi : i ∈ f.entries) : i ∈ f.graph.ids := by
  rcases (mem_entries_of_sound h).1 hi with ⟨name, hname⟩ | ⟨n, hn, -⟩
  · exact mem_ids_iff.2 (h.scenes name i hname)
  · exact mem_ids_iff.2 ((contains_iff_node? i).2 ⟨n, hn⟩)

/-! ## What is read -/

/-- What the entries flow to, in the order in which it is read. -/
def readFrom (f : FlowGraph) : List Nat :=
  (fromRoots f.flowSuccessors (f.graph.size + 1) f.entries).preorder

lemma executionOrder_eq (f : FlowGraph) : f.executionOrder =
    readFrom f ++ f.graph.topologicalOrder.filter (· ∉ readFrom f) := by
  rw [FlowGraph.executionOrder, readFrom]
  simp

lemma walks_readFrom (h : f.Sound) : Walks f.flowSuccessors f.entries {}
    (fromRoots f.flowSuccessors (f.graph.size + 1) f.entries) :=
  walks_of_closed h.stored.wired.flowSuccessors (fun _ he => mem_ids_of_mem_entries h he) {}

/-- The walk comes to what the entries flow to. -/
lemma mem_readFrom_iff (h : f.Sound) {i : Nat} :
    i ∈ readFrom f ↔ ∃ e ∈ f.entries, Relation.ReflTransGen f.Flows e i := by
  have houtcome := (walks_readFrom h).outcome_empty
  have hflows : ∀ e, Path f.flowSuccessors e i ↔ Relation.ReflTransGen f.Flows e i := by
    intro e
    simp only [Path, mem_flowSuccessors_iff]
  rw [readFrom, preorder, List.mem_reverse]
  simp only [← hflows]
  constructor
  · intro hi
    exact houtcome.paths i (houtcome.mem_done hi)
  · rintro ⟨e, he, hpath⟩
    exact houtcome.orderly.reached i
      (houtcome.mem_done_of_path (houtcome.mem_done (houtcome.listed e he)) hpath)

lemma preorder_readFrom (h : f.Sound) : Preorder f.flowSuccessors [] f.entries (readFrom f) := by
  obtain ⟨new, hnew, hpre⟩ := preorder_of_walks (walks_readFrom h)
  have hread : readFrom f = new := hnew
  rwa [hread]

/-! ## The order -/

/-- The nodes that are read and those that are missed make up the graph. -/
lemma executionOrder_perm (h : f.Sound) : f.executionOrder.Perm f.graph.ids := by
  have hread : (readFrom f).Nodup := (preorder_readFrom h).nodup List.nodup_nil
  have hperm := topologicalOrder_perm h.stored.wired
  have hmissed := (hperm.nodup_iff.2 (nodup_ids f.graph)).filter (· ∉ readFrom f)
  have hdisjoint : ∀ i ∈ readFrom f,
      ∀ j ∈ f.graph.topologicalOrder.filter (· ∉ readFrom f), i ≠ j := by
    rintro i hi j hj rfl
    exact of_decide_eq_true (List.mem_filter.1 hj).2 hi
  have hlive : ∀ i ∈ readFrom f, i ∈ f.graph.ids := by
    intro i hi
    obtain ⟨e, he, hway⟩ := (mem_readFrom_iff h).1 hi
    induction hway with
    | refl => exact mem_ids_of_mem_entries h he
    | tail hbefore hstep ih =>
      exact h.stored.wired.flowSuccessors _ (ih ((mem_readFrom_iff h).2 ⟨e, he, hbefore⟩)) _
        (mem_flowSuccessors_iff.2 hstep)
  rw [executionOrder_eq]
  refine (List.perm_ext_iff_of_nodup (List.nodup_append.2 ⟨hread, hmissed, hdisjoint⟩)
    (nodup_ids f.graph)).2 fun i => ?_
  rw [List.mem_append, List.mem_filter, hperm.mem_iff, decide_eq_true_eq]
  constructor
  · rintro (hi | ⟨hi, -⟩)
    · exact hlive i hi
    · exact hi
  · intro hi
    by_cases hmem : i ∈ readFrom f
    · exact .inl hmem
    · exact .inr ⟨hi, hmem⟩

/-- For each entry the walk lists what no entry before it flows to, in pre-order, and the loop does
the same from a stack that holds the entry alone. -/
lemma exists_section (h : f.Sound) {before after : List Nat} {e : Nat}
    (hentries : f.entries = before ++ e :: after) : ∃ old new rest, readFrom f = old ++ new ++ rest ∧
      Preorder f.flowSuccessors [] before old ∧ Preorder f.flowSuccessors old [e] new ∧
      Preorder f.flowSuccessors (old ++ new) after rest ∧
      (browse f.flowSuccessors)^[1 + (new.flatMap f.flowSuccessors).length] ⟨old, [e]⟩ =
        ⟨old ++ new, []⟩ := by
  have hpre := preorder_readFrom h
  rw [hentries, List.append_cons, List.append_assoc] at hpre
  obtain ⟨old, later, hread, hold, hlater⟩ := hpre.of_append
  obtain ⟨new, rest, rfl, hnew, hrest⟩ := hlater.of_append
  exact ⟨old, new, rest, hread.trans (List.append_assoc ..).symm, hold, hnew, hrest,
    browse_of_preorder hnew []⟩

/-- Where the nodes have their own ids, the reading order has every node of the graph once. It begins
with what the entries flow to: for each entry in turn what is met for the first time on the walk along
the outputs, depth first, in their order. Each such node is an entry or stands after a node that flows
to it. All other nodes follow in topological order. -/
theorem executionOrder_reads (f : FlowGraph) (h : f.Reachable) (hown : f.OwnIds) :
    f.executionOrder.Perm f.graph.ids ∧
    (∀ i, i ∈ f.entries ↔ (∃ name, f.scenes.get? name = some i) ∨
      ∃ n, f.node? i = some n ∧ n.kind = .sceneStart) ∧
    (∀ id n, f.node? id = some n → f.flowSuccessors id = n.outputs.flatMap fun port =>
      (f.graph.edges.filter (·.source = .output id port)).map (·.target.node)) ∧
    ∃ read, f.executionOrder = read ++ f.graph.topologicalOrder.filter (· ∉ read) ∧
      (∀ i, i ∈ read ↔ ∃ e ∈ f.entries, Relation.ReflTransGen f.Flows e i) ∧
      (∀ before x after, read = before ++ x :: after →
        x ∈ f.entries ∨ ∃ p ∈ before, f.Flows p x) ∧
      ∀ before e after, f.entries = before ++ e :: after → ∃ old new rest,
        read = old ++ new ++ rest ∧ Preorder f.flowSuccessors [] before old ∧
        Preorder f.flowSuccessors old [e] new ∧ Preorder f.flowSuccessors (old ++ new) after rest ∧
        (browse f.flowSuccessors)^[1 + (new.flatMap f.flowSuccessors).length] ⟨old, [e]⟩ =
          ⟨old ++ new, []⟩ := by
  have hsound := sound_of_reachable h hown
  refine ⟨executionOrder_perm hsound, fun i => mem_entries_of_sound hsound,
    fun id n hn => flowSuccessors_of_wired hsound.stored.wired hn, readFrom f, executionOrder_eq f,
    fun i => mem_readFrom_iff hsound, fun before x after hsplit => ?_,
    fun before e after hentries => exists_section hsound hentries⟩
  refine ((preorder_readFrom hsound).entered hsplit).imp_right ?_
  rintro ⟨p, hp, hx⟩
  exact ⟨p, hp, mem_flowSuccessors_iff.1 hx⟩

/-- A loop in a scene, two connections at one output, and a node that is entered only from a port
that is not declared. -/
def wandering : FlowGraph := flowEditor.run {} [
  .create .sceneStart, .create .branch, .create .dialogue, .create .dialogue, .create .comment,
  .connect (.output 1 "out") (.input 2 "in") "", .connect (.output 2 "next") (.input 4 "in") "",
  .connect (.output 2 "true") (.input 3 "in") "", .connect (.output 3 "out") (.input 2 "in") "",
  .connect (.output 3 "out") (.input 4 "in") "", .connect (.output 4 "aside") (.input 5 "in") ""]

theorem executionOrder_reads_wandering : wandering.Reachable ∧ wandering.OwnIds ∧
    wandering.executionOrder.Perm [1, 2, 3, 4, 5] ∧
    wandering.flowSuccessors 3 = [2, 4] ∧
    ∃ read, wandering.executionOrder = read ++ wandering.graph.topologicalOrder.filter (· ∉ read) ∧
      4 ∈ read ∧ 5 ∉ read := by
  have hreach : wandering.Reachable := reachable_run _ _
  have hown : wandering.OwnIds := by decide +kernel
  obtain ⟨hperm, hentries, hsuccessors, read, horder, hread, -⟩ :=
    executionOrder_reads wandering hreach hown
  have hids : wandering.graph.ids = [1, 2, 3, 4, 5] := by decide +kernel
  have hthree : wandering.node? 3 = some { id := 3, kind := .dialogue } := by decide +kernel
  have hstart : 1 ∈ wandering.entries :=
    (hentries 1).2 (.inr ⟨{ id := 1, kind := .sceneStart }, by decide +kernel, rfl⟩)
  have hone : wandering.Flows 1 2 := mem_flowSuccessors_iff.1 (by decide +kernel)
  have htwo : wandering.Flows 2 4 := mem_flowSuccessors_iff.1 (by decide +kernel)
  have hnone : ∀ i ∈ [1, 2, 3, 4, 5], 5 ∉ wandering.flowSuccessors i := by decide +kernel
  refine ⟨hreach, hown, hids ▸ hperm, (hsuccessors 3 _ hthree).trans (by decide +kernel), read, horder,
    (hread 4).2 ⟨1, hstart, .tail (.single hone) htwo⟩, fun hmem => ?_⟩
  obtain ⟨e, he, hway⟩ := (hread 5).1 hmem
  cases hway with
  | refl => exact absurd he (by decide +kernel)
  | @tail p _ _ hstep =>
    obtain ⟨n, hn, -⟩ := id hstep
    have hlive : p ∈ [1, 2, 3, 4, 5] := hids ▸ mem_ids_iff.2 ((contains_iff_node? p).2 ⟨n, hn⟩)
    exact hnone p hlive (mem_flowSuccessors_iff.2 hstep)

/-- The order begins with the other id of the overwritten node, under which no node stands. -/
theorem overwritten_reads_stray : overwritten.Reachable ∧ overwritten.graph.ids = [1, 2] ∧
    overwritten.executionOrder = [7, 1, 2] ∧
    ¬overwritten.executionOrder.Perm overwritten.graph.ids := by
  have horder : overwritten.executionOrder = [7, 1, 2] := by decide +kernel
  refine ⟨reachable_overwritten, by decide, horder, fun hperm => ?_⟩
  have hlength := hperm.length_eq
  rw [horder] at hlength
  cases hlength

end Novella.Proofs
