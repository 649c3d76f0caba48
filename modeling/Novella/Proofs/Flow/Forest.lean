import Mathlib.Data.List.Perm.Subperm
import Novella.Proofs.Flow.RoundTrip
import Novella.Proofs.Flow.Reachable
import Novella.Proofs.Flow.SourceOrder
import Novella.Proofs.Graph.Walks

/-!
# Lowered scripts are forests

In the graph of a script every node but the starts of scenes is entered by one connection, from a port
that a node before it declares and that has no other connection. That there is such a connection is
seen along the statements (`leads_entered`). That there is only one follows by counting: starts and
connections together are as many as nodes (`Lowered.perm`). Connections ascend then, and the analyses
of the graph find nothing to complain of. Both orders that they compute are that of the ids
(`leads_reaches`), in which the nodes stand for the constructs of the script.
-/

namespace Novella.Flow

open Script

/-- The port is an output that its node declares. -/
structure FlowGraph.HasOutput (g : FlowGraph) (q : Port) : Prop where
  isOutput : q.isOutput = true
  declared : ∃ n, g.node? q.node = some n ∧ n.hasOutput q.name = true

/-- An output of a node with a smaller id leads to the node. -/
def FlowGraph.Entered (g : FlowGraph) (id : Nat) : Prop :=
  ∃ q, g.HasOutput q ∧ q.node < id ∧ g.targetOf? q.node q.name = some id

/-- Only the given edge leads to the node. It comes from a node with a smaller id, from an output from
which no other edge comes. -/
structure FlowGraph.EnteredBy (g : FlowGraph) (id : Nat) (e : Edge String) : Prop where
  incoming : g.graph.incoming id = [e]
  outgoing : g.graph.outgoingFrom e.source.node e.source.name = [e]
  lt : e.source.node < id
  output : g.HasOutput e.source

/-- The graph is a forest of the scenes of a script. Its ids have no gaps and are those of the
constructs of the script in the order in which they begin, which is also the order in which the
analyses list them. -/
structure FlowGraph.Forest (g : FlowGraph) (program : Program) : Prop where
  ids : g.graph.ids = List.range' 1 g.graph.size
  roots : ∀ n ∈ g.nodes, n.kind = .sceneStart → g.graph.incoming n.id = []
  entered : ∀ n ∈ g.nodes, n.kind ≠ .sceneStart → ∃ e, g.EnteredBy n.id e
  findings : g.findings = []
  cycles : g.graph.cycles = []
  unreachable : g.unreachable = []
  topologicalOrder : g.graph.topologicalOrder = List.range' 1 g.graph.size
  executionOrder : g.executionOrder = List.range' 1 g.graph.size
  outline : List.Forall₂ (Proofs.StandsFor g) (List.range' 1 g.graph.size) program.outline

end Novella.Flow

namespace Novella.Proofs

open Script Novella.Flow

/-! ## Visiting nodes in their order -/

/-- Visiting the targets one after the other reaches the nodes with the ids from `lo` up to `hi` in
their order, if nothing from `lo` on was reached before. -/
structure Reaches (next : Nat → List Nat) (targets : List Nat) (lo hi : Nat) : Prop where
  le : lo ≤ hi
  visits : ∀ depth (w : Walk), hi ≤ lo + depth → (∀ v ∈ w.reached, v < lo) →
    (targets.foldl (Walk.visit next depth) w).reached =
      (List.range' lo (hi - lo)).reverse ++ w.reached

section Reaches

variable {next : Nat → List Nat} {a b : List Nat} {id lo mid hi : Nat}

lemma reaches_nil (next : Nat → List Nat) (lo : Nat) : Reaches next [] lo lo :=
  ⟨Nat.le_refl lo, fun _ _ _ _ => by rw [Nat.sub_self]; rfl⟩

lemma Reaches.append (ha : Reaches next a lo mid) (hb : Reaches next b mid hi) :
    Reaches next (a ++ b) lo hi := by
  have hlo := ha.le
  have hhi := hb.le
  refine ⟨hlo.trans hhi, fun depth w hdepth hw => ?_⟩
  have hfirst := ha.visits depth w (by omega) hw
  have hreached : ∀ v ∈ (a.foldl (Walk.visit next depth) w).reached, v < mid := by
    intro v hv
    rw [hfirst] at hv
    rcases List.mem_append.1 hv with hv | hv
    · have := List.mem_range'_1.1 (List.mem_reverse.1 hv)
      omega
    · exact (hw v hv).trans_le hlo
  have hrange : List.range' lo (hi - lo) = List.range' lo (mid - lo) ++ List.range' mid (hi - mid) := by
    have happend := List.range'_append_1 (s := lo) (m := mid - lo) (n := hi - mid)
    rw [Nat.add_sub_cancel' hlo] at happend
    rw [happend]
    congr 1
    omega
  rw [List.foldl_append, hb.visits depth _ (by omega) hreached, hfirst, hrange, List.reverse_append,
    List.append_assoc]

lemma reaches_of_consecutive {α : Type} {f : α → List Nat} {l : List α}
    (h : Consecutive (fun a => Reaches next (f a)) l lo hi) : Reaches next (l.flatMap f) lo hi := by
  induction l generalizing lo with
  | nil =>
    obtain rfl : lo = hi := h
    exact reaches_nil next lo
  | cons a rest ih =>
    obtain ⟨mid, ha, hrest⟩ := h
    exact ha.append (ih hrest)

/-- A node is reached before what it leads to. -/
lemma Reaches.node (h : Reaches next (next id) (id + 1) hi) : Reaches next [id] id hi := by
  have hlt : id < hi := h.le
  refine ⟨hlt.le, fun depth w hdepth hw => ?_⟩
  obtain ⟨depth, rfl⟩ := Nat.exists_eq_add_one_of_ne_zero (n := depth) (by omega)
  have hnew : id ∉ w.reached := fun hmem => Nat.lt_irrefl id (hw id hmem)
  have hreached : ∀ v ∈ id :: w.reached, v < id + 1 := by
    intro v hv
    rcases List.mem_cons.1 hv with rfl | hv
    · exact Nat.lt_succ_self v
    · exact Nat.lt_succ_of_lt (hw v hv)
  have hinside := h.visits depth { w with reached := id :: w.reached } (by omega) hreached
  have hrange : List.range' id (hi - id) = id :: List.range' (id + 1) (hi - (id + 1)) := by
    rw [show hi - id = (hi - (id + 1)) + 1 by omega, List.range'_succ]
  rw [List.foldl_cons, List.foldl_nil, Walk.visit, if_neg hnew, hrange, List.reverse_cons,
    List.append_assoc, List.singleton_append]
  exact hinside

end Reaches

/-! ## Along statements -/

section Leads

variable {g : FlowGraph}

/-- The outputs of a node are those of its arms, those of arms that are not there, and the one at which
the flow goes on. -/
lemma outputs_eq {id : Nat} {loc : Location} {act : Act Statement} {kind : NodeKind}
    {properties : List (String × PropertyValue)} {n : Node}
    (stands : nodeOf? act = some (kind, properties)) (made : MadeFor id kind loc properties n) :
    n.outputs = act.armPorts.map (·.1) ++ (act.absentPorts ++ [kind.continuation?.getD "out"]) := by
  have hkind : n.kind = kind := made.kind_eq
  rw [Node.outputs, Node.arms, hkind]
  cases act with
  | block body => cases stands
  | choice options =>
    obtain ⟨rfl, rfl⟩ := Prod.mk.inj (Option.some.inj stands)
    have htexts : n.texts "options" = options.map (·.text) := made.texts rfl
    have hports : (options.zipIdx.map fun x => optionPort x.2) =
        (List.range options.length).map optionPort := map_zipIdx_port options
    simp [htexts, Act.armPorts, Act.absentPorts, NodeKind.continuation?, Function.comp_def, hports]
  | switch subject cases default =>
    obtain ⟨rfl, rfl⟩ := Prod.mk.inj (Option.some.inj stands)
    have htexts : n.texts "cases" = cases.map (·.value.render) := made.texts rfl
    have hports : (cases.zipIdx.map fun x => casePort x.2) =
        (List.range cases.length).map casePort := map_zipIdx_port cases
    cases default <;>
      simp [htexts, Act.armPorts, Act.absentPorts, NodeKind.continuation?, Function.comp_def, hports]
  | branch condition thenBody elseBody =>
    obtain ⟨rfl, -⟩ := Prod.mk.inj (Option.some.inj stands)
    cases elseBody <;> rfl
  | _ =>
    obtain ⟨rfl, -⟩ := Prod.mk.inj (Option.some.inj stands)
    rfl

/-- A port has at most one connection, so the flow goes from a node to where its outputs lead. -/
lemma flowSuccessors_eq (hg : Tidy g.graph) {id : Nat} {n : Node} (hn : g.node? id = some n) :
    g.flowSuccessors id = n.outputs.flatMap fun port => (g.targetOf? id port).toList := by
  have hport : ∀ port, (g.graph.outgoingFrom id port).map (·.target.node) =
      (g.targetOf? id port).toList := by
    intro port
    rw [FlowGraph.targetOf?]
    cases hedges : g.graph.outgoingFrom id port with
    | nil => rfl
    | cons e rest =>
      have he : e ∈ g.graph.outgoingFrom id port := hedges ▸ List.mem_cons_self
      obtain ⟨hmem, rfl, rfl⟩ := mem_outgoingFrom.1 he
      rw [outgoingFrom_of_mem hg hmem] at hedges
      obtain ⟨-, rfl⟩ := List.cons.inj hedges
      rfl
  rw [FlowGraph.flowSuccessors, hn]
  simp only [List.map_flatMap, hport]

/-- The id after the last node of a chain. The chain of a scene ends with a scene end. -/
def afterChain (top : Bool) (hi : Nat) : Nat := if top then hi + 1 else hi

/-- Where the flow leads along statements, it reaches their nodes in the order of their ids. -/
theorem leads_reaches (hg : Tidy g.graph) {top : Bool} {q : Port} {stmts : List Statement} {lo hi : Nat}
    (h : Leads g top q stmts lo hi) :
    Reaches g.flowSuccessors (g.targetOf? q.node q.name).toList lo (afterChain top hi) := by
  refine leads_induct (P := fun top q _ lo hi =>
    Reaches g.flowSuccessors (g.targetOf? q.node q.name).toList lo (afterChain top hi))
    ?stop ?block ?node h
  case stop =>
    intro top q lo ends
    cases top with
    | false =>
      have htarget : g.targetOf? q.node q.name = none := ends
      rw [htarget]
      exact reaches_nil _ lo
    | true =>
      obtain ⟨n, htarget, hn, hkind⟩ := ends
      have hnone : g.flowSuccessors lo = [] := by
        rw [flowSuccessors_eq hg hn, Node.outputs, Node.arms, hkind]
        rfl
      rw [htarget]
      exact Reaches.node (hnone ▸ reaches_nil _ (lo + 1))
  case block => exact fun _ _ _ _ _ _ _ ih => ih
  case node =>
    intro top q loc act kind properties rest id mid hi n stands entered found made absent arms next
    have habsent : act.absentPorts.flatMap (fun port => (g.targetOf? id port).toList) = [] :=
      List.flatMap_eq_nil_iff.2 fun port hport => by rw [absent port hport]; rfl
    have hnext : g.flowSuccessors id =
        (act.armPorts.flatMap fun a => (g.targetOf? id a.1).toList) ++
          (g.targetOf? id (kind.continuation?.getD "out")).toList := by
      rw [flowSuccessors_eq hg found, outputs_eq stands made, List.flatMap_append,
        List.flatMap_append, habsent, List.flatMap_map, List.nil_append, List.flatMap_singleton]
    rw [entered]
    apply Reaches.node
    rw [hnext]
    exact (reaches_of_consecutive arms).append next

/-- Where the flow leads along statements, every one of their nodes is entered. -/
theorem leads_entered {top : Bool} {q : Port} {stmts : List Statement} {lo hi : Nat}
    (h : Leads g top q stmts lo hi) (hq : g.HasOutput q) {i : Nat} (hlo : lo ≤ i)
    (hhi : i < afterChain top hi) (hlt : q.node < i) : g.Entered i := by
  revert hq i
  refine leads_induct (P := fun top q _ lo hi => g.HasOutput q → ∀ {i}, lo ≤ i →
    i < afterChain top hi → q.node < i → g.Entered i) ?stop ?block ?node h
  case stop =>
    intro top q lo ends hq i hlo hhi hlt
    cases top with
    | false => exact absurd hhi (Nat.not_lt.2 hlo)
    | true =>
      obtain rfl : i = lo := Nat.le_antisymm (Nat.lt_succ_iff.1 hhi) hlo
      obtain ⟨n, htarget, -, -⟩ := ends
      exact ⟨q, hq, hlt, htarget⟩
  case block => exact fun _ _ _ _ _ _ _ ih => ih
  case node =>
    intro top q loc act kind properties rest id mid hi n stands entered found made absent arms next
      hq i hlo hhi hlt
    -- The nodes after this one are entered from its own outputs, by way of an arm or at the end.
    have hdeclared : ∀ port ∈ n.outputs, g.HasOutput (.output id port) := fun port hport =>
      ⟨rfl, n, found, List.contains_iff_mem.2 hport⟩
    rw [outputs_eq stands made] at hdeclared
    rcases Nat.eq_or_lt_of_le hlo with rfl | hafter
    · exact ⟨q, hq, hlt, entered⟩
    · by_cases hmid : i < mid
      · obtain ⟨a, ha, lo', hi', harm, hlo', hhi'⟩ := consecutive_cover arms hafter hmid
        have hport := hdeclared a.1 (List.mem_append_left _ (List.mem_map_of_mem ha))
        exact harm hport hlo' hhi' hafter
      · have hport := hdeclared (kind.continuation?.getD "out")
          (List.mem_append_right _ (List.mem_append_right _ (List.mem_singleton.2 rfl)))
        exact next hport (Nat.not_lt.1 hmid) hhi hafter

end Leads

/-! ## Scenes -/

section Scenes

variable {g : FlowGraph} {s : SceneDecl} {lo hi : Nat}

lemma MadeFor.outputs_start {id : Nat} {loc : Location} {properties : List (String × PropertyValue)}
    {n : Node} (h : MadeFor id .sceneStart loc properties n) : n.outputs = ["out"] := by
  rw [Node.outputs, Node.arms, h.kind_eq]
  rfl

/-- The flow reaches the nodes of a scene from its start, in the order of their ids. -/
lemma SceneAt.reaches (hg : Tidy g.graph) (h : SceneAt g s lo hi) :
    Reaches g.flowSuccessors [lo] lo hi := by
  obtain ⟨n, hn, hmade⟩ := h.first
  obtain ⟨stop, -, rfl, -, -, hleads⟩ := h.body
  have hnext : g.flowSuccessors lo = (g.targetOf? lo "out").toList := by
    rw [flowSuccessors_eq hg hn, hmade.outputs_start, List.flatMap_singleton]
  exact Reaches.node (hnext ▸ leads_reaches hg hleads)

/-- Every node of a scene but its start is entered. -/
lemma SceneAt.entered (h : SceneAt g s lo hi) {id : Nat} (hlo : lo < id) (hhi : id < hi) :
    g.Entered id := by
  obtain ⟨n, hn, hmade⟩ := h.first
  obtain ⟨stop, -, rfl, -, -, hleads⟩ := h.body
  have hport : n.hasOutput "out" = true := by
    rw [Node.hasOutput, hmade.outputs_start]
    rfl
  exact leads_entered hleads ⟨rfl, n, hn, hport⟩ hlo hhi hlo

end Scenes

/-! ## Scripts -/

section Scripts

variable {program : Program} {starts : List Nat} {g : FlowGraph}

lemma mem_range'_one {id size : Nat} : id ∈ List.range' 1 size ↔ 1 ≤ id ∧ id < size + 1 := by
  rw [List.mem_range'_1, Nat.add_comm]

lemma Lowered.mem_range' (h : Lowered program starts g) {id : Nat} :
    id ∈ List.range' 1 g.graph.size ↔ ∃ n, g.node? id = some n := by
  rw [mem_range'_one, h.tidy.size, ← h.tidy.ids]
  exact contains_iff_node? id

/-- Every node that is not the start of a scene is entered. -/
lemma Lowered.entered_of_notMem (h : Lowered program starts g) {id : Nat}
    (hid : id ∈ List.range' 1 g.graph.size) (hstart : id ∉ starts) : g.Entered id := by
  obtain ⟨hpos, hlt⟩ := mem_range'_one.1 hid
  rw [h.tidy.size] at hlt
  obtain ⟨x, hx, lo, hi, ⟨rfl, hscene⟩, hlo, hhi⟩ := consecutive_cover h.found hpos hlt
  rcases Nat.eq_or_lt_of_le hlo with rfl | hlt
  · exact absurd (List.of_mem_zip hx).1 hstart
  · exact hscene.entered hlt hhi

/-- The starts of scenes and the targets of connections are all nodes, each one once: they are as
many, and no node is missing. -/
theorem Lowered.perm (h : Lowered program starts g) :
    (List.range' 1 g.graph.size).Perm (starts ++ g.graph.edges.map (·.target.node)) := by
  have hsubset : List.range' 1 g.graph.size ⊆ starts ++ g.graph.edges.map (·.target.node) := by
    intro id hid
    by_cases hstart : id ∈ starts
    · exact List.mem_append_left _ hstart
    · obtain ⟨q, -, -, htarget⟩ := h.entered_of_notMem hid hstart
      obtain ⟨e, he, rfl⟩ := Option.map_eq_some_iff.1 htarget
      have hmem := (mem_outgoingFrom.1 (List.mem_of_mem_head? he)).1
      exact List.mem_append_right _ (List.mem_map_of_mem hmem)
  refine (List.Nodup.subperm List.nodup_range' hsubset).perm_of_length_le ?_
  have hbalance := h.balance
  rw [List.length_append, List.length_map, List.length_range']
  omega

/-- A connection leads to a node that is not the start of a scene. -/
lemma Lowered.target_mem (h : Lowered program starts g) {e : Edge String} (he : e ∈ g.graph.edges) :
    e.target.node ∈ List.range' 1 g.graph.size ∧ e.target.node ∉ starts := by
  have htarget : e.target.node ∈ g.graph.edges.map (·.target.node) := List.mem_map_of_mem he
  have hnodup := h.perm.nodup_iff.1 List.nodup_range'
  refine ⟨h.perm.mem_iff.2 (List.mem_append_right _ htarget), fun hstart => ?_⟩
  exact (List.nodup_append.1 hnodup).2.2 _ hstart _ htarget rfl

/-- A connection is the only one from its source and the only one to its target. -/
theorem Lowered.enteredBy (h : Lowered program starts g) {id : Nat}
    (hid : id ∈ List.range' 1 g.graph.size) (hstart : id ∉ starts) :
    ∃ e ∈ g.graph.edges, e.target.node = id ∧ g.EnteredBy id e := by
  obtain ⟨q, hq, hlt, htarget⟩ := h.entered_of_notMem hid hstart
  obtain ⟨e, he, rfl⟩ := Option.map_eq_some_iff.1 htarget
  obtain ⟨hmem, hnode, hname⟩ := mem_outgoingFrom.1 (List.mem_of_mem_head? he)
  have hdeclared := hq.declared
  rw [← hnode, ← hname] at hdeclared
  have htargets := (List.nodup_append.1 (h.perm.nodup_iff.1 List.nodup_range')).2.1
  exact ⟨e, hmem, rfl, incoming_of_mem htargets hmem, outgoingFrom_of_mem h.tidy hmem,
    hnode ▸ hlt, h.tidy.outputs e hmem, hdeclared⟩

lemma Lowered.enteredBy_of_mem (h : Lowered program starts g) {e : Edge String}
    (he : e ∈ g.graph.edges) : g.EnteredBy e.target.node e := by
  obtain ⟨hid, hstart⟩ := h.target_mem he
  obtain ⟨e', -, -, hentered⟩ := h.enteredBy hid hstart
  have hmem : e ∈ g.graph.incoming e.target.node := mem_incoming.2 ⟨he, rfl⟩
  rw [hentered.incoming, List.mem_singleton] at hmem
  exact hmem ▸ hentered

lemma Lowered.ids_eq (h : Lowered program starts g) : g.graph.ids = List.range' 1 g.graph.size := by
  have hrange : (List.range' 1 g.graph.size).Pairwise (· < ·) := List.pairwise_lt_range'
  rw [← ascending_eq (ids_pairwise g.graph) fun id => Iff.rfl]
  exact ascending_eq hrange fun id => (mem_keys_iff _ _).trans h.mem_range'.symm

lemma Lowered.contains_iff (h : Lowered program starts g) {id : Nat} :
    g.graph.contains id = true ↔ id ∈ List.range' 1 g.graph.size :=
  (contains_iff_node? id).trans h.mem_range'.symm

lemma Lowered.ascends (h : Lowered program starts g) : Ascends g.graph :=
  fun _ he => (h.enteredBy_of_mem he).lt

lemma Lowered.contains_source (h : Lowered program starts g) {e : Edge String}
    (he : e ∈ g.graph.edges) : g.graph.contains e.source.node = true := by
  obtain ⟨n, hn, -⟩ := (h.enteredBy_of_mem he).output.declared
  exact (contains_iff_node? _).2 ⟨n, hn⟩

lemma Lowered.topologicalOrder_eq (h : Lowered program starts g) :
    g.graph.topologicalOrder = List.range' 1 g.graph.size := by
  rw [topologicalOrder_of_ascends h.ascends fun _ he => h.contains_source he, h.ids_eq]

/-- The scenes lead to every node. -/
lemma Lowered.unreachable_eq (h : Lowered program starts g) : g.unreachable = [] := by
  have hsize : ∀ id, g.graph.contains id = true → id ≤ g.graph.size := fun id hid =>
    Nat.lt_succ_iff.1 (mem_range'_one.1 (h.contains_iff.1 hid)).2
  have htargets : ∀ e ∈ g.graph.edges, g.graph.contains e.target.node = true := fun e he =>
    h.contains_iff.2 (h.target_mem he).1
  have hentered : ∀ id, g.graph.contains id = true → id ∈ starts ∨
      ∃ e ∈ g.graph.edges, e.target.node = id ∧ g.graph.contains e.source.node = true := by
    intro id hid
    apply or_iff_not_imp_left.2
    intro hstart
    obtain ⟨e, he, htarget, -⟩ := h.enteredBy (h.contains_iff.1 hid) hstart
    exact ⟨e, he, htarget, h.contains_source he⟩
  unfold FlowGraph.unreachable
  apply List.filter_eq_nil_iff.2
  intro id hid
  have hcontains : g.graph.contains id = true := h.contains_iff.2 (h.ids_eq ▸ hid)
  have hreached := mem_reachableFrom_of_entered h.ascends hsize htargets hentered hcontains
  rw [h.entries_eq]
  simpa using hreached

/-- The scenes are read from their starts, one after the other. -/
lemma Lowered.executionOrder_eq (h : Lowered program starts g) :
    g.executionOrder = List.range' 1 g.graph.size := by
  have hscenes : Reaches g.flowSuccessors starts 1 g.graph.nextId := by
    have hstarts : (starts.zip program.scenes).flatMap (fun x => [x.1]) = starts := by
      rw [← List.map_eq_flatMap]
      exact List.map_fst_zip h.length.le
    rw [← hstarts]
    apply reaches_of_consecutive
    apply consecutive_mono _ h.found
    rintro x _ hi ⟨rfl, hscene⟩
    exact hscene.reaches h.tidy
  have hsize := h.tidy.size
  have hreached : (Walk.fromRoots g.flowSuccessors (g.graph.size + 1) g.entries).preorder =
      List.range' 1 g.graph.size := by
    have hvisits := hscenes.visits (g.graph.size + 1) {} (by omega) fun _ hv =>
      absurd hv List.not_mem_nil
    unfold Walk.preorder Walk.fromRoots
    rw [h.entries_eq, hvisits, ← hsize, Nat.add_sub_cancel, List.append_nil, List.reverse_reverse]
  have hrest : (g.graph.topologicalOrder.filter fun id =>
      !(List.range' 1 g.graph.size).contains id) = [] := by
    apply List.filter_eq_nil_iff.2
    intro id hid
    rw [h.topologicalOrder_eq] at hid
    rw [List.contains_iff_mem.2 hid]
    decide
  unfold FlowGraph.executionOrder
  dsimp only
  rw [hreached, hrest, List.append_nil]

/-- Lowering connects to the only input that nodes have. -/
lemma target_lower {p : Placement} (h : lower p program = .ok g) :
    ∀ e ∈ g.graph.edges, e.target.name = "in" := by
  have hkept : KeptUp p fun g => ∀ e ∈ g.graph.edges, e.target.name = "in" :=
    { addCharacter := fun _ hg => hg
      place := fun _ _ _ hg => hg
      connect := fun hg hconnect e he => by
        obtain ⟨graph, hgraph, rfl⟩ := flow_connect_eq_ok.1 hconnect
        obtain ⟨-, -, rfl⟩ := connect_eq_ok.1 hgraph
        rcases List.mem_append.1 he with he | he
        · exact hg e he
        · obtain rfl := List.mem_singleton.1 he
          rfl
      addScene := fun hg hscene => by
        obtain ⟨-, rfl⟩ := flow_addScene_eq_ok.1 hscene
        exact hg }
  exact hkept.lower (fun _ _ he => absurd he List.not_mem_nil) h

/-- The scenes of the table begin at scene starts. -/
lemma Lowered.sceneFindings_eq (h : Lowered program starts g) {x : String × Nat}
    (hx : x ∈ g.scenes.entries) : g.sceneFindings x.1 x.2 = [] := by
  obtain ⟨s, hs, -⟩ := h.table x.1 x.2 ((mem_entries_iff _ _ _).1 hx)
  obtain ⟨n, hn, hkind⟩ := h.node_start (List.of_mem_zip hs).1
  rw [FlowGraph.sceneFindings, hn]
  exact if_pos hkind

/-- A connection joins ports that its nodes have. -/
lemma Lowered.edgeFindings_eq (h : Lowered program starts g) {e : Edge String}
    (he : e ∈ g.graph.edges) (hname : e.target.name = "in") : g.edgeFindings e = [] := by
  have hentered := h.enteredBy_of_mem he
  obtain ⟨n, hn, hport⟩ := hentered.output.declared
  obtain ⟨hid, hstart⟩ := h.target_mem he
  obtain ⟨m, hm⟩ := h.mem_range'.1 hid
  have hinput : m.hasInput e.target.name = true := by
    have hkind : m.kind ≠ .sceneStart := fun hkind => hstart ((h.nodes _ m hm).2 hkind)
    have hinputs : m.kind.inputs = ["in"] := by
      unfold NodeKind.inputs
      split
      · contradiction
      · rfl
    rw [Node.hasInput, hinputs, hname]
    rfl
  unfold FlowGraph.edgeFindings
  rw [hn, hm]
  simp [hport, hinput, Nat.ne_of_lt hentered.lt]

/-- The graph of a script is a forest. -/
theorem Lowered.forest (h : Lowered program starts g)
    (hnames : ∀ e ∈ g.graph.edges, e.target.name = "in") : g.Forest program := by
  have hnode : ∀ n ∈ g.nodes, g.node? n.id = some n ∧ (n.kind = .sceneStart ↔ n.id ∈ starts) := by
    intro n hn
    obtain ⟨id, hid⟩ := (mem_values_iff _ _).1 hn
    obtain ⟨rfl, hstart⟩ := h.nodes id n hid
    refine ⟨hid, hstart, fun hmem => ?_⟩
    obtain ⟨m, hm, hkind⟩ := h.node_start hmem
    obtain rfl : n = m := Option.some.inj (hid.symm.trans hm)
    exact hkind
  have hcycles := cycles_of_ascends h.ascends
  refine
    { ids := h.ids_eq
      roots := fun n hn hkind => ?_
      entered := fun n hn hkind => ?_
      findings := ?_
      cycles := hcycles
      unreachable := h.unreachable_eq
      topologicalOrder := h.topologicalOrder_eq
      executionOrder := h.executionOrder_eq
      outline := h.outline }
  · apply List.eq_nil_iff_forall_not_mem.2
    intro e he
    obtain ⟨hmem, htarget⟩ := mem_incoming.1 he
    exact (h.target_mem hmem).2 (htarget ▸ (hnode n hn).2.1 hkind)
  · obtain ⟨hfound, hstart⟩ := hnode n hn
    obtain ⟨e, -, -, hentered⟩ := h.enteredBy (h.mem_range'.2 ⟨n, hfound⟩) fun hmem =>
      hkind (hstart.2 hmem)
    exact ⟨e, hentered⟩
  · have hscenes : ∀ x ∈ g.scenes.entries, g.sceneFindings x.1 x.2 = [] :=
      fun x hx => h.sceneFindings_eq hx
    have hedges : g.graph.edges.flatMap g.edgeFindings = [] :=
      List.flatMap_eq_nil_iff.2 fun e he => h.edgeFindings_eq he (hnames e he)
    rw [FlowGraph.findings, List.flatMap_eq_nil_iff.2 hscenes, hedges, hcycles, h.unreachable_eq]
    rfl

/-- Lowering succeeds with every script, and its graph is a forest. -/
theorem lower_forest (p : Placement) (program : Program) :
    ∃ g, lower p program = .ok g ∧ g.Forest program := by
  obtain ⟨g, starts, hg, hlowered⟩ := lower_ok p program
  exact ⟨g, hg, hlowered.forest (target_lower hg)⟩

end Scripts

end Novella.Proofs
