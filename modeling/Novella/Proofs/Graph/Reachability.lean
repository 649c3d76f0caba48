import Mathlib.Data.List.Perm.Subperm
import Novella.Flow.Graph
import Novella.Proofs.Graph.Ways

/-!
# What roots lead to

The walk along the edges from roots reaches the nodes of the graph that a root in the graph leads
to, and no others. A search that takes the nodes in the order in which it has reached them comes to
the same, in one turn for each of them. What a flow graph counts as unreachable is then what no
entry leads to, and the count of nodes splits into the two parts (`reachableFrom_exact`).
-/

namespace Novella.Proofs

open Novella.Flow Walk

variable {ν ε : Type} {g : PortGraph ν ε} {roots : List Nat}

/-! ## The walk -/

lemma mem_reachableFrom_iff (h : Wired g) {i : Nat} : i ∈ g.reachableFrom roots ↔
    g.contains i = true ∧ ∃ r ∈ roots, g.contains r = true ∧ LeadsTo g r i := by
  have hroots : ∀ r ∈ roots.filter g.contains, r ∈ g.ids := fun r hr =>
    mem_ids_iff.2 (List.mem_filter.1 hr).2
  have houtcome := (walks_of_closed h.successors hroots {}).outcome_empty
  rw [PortGraph.reachableFrom, mem_ascending, fromRoots]
  constructor
  · intro hi
    obtain ⟨r, hr, hpath⟩ := houtcome.paths i (houtcome.mem_done hi)
    have hway := path_successors_iff.1 hpath
    exact ⟨mem_ids_iff.1 (h.mem_ids_of_leadsTo' hway (hroots r hr)), r, (List.mem_filter.1 hr).1,
      (List.mem_filter.1 hr).2, hway⟩
  · rintro ⟨-, r, hr, hlive, hway⟩
    have hdone := houtcome.mem_done (houtcome.listed r (List.mem_filter.2 ⟨hr, hlive⟩))
    exact houtcome.orderly.reached i (houtcome.mem_done_of_path hdone (path_successors_iff.2 hway))

lemma reachableFrom_pairwise (g : PortGraph ν ε) (roots : List Nat) :
    (g.reachableFrom roots).Pairwise (· < ·) :=
  ascending_pairwise _

lemma nodup_reachableFrom (g : PortGraph ν ε) (roots : List Nat) : (g.reachableFrom roots).Nodup :=
  (reachableFrom_pairwise g roots).imp Nat.ne_of_lt

/-! ## The loop -/

/-- A search in the middle of its work: the nodes that it has reached, the last one first, and those
of them that it has to go on from, the first one first. -/
structure Wave where
  reached : List Nat := []
  queue : List Nat := []

namespace Wave

def meet (w : Wave) (i : Nat) : Wave :=
  if i ∈ w.reached then w else ⟨i :: w.reached, w.queue ++ [i]⟩

def start (g : PortGraph ν ε) (roots : List Nat) : Wave := (roots.filter g.contains).foldl meet {}

/-- One turn of the loop goes on from a node along all of its edges. -/
def advance (g : PortGraph ν ε) : Wave → Wave
  | ⟨reached, []⟩ => ⟨reached, []⟩
  | ⟨reached, id :: queue⟩ =>
    ((g.outgoing id).map (·.target.node)).foldl meet ⟨reached, queue⟩

end Wave

/-- Of the nodes that are met, those that are new are reached and queued. -/
lemma exists_foldl_meet (ids : List Nat) {w : Wave} (hw : w.reached.Nodup) :
    ∃ new, ids.foldl Wave.meet w = ⟨new.reverse ++ w.reached, w.queue ++ new⟩ ∧
      (new.reverse ++ w.reached).Nodup ∧ (∀ i ∈ new, i ∈ ids) ∧
      ∀ i ∈ ids, i ∈ new.reverse ++ w.reached := by
  induction ids generalizing w with
  | nil =>
    refine ⟨[], ?_, hw, fun _ hi => hi, fun _ hi => absurd hi List.not_mem_nil⟩
    rw [List.foldl_nil, List.append_nil]
    rfl
  | cons id ids ih =>
    rw [List.foldl_cons, Wave.meet]
    by_cases hmem : id ∈ w.reached
    · rw [if_pos hmem]
      obtain ⟨new, hfold, hnodup, hsub, hall⟩ := ih hw
      refine ⟨new, hfold, hnodup, fun i hi => List.mem_cons_of_mem _ (hsub i hi), ?_⟩
      exact List.forall_mem_cons.2 ⟨List.mem_append_right _ hmem, hall⟩
    · rw [if_neg hmem]
      obtain ⟨new, hfold, hnodup, hsub, hall⟩ :=
        ih (w := ⟨id :: w.reached, w.queue ++ [id]⟩) (List.nodup_cons.2 ⟨hmem, hw⟩)
      have hreached : (id :: new).reverse ++ w.reached = new.reverse ++ id :: w.reached := by
        rw [List.reverse_cons, List.append_assoc, List.singleton_append]
      refine ⟨id :: new, ?_, hreached ▸ hnodup, ?_, ?_⟩
      · have hqueue : w.queue ++ id :: new = w.queue ++ [id] ++ new := List.append_cons _ _ _
        rw [hreached, hqueue]
        exact hfold
      · exact List.forall_mem_cons.2
          ⟨List.mem_cons_self, fun i hi => List.mem_cons_of_mem _ (hsub i hi)⟩
      · rw [hreached]
        exact List.forall_mem_cons.2 ⟨List.mem_append_right _ List.mem_cons_self, hall⟩

/-- What the loop keeps up: roots lead to what it has reached, and what it does not have to go on
from leads to nothing that it has not reached. A turn that it takes is for one node. -/
structure Spread (g : PortGraph ν ε) (roots : List Nat) (turns : Nat) (w : Wave) : Prop where
  nodup : w.reached.Nodup
  led : ∀ i ∈ w.reached, ∃ r ∈ roots, g.contains r = true ∧ LeadsTo g r i
  roots : ∀ r ∈ roots, g.contains r = true → r ∈ w.reached
  queued : ∀ i ∈ w.queue, i ∈ w.reached
  closed : ∀ i ∈ w.reached, i ∈ w.queue ∨ ∀ j, Joins g i j → j ∈ w.reached
  count : w.queue = [] ∨ w.reached.length = turns + w.queue.length

lemma spread_start (g : PortGraph ν ε) (roots : List Nat) : Spread g roots 0 (.start g roots) := by
  obtain ⟨new, hfold, hnodup, hsub, hall⟩ :=
    exists_foldl_meet (roots.filter g.contains) (w := {}) List.nodup_nil
  rw [List.append_nil] at hnodup
  simp only [List.append_nil, List.mem_reverse, List.mem_filter] at hall hsub
  rw [Wave.start, hfold, List.append_nil, List.nil_append]
  refine ⟨hnodup, fun i hi => ?_, fun r hr hlive => List.mem_reverse.2 (hall r ⟨hr, hlive⟩),
    fun i hi => List.mem_reverse.2 hi, fun i hi => .inl (List.mem_reverse.1 hi), .inr ?_⟩
  · obtain ⟨hroot, hlive⟩ := hsub i (List.mem_reverse.1 hi)
    exact ⟨i, hroot, hlive, .refl⟩
  · rw [List.length_reverse, Nat.zero_add]

lemma Spread.advance {turns : Nat} {w : Wave} (h : Spread g roots turns w) :
    Spread g roots (turns + 1) (w.advance g) := by
  obtain ⟨reached, _ | ⟨id, queue⟩⟩ := w
  · exact { h with count := .inl rfl }
  · obtain ⟨new, hfold, hnodup, hsub, hall⟩ := exists_foldl_meet
      ((g.outgoing id).map (·.target.node)) (w := ⟨reached, queue⟩) h.nodup
    have hedge : ∀ j, j ∈ (g.outgoing id).map (·.target.node) ↔ Joins g id j := by
      intro j
      simp only [PortGraph.outgoing, List.mem_map, List.mem_filter, decide_eq_true_eq, Joins,
        and_assoc]
    have hold : ∀ i ∈ reached, i ∈ new.reverse ++ reached := fun i hi => List.mem_append_right _ hi
    rw [Wave.advance, hfold]
    refine ⟨hnodup, fun i hi => ?_, fun r hr hlive => hold r (h.roots r hr hlive), fun i hi => ?_,
      fun i hi => ?_, .inr ?_⟩
    · rcases List.mem_append.1 hi with hi | hi
      · obtain ⟨r, hr, hlive, hway⟩ := h.led id (h.queued id List.mem_cons_self)
        exact ⟨r, hr, hlive, hway.tail ((hedge i).1 (hsub i (List.mem_reverse.1 hi)))⟩
      · exact h.led i hi
    · rcases List.mem_append.1 hi with hi | hi
      · exact hold i (h.queued i (List.mem_cons_of_mem _ hi))
      · exact List.mem_append_left _ (List.mem_reverse.2 hi)
    · rcases List.mem_append.1 hi with hi | hi
      · exact .inl (List.mem_append_right _ (List.mem_reverse.1 hi))
      · rcases h.closed i hi with hqueued | hclosed
        · rcases List.mem_cons.1 hqueued with rfl | hqueued
          · exact .inr fun j hj => hall j ((hedge j).2 hj)
          · exact .inl (List.mem_append_left _ hqueued)
        · exact .inr fun j hj => hold j (hclosed j hj)
    · have hcount := h.count.resolve_left (List.cons_ne_nil _ _)
      simp only [List.length_append, List.length_reverse, List.length_cons] at hcount ⊢
      omega

lemma spread_iterate (g : PortGraph ν ε) (roots : List Nat) (turns : Nat) :
    Spread g roots turns ((Wave.advance g)^[turns] (.start g roots)) := by
  induction turns with
  | zero => exact spread_start g roots
  | succ turns ih =>
    rw [Function.iterate_succ_apply']
    exact ih.advance

/-- The loop comes to its end after one turn for each node that it reaches, and these are the nodes
that the walk reaches. -/
theorem exists_advance_eq (h : Wired g) (roots : List Nat) :
    ∃ reached, (Wave.advance g)^[(g.reachableFrom roots).length] (.start g roots) = ⟨reached, []⟩ ∧
      reached.Perm (g.reachableFrom roots) := by
  have hspread := spread_iterate g roots (g.reachableFrom roots).length
  generalize (Wave.advance g)^[(g.reachableFrom roots).length] (.start g roots) = w at hspread ⊢
  obtain ⟨reached, queue⟩ := w
  have hsub : ∀ i ∈ reached, i ∈ g.reachableFrom roots := by
    intro i hi
    obtain ⟨r, hr, hlive, hway⟩ := hspread.led i hi
    have hid := h.mem_ids_of_leadsTo' hway (mem_ids_iff.2 hlive)
    exact (mem_reachableFrom_iff h).2 ⟨mem_ids_iff.1 hid, r, hr, hlive, hway⟩
  have hle := (List.subperm_of_subset hspread.nodup hsub).length_le
  obtain rfl : queue = [] := by
    by_contra hne
    have hcount := hspread.count.resolve_left hne
    have hpos := List.length_pos_iff.2 hne
    simp only at hcount hpos hle
    omega
  refine ⟨reached, rfl, (List.perm_ext_iff_of_nodup hspread.nodup
    (nodup_reachableFrom g roots)).2 fun i => ⟨hsub i, fun hi => ?_⟩⟩
  obtain ⟨-, r, hr, hlive, hway⟩ := (mem_reachableFrom_iff h).1 hi
  refine hway.of_closed (S := fun i => i ∈ reached) (fun e he hsource => ?_)
    (hspread.roots r hr hlive)
  exact (hspread.closed _ hsource).resolve_left List.not_mem_nil _ ⟨e, he, rfl, rfl⟩

/-! ## Flow graphs -/

section Flow

variable {f : FlowGraph}

/-- Scenes are entered where the table says, and at every node that starts a scene. -/
lemma mem_entries {i : Nat} : i ∈ f.entries ↔
    (f.graph.contains i = true ∧ ∃ name, f.scenes.get? name = some i) ∨
      ∃ n ∈ f.nodes, n.kind = .sceneStart ∧ n.id = i := by
  simp only [FlowGraph.entries, mem_ascending, List.mem_append, List.mem_filter, List.mem_map,
    mem_values_iff, decide_eq_true_eq, and_assoc, and_comm]

lemma unreachable_eq (f : FlowGraph) :
    f.unreachable = f.graph.ids.filter fun i => i ∉ f.graph.reachableFrom f.entries := by
  simp [FlowGraph.unreachable]

/-- A node is unreachable if no entry leads to it. -/
lemma mem_unreachable_iff (h : Wired f.graph) {i : Nat} : i ∈ f.unreachable ↔
    f.graph.contains i = true ∧ ∀ r ∈ f.entries, ¬LeadsTo f.graph r i := by
  rw [unreachable_eq, List.mem_filter, mem_ids_iff, decide_eq_true_eq, mem_reachableFrom_iff h]
  refine and_congr_right fun hlive => ⟨fun hnone r hr hway => hnone ⟨hlive, r, hr, ?_, hway⟩, ?_⟩
  · exact mem_ids_iff.1 (h.mem_ids_of_leadsTo hway (mem_ids_iff.2 hlive))
  · rintro hnone ⟨-, r, hr, -, hway⟩
    exact hnone r hr hway

/-- The nodes that the entries lead to and the others make up the graph. -/
lemma length_reachable_add (h : Wired f.graph) :
    (f.graph.reachableFrom f.entries).length + f.unreachable.length = f.graph.size := by
  have hperm : (f.graph.ids.filter fun i => i ∈ f.graph.reachableFrom f.entries).Perm
      (f.graph.reachableFrom f.entries) := by
    refine (List.perm_ext_iff_of_nodup ((nodup_ids _).filter _)
      (nodup_reachableFrom _ _)).2 fun i => ?_
    rw [List.mem_filter, decide_eq_true_eq, mem_ids_iff]
    exact and_iff_right_of_imp fun hi => ((mem_reachableFrom_iff h).1 hi).1
  rw [unreachable_eq, ← hperm.length_eq, ← length_ids]
  simpa using (List.length_eq_length_filter_add (l := f.graph.ids) fun i =>
    decide (i ∈ f.graph.reachableFrom f.entries)).symm

/-- Roots reach what they lead to, as far as they are in the graph, and the search for it comes to
its end. In a flow graph the entries leave the other nodes unreachable, and the two parts make up
the count of nodes. -/
theorem reachableFrom_exact (h : Wired g) (roots : List Nat) (hf : Wired f.graph) :
    ((∃ reached, (Wave.advance g)^[(g.reachableFrom roots).length] (.start g roots) = ⟨reached, []⟩ ∧
        reached.Perm (g.reachableFrom roots)) ∧
      (g.reachableFrom roots).Pairwise (· < ·) ∧
      ∀ i, i ∈ g.reachableFrom roots ↔
        g.contains i = true ∧ ∃ r ∈ roots, g.contains r = true ∧ LeadsTo g r i) ∧
    ((∀ i, i ∈ f.entries ↔ (f.graph.contains i = true ∧ ∃ name, f.scenes.get? name = some i) ∨
        ∃ n ∈ f.nodes, n.kind = .sceneStart ∧ n.id = i) ∧
      f.unreachable.Pairwise (· < ·) ∧
      ∀ i, i ∈ f.unreachable ↔
        f.graph.contains i = true ∧ ∀ r ∈ f.entries, ¬LeadsTo f.graph r i) ∧
    f.stats.total = f.graph.ids.length ∧
    f.stats.unreachable = f.unreachable.length ∧
    f.stats.reachable = (f.graph.reachableFrom f.entries).length ∧
    f.unreachable.length ≤ f.graph.size ∧
    f.stats.reachable + f.stats.unreachable = f.stats.total := by
  have hcount := length_reachable_add hf
  have htotal : f.stats.total = f.graph.size := rfl
  have hmissed : f.stats.unreachable = f.unreachable.length := rfl
  have hreached : f.stats.reachable = f.graph.size - f.unreachable.length := rfl
  refine ⟨⟨exists_advance_eq h roots, reachableFrom_pairwise g roots,
    fun i => mem_reachableFrom_iff h⟩, ⟨fun i => mem_entries, ?_, fun i => mem_unreachable_iff hf⟩,
    ?_, hmissed, ?_, ?_, ?_⟩
  · exact unreachable_eq f ▸ (ids_pairwise f.graph).filter _
  · rw [htotal, length_ids]
  · omega
  · omega
  · omega

/-- A scene of two nodes and a node beside it that leads into the scene. -/
def sideEntrance : FlowGraph where
  graph :=
    { nodes := .ofList [(1, { id := 1, kind := .sceneStart }), (2, { id := 2, kind := .sceneEnd }),
        (3, { id := 3, kind := .comment })]
      edges := [⟨.output 1 "out", .input 2 "in", ""⟩, ⟨.output 3 "out", .input 2 "in", ""⟩]
      nextId := 4 }

theorem reachableFrom_exact_sideEntrance : Wired sideEntrance.graph ∧
    2 ∈ sideEntrance.graph.reachableFrom [3, 9, 3] ∧ 3 ∈ sideEntrance.unreachable ∧
    sideEntrance.stats.reachable + 1 = 3 := by
  have hwired : Wired sideEntrance.graph := by decide
  obtain ⟨⟨-, -, hreachable⟩, ⟨-, -, hunreachable⟩, htotal, -, -, -, hcount⟩ :=
    reachableFrom_exact hwired [3, 9, 3] hwired
  have hentry : ∀ r ∈ sideEntrance.entries, r ≠ 3 := by decide
  have hmissed : sideEntrance.stats.unreachable = 1 := by decide
  refine ⟨hwired, (hreachable 2).2 ⟨by decide, 3, by decide, by decide, ?_⟩,
    (hunreachable 3).2 ⟨by decide, fun r hr hway => ?_⟩, ?_⟩
  · exact .single ⟨_, .tail _ (.head _), rfl, rfl⟩
  · have hoff : (3 : Nat) ≠ 3 := hway.of_closed (S := fun i => i ≠ 3) (by decide) (hentry r hr)
    exact hoff rfl
  · rw [hmissed, htotal] at hcount
    exact hcount

end Flow

end Novella.Proofs
