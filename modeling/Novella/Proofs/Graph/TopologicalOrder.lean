import Mathlib.Data.Finset.Max
import Novella.Proofs.Graph.Ways

/-!
# The topological order of any graph

The walk against the edges places every node once, and it places the nodes that an edge leads from
before the node that it leads to, unless the edge lies on a cycle
(`topologicalOrder_extends_edges`). Cycles do not stand in its way, and they do not come out as
groups either: what leads into a cycle may be met from within it, and then stands between its
nodes. Nothing else does, and `topologicalOrder_together` says when it happens.

Both come from one fact about a node and the nodes that are placed with it or before it,
`placed_or_leadsTo`.
-/

namespace Novella.Proofs

open Walk

variable {ν ε : Type} {g : PortGraph ν ε}

/-- Only members stand between two members. -/
def Unbroken (order : List Nat) (member : Nat → Prop) : Prop :=
  ∀ p x q, member p → member q → order.idxOf p < order.idxOf x → order.idxOf x < order.idxOf q →
    member x

/-- Two nodes on a cycle, and a node off it that leads into it on two ways and to itself. -/
def knotted : PortGraph String String where
  nodes := .ofList [(1, ""), (2, ""), (3, "")]
  edges := [⟨.output 1 "out", .input 2 "in", ""⟩, ⟨.output 2 "out", .input 1 "in", ""⟩,
    ⟨.output 3 "out", .input 1 "in", ""⟩, ⟨.output 3 "else", .input 1 "in", ""⟩,
    ⟨.output 3 "out", .input 3 "in", ""⟩]
  nextId := 4

/-! ## Positions -/

section Positions

variable {a b : List Nat} {u x : Nat}

lemma idxOf_append_lt_iff : (a ++ b).idxOf u < a.length ↔ u ∈ a := by
  rw [List.idxOf_append]
  split
  · next h => exact iff_of_true (List.idxOf_lt_length_of_mem h) h
  · next h => exact iff_of_false (by omega) h

lemma idxOf_split (hx : x ∉ a) : (a ++ x :: b).idxOf x = a.length := by
  rw [List.idxOf_append_of_notMem hx, List.idxOf_cons_self, Nat.add_zero]

lemma idxOf_lt_iff (hx : x ∉ a) : (a ++ x :: b).idxOf u < (a ++ x :: b).idxOf x ↔ u ∈ a := by
  rw [idxOf_split hx, idxOf_append_lt_iff]

lemma idxOf_le_iff (hx : x ∉ a) : (a ++ x :: b).idxOf u ≤ (a ++ x :: b).idxOf x ↔ u ∈ a ++ [x] := by
  rw [idxOf_split hx, ← Nat.lt_succ_iff, ← idxOf_append_lt_iff (a := a ++ [x]) (b := b),
    ← List.append_cons, List.length_append, List.length_singleton]

lemma mem_of_idxOf_lt {order : List Nat} (h : order.idxOf x < order.idxOf u) : x ∈ order :=
  List.idxOf_lt_length_iff.1 (Nat.lt_of_lt_of_le h List.idxOf_le_length)

end Positions

/-! ## The run -/

lemma Wired.walks (h : Wired g) {ids : List Nat} (hids : ∀ id ∈ ids, id ∈ g.ids) (w : Walk) :
    Walks g.predecessors ids w (ids.foldl (visit g.predecessors (g.size + 1)) w) :=
  walks_of_closed h.predecessors hids w

/-- The run that the order is read off. -/
lemma Wired.run (h : Wired g) : ∃ w, Walks g.predecessors g.ids {} w ∧
    g.topologicalOrder = w.postorder :=
  ⟨_, h.walks (fun _ hid => hid) {}, rfl⟩

lemma topologicalOrder_perm (h : Wired g) : g.topologicalOrder.Perm g.ids := by
  obtain ⟨w, hrun, horder⟩ := h.run
  rw [horder]
  exact (List.reverse_perm _).trans (hrun.outcome_empty.perm (nodup_ids g) h.predecessors)

/-- What leads by an edge to a node that stands at `x` or before it stands before `x` itself, or
`x` leads to it. -/
theorem placed_or_leadsTo (h : Wired g) {x u y : Nat} (hx : x ∈ g.topologicalOrder)
    (hu : g.topologicalOrder.idxOf u ≤ g.topologicalOrder.idxOf x) (hy : Joins g y u) :
    g.topologicalOrder.idxOf y < g.topologicalOrder.idxOf x ∨ LeadsTo g x y := by
  obtain ⟨w, hrun, horder⟩ := h.run
  have houtcome := hrun.outcome_empty
  obtain ⟨after, before, hsplit⟩ :=
    List.append_of_mem (List.mem_reverse.1 (show x ∈ w.done.reverse by rwa [horder] at hx))
  have hnew : x ∉ before.reverse := by
    have hnodup := houtcome.orderly.nodup
    rw [hsplit] at hnodup
    rw [List.mem_reverse]
    exact (List.nodup_cons.1 (List.nodup_append.1 hnodup).2.1).1
  have heq : g.topologicalOrder = before.reverse ++ x :: after.reverse := by
    rw [horder, postorder, hsplit, List.reverse_append, List.reverse_cons, List.append_assoc,
      List.singleton_append]
  rw [heq, idxOf_le_iff hnew] at hu
  rw [heq, idxOf_lt_iff hnew, List.mem_reverse, ← path_predecessors_iff]
  have hsettles := houtcome.orderly.settles
  rw [hsplit] at hsettles
  rw [List.mem_append, List.mem_reverse, List.mem_singleton] at hu
  exact hsettles.of_split (List.mem_cons.2 hu.symm) (mem_predecessors_iff.2 hy)

/-! ## Edges -/

/-- The loop comes to its end, with every node in its place, and every edge leads forward that does
not lie on a cycle; so all of them do where there are no cycles. -/
theorem topologicalOrder_extends_edges (h : Wired g) :
    (∃ w, (turn g.predecessors)^[g.size + turnsFor g.predecessors g.ids] ⟨{}, g.ids, []⟩ =
      ⟨w, [], []⟩ ∧ g.topologicalOrder = w.postorder) ∧
    g.topologicalOrder.Perm g.ids ∧
    (∀ e ∈ g.edges, ¬LeadsTo g e.target.node e.source.node →
      g.topologicalOrder.idxOf e.source.node < g.topologicalOrder.idxOf e.target.node) ∧
    ((∀ u v, Joins g u v → ¬LeadsTo g v u) → ∀ e ∈ g.edges,
      g.topologicalOrder.idxOf e.source.node < g.topologicalOrder.idxOf e.target.node) := by
  have hperm := topologicalOrder_perm h
  have hforward : ∀ e ∈ g.edges, ¬LeadsTo g e.target.node e.source.node →
      g.topologicalOrder.idxOf e.source.node < g.topologicalOrder.idxOf e.target.node := by
    intro e he hcycle
    have htarget := hperm.mem_iff.2 (mem_ids_iff.2 (h.joined e he).target)
    exact (placed_or_leadsTo h htarget (Nat.le_refl _) ⟨e, he, rfl, rfl⟩).resolve_right hcycle
  refine ⟨?_, hperm, hforward, fun hnone e he => hforward e he (hnone _ _ ⟨e, he, rfl, rfl⟩)⟩
  obtain ⟨w, hrun, horder⟩ := h.run
  obtain ⟨new, hdone, hturns⟩ := turns_of_walks hrun
  refine ⟨w, ?_, horder⟩
  have hnew : new.Perm g.ids := by
    rw [horder, postorder, hdone, List.append_nil] at hperm
    exact (List.reverse_perm new).symm.trans hperm
  rw [← turnsFor_perm hnew, ← length_ids]
  exact hturns []

theorem topologicalOrder_extends_edges_of_knotted : Wired knotted ∧
    knotted.topologicalOrder.Perm [1, 2, 3] ∧
    knotted.topologicalOrder.idxOf 3 < knotted.topologicalOrder.idxOf 1 := by
  have hwired : Wired knotted := by decide
  obtain ⟨-, hperm, hforward, -⟩ := topologicalOrder_extends_edges hwired
  refine ⟨hwired, hperm, hforward ⟨.output 3 "out", .input 1 "in", ""⟩ (by decide) fun hback => ?_⟩
  have hoff : (3 : Nat) ≠ 3 := hback.of_closed (S := fun i => i ≠ 3) (by decide) (by decide)
  exact hoff rfl

/-! ## Cycles -/

/-- Between a node and a later one that leads to it stand only nodes that lead to it. -/
theorem leadsTo_of_between (h : Wired g) {p q x : Nat} (hqp : LeadsTo g q p)
    (hpx : g.topologicalOrder.idxOf p ≤ g.topologicalOrder.idxOf x)
    (hxq : g.topologicalOrder.idxOf x < g.topologicalOrder.idxOf q) : LeadsTo g x p := by
  obtain ⟨u, v, hu, huv, hv, hpu, -⟩ := (path_predecessors_iff.2 hqp).exists_step
    (S := fun i => g.topologicalOrder.idxOf i ≤ g.topologicalOrder.idxOf x) hpx
    (Nat.not_le_of_lt hxq)
  have hvu : Joins g v u := mem_predecessors_iff.1 huv
  have hxv : LeadsTo g x v := (placed_or_leadsTo h (mem_of_idxOf_lt hxq) hu hvu).resolve_left
    fun hlt => hv (Nat.le_of_lt hlt)
  exact hxv.trans (.head hvu (path_predecessors_iff.1 hpu))

/-- A node that leads to a cycle does not stand after all of it. -/
lemma exists_together_after (h : Wired g) {c x : Nat} (hc : c ∈ g.ids) (hx : LeadsTo g x c) :
    ∃ q, Together g c q ∧ g.topologicalOrder.idxOf x ≤ g.topologicalOrder.idxOf q := by
  classical
  obtain ⟨q, hq, hlast⟩ := (g.ids.toFinset.filter (Together g c)).exists_max_image
    g.topologicalOrder.idxOf ⟨c, by simpa using ⟨hc, .refl, .refl⟩⟩
  simp only [Finset.mem_filter, List.mem_toFinset] at hq hlast
  refine ⟨q, hq.2, Nat.le_of_not_lt fun hlt => ?_⟩
  obtain ⟨u, v, hu, huv, hv, hcu, hvx⟩ := (path_predecessors_iff.2 hx).exists_step
    (S := fun i => g.topologicalOrder.idxOf i ≤ g.topologicalOrder.idxOf q)
    (hlast c ⟨hc, .refl, .refl⟩) (Nat.not_le_of_lt hlt)
  have hvu : Joins g v u := mem_predecessors_iff.1 huv
  have hqv : LeadsTo g q v := (placed_or_leadsTo h ((topologicalOrder_perm h).mem_iff.2 hq.1) hu
    hvu).resolve_left fun hlt => hv (Nat.le_of_lt hlt)
  refine hv (hlast v ⟨h.mem_ids_of_joins hvu, hq.2.1.trans hqv, ?_⟩)
  exact .head hvu (path_predecessors_iff.1 hcu)

/-- A cycle comes out as a group if and only if what leads into it from outside stands before all of
it. -/
theorem unbroken_iff (h : Wired g) {c : Nat} (hc : c ∈ g.ids) :
    Unbroken g.topologicalOrder (Together g c) ↔
      ∀ x p, LeadsTo g x c → ¬LeadsTo g c x → Together g c p →
        g.topologicalOrder.idxOf x < g.topologicalOrder.idxOf p := by
  constructor
  · intro hunbroken x p hxc hcx hp
    by_contra hle
    obtain ⟨q, hq, hxq⟩ := exists_together_after h hc hxc
    have hne : ∀ m, Together g c m →
        g.topologicalOrder.idxOf m ≠ g.topologicalOrder.idxOf x := by
      intro m hm heq
      have hmem := (topologicalOrder_perm h).mem_iff.2 (h.mem_ids_of_leadsTo hxc hc)
      exact hcx ((List.idxOf_inj hmem).1 heq.symm ▸ hm.1)
    have hpx := Nat.lt_of_le_of_ne (Nat.le_of_not_lt hle) (hne p hp)
    exact hcx (hunbroken p x q hp hq hpx (Nat.lt_of_le_of_ne hxq (hne q hq).symm)).1
  · intro hbefore p x q hp hq hpx hxq
    have hxp : LeadsTo g x p := leadsTo_of_between h (hq.2.trans hp.1) (Nat.le_of_lt hpx) hxq
    have hxc : LeadsTo g x c := hxp.trans hp.2
    refine ⟨by_contra fun hcx => ?_, hxc⟩
    exact absurd (hbefore x p hxc hcx hp) (Nat.lt_asymm hpx)

/-- The walk has placed what leads to a node `y` when it turns to the ids above `y`. -/
lemma idxOf_lt_of_leadsTo (h : Wired g) {x y p : Nat} (hy : y ∈ g.ids) (hxy : LeadsTo g x y)
    (hlate : ∀ id, LeadsTo g p id → y < id) :
    g.topologicalOrder.idxOf x < g.topologicalOrder.idxOf p := by
  obtain ⟨before, after, hids⟩ := List.append_of_mem hy
  have hsorted := ids_pairwise g
  rw [hids, List.append_cons] at hsorted
  rw [List.append_cons] at hids
  have hfirst : ∀ id ∈ before ++ [y], id ∈ g.ids := fun id hid =>
    hids ▸ List.mem_append_left _ hid
  have hrest : ∀ id ∈ after, id ∈ g.ids := fun id hid => hids ▸ List.mem_append_right _ hid
  have hwalks := h.walks hfirst {}
  generalize hw : (before ++ [y]).foldl (visit g.predecessors (g.size + 1)) {} = w at hwalks
  have houtcome := hwalks.outcome_empty
  obtain ⟨late, hdone⟩ := (h.walks hrest w).done_suffix
  have horder : g.topologicalOrder = w.done.reverse ++ late.reverse := by
    rw [PortGraph.topologicalOrder, fromRoots, hids, List.foldl_append, hw, postorder, ← hdone,
      List.reverse_append]
  have hx : x ∈ w.done := by
    refine houtcome.mem_done_of_path (houtcome.mem_done (houtcome.listed y ?_))
      (path_predecessors_iff.2 hxy)
    exact List.mem_append_right _ List.mem_cons_self
  have hp : p ∉ w.done := by
    intro hp
    obtain ⟨id, hid, hpath⟩ := houtcome.paths p hp
    have hlt : y < id := hlate id (path_predecessors_iff.1 hpath)
    rcases List.mem_append.1 hid with hid | hid
    · have hbelow := (List.pairwise_append.1 (List.pairwise_append.1 hsorted).1).2.2 id hid y
        List.mem_cons_self
      exact absurd hlt (Nat.lt_asymm hbelow)
    · exact absurd hlt (List.mem_singleton.1 hid ▸ Nat.lt_irrefl y)
  rw [horder]
  exact Nat.lt_of_lt_of_le (idxOf_append_lt_iff.2 (List.mem_reverse.2 hx))
    (Nat.le_of_not_lt fun hlt => hp (List.mem_reverse.1 (idxOf_append_lt_iff.1 hlt)))

/-- What stands between two nodes of a cycle leads to the cycle. A cycle comes out as a group if and
only if all that leads into it from outside stands before it, and that is so in particular where
each such node leads to one whose id is below those of all nodes that the cycle leads to. -/
theorem topologicalOrder_together (h : Wired g) {c : Nat} (hc : g.contains c = true) :
    (∀ p x q, Together g c p → Together g c q →
      g.topologicalOrder.idxOf p < g.topologicalOrder.idxOf x →
      g.topologicalOrder.idxOf x < g.topologicalOrder.idxOf q → LeadsTo g x c) ∧
    (Unbroken g.topologicalOrder (Together g c) ↔
      ∀ x p, LeadsTo g x c → ¬LeadsTo g c x → Together g c p →
        g.topologicalOrder.idxOf x < g.topologicalOrder.idxOf p) ∧
    ((∀ x, LeadsTo g x c → ¬LeadsTo g c x → ∃ y, LeadsTo g x y ∧ ∀ z, LeadsTo g c z → y < z) →
      Unbroken g.topologicalOrder (Together g c)) := by
  have hiff := unbroken_iff h (mem_ids_iff.2 hc)
  refine ⟨fun p x q hp hq hpx hxq => ?_, hiff, fun hbelow => hiff.2 fun x p hxc hcx hp => ?_⟩
  · exact (leadsTo_of_between h (hq.2.trans hp.1) (Nat.le_of_lt hpx) hxq).trans hp.2
  · obtain ⟨y, hxy, hy⟩ := hbelow x hxc hcx
    have hx : x ∈ g.ids := h.mem_ids_of_leadsTo hxc (mem_ids_iff.2 hc)
    exact idxOf_lt_of_leadsTo h (h.mem_ids_of_leadsTo' hxy hx) hxy fun id hid =>
      hy id (hp.1.trans hid)

/-- A cycle that is entered from a node with a smaller id. -/
def entered : PortGraph String String where
  nodes := .ofList [(1, ""), (2, ""), (3, "")]
  edges := [⟨.output 1 "out", .input 2 "in", ""⟩, ⟨.output 2 "out", .input 3 "in", ""⟩,
    ⟨.output 3 "out", .input 2 "in", ""⟩]
  nextId := 4

theorem topologicalOrder_together_entered :
    (Wired entered ∧ entered.contains 2 = true) ∧
    Unbroken entered.topologicalOrder (Together entered 2) := by
  have hwired : Wired entered := by decide
  have hlive : entered.contains 2 = true := by decide
  obtain ⟨-, -, hunbroken⟩ := topologicalOrder_together hwired hlive
  refine ⟨⟨hwired, hlive⟩, hunbroken fun x hx hback => ⟨1, ?_, fun z hz => ?_⟩⟩
  · have hid : x ∈ [1, 2, 3] := hwired.mem_ids_of_leadsTo hx (by decide)
    simp only [List.mem_cons, List.not_mem_nil, or_false] at hid
    rcases hid with rfl | rfl | rfl
    · exact .refl
    · exact absurd .refl hback
    · exact absurd (.single ⟨_, .tail _ (.head _), rfl, rfl⟩) hback
  · exact hz.of_closed (S := fun i => 1 < i) (by decide) (by decide)

/-- The walk meets the node off the cycle when it is at the cycle's first node and already done with
the second. -/
theorem knotted_breaks : (Wired knotted ∧ knotted.contains 1 = true) ∧
    knotted.topologicalOrder = [2, 3, 1] ∧
    ¬Unbroken knotted.topologicalOrder (Together knotted 1) := by
  have horder : knotted.topologicalOrder = [2, 3, 1] := by decide
  refine ⟨by decide, horder, fun hunbroken => ?_⟩
  have hthere : LeadsTo knotted 1 2 := .single ⟨_, .head _, rfl, rfl⟩
  have hback : LeadsTo knotted 2 1 := .single ⟨_, .tail _ (.head _), rfl, rfl⟩
  rw [horder] at hunbroken
  have hmember : Together knotted 1 3 :=
    hunbroken 2 3 1 ⟨hthere, hback⟩ ⟨.refl, .refl⟩ (by decide) (by decide)
  have hoff : (3 : Nat) ≠ 3 := hmember.1.of_closed (S := fun i => i ≠ 3) (by decide) (by decide)
  exact hoff rfl

end Novella.Proofs
