import Novella.Graph.Cycles
import Novella.Graph.Walk
import Novella.Proofs.Graph.Growth

/-!
# Graphs whose edges ascend

Where every edge leads from a smaller to a greater id, the order of the ids is a topological order,
and it is the one that the walk against the edges finds (`topologicalOrder_of_ascends`). There is no
cycle to be found (`cycles_of_ascends`). A walk along the edges that may go as deep as there are
nodes is not stopped before it has reached everything that its roots lead to
(`mem_reachableFrom_of_entered`).
-/

namespace Novella.Proofs

open Walk

variable {ν ε : Type} {g : PortGraph ν ε}

/-- Every edge leads from a smaller to a greater id. -/
def Ascends (g : PortGraph ν ε) : Prop := ∀ e ∈ g.edges, e.source.node < e.target.node

lemma mem_successors {i j : Nat} :
    j ∈ g.successors i ↔ ∃ e ∈ g.edges, e.source.node = i ∧ e.target.node = j := by
  simp only [PortGraph.successors, PortGraph.outgoing, mem_ascending, List.mem_map, List.mem_filter,
    decide_eq_true_eq, and_assoc]

lemma mem_predecessors {i j : Nat} :
    i ∈ g.predecessors j ↔ ∃ e ∈ g.edges, e.target.node = j ∧ e.source.node = i := by
  simp only [PortGraph.predecessors, PortGraph.incoming, mem_ascending, List.mem_map,
    List.mem_filter, decide_eq_true_eq, and_assoc]

lemma ids_pairwise (g : PortGraph ν ε) : g.ids.Pairwise (· < ·) := by
  rw [PortGraph.ids, Dict.keys, List.pairwise_map]
  exact g.nodes.sorted.imp fun h => Nat.compare_eq_lt.1 h

/-! ## Walks -/

section Walks

variable {next : Nat → List Nat}

lemma visit_of_mem (depth : Nat) {w : Walk} {id : Nat} (h : id ∈ w.reached) :
    visit next depth w id = w := by
  cases depth with
  | zero => rfl
  | succ depth => rw [visit, if_pos h]

/-- Nodes that are reached are not visited again. -/
lemma foldl_visit_of_mem (depth : Nat) {w : Walk} {ids : List Nat} (h : ∀ id ∈ ids, id ∈ w.reached) :
    ids.foldl (visit next depth) w = w := by
  induction ids with
  | nil => rfl
  | cons id ids ih =>
    obtain ⟨hid, hids⟩ := List.forall_mem_cons.1 h
    rw [List.foldl_cons, visit_of_mem depth hid, ih hids]

/-- What is listed before a node is reached before it is visited, so the walk is done with the nodes
in the order in which they are listed. -/
lemma foldl_visit_of_listed (depth : Nat) {rest before : List Nat}
    (hsorted : (before ++ rest).Pairwise (· < ·))
    (hnext : ∀ id ∈ rest, ∀ j ∈ next id, j < id ∧ j ∈ before ++ rest) :
    rest.foldl (visit next (depth + 1)) ⟨before.reverse, before.reverse⟩ =
      ⟨(before ++ rest).reverse, (before ++ rest).reverse⟩ := by
  induction rest generalizing before with
  | nil => rw [List.append_nil, List.foldl_nil]
  | cons id rest ih =>
    have hmore : before ++ id :: rest = (before ++ [id]) ++ rest := by
      rw [List.append_assoc, List.singleton_append]
    have hbefore : ∀ i ∈ before, i < id := fun i hi =>
      (List.pairwise_append.1 hsorted).2.2 i hi id List.mem_cons_self
    have hafter : ∀ i ∈ rest, id < i :=
      (List.pairwise_cons.1 (List.pairwise_append.1 hsorted).2.1).1
    have hnew : id ∉ before.reverse := fun hmem =>
      absurd (hbefore id (List.mem_reverse.1 hmem)) (Nat.lt_irrefl id)
    have hreached : ∀ j ∈ next id, j ∈ id :: before.reverse := by
      intro j hj
      obtain ⟨hlt, hmem⟩ := hnext id List.mem_cons_self j hj
      rcases List.mem_append.1 hmem with hmem | hmem
      · exact List.mem_cons_of_mem _ (List.mem_reverse.2 hmem)
      · rcases List.mem_cons.1 hmem with rfl | hmem
        · exact absurd hlt (Nat.lt_irrefl j)
        · exact absurd (hafter j hmem) (Nat.lt_asymm hlt)
    have hvisit : visit next (depth + 1) ⟨before.reverse, before.reverse⟩ id =
        ⟨(before ++ [id]).reverse, (before ++ [id]).reverse⟩ := by
      rw [visit, if_neg hnew, foldl_visit_of_mem depth hreached, List.reverse_append]
      rfl
    rw [List.foldl_cons, hvisit, hmore]
    refine ih (hmore ▸ hsorted) fun i hi j hj => ?_
    rw [← hmore]
    exact hnext i (List.mem_cons_of_mem _ hi) j hj

/-- What `next` leads to from a node is reached in `w`. -/
def ClosedAt (next : Nat → List Nat) (w : Walk) (id : Nat) : Prop := ∀ j ∈ next id, j ∈ w.reached

/-- The walk `w'` has reached what `w` has, and what follows on everything else that it reached. -/
structure Follows (next : Nat → List Nat) (w w' : Walk) : Prop where
  reached : ∀ id ∈ w.reached, id ∈ w'.reached
  closed : ∀ id ∈ w'.reached, id ∈ w.reached ∨ ClosedAt next w' id

lemma Follows.refl (w : Walk) : Follows next w w := ⟨fun _ h => h, fun _ h => .inl h⟩

lemma Follows.trans {w w' w'' : Walk} (h : Follows next w w') (h' : Follows next w' w'') :
    Follows next w w'' where
  reached id hid := h'.reached id (h.reached id hid)
  closed id hid := by
    rcases h'.closed id hid with hid | hid
    · exact (h.closed id hid).imp_right fun hclosed j hj => h'.reached j (hclosed j hj)
    · exact .inr hid

lemma foldl_visit_follows {depth : Nat} {ids : List Nat}
    (h : ∀ id ∈ ids, ∀ w, Follows next w (visit next depth w id) ∧
      id ∈ (visit next depth w id).reached) (w : Walk) :
    Follows next w (ids.foldl (visit next depth) w) ∧
      ∀ id ∈ ids, id ∈ (ids.foldl (visit next depth) w).reached := by
  induction ids generalizing w with
  | nil => exact ⟨.refl w, fun _ hid => absurd hid List.not_mem_nil⟩
  | cons id ids ih =>
    obtain ⟨hid, hids⟩ := List.forall_mem_cons.1 h
    obtain ⟨hfirst, hmem⟩ := hid w
    obtain ⟨hrest, hmems⟩ := ih hids (visit next depth w id)
    refine ⟨hfirst.trans hrest, fun i hi => ?_⟩
    rcases List.mem_cons.1 hi with rfl | hi
    · exact hrest.reached i hmem
    · exact hmems i hi

/-- A walk that goes up, but not above `limit`, is not stopped by its depth. -/
lemma visit_follows {limit : Nat} (hnext : ∀ i, ∀ j ∈ next i, i < j ∧ j ≤ limit) {depth : Nat}
    (w : Walk) {id : Nat} (hid : id ≤ limit) (hdepth : limit < depth + id) :
    Follows next w (visit next depth w id) ∧ id ∈ (visit next depth w id).reached := by
  induction depth generalizing w id with
  | zero => omega
  | succ depth ih =>
    rw [visit]
    split
    · next hmem => exact ⟨.refl w, hmem⟩
    · have hafter : ∀ j ∈ next id, ∀ w, Follows next w (visit next depth w j) ∧
          j ∈ (visit next depth w j).reached := by
        intro j hj w
        obtain ⟨hlt, hle⟩ := hnext id j hj
        exact ih w hle (by omega)
      obtain ⟨hfollows, hmems⟩ :=
        foldl_visit_follows hafter { w with reached := id :: w.reached }
      refine ⟨⟨fun i hi => hfollows.reached i (List.mem_cons_of_mem _ hi), fun i hi => ?_⟩,
        hfollows.reached id List.mem_cons_self⟩
      rcases hfollows.closed i hi with hi | hi
      · rcases List.mem_cons.1 hi with rfl | hi
        · exact .inr hmems
        · exact .inl hi
      · exact .inr hi

end Walks

/-! ## Analyses -/

section Analyses

/-- The walk against ascending edges lists the nodes by their ids. -/
theorem topologicalOrder_of_ascends (h : Ascends g)
    (hsources : ∀ e ∈ g.edges, g.contains e.source.node = true) : g.topologicalOrder = g.ids := by
  have hbefore : ∀ id ∈ g.ids, ∀ j ∈ g.predecessors id, j < id ∧ j ∈ [] ++ g.ids := by
    intro id _ j hj
    obtain ⟨e, he, rfl, rfl⟩ := mem_predecessors.1 hj
    exact ⟨h e he, (mem_keys_iff _ _).2 ((contains_iff_node? _).1 (hsources e he))⟩
  have hwalk : Walk.fromRoots g.predecessors (g.size + 1) g.ids = ⟨g.ids.reverse, g.ids.reverse⟩ :=
    foldl_visit_of_listed g.size (ids_pairwise g) hbefore
  rw [PortGraph.topologicalOrder, hwalk, Walk.postorder, List.reverse_reverse]

/-- A search along ascending edges comes back to no node of its path. -/
lemma cycles_visit {next : Nat → List Nat} (hnext : ∀ i, ∀ j ∈ next i, i < j) (depth : Nat)
    {path : List Nat} (s : CycleSearch) {id : Nat} (hpath : ∀ i ∈ path, i < id) :
    (CycleSearch.visit next depth path s id).cycles = s.cycles := by
  induction depth generalizing path s id with
  | zero => rfl
  | succ depth ih =>
    have hnew : id ∉ path := fun hmem => absurd (hpath id hmem) (Nat.lt_irrefl id)
    rw [CycleSearch.visit, if_neg hnew]
    split
    · rfl
    · refine List.foldlRecOn (motive := fun t : CycleSearch => t.cycles = s.cycles) _ _ rfl fun t ht j hj => ?_
      rw [ih, ht]
      intro i hi
      rcases List.mem_append.1 hi with hi | hi
      · exact Nat.lt_trans (hpath i hi) (hnext id j hj)
      · rw [List.mem_singleton.1 hi]
        exact hnext id j hj

theorem cycles_of_ascends (h : Ascends g) : g.cycles = [] := by
  refine List.foldlRecOn (motive := fun s : CycleSearch => s.cycles = []) _ _ rfl fun s hs id _ => ?_
  rw [cycles_visit (fun i j hj => ?_) _ s fun _ hi => absurd hi List.not_mem_nil, hs]
  obtain ⟨e, he, rfl, rfl⟩ := mem_successors.1 hj
  exact h e he

/-- Where every node is a root or is entered from a node, the roots lead to every node. -/
theorem mem_reachableFrom_of_entered (h : Ascends g) (hsize : ∀ id, g.contains id = true → id ≤ g.size)
    (htargets : ∀ e ∈ g.edges, g.contains e.target.node = true) {roots : List Nat}
    (hentered : ∀ id, g.contains id = true → id ∈ roots ∨
      ∃ e ∈ g.edges, e.target.node = id ∧ g.contains e.source.node = true) {id : Nat}
    (hid : g.contains id = true) : id ∈ g.reachableFrom roots := by
  have hnext : ∀ i, ∀ j ∈ g.successors i, i < j ∧ j ≤ g.size := by
    intro i j hj
    obtain ⟨e, he, rfl, rfl⟩ := mem_successors.1 hj
    exact ⟨h e he, hsize _ (htargets e he)⟩
  have hvisits : ∀ r ∈ roots.filter g.contains, ∀ w,
      Follows g.successors w (visit g.successors (g.size + 1) w r) ∧
        r ∈ (visit g.successors (g.size + 1) w r).reached := fun r hr w =>
    visit_follows hnext w (hsize r (List.mem_filter.1 hr).2) (by omega)
  obtain ⟨hfollows, hroots⟩ := foldl_visit_follows hvisits {}
  rw [PortGraph.reachableFrom, mem_ascending]
  induction id using Nat.strongRecOn with
  | ind id ih =>
    rcases hentered id hid with hroot | ⟨e, he, rfl, hsource⟩
    · exact hroots id (List.mem_filter.2 ⟨hroot, hid⟩)
    · have hbefore := ih e.source.node (h e he) hsource
      rcases hfollows.closed _ hbefore with hnone | hclosed
      · cases hnone
      · exact hclosed _ (mem_successors.2 ⟨e, he, rfl, rfl⟩)

end Analyses

end Novella.Proofs
