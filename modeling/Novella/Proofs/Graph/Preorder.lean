import Novella.Proofs.Graph.DepthFirst

/-!
# Nodes in the order in which a walk comes to them

`Preorder` says what a depth-first walk through a list of nodes comes to for the first time, in that
order, and every run of a walk lists this (`preorder_of_walks`). A loop with one stack, onto which it
puts all that follows a node whether it is visited or not, lists the same (`browse_of_preorder`): what
is visited by then is passed over when it comes up. It takes the loop one turn for each node that is
put onto the stack.
-/

namespace Novella.Proofs

open Walk

variable {next : Nat → List Nat} {seen ids new : List Nat}

/-- A depth-first walk through the nodes `ids` comes to the nodes `new` for the first time, in this
order, if it has been to the nodes `seen` before. -/
inductive Preorder (next : Nat → List Nat) : List Nat → List Nat → List Nat → Prop
  | nil (seen : List Nat) : Preorder next seen [] []
  | seen {id : Nat} {seen ids new : List Nat} (hmem : id ∈ seen)
      (hrest : Preorder next seen ids new) : Preorder next seen (id :: ids) new
  | enter {id : Nat} {seen ids inner rest : List Nat} (hnew : id ∉ seen)
      (hinner : Preorder next (seen ++ [id]) (next id) inner)
      (hrest : Preorder next (seen ++ id :: inner) ids rest) :
      Preorder next seen (id :: ids) (id :: inner ++ rest)

/-- A run of a walk reaches the nodes of the pre-order, in their order. -/
theorem preorder_of_walks {w w' : Walk} (h : Walks next ids w w') :
    ∃ new, w'.preorder = w.preorder ++ new ∧ Preorder next w.preorder ids new := by
  induction h with
  | done w => exact ⟨[], (List.append_nil _).symm, .nil _⟩
  | seen hmem _ ih =>
    obtain ⟨new, hnew, hpre⟩ := ih
    exact ⟨new, hnew, .seen (List.mem_reverse.2 hmem) hpre⟩
  | @enter id ids w w₁ w' hnew _ _ ihinner ihrest =>
    obtain ⟨inner, hinner, hpre⟩ := ihinner
    obtain ⟨rest, hrest, hpre'⟩ := ihrest
    have hentered : { w with reached := id :: w.reached }.preorder = w.preorder ++ [id] :=
      List.reverse_cons
    rw [hentered] at hinner hpre
    have hleft : { w₁ with done := id :: w₁.done }.preorder = w.preorder ++ id :: inner :=
      hinner.trans (List.append_cons ..).symm
    rw [hleft] at hrest hpre'
    refine ⟨id :: inner ++ rest, ?_, .enter (mt List.mem_reverse.1 hnew) hpre hpre'⟩
    rw [hrest, List.append_assoc]

/-- A walk through two lists is a walk through the one, then through the other. -/
lemma Preorder.of_append {more : List Nat} (h : Preorder next seen (ids ++ more) new) :
    ∃ front back, new = front ++ back ∧ Preorder next seen ids front ∧
      Preorder next (seen ++ front) more back := by
  induction ids generalizing seen new with
  | nil => exact ⟨[], new, rfl, .nil _, (List.append_nil seen).symm ▸ h⟩
  | cons id ids ih =>
    cases h with
    | seen hmem hrest =>
      obtain ⟨front, back, hnew, hfront, hback⟩ := ih hrest
      exact ⟨front, back, hnew, .seen hmem hfront, hback⟩
    | @enter _ _ _ inner _ hnew hinner hrest =>
      obtain ⟨front, back, rfl, hfront, hback⟩ := ih hrest
      refine ⟨id :: inner ++ front, back, (List.append_assoc ..).symm, .enter hnew hinner hfront, ?_⟩
      rwa [List.append_assoc] at hback

/-- A walk comes to no node twice, and to none that it has been to. -/
lemma Preorder.nodup (h : Preorder next seen ids new) (hseen : seen.Nodup) : (seen ++ new).Nodup := by
  induction h with
  | nil seen => rwa [List.append_nil]
  | seen _ _ ih => exact ih hseen
  | @enter id seen ids inner rest hnew _ _ ihinner ihrest =>
    have hentered : (seen ++ [id]).Nodup :=
      List.nodup_append_comm.1 (List.nodup_cons.2 ⟨hnew, hseen⟩)
    have hinner := ihinner hentered
    rw [← List.append_cons] at hinner
    rw [← List.append_assoc]
    exact ihrest hinner

/-- Before every node of the pre-order stands one that it follows, unless it is one of the list. -/
lemma Preorder.entered (h : Preorder next seen ids new) {before after : List Nat} {x : Nat}
    (hsplit : new = before ++ x :: after) : x ∈ ids ∨ ∃ p ∈ before, x ∈ next p := by
  induction h generalizing before after x with
  | nil => exact absurd hsplit (by simp)
  | seen _ _ ih => exact (ih hsplit).imp_left (List.mem_cons_of_mem _)
  | @enter id seen ids inner rest _ _ _ ihinner ihrest =>
    cases before with
    | nil => exact .inl ((List.cons.inj hsplit).1 ▸ List.mem_cons_self)
    | cons first before =>
      obtain ⟨rfl, htail⟩ : id = first ∧ inner ++ rest = before ++ x :: after := List.cons.inj hsplit
      -- The node stands in what was walked from `id`, or in what was walked after that.
      rcases List.append_eq_append_iff.1 htail with ⟨rest', rfl, hrest⟩ | ⟨inner', hinner, hrest⟩
      · rcases ihrest hrest with hmem | ⟨p, hp, hx⟩
        · exact .inl (List.mem_cons_of_mem _ hmem)
        · exact .inr ⟨p, List.mem_cons_of_mem _ (List.mem_append_right _ hp), hx⟩
      · cases inner' with
        | nil =>
          have hrest : rest = [] ++ x :: after := hrest.symm
          rcases ihrest hrest with hmem | ⟨p, hp, -⟩
          · exact .inl (List.mem_cons_of_mem _ hmem)
          · exact absurd hp List.not_mem_nil
        | cons y inner' =>
          obtain ⟨rfl, -⟩ := List.cons.inj hrest
          rcases ihinner hinner with hmem | ⟨p, hp, hx⟩
          · exact .inr ⟨id, List.mem_cons_self, hmem⟩
          · exact .inr ⟨p, List.mem_cons_of_mem _ hp, hx⟩

/-! ## The loop -/

/-- A loop in the middle of its work: the nodes that it has visited, in order, and the nodes that it
is to look at, the next one first. -/
structure Browse where
  visited : List Nat := []
  stack : List Nat := []

/-- One turn of the loop takes a node off the stack, and puts all that follows it in its place
unless it was visited before. -/
def browse (next : Nat → List Nat) : Browse → Browse
  | ⟨visited, []⟩ => ⟨visited, []⟩
  | ⟨visited, id :: stack⟩ =>
    if id ∈ visited then ⟨visited, stack⟩ else ⟨visited ++ [id], next id ++ stack⟩

/-- The loop visits the nodes of the pre-order, in their order, and comes to the end of the list. -/
theorem browse_of_preorder (h : Preorder next seen ids new) (stack : List Nat) :
    (browse next)^[ids.length + (new.flatMap next).length] ⟨seen, ids ++ stack⟩ =
      ⟨seen ++ new, stack⟩ := by
  induction h generalizing stack with
  | nil seen => rw [List.append_nil]; rfl
  | @seen id seen ids new hmem _ ih =>
    have hturn : browse next ⟨seen, id :: (ids ++ stack)⟩ = ⟨seen, ids ++ stack⟩ := if_pos hmem
    rw [List.length_cons, Nat.add_right_comm, Function.iterate_succ_apply, List.cons_append, hturn,
      ih]
  | @enter id seen ids inner rest hnew _ _ ihinner ihrest =>
    have hturn : browse next ⟨seen, id :: (ids ++ stack)⟩ =
        ⟨seen ++ [id], next id ++ (ids ++ stack)⟩ := if_neg hnew
    have hturns : (id :: ids).length + ((id :: inner ++ rest).flatMap next).length =
        (ids.length + (rest.flatMap next).length) +
          ((next id).length + (inner.flatMap next).length) + 1 := by
      simp only [List.cons_append, List.flatMap_cons, List.flatMap_append, List.length_append,
        List.length_cons]
      omega
    rw [hturns, Function.iterate_succ_apply, Function.iterate_add_apply, List.cons_append, hturn,
      ihinner, List.append_assoc, List.singleton_append, ihrest, List.append_assoc]

end Novella.Proofs
