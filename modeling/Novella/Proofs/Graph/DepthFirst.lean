import Mathlib.Logic.Function.Iterate
import Mathlib.Logic.Relation
import Novella.Proofs.Graph.Walks

/-!
# Walks that run to their end

A walk goes only so deep as it is told to. Where it may go deeper than there are nodes left to
reach, the depth does not show, and the walk is a run of `Walks`, which has no depth
(`walks_foldl_visit`). Such a run is also what a loop with a stack of its own comes to, and it
takes that loop one turn for every node that is looked at and one for every node that it is done
with (`turns_of_walks`).

Of the order in which a run is done with the nodes one thing is kept up, `Settles`: when a node gets
its place, what follows the nodes placed so far, the node itself included, is placed already or
leads to the node. For the nodes that are reached and have no place yet are those that the walk is
in, and these lead to the node at hand. `Outcome` says what a run leaves behind.
-/

namespace Novella.Proofs

open Walk

variable {next : Nat → List Nat}

/-- `next` leads from a node to another one, or to itself, in any number of steps. -/
def Path (next : Nat → List Nat) : Nat → Nat → Prop := Relation.ReflTransGen fun i j => j ∈ next i

lemma Path.head {i j k : Nat} (hstep : j ∈ next i) (h : Path next j k) : Path next i k :=
  Relation.ReflTransGen.head hstep h

/-- On a path out of a set there is a step out of it. -/
lemma Path.exists_step {i j : Nat} (h : Path next i j) {S : Nat → Prop} (hi : S i) (hj : ¬S j) :
    ∃ u v, S u ∧ v ∈ next u ∧ ¬S v ∧ Path next i u ∧ Path next v j := by
  induction h using Relation.ReflTransGen.head_induction_on with
  | refl => exact absurd hi hj
  | head hstep hrest ih =>
    rename_i i k
    by_cases hk : S k
    · obtain ⟨u, v, hu, huv, hv, hku, hvj⟩ := ih hk
      exact ⟨u, v, hu, huv, hv, hku.head hstep, hvj⟩
    · exact ⟨i, k, hi, hstep, hk, .refl, hrest⟩

/-! ## Runs -/

/-- A walk without a depth takes the nodes of a list in turn, and leads from one state to
another. -/
inductive Walks (next : Nat → List Nat) : List Nat → Walk → Walk → Prop
  | done (w : Walk) : Walks next [] w w
  | seen {id : Nat} {ids : List Nat} {w w' : Walk} (hmem : id ∈ w.reached)
      (hrest : Walks next ids w w') : Walks next (id :: ids) w w'
  | enter {id : Nat} {ids : List Nat} {w w₁ w' : Walk} (hnew : id ∉ w.reached)
      (hinner : Walks next (next id) { w with reached := id :: w.reached } w₁)
      (hrest : Walks next ids { w₁ with done := id :: w₁.done } w') : Walks next (id :: ids) w w'

namespace Walks

variable {ids : List Nat} {w w' : Walk}

lemma reached (h : Walks next ids w w') : ∀ i ∈ w.reached, i ∈ w'.reached := by
  induction h with
  | done => exact fun _ hi => hi
  | seen _ _ ih => exact ih
  | enter _ _ _ ihinner ihrest =>
    exact fun i hi => ihrest i (ihinner i (List.mem_cons_of_mem _ hi))

lemma reached_suffix (h : Walks next ids w w') : w.reached <:+ w'.reached := by
  induction h with
  | done => exact List.suffix_refl _
  | seen _ _ ih => exact ih
  | enter _ _ _ ihinner ihrest => exact (List.suffix_cons _ _).trans (ihinner.trans ihrest)

lemma done_suffix (h : Walks next ids w w') : w.done <:+ w'.done := by
  induction h with
  | done => exact List.suffix_refl _
  | seen _ _ ih => exact ih
  | enter _ _ _ ihinner ihrest =>
    exact ihinner.trans ((List.suffix_cons _ _).trans ihrest)

/-- A walk leads from one state to one other. -/
lemma unique {w'' : Walk} (h : Walks next ids w w') (h' : Walks next ids w w'') : w' = w'' := by
  induction h generalizing w'' with
  | done => cases h'; rfl
  | seen hmem _ ih =>
    cases h' with
    | seen _ hrest => exact ih hrest
    | enter hnew => exact absurd hmem hnew
  | enter hnew _ _ ihinner ihrest =>
    cases h' with
    | seen hmem => exact absurd hmem hnew
    | enter _ hinner hrest =>
      obtain rfl := ihinner hinner
      exact ihrest hrest

end Walks

/-- The nodes of a list that a walk has not reached. -/
def unreached (live : List Nat) (w : Walk) : List Nat := live.filter (· ∉ w.reached)

lemma length_unreached_le {live : List Nat} {w w' : Walk} (h : ∀ i ∈ w.reached, i ∈ w'.reached) :
    (unreached live w').length ≤ (unreached live w).length := by
  refine (List.monotone_filter_right live fun i hi => ?_).length_le
  simp only [decide_eq_true_eq] at hi ⊢
  exact fun hmem => hi (h i hmem)

lemma length_unreached_cons {live : List Nat} {w : Walk} {id : Nat} (hid : id ∈ live)
    (hnew : id ∉ w.reached) : (unreached live { w with reached := id :: w.reached }).length <
      (unreached live w).length := by
  have hsplit : unreached live { w with reached := id :: w.reached } =
      (unreached live w).filter (· ≠ id) := by
    rw [unreached, unreached, List.filter_filter]
    refine List.filter_congr fun i _ => ?_
    by_cases hi : i = id <;> simp [hi]
  rw [hsplit]
  exact List.length_filter_lt_length_iff_exists.2
    ⟨id, List.mem_filter.2 ⟨hid, decide_eq_true hnew⟩, by simp⟩

/-- A walk that may go deeper than there are nodes left to reach is not stopped by its depth. -/
theorem walks_foldl_visit {live : List Nat} (hnext : ∀ i ∈ live, ∀ j ∈ next i, j ∈ live)
    {depth : Nat} {ids : List Nat} {w : Walk} (hids : ∀ id ∈ ids, id ∈ live)
    (hdepth : (unreached live w).length < depth) :
    Walks next ids w (ids.foldl (visit next depth) w) := by
  induction depth generalizing ids w with
  | zero => exact absurd hdepth (Nat.not_lt_zero _)
  | succ depth ih =>
    induction ids generalizing w with
    | nil => exact .done w
    | cons id ids ihids =>
      obtain ⟨hid, hrest⟩ := List.forall_mem_cons.1 hids
      rw [List.foldl_cons]
      by_cases hmem : id ∈ w.reached
      · rw [visit_of_mem _ hmem]
        exact .seen hmem (ihids hrest hdepth)
      · rw [visit, if_neg hmem]
        have hfewer := length_unreached_cons hid hmem
        have hinner := ih (hnext id hid) (w := { w with reached := id :: w.reached }) (by omega)
        refine .enter hmem hinner (ihids hrest (Nat.lt_of_le_of_lt ?_ hdepth))
        exact length_unreached_le fun i hi => hinner.reached i (List.mem_cons_of_mem _ hi)

/-! ## The loop -/

/-- A walk in the middle of its work: what it has visited, the nodes that it is to look at next,
and the nodes that it is in, the innermost first, each with the nodes to look at after it. -/
structure Descent where
  walk : Walk
  ids : List Nat
  stack : List (Nat × List Nat) := []

/-- One turn of the loop looks at a node or is done with one. -/
def turn (next : Nat → List Nat) : Descent → Descent
  | ⟨w, [], []⟩ => ⟨w, [], []⟩
  | ⟨w, [], (id, ids) :: stack⟩ => ⟨{ w with done := id :: w.done }, ids, stack⟩
  | ⟨w, id :: ids, stack⟩ =>
    if id ∈ w.reached then ⟨w, ids, stack⟩
    else ⟨{ w with reached := id :: w.reached }, next id, (id, ids) :: stack⟩

/-- The turns that nodes take up: one for each node that follows them, and one to be done. -/
def turnsFor (next : Nat → List Nat) (ids : List Nat) : Nat :=
  (ids.flatMap fun i => i :: next i).length

lemma turnsFor_perm {ids ids' : List Nat} (h : ids.Perm ids') :
    turnsFor next ids = turnsFor next ids' := (h.flatMap_right _).length_eq

/-- The turns for a node that is entered are one to enter it, those for what follows it, and one to be
done with it. -/
lemma turns_enter (id : Nat) (ids inner new : List Nat) :
    (id :: ids).length + turnsFor next (new ++ id :: inner) =
      (ids.length + turnsFor next new) + ((1 + ((next id).length + turnsFor next inner)) + 1) := by
  simp only [turnsFor, List.flatMap_append, List.flatMap_cons, List.length_append, List.length_cons]
  omega

/-- The loop comes to the end of a run, and takes one turn for each node of the list besides the
turns for the nodes that it enters. -/
theorem turns_of_walks {ids : List Nat} {w w' : Walk} (h : Walks next ids w w') :
    ∃ new, w'.done = new ++ w.done ∧ ∀ stack,
      (turn next)^[ids.length + turnsFor next new] ⟨w, ids, stack⟩ = ⟨w', [], stack⟩ := by
  induction h with
  | done w => exact ⟨[], rfl, fun stack => rfl⟩
  | @seen id ids w w' hmem _ ih =>
    obtain ⟨new, hdone, hturns⟩ := ih
    refine ⟨new, hdone, fun stack => ?_⟩
    have hturn : turn next ⟨w, id :: ids, stack⟩ = ⟨w, ids, stack⟩ := if_pos hmem
    rw [List.length_cons, Nat.add_right_comm, Function.iterate_succ_apply, hturn, hturns]
  | @enter id ids w w₁ w' hnew _ _ ihinner ihrest =>
    obtain ⟨inner, hinner, hturns⟩ := ihinner
    obtain ⟨new, hdone, hturns'⟩ := ihrest
    refine ⟨new ++ id :: inner, by rw [hdone, hinner, List.append_assoc]; rfl, fun stack => ?_⟩
    have henter : turn next ⟨w, id :: ids, stack⟩ =
        ⟨{ w with reached := id :: w.reached }, next id, (id, ids) :: stack⟩ := if_neg hnew
    have hleave : turn next ⟨w₁, [], (id, ids) :: stack⟩ =
        ⟨{ w₁ with done := id :: w₁.done }, ids, stack⟩ := rfl
    have hinside : (turn next)^[1 + ((next id).length + turnsFor next inner)]
        ⟨{ w with reached := id :: w.reached }, next id, (id, ids) :: stack⟩ =
        ⟨{ w₁ with done := id :: w₁.done }, ids, stack⟩ := by
      rw [Function.iterate_add_apply, hturns, Function.iterate_one, hleave]
    rw [turns_enter, Function.iterate_add_apply, Function.iterate_succ_apply, henter, hinside, hturns']

/-! ## The order of a run -/

/-- For nodes with the last one first: when a node was placed, what follows the nodes placed so far
was placed already or leads to the node. -/
def Settles (next : Nat → List Nat) : List Nat → Prop
  | [] => True
  | x :: before => Settles next before ∧
      ∀ u ∈ x :: before, ∀ y ∈ next u, y ∈ before ∨ Path next y x

lemma Settles.of_split {after before : List Nat} {x : Nat}
    (h : Settles next (after ++ x :: before)) {u y : Nat} (hu : u ∈ x :: before)
    (hy : y ∈ next u) : y ∈ before ∨ Path next y x := by
  induction after with
  | nil => exact h.2 u hu y hy
  | cons _ after ih => exact ih h.1

/-- What a walk keeps up: it has reached the nodes that it is done with and what follows them, and
is done with no node twice. -/
structure Orderly (next : Nat → List Nat) (w : Walk) : Prop where
  reached : ∀ i ∈ w.done, i ∈ w.reached
  closed : ∀ i ∈ w.done, ClosedAt next w i
  nodup : w.done.Nodup
  settles : Settles next w.done

/-- The nodes that a walk is in lead to all nodes of a list. -/
def Ahead (next : Nat → List Nat) (w : Walk) (ids : List Nat) : Prop :=
  ∀ i ∈ w.reached, i ∉ w.done → ∀ id ∈ ids, Path next i id

/-- What a run through a list leaves behind: `new` are the nodes that it entered, and it is done
with them. -/
structure Outcome (next : Nat → List Nat) (ids : List Nat) (w w' : Walk) (new : List Nat) :
    Prop where
  orderly : Orderly next w'
  done : w'.done = new ++ w.done
  reached : ∀ i, i ∈ w'.reached ↔ i ∈ new ∨ i ∈ w.reached
  fresh : ∀ i ∈ new, i ∉ w.reached
  paths : ∀ i ∈ new, ∃ id ∈ ids, Path next id i
  listed : ∀ id ∈ ids, id ∈ w'.reached

section Runs

variable {ids : List Nat} {w w₁ w' : Walk} {id : Nat} {inner new : List Nat}

lemma Orderly.enter (h : Orderly next w) : Orderly next { w with reached := id :: w.reached } where
  reached i hi := List.mem_cons_of_mem _ (h.reached i hi)
  closed i hi j hj := List.mem_cons_of_mem _ (h.closed i hi j hj)
  nodup := h.nodup
  settles := h.settles

/-- A node that is entered leads to what follows it, and so do the nodes that lead to it. -/
lemma Ahead.enter (h : Ahead next w (id :: ids)) :
    Ahead next { w with reached := id :: w.reached } (next id) := by
  intro i hi hdone j hj
  rcases List.mem_cons.1 hi with rfl | hi
  · exact .single hj
  · exact Relation.ReflTransGen.tail (h i hi hdone id List.mem_cons_self) hj

lemma Ahead.tail (h : Ahead next w (id :: ids)) : Ahead next w ids :=
  fun i hi hdone j hj => h i hi hdone j (List.mem_cons_of_mem _ hj)

/-- When a node gets its place, the nodes without a place lead to it. -/
lemma Outcome.leave (hahead : Ahead next w (id :: ids)) (hnew : id ∉ w.reached)
    (hw : Orderly next w)
    (h : Outcome next (next id) { w with reached := id :: w.reached } w₁ inner) :
    Orderly next { w₁ with done := id :: w₁.done } := by
  have hmem : id ∈ w₁.reached := (h.reached id).2 (.inr List.mem_cons_self)
  have hleft : id ∉ w₁.done := by
    rw [h.done, List.mem_append, not_or]
    exact ⟨fun hi => h.fresh id hi List.mem_cons_self, fun hi => hnew (hw.reached id hi)⟩
  have hfollowed : ∀ u ∈ id :: w₁.done, ∀ y ∈ next u, y ∈ w₁.reached := by
    intro u hu y hy
    rcases List.mem_cons.1 hu with rfl | hu
    · exact h.listed y hy
    · exact h.orderly.closed u hu y hy
  refine ⟨?_, hfollowed, List.nodup_cons.2 ⟨hleft, h.orderly.nodup⟩, h.orderly.settles, ?_⟩
  · intro i hi
    rcases List.mem_cons.1 hi with rfl | hi
    · exact hmem
    · exact h.orderly.reached i hi
  · intro u hu y hy
    by_cases hplaced : y ∈ w₁.done
    · exact .inl hplaced
    · rw [h.done, List.mem_append, not_or] at hplaced
      have hy : y ∈ id :: w.reached :=
        ((h.reached y).1 (hfollowed u hu y hy)).resolve_left hplaced.1
      rcases List.mem_cons.1 hy with rfl | hy
      · exact .inr .refl
      · exact .inr (hahead y hy hplaced.2 id List.mem_cons_self)

/-- Once the walk is done with a node that it entered, it is in the nodes that it was in before. -/
lemma Outcome.ahead (hahead : Ahead next w ids)
    (h : Outcome next (next id) { w with reached := id :: w.reached } w₁ inner) :
    Ahead next { w₁ with done := id :: w₁.done } ids := by
  intro i hmem hout
  rw [List.mem_cons, h.done, List.mem_append, not_or, not_or] at hout
  have hmem : i ∈ id :: w.reached := ((h.reached i).1 hmem).resolve_left hout.2.1
  exact hahead i ((List.mem_cons.1 hmem).resolve_left hout.1) hout.2.2

lemma Outcome.seen (hmem : id ∈ w.reached) (h : Outcome next ids w w' new) :
    Outcome next (id :: ids) w w' new where
  orderly := h.orderly
  done := h.done
  reached := h.reached
  fresh := h.fresh
  paths i hi := by
    obtain ⟨j, hj, hpath⟩ := h.paths i hi
    exact ⟨j, List.mem_cons_of_mem _ hj, hpath⟩
  listed := List.forall_mem_cons.2 ⟨(h.reached id).2 (.inr hmem), h.listed⟩

lemma Outcome.enter (hnew : id ∉ w.reached)
    (hinner : Outcome next (next id) { w with reached := id :: w.reached } w₁ inner)
    (hrest : Outcome next ids { w₁ with done := id :: w₁.done } w' new) :
    Outcome next (id :: ids) w w' (new ++ id :: inner) := by
  have hreached : ∀ i, i ∈ w'.reached ↔ i ∈ new ++ id :: inner ∨ i ∈ w.reached := by
    intro i
    rw [hrest.reached, hinner.reached, List.mem_append, List.mem_cons, List.mem_cons]
    tauto
  refine ⟨hrest.orderly, ?_, hreached, fun i hi => ?_, fun i hi => ?_,
    List.forall_mem_cons.2 ⟨(hreached id).2 (by simp), hrest.listed⟩⟩
  · rw [hrest.done, hinner.done, List.append_assoc]
    rfl
  · rcases List.mem_append.1 hi with hi | hi
    · exact fun hold => hrest.fresh i hi ((hinner.reached i).2 (.inr (List.mem_cons_of_mem _ hold)))
    · rcases List.mem_cons.1 hi with rfl | hi
      · exact hnew
      · exact fun hold => hinner.fresh i hi (List.mem_cons_of_mem _ hold)
  · rcases List.mem_append.1 hi with hi | hi
    · obtain ⟨j, hj, hpath⟩ := hrest.paths i hi
      exact ⟨j, List.mem_cons_of_mem _ hj, hpath⟩
    · refine ⟨id, List.mem_cons_self, ?_⟩
      rcases List.mem_cons.1 hi with rfl | hi
      · exact .refl
      · obtain ⟨j, hj, hpath⟩ := hinner.paths i hi
        exact hpath.head hj

/-- A run through a list that begins in order ends in order. -/
theorem Walks.outcome (h : Walks next ids w w') (hw : Orderly next w) (hahead : Ahead next w ids) :
    ∃ new, Outcome next ids w w' new := by
  induction h with
  | done w =>
    exact ⟨[], hw, rfl, by simp, fun _ hi => absurd hi List.not_mem_nil,
      fun _ hi => absurd hi List.not_mem_nil, fun _ hi => absurd hi List.not_mem_nil⟩
  | seen hmem _ ih =>
    obtain ⟨new, hrest⟩ := ih hw hahead.tail
    exact ⟨new, hrest.seen hmem⟩
  | enter hnew _ _ ihinner ihrest =>
    obtain ⟨inner, hinner⟩ := ihinner hw.enter hahead.enter
    obtain ⟨new, hrest⟩ := ihrest (hinner.leave hahead hnew hw) (hinner.ahead hahead.tail)
    exact ⟨_, hinner.enter hnew hrest⟩

end Runs

lemma orderly_empty : Orderly next {} where
  reached _ h := h
  closed _ h := absurd h List.not_mem_nil
  nodup := List.nodup_nil
  settles := trivial

lemma ahead_empty (ids : List Nat) : Ahead next {} ids := fun _ h => absurd h List.not_mem_nil

/-- A run that starts anew is in no node when it ends. -/
theorem Walks.outcome_empty {ids : List Nat} {w : Walk} (h : Walks next ids {} w) :
    Outcome next ids {} w w.done := by
  obtain ⟨new, houtcome⟩ := h.outcome orderly_empty (ahead_empty ids)
  obtain rfl : w.done = new := houtcome.done.trans (List.append_nil new)
  exact houtcome

section Anew

variable {ids : List Nat} {w : Walk}

lemma Outcome.mem_done (h : Outcome next ids {} w w.done) {i : Nat} (hi : i ∈ w.reached) :
    i ∈ w.done :=
  ((h.reached i).1 hi).resolve_right List.not_mem_nil

lemma Outcome.mem_done_of_path (h : Outcome next ids {} w w.done) {i j : Nat} (hi : i ∈ w.done)
    (hpath : Path next i j) : j ∈ w.done := by
  induction hpath with
  | refl => exact hi
  | tail _ hstep ih => exact h.mem_done (h.orderly.closed _ ih _ hstep)

/-- A run from all nodes is done with each of them once. -/
lemma Outcome.perm (h : Outcome next ids {} w w.done) (hids : ids.Nodup)
    (hnext : ∀ i ∈ ids, ∀ j ∈ next i, j ∈ ids) : w.done.Perm ids := by
  refine (List.perm_ext_iff_of_nodup h.orderly.nodup hids).2 fun i => ⟨fun hi => ?_, fun hi => ?_⟩
  · obtain ⟨id, hid, hpath⟩ := h.paths i hi
    induction hpath with
    | refl => exact hid
    | tail hsome hstep ih =>
      exact hnext _ (ih (h.mem_done_of_path (h.mem_done (h.listed id hid)) hsome)) _ hstep
  · exact h.mem_done (h.listed i hi)

end Anew

end Novella.Proofs
