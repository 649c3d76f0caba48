import Mathlib.Data.List.Chain
import Novella.Graph.Cycles
import Novella.Proofs.Graph.DepthFirst

/-!
# The search for cycles

The search for cycles is a walk that knows its path: the nodes that it is in, the outermost first.
Like a walk it is a run without a depth where it may go deeper than there are nodes left to reach
(`searches_foldl_visit`), and the loop that comes to the same takes as many turns
(`hunts_of_searches`). `Underway` is what a run keeps up.

Which nodes are reported is settled at the moment when the search enters a node (`Entered`). What it
is done with then it does not enter again, and no later path holds it. So the node is reported if
and only if steps lead from it back to it past the nodes that the search is done with
(`Entered.reported_iff`).
-/

namespace Novella.Proofs

open CycleSearch

variable {next : Nat → List Nat}

/-! ## Circuits -/

/-- The members of a list follow one another, each once, and the first follows the last. -/
structure Circuit (R : Nat → Nat → Prop) (l : List Nat) : Prop where
  nonempty : l ≠ []
  nodup : l.Nodup
  chain : l.IsChain R
  closes : ∀ first ∈ l.head?, ∀ last ∈ l.getLast?, R last first

section Circuits

variable {R S : Nat → Nat → Prop} {l : List Nat} {i j : Nat}

lemma Circuit.imp (h : Circuit R l) (hS : ∀ i ∈ l, ∀ j ∈ l, R i j → S i j) : Circuit S l where
  nonempty := h.nonempty
  nodup := h.nodup
  chain := h.chain.imp_of_mem_imp fun i j hi hj => hS i hi j hj
  closes first hfirst last hlast := hS last (List.mem_of_getLast? hlast) first
    (List.mem_of_head? hfirst) (h.closes _ hfirst _ hlast)

lemma leads_last_of_isChain (h : l.IsChain R) (hi : i ∈ l) (hj : j ∈ l.getLast?) :
    Relation.ReflTransGen R i j := by
  refine h.backwards_induction (Relation.ReflTransGen R · j) l
    (fun _ _ hstep hrest => hrest.head hstep) (fun hne => ?_) i hi
  rw [List.getLast?_eq_some_getLast hne] at hj
  rw [Option.some.inj hj]

lemma leads_head_of_isChain (h : l.IsChain R) (hi : i ∈ l) (hj : j ∈ l.head?) :
    Relation.ReflTransGen R j i := by
  refine h.induction (Relation.ReflTransGen R j) l (fun _ _ hstep hrest => hrest.tail hstep)
    (fun hne => ?_) i hi
  rw [List.head?_eq_some_head hne] at hj
  rw [Option.some.inj hj]

/-- On a circuit steps lead from every member to every member, also back to itself. -/
lemma Circuit.transGen (h : Circuit R l) (hi : i ∈ l) (hj : j ∈ l) : Relation.TransGen R i j := by
  obtain ⟨first, hfirst⟩ := Option.ne_none_iff_exists'.1 (mt List.head?_eq_none_iff.1 h.nonempty)
  obtain ⟨last, hlast⟩ := Option.ne_none_iff_exists'.1 (mt List.getLast?_eq_none_iff.1 h.nonempty)
  have hout := leads_last_of_isChain h.chain hi hlast
  have hback := leads_head_of_isChain h.chain hj hfirst
  exact .trans_right hout (.trans_left (.single (h.closes _ hfirst _ hlast)) hback)

end Circuits

/-! ## Reports -/

/-- The part of a path that begins with a node of it. -/
lemma dropWhile_split {path : List Nat} {id : Nat} (h : id ∈ path) :
    ∃ before after, path = before ++ id :: after ∧ path.dropWhile (· ≠ id) = id :: after := by
  obtain ⟨before, after, rfl, hbefore⟩ := List.eq_append_cons_of_mem h
  have hne : ∀ i ∈ before, decide (i ≠ id) = true := fun i hi =>
    decide_eq_true fun heq => hbefore (heq ▸ hi)
  refine ⟨before, after, rfl, ?_⟩
  rw [List.dropWhile_append_of_pos hne, List.dropWhile_cons_of_neg (by simp)]

lemma dropWhile_append_of_mem {path : List Nat} {id : Nat} (h : id ∈ path) (rest : List Nat) :
    (path ++ rest).dropWhile (· ≠ id) = path.dropWhile (· ≠ id) ++ rest := by
  obtain ⟨before, after, -, hdrop⟩ := dropWhile_split h
  rw [List.dropWhile_append, hdrop]
  rfl

section Reports

variable {s : CycleSearch} {l m : List Nat}

lemma reached_report (s : CycleSearch) (m : List Nat) : (s.report m).reached = s.reached := by
  rw [report]
  split <;> rfl

lemma mem_report (h : l ∈ (s.report m).cycles) : l ∈ s.cycles ∨ l = m := by
  rw [report] at h
  split at h
  · exact .inl h
  · exact (List.mem_append.1 h).imp_right List.mem_singleton.1

lemma subset_report (m : List Nat) (h : l ∈ s.cycles) : l ∈ (s.report m).cycles := by
  rw [report]
  split
  · exact h
  · exact List.mem_append_left _ h

lemma ascending_eq_iff : ascending l = ascending m ↔ ∀ i, i ∈ l ↔ i ∈ m := by
  constructor
  · intro h i
    rw [← mem_ascending, h, mem_ascending]
  · intro h
    exact ascending_eq (ascending_pairwise m) fun i => (h i).trans mem_ascending.symm

/-- What is reported is known afterwards, if need be under another order of its members. -/
lemma exists_mem_report (s : CycleSearch) (m : List Nat) :
    ∃ l ∈ (s.report m).cycles, ∀ i, i ∈ l ↔ i ∈ m := by
  rw [report]
  split
  · next h =>
    obtain ⟨l, hl, heq⟩ := List.any_eq_true.1 h
    exact ⟨l, hl, ascending_eq_iff.1 (of_decide_eq_true heq)⟩
  · exact ⟨m, List.mem_append_right _ List.mem_cons_self, fun _ => Iff.rfl⟩

/-- No two lists have the same members. -/
def Apart (cycles : List (List Nat)) : Prop := cycles.Pairwise fun l l' => ¬∀ i, i ∈ l ↔ i ∈ l'

lemma Apart.report (h : Apart s.cycles) (m : List Nat) : Apart (s.report m).cycles := by
  rw [CycleSearch.report]
  split
  · exact h
  · next hnew =>
    refine List.pairwise_append.2 ⟨h, List.pairwise_singleton _ _, fun l hl m' hm' hsame => hnew ?_⟩
    obtain rfl := List.mem_singleton.1 hm'
    exact List.any_eq_true.2 ⟨l, hl, decide_eq_true (ascending_eq_iff.2 hsame)⟩

end Reports

/-! ## Runs -/

/-- A search without a depth takes the nodes of a list in turn, at the end of a path. `d` and `d'`
are the nodes that it is done with, before and afterwards. -/
inductive Searches (next : Nat → List Nat) : List Nat → List Nat →
    CycleSearch → List Nat → CycleSearch → List Nat → Prop
  | done (path : List Nat) (s : CycleSearch) (d : List Nat) : Searches next path [] s d s d
  | back {path ids : List Nat} {id : Nat} {s s' : CycleSearch} {d d' : List Nat} (hmem : id ∈ path)
      (hrest : Searches next path ids (s.report (path.dropWhile (· ≠ id))) d s' d') :
      Searches next path (id :: ids) s d s' d'
  | seen {path ids : List Nat} {id : Nat} {s s' : CycleSearch} {d d' : List Nat} (hout : id ∉ path)
      (hmem : id ∈ s.reached) (hrest : Searches next path ids s d s' d') :
      Searches next path (id :: ids) s d s' d'
  | enter {path ids : List Nat} {id : Nat} {s s₁ s' : CycleSearch} {d d₁ d' : List Nat}
      (hout : id ∉ path) (hnew : id ∉ s.reached)
      (hinner : Searches next (path ++ [id]) (next id) { s with reached := id :: s.reached } d
        s₁ d₁)
      (hrest : Searches next path ids s₁ (id :: d₁) s' d') :
      Searches next path (id :: ids) s d s' d'

/-- A search that may go deeper than there are nodes left to reach is not stopped by its depth. -/
theorem searches_foldl_visit {live : List Nat} (hnext : ∀ i ∈ live, ∀ j ∈ next i, j ∈ live)
    {depth : Nat} (path : List Nat) {ids : List Nat} {s : CycleSearch} (d : List Nat)
    (hids : ∀ id ∈ ids, id ∈ live) (hdepth : (unreached live ⟨s.reached, d⟩).length < depth) :
    ∃ d', Searches next path ids s d (ids.foldl (visit next depth path) s) d' ∧
      ∀ i ∈ s.reached, i ∈ (ids.foldl (visit next depth path) s).reached := by
  induction depth generalizing path ids s d with
  | zero => exact absurd hdepth (Nat.not_lt_zero _)
  | succ depth ih =>
    induction ids generalizing s d with
    | nil => exact ⟨d, .done path s d, fun _ hi => hi⟩
    | cons id ids ihids =>
      obtain ⟨hid, hrest⟩ := List.forall_mem_cons.1 hids
      rw [List.foldl_cons, visit]
      by_cases hpath : id ∈ path
      · rw [if_pos hpath]
        have hreached := reached_report s (path.dropWhile (· ≠ id))
        obtain ⟨d', hrun, hmore⟩ := ihids (s := s.report (path.dropWhile (· ≠ id))) d hrest
          (by rwa [hreached])
        exact ⟨d', .back hpath hrun, hreached ▸ hmore⟩
      · rw [if_neg hpath]
        by_cases hmem : id ∈ s.reached
        · rw [if_pos hmem]
          obtain ⟨d', hrun, hmore⟩ := ihids d hrest hdepth
          exact ⟨d', .seen hpath hmem hrun, hmore⟩
        · rw [if_neg hmem]
          have hfewer := length_unreached_cons (w := ⟨s.reached, d⟩) hid hmem
          obtain ⟨d₁, hinner, hmore⟩ := ih (path ++ [id])
            (s := { s with reached := id :: s.reached }) d (hnext id hid)
            (Nat.lt_of_lt_of_le hfewer (Nat.le_of_lt_succ hdepth))
          have hmore' := fun i hi => hmore i (List.mem_cons_of_mem _ hi)
          obtain ⟨d', hrun, hmost⟩ := ihids (id :: d₁) hrest
            (Nat.lt_of_le_of_lt (length_unreached_le (w := ⟨s.reached, d⟩) hmore') hdepth)
          exact ⟨d', .enter hpath hmem hinner hrun, fun i hi => hmost i (hmore' i hi)⟩

section Runs

variable {path ids : List Nat} {id : Nat} {s s₁ s' : CycleSearch} {d d₁ d' : List Nat}

/-- A search is a walk. -/
lemma Searches.walks (h : Searches next path ids s d s' d') (hpath : ∀ i ∈ path, i ∈ s.reached) :
    Walks next ids ⟨s.reached, d⟩ ⟨s'.reached, d'⟩ := by
  induction h with
  | done path s d => exact .done _
  | back hmem _ ih =>
    rw [reached_report] at ih
    exact .seen (hpath _ hmem) (ih hpath)
  | seen _ hmem _ ih => exact .seen hmem (ih hpath)
  | @enter path ids id s _ _ _ _ _ _ hnew _ _ ihinner ihrest =>
    have hlonger : ∀ i ∈ path ++ [id], i ∈ id :: s.reached := fun i hi =>
      (List.mem_append.1 hi).elim (fun hi => List.mem_cons_of_mem _ (hpath i hi)) fun hi =>
        List.mem_singleton.1 hi ▸ List.mem_cons_self
    have hinner := ihinner hlonger
    refine .enter hnew hinner (ihrest fun i hi => ?_)
    exact hinner.reached i (List.mem_cons_of_mem _ (hpath i hi))

lemma Searches.cycles_subset (h : Searches next path ids s d s' d') :
    ∀ l ∈ s.cycles, l ∈ s'.cycles := by
  induction h with
  | done => exact fun _ hl => hl
  | back _ _ ih => exact fun l hl => ih l (subset_report _ hl)
  | seen _ _ _ ih => exact ih
  | enter _ _ _ _ ihinner ihrest => exact fun l hl => ihrest l (ihinner l hl)

/-- Where what follows the last node of the path or a node that the run enters is on the path, the
path from there on is reported. -/
lemma Searches.reports (h : Searches next path ids s d s' d') {v : Nat} (hv : v ∈ path)
    (hback : v ∈ ids ∨ ∃ u, u ∈ s'.reached ∧ u ∉ s.reached ∧ v ∈ next u) :
    ∃ l ∈ s'.cycles, ∀ i ∈ path.dropWhile (· ≠ v), i ∈ l := by
  induction h with
  | done =>
    rcases hback with hmem | ⟨u, hu, hnew, -⟩
    · exact absurd hmem List.not_mem_nil
    · exact absurd hu hnew
  | @back path ids id s _ _ _ _ hrest ih =>
    rw [reached_report] at ih
    rcases hback with hmem | hback
    · rcases List.mem_cons.1 hmem with rfl | hmem
      · obtain ⟨l, hl, hsame⟩ := exists_mem_report s (path.dropWhile (· ≠ v))
        exact ⟨l, hrest.cycles_subset l hl, fun i hi => (hsame i).2 hi⟩
      · exact ih hv (.inl hmem)
    · exact ih hv (.inr hback)
  | seen hout _ _ ih =>
    rcases hback with hmem | hback
    · rcases List.mem_cons.1 hmem with rfl | hmem
      · exact absurd hv hout
      · exact ih hv (.inl hmem)
    · exact ih hv (.inr hback)
  | @enter path ids id s s₁ s' _ _ _ hout _ hinner hrest ihinner ihrest =>
    have hinside (h : v ∈ next id ∨ ∃ u, u ∈ s₁.reached ∧ u ∉ id :: s.reached ∧ v ∈ next u) :
        ∃ l ∈ s'.cycles, ∀ i ∈ path.dropWhile (· ≠ v), i ∈ l := by
      obtain ⟨l, hl, hsub⟩ := ihinner (List.mem_append_left _ hv) h
      refine ⟨l, hrest.cycles_subset l hl, fun i hi => hsub i ?_⟩
      rw [dropWhile_append_of_mem hv]
      exact List.mem_append_left _ hi
    rcases hback with hmem | ⟨u, hu, hnew, hstep⟩
    · rcases List.mem_cons.1 hmem with rfl | hmem
      · exact absurd hv hout
      · exact ihrest hv (.inl hmem)
    · by_cases hu₁ : u ∈ s₁.reached
      · by_cases hid : u = id
        · exact hinside (.inl (hid ▸ hstep))
        · exact hinside (.inr ⟨u, hu₁, fun h => hnew ((List.mem_cons.1 h).resolve_left hid), hstep⟩)
      · exact ihrest hv (.inr ⟨u, hu, hu₁, hstep⟩)

/-- What a search keeps up that is about to take the nodes `ids`: its path is made up of the nodes
that it is in, each followed by the next, and the last one by `ids`; and what it has reported are
circuits of nodes that it has reached. -/
structure Underway (next : Nat → List Nat) (path ids : List Nat) (s : CycleSearch) (d : List Nat) :
    Prop where
  orderly : Orderly next ⟨s.reached, d⟩
  mem_path : ∀ i, i ∈ path ↔ i ∈ s.reached ∧ i ∉ d
  nodup : path.Nodup
  chain : path.IsChain fun i j => j ∈ next i
  leads : ∀ last ∈ path.getLast?, ∀ id ∈ ids, id ∈ next last
  circuits : ∀ l ∈ s.cycles, Circuit (fun i j => j ∈ next i) l ∧ ∀ i ∈ l, i ∈ s.reached
  apart : Apart s.cycles

lemma underway_empty (ids : List Nat) : Underway next [] ids {} [] where
  orderly := orderly_empty
  mem_path i := by simp
  nodup := List.nodup_nil
  chain := .nil
  leads _ h := nomatch h
  circuits _ h := nomatch h
  apart := .nil

lemma Underway.tail (h : Underway next path (id :: ids) s d) : Underway next path ids s d :=
  { h with leads := fun last hlast i hi => h.leads last hlast i (List.mem_cons_of_mem _ hi) }

lemma Underway.reached (h : Underway next path ids s d) : ∀ i ∈ path, i ∈ s.reached :=
  fun i hi => ((h.mem_path i).1 hi).1

lemma Underway.ahead (h : Underway next path ids s d) : Ahead next ⟨s.reached, d⟩ ids := by
  intro i hi hout id hid
  have hmem : i ∈ path := (h.mem_path i).2 ⟨hi, hout⟩
  obtain ⟨last, hlast⟩ := Option.ne_none_iff_exists'.1
    (mt List.getLast?_eq_none_iff.1 (List.ne_nil_of_mem hmem))
  exact (leads_last_of_isChain h.chain hmem hlast).tail (h.leads last hlast id hid)

/-- From a node on the path on, the path is a circuit if its last node leads back to that node. -/
lemma Underway.circuit (h : Underway next path (id :: ids) s d) (hmem : id ∈ path) :
    Circuit (fun i j => j ∈ next i) (path.dropWhile (· ≠ id)) := by
  obtain ⟨before, after, hsplit, hdrop⟩ := dropWhile_split hmem
  have hsuffix : id :: after <:+ path := ⟨before, hsplit.symm⟩
  rw [hdrop]
  refine ⟨List.cons_ne_nil _ _, h.nodup.sublist hsuffix.sublist, h.chain.suffix hsuffix, ?_⟩
  intro first hfirst last hlast
  obtain rfl : id = first := Option.some.inj hfirst
  exact h.leads last (hsplit ▸ List.getLast?_append_of_ne_nil _ (List.cons_ne_nil _ _) ▸ hlast) id
    List.mem_cons_self

lemma Underway.back (h : Underway next path (id :: ids) s d) (hmem : id ∈ path) :
    Underway next path ids (s.report (path.dropWhile (· ≠ id))) d where
  orderly := reached_report s _ ▸ h.orderly
  mem_path := reached_report s _ ▸ h.mem_path
  nodup := h.nodup
  chain := h.chain
  leads := h.tail.leads
  circuits l hl := by
    rw [reached_report]
    rcases mem_report hl with hl | rfl
    · exact h.circuits l hl
    · exact ⟨h.circuit hmem, fun i hi => h.reached i ((List.dropWhile_sublist _).subset hi)⟩
  apart := h.apart.report _

lemma Underway.enter (h : Underway next path (id :: ids) s d) (hout : id ∉ path)
    (hnew : id ∉ s.reached) :
    Underway next (path ++ [id]) (next id) { s with reached := id :: s.reached } d where
  orderly := h.orderly.enter
  mem_path i := by
    have hleft : id ∉ d := fun hid => hnew (h.orderly.reached id hid)
    rw [List.mem_append, List.mem_singleton, h.mem_path, List.mem_cons]
    constructor
    · rintro (⟨hi, hd⟩ | rfl)
      · exact ⟨.inr hi, hd⟩
      · exact ⟨.inl rfl, hleft⟩
    · rintro ⟨rfl | hi, hd⟩
      · exact .inr rfl
      · exact .inl ⟨hi, hd⟩
  nodup := List.nodup_append.2 ⟨h.nodup, List.nodup_singleton _, by
    rintro i hi j hj rfl
    exact hout (List.mem_singleton.1 hj ▸ hi)⟩
  chain := h.chain.append (List.isChain_singleton _) fun last hlast i hi => by
    obtain rfl := Option.some.inj hi
    exact h.leads last hlast id List.mem_cons_self
  leads last hlast i hi := by
    rw [List.getLast?_concat] at hlast
    exact Option.some.inj hlast ▸ hi
  circuits l hl :=
    ⟨(h.circuits l hl).1, fun i hi => List.mem_cons_of_mem _ ((h.circuits l hl).2 i hi)⟩
  apart := h.apart

/-- Once the search is done with a node that it entered, it is on the path that it was on before. -/
lemma Underway.leave (h : Underway next path (id :: ids) s d) (hout : id ∉ path)
    (hnew : id ∉ s.reached)
    (hinner : Searches next (path ++ [id]) (next id) { s with reached := id :: s.reached } d s₁ d₁)
    (hend : Underway next (path ++ [id]) [] s₁ d₁) : Underway next path ids s₁ (id :: d₁) where
  orderly := by
    have henter := h.enter hout hnew
    obtain ⟨inner, houtcome⟩ := (hinner.walks henter.reached).outcome henter.orderly henter.ahead
    exact houtcome.leave h.ahead hnew h.orderly
  mem_path i := by
    rw [List.mem_cons, not_or, and_left_comm, ← hend.mem_path, List.mem_append, List.mem_singleton]
    constructor
    · exact fun hi => ⟨fun heq => hout (heq ▸ hi), .inl hi⟩
    · rintro ⟨hne, hi | heq⟩
      · exact hi
      · exact absurd heq hne
  nodup := h.nodup
  chain := h.chain
  leads := h.tail.leads
  circuits := hend.circuits
  apart := hend.apart

/-- What a search keeps up it has kept up when it ends. -/
theorem Searches.underway (hrun : Searches next path ids s d s' d')
    (h : Underway next path ids s d) : Underway next path [] s' d' := by
  induction hrun with
  | done => exact h
  | back hmem _ ih => exact ih (h.back hmem)
  | seen _ _ _ ih => exact ih h.tail
  | enter hout hnew hinner _ ihinner ihrest =>
    exact ihrest (h.leave hout hnew hinner (ihinner (h.enter hout hnew)))

/-- A list that a run reports holds no node that the search was done with when the run began. -/
lemma Searches.cycles_avoid (hrun : Searches next path ids s d s' d')
    (h : Underway next path ids s d) : ∀ l ∈ s'.cycles, l ∈ s.cycles ∨ ∀ i ∈ l, i ∉ d := by
  induction hrun with
  | done => exact fun l hl => .inl hl
  | back hmem _ ih =>
    intro l hl
    rcases ih (h.back hmem) l hl with hl | havoid
    · rcases mem_report hl with hl | rfl
      · exact .inl hl
      · exact .inr fun i hi => ((h.mem_path i).1 ((List.dropWhile_sublist _).subset hi)).2
    · exact .inr havoid
  | seen _ _ _ ih => exact ih h.tail
  | enter hout hnew hinner _ ihinner ihrest =>
    intro l hl
    have henter := h.enter hout hnew
    rcases ihrest (h.leave hout hnew hinner (hinner.underway henter)) l hl with hl | havoid
    · exact ihinner henter l hl
    · refine .inr fun i hi hid => havoid i hi (List.mem_cons_of_mem _ ?_)
      exact (hinner.walks henter.reached).done_suffix.subset hid

/-! ## Entering a node -/

/-- The moment at which a search that ends with `s'` and `d'` enters the node `c`: it is on the path
`p`, has found `t`, is done with `e`, and will have found `t₁` and be done with `e₁` when it leaves
the node again. -/
structure Entered (next : Nat → List Nat) (c : Nat) (s' : CycleSearch) (d' p : List Nat)
    (t : CycleSearch) (e : List Nat) (t₁ : CycleSearch) (e₁ : List Nat) : Prop where
  underway : Underway next p [c] t e
  out : c ∉ p
  fresh : c ∉ t.reached
  run : Searches next (p ++ [c]) (next c) { t with reached := c :: t.reached } e t₁ e₁
  reached : c :: t.reached <:+ s'.reached
  done : c :: e₁ <:+ d'
  kept : ∀ l ∈ t₁.cycles, l ∈ s'.cycles
  named : ∀ l ∈ s'.cycles, c ∈ l → l ∈ t₁.cycles

/-- A node that a run reaches it enters at some moment, and what names the node is reported before
the search leaves it. -/
theorem Searches.entered (hrun : Searches next path ids s d s' d') (h : Underway next path ids s d)
    {c : Nat} (hc : c ∈ s'.reached) (hfresh : c ∉ s.reached) :
    ∃ p t e t₁ e₁, Entered next c s' d' p t e t₁ e₁ := by
  induction hrun with
  | done => exact absurd hc hfresh
  | back hmem _ ih => exact ih (h.back hmem) hc (by rwa [reached_report])
  | seen _ _ _ ih => exact ih h.tail hc hfresh
  | @enter path ids id s s₁ s' d d₁ d' hout hnew hinner hrest ihinner ihrest =>
    have henter := h.enter hout hnew
    have hleave := h.leave hout hnew hinner (hinner.underway henter)
    have hwalk := hrest.walks hleave.reached
    -- What the rest of the run reports does not name a node that the search is done with.
    have hnamed : ∀ l ∈ s'.cycles, ∀ i ∈ l, i ∈ id :: d₁ → l ∈ s₁.cycles := fun l hl i hi hid =>
      (hrest.cycles_avoid hleave l hl).resolve_right fun havoid => havoid i hi hid
    by_cases hid : c = id
    · subst hid
      refine ⟨path, s, d, s₁, d₁, ?_, hout, hnew, hinner, ?_, hwalk.done_suffix, hrest.cycles_subset,
        fun l hl hcl => hnamed l hl c hcl List.mem_cons_self⟩
      · exact { h with
          leads := fun last hlast i hi =>
            h.leads last hlast i (List.mem_singleton.1 hi ▸ List.mem_cons_self) }
      · exact (hinner.walks henter.reached).reached_suffix.trans hwalk.reached_suffix
    · by_cases hin : c ∈ s₁.reached
      · have hfresh' : c ∉ id :: s.reached := fun hmem =>
          (List.mem_cons.1 hmem).elim hid hfresh
        obtain ⟨p, t, e, t₁, e₁, hmoment⟩ := ihinner henter hin hfresh'
        have hdone := hmoment.done.trans (List.suffix_cons id d₁)
        exact ⟨p, t, e, t₁, e₁,
          { hmoment with
            reached := hmoment.reached.trans hwalk.reached_suffix
            done := hdone.trans hwalk.done_suffix
            kept := fun l hl => hrest.cycles_subset l (hmoment.kept l hl)
            named := fun l hl hcl => hmoment.named l
              (hnamed l hl c hcl (hdone.subset List.mem_cons_self)) hcl }⟩
      · exact ihrest hleave hc hin

end Runs

section Entering

variable {c : Nat} {s' t t₁ : CycleSearch} {d' p e e₁ : List Nat}

lemma Entered.entering (h : Entered next c s' d' p t e t₁ e₁) :
    Underway next (p ++ [c]) (next c) { t with reached := c :: t.reached } e :=
  h.underway.enter h.out h.fresh

lemma Entered.outcome (h : Entered next c s' d' p t e t₁ e₁) :
    ∃ inner, Outcome next (next c) ⟨c :: t.reached, e⟩ ⟨t₁.reached, e₁⟩ inner :=
  (h.run.walks h.entering.reached).outcome h.entering.orderly h.entering.ahead

/-- The nodes that the search is done with when it enters a node are those that it had reached then
and is done with when it leaves the node. -/
lemma Entered.mem_iff (h : Entered next c s' d' p t e t₁ e₁) {i : Nat} :
    i ∈ e ↔ i ∈ t.reached ∧ i ∈ e₁ := by
  obtain ⟨inner, houtcome⟩ := h.outcome
  have hdone : e₁ = inner ++ e := houtcome.done
  rw [hdone, List.mem_append]
  constructor
  · exact fun hi => ⟨h.underway.orderly.reached i hi, .inr hi⟩
  · rintro ⟨hreached, hi | hi⟩
    · exact absurd (List.mem_cons_of_mem _ hreached) (houtcome.fresh i hi)
    · exact hi

/-- On a closed way from within a set either a step leads out of the set, or its last step comes
from within the set. -/
lemma exists_leaving_or_closing {R : Nat → Nat → Prop} {S : Nat → Prop} {i j : Nat}
    (h : Relation.TransGen R i j) (hi : S i) :
    (∃ u v, S u ∧ R u v ∧ ¬S v) ∨ ∃ u, S u ∧ R u j := by
  induction h with
  | single hstep => exact .inr ⟨i, hi, hstep⟩
  | @tail k j _ hstep ih =>
    rcases ih with hleaving | ⟨u, hu, hclosing⟩
    · exact .inl hleaving
    · by_cases hk : S k
      · exact .inr ⟨k, hk, hstep⟩
      · exact .inl ⟨u, k, hu, hclosing, hk⟩

/-- A node is named by a report if and only if steps lead from it back to it past the nodes that the
search is done with when it enters the node. -/
theorem Entered.reported_iff (h : Entered next c s' d' p t e t₁ e₁) :
    (∃ l ∈ s'.cycles, c ∈ l) ↔ Relation.TransGen (fun u v => v ∈ next u ∧ v ∉ e) c c := by
  constructor
  · rintro ⟨l, hl, hc⟩
    have hl₁ := h.named l hl hc
    have hcircuit := ((h.run.underway h.entering).circuits l hl₁).1
    have havoid : ∀ i ∈ l, i ∉ e := (h.run.cycles_avoid h.entering l hl₁).resolve_left fun hold =>
      h.fresh ((h.underway.circuits l hold).2 c hc)
    exact (hcircuit.imp fun i _ j hj hstep => ⟨hstep, havoid j hj⟩).transGen hc hc
  · intro hback
    obtain ⟨inner, houtcome⟩ := h.outcome
    -- The set is `c` and what the search enters from it: a step out of it leads to the path.
    have hstep : ∀ u, u ∈ c :: inner → ∀ v ∈ next u, v ∈ t₁.reached := by
      intro u hu v hv
      rcases List.mem_cons.1 hu with rfl | hu
      · exact houtcome.listed v hv
      · exact houtcome.orderly.closed u (houtcome.done ▸ List.mem_append_left _ hu) v hv
    obtain ⟨u, v, hu, hv, hpath⟩ : ∃ u v, u ∈ c :: inner ∧ v ∈ next u ∧ v ∈ p ++ [c] := by
      rcases exists_leaving_or_closing (S := fun i => i ∈ c :: inner) hback List.mem_cons_self with
        ⟨u, v, hu, ⟨hv, hpast⟩, hout⟩ | ⟨u, hu, hv, -⟩
      · rw [List.mem_cons, not_or] at hout
        have hold := ((houtcome.reached v).1 (hstep u hu v hv)).resolve_left hout.2
        exact ⟨u, v, hu, hv, (h.entering.mem_path v).2 ⟨hold, hpast⟩⟩
      · exact ⟨u, c, hu, hv, List.mem_append_right _ List.mem_cons_self⟩
    have hfound : v ∈ next c ∨ ∃ u, u ∈ t₁.reached ∧ u ∉ c :: t.reached ∧ v ∈ next u := by
      rcases List.mem_cons.1 hu with rfl | hu
      · exact .inl hv
      · exact .inr ⟨u, (houtcome.reached u).2 (.inl hu), houtcome.fresh u hu, hv⟩
    obtain ⟨l, hl, hsub⟩ := h.run.reports hpath hfound
    obtain ⟨before, after, hsplit, hdrop⟩ := dropWhile_split hpath
    have hlast : (before ++ v :: after).getLast? = some c := hsplit ▸ List.getLast?_concat
    rw [List.getLast?_append_of_ne_nil _ (List.cons_ne_nil _ _)] at hlast
    exact ⟨l, h.kept l hl, hsub c (hdrop ▸ List.mem_of_getLast? hlast)⟩

end Entering

/-! ## The loop -/

/-- A search in the middle of its work: what it has found, the nodes that it is to look at next, and
the nodes that it is in, the innermost first, each with the nodes to look at after it. -/
structure Hunt where
  search : CycleSearch
  ids : List Nat
  stack : List (Nat × List Nat) := []

def pathOf (stack : List (Nat × List Nat)) : List Nat := (stack.map (·.1)).reverse

/-- One turn of the loop looks at a node, which may close a cycle, or is done with one. -/
def hunt (next : Nat → List Nat) : Hunt → Hunt
  | ⟨s, [], []⟩ => ⟨s, [], []⟩
  | ⟨s, [], (_, ids) :: stack⟩ => ⟨s, ids, stack⟩
  | ⟨s, id :: ids, stack⟩ =>
    if id ∈ pathOf stack then ⟨s.report ((pathOf stack).dropWhile (· ≠ id)), ids, stack⟩
    else if id ∈ s.reached then ⟨s, ids, stack⟩
    else ⟨{ s with reached := id :: s.reached }, next id, (id, ids) :: stack⟩

/-- The loop comes to the end of a run, and takes as many turns as for a walk. -/
theorem hunts_of_searches {path ids : List Nat} {s s' : CycleSearch} {d d' : List Nat}
    (h : Searches next path ids s d s' d') :
    ∃ new, d' = new ++ d ∧ ∀ stack, pathOf stack = path →
      (hunt next)^[ids.length + turnsFor next new] ⟨s, ids, stack⟩ = ⟨s', [], stack⟩ := by
  induction h with
  | done path s d => exact ⟨[], rfl, fun stack _ => rfl⟩
  | @back path ids id s s' d d' hmem _ ih =>
    obtain ⟨new, hdone, hturns⟩ := ih
    refine ⟨new, hdone, fun stack hstack => ?_⟩
    have hturn : hunt next ⟨s, id :: ids, stack⟩ =
        ⟨s.report (path.dropWhile (· ≠ id)), ids, stack⟩ := by
      subst hstack
      exact if_pos hmem
    rw [List.length_cons, Nat.add_right_comm, Function.iterate_succ_apply, hturn,
      hturns stack hstack]
  | @seen path ids id s s' d d' hout hmem _ ih =>
    obtain ⟨new, hdone, hturns⟩ := ih
    refine ⟨new, hdone, fun stack hstack => ?_⟩
    have hturn : hunt next ⟨s, id :: ids, stack⟩ = ⟨s, ids, stack⟩ := by
      subst hstack
      exact (if_neg hout).trans (if_pos hmem)
    rw [List.length_cons, Nat.add_right_comm, Function.iterate_succ_apply, hturn,
      hturns stack hstack]
  | @enter path ids id s s₁ s' d d₁ d' hout hnew _ _ ihinner ihrest =>
    obtain ⟨inner, hinner, hturns⟩ := ihinner
    obtain ⟨new, hdone, hturns'⟩ := ihrest
    have hsplit : d' = (new ++ id :: inner) ++ d := by
      rw [hdone, hinner, List.append_assoc]
      rfl
    refine ⟨new ++ id :: inner, hsplit, fun stack hstack => ?_⟩
    have henter : hunt next ⟨s, id :: ids, stack⟩ =
        ⟨{ s with reached := id :: s.reached }, next id, (id, ids) :: stack⟩ := by
      subst hstack
      exact (if_neg hout).trans (if_neg hnew)
    have hlonger : pathOf ((id, ids) :: stack) = path ++ [id] := by
      rw [← hstack, pathOf, List.map_cons, List.reverse_cons]
      rfl
    have hinside : (hunt next)^[1 + ((next id).length + turnsFor next inner)]
        ⟨{ s with reached := id :: s.reached }, next id, (id, ids) :: stack⟩ = ⟨s₁, ids, stack⟩ := by
      rw [Function.iterate_add_apply, hturns _ hlonger]
      rfl
    rw [turns_enter, Function.iterate_add_apply, Function.iterate_succ_apply, henter, hinside,
      hturns' stack hstack]

end Novella.Proofs
