import Mathlib.Data.List.Nodup
import Mathlib.Tactic.Lemma
import Novella.Dict
import Novella.Graph.Basic

/-!
# Looking things up in a dictionary

What the operations on a dictionary do to the value of a key, and when an ascending listing is
a given list.
-/

namespace Novella.Proofs

universe u v w

section Lookup

variable {κ : Type u} {α : Type v} {β : Type w} [Ord κ]

lemma dict_ext {d d' : Dict κ α} (h : d.entries = d'.entries) : d = d' := by
  cases d
  cases d'
  cases h
  rfl

lemma lookup_insertEntry [Std.LawfulEqOrd κ] [DecidableEq κ] (k k' : κ) (a : α)
    (es : List (κ × α)) :
    Dict.lookup k' (Dict.insertEntry k a es) = if k' = k then some a else Dict.lookup k' es := by
  induction es with
  | nil => simp [Dict.insertEntry, Dict.lookup]
  | cons e rest ih =>
    obtain ⟨k₁, b⟩ := e
    rw [Dict.insertEntry]
    split
    · simp only [Dict.lookup, Std.LawfulEqOrd.compare_eq_iff_eq]
    · next hk =>
      obtain rfl := Std.LawfulEqOrd.compare_eq_iff_eq.1 hk
      simp only [Dict.lookup, Std.LawfulEqOrd.compare_eq_iff_eq]
      split <;> rfl
    · next hk =>
      have hne : k ≠ k₁ := by
        rintro rfl
        rw [Std.ReflOrd.compare_self] at hk
        cases hk
      simp only [Dict.lookup, Std.LawfulEqOrd.compare_eq_iff_eq, ih]
      split
      · next h => rw [if_neg (by rw [h]; exact hne.symm)]
      · rfl

lemma get?_insert [Std.TransOrd κ] [Std.LawfulEqOrd κ] [DecidableEq κ] (d : Dict κ α) (k k' : κ) (a : α) :
    (d.insert k a).get? k' = if k' = k then some a else d.get? k' :=
  lookup_insertEntry k k' a d.entries

@[simp]
lemma get?_empty (k : κ) : (Dict.empty : Dict κ α).get? k = none := rfl

lemma get?_map [Std.LawfulEqOrd κ] (d : Dict κ α) (f : κ → α → β) (k : κ) :
    (d.map f).get? k = (d.get? k).map (f k) := by
  have hlookup : ∀ es : List (κ × α),
      Dict.lookup k (es.map fun e => (e.1, f e.1 e.2)) = (Dict.lookup k es).map (f k) := by
    intro es
    induction es with
    | nil => rfl
    | cons e rest ih =>
      simp only [List.map_cons, Dict.lookup, ih]
      split
      · next h => rw [Std.LawfulEqOrd.compare_eq_iff_eq.1 h, Option.map_some]
      · rfl
  exact hlookup d.entries

lemma get?_modify [Std.LawfulEqOrd κ] [DecidableEq κ] (d : Dict κ α) (k k' : κ) (f : α → α) :
    (d.modify k f).get? k' = if k' = k then (d.get? k').map f else d.get? k' := by
  rw [Dict.modify, get?_map]
  simp only [Std.LawfulEqOrd.compare_eq_iff_eq]
  by_cases h : k' = k
  · simp [h]
  · simp [h, Ne.symm h]

/-- The entries of a dictionary are its keys with their values. -/
lemma mem_entries_iff [Std.LawfulEqOrd κ] [DecidableEq κ] (d : Dict κ α) (k : κ) (a : α) :
    (k, a) ∈ d.entries ↔ d.get? k = some a := by
  have hlookup : ∀ es : List (κ × α), Dict.Sorted es →
      ((k, a) ∈ es ↔ Dict.lookup k es = some a) := by
    intro es hs
    induction es with
    | nil => simp [Dict.lookup]
    | cons e rest ih =>
      obtain ⟨hhead, htail⟩ := List.pairwise_cons.1 hs
      rw [Dict.lookup, List.mem_cons, ih htail]
      by_cases hk : k = e.1
      · subst hk
        have hnotMem : ¬Dict.lookup e.1 rest = some a := fun hmem => by
          have hlt := hhead _ ((ih htail).2 hmem)
          rw [Std.ReflOrd.compare_self] at hlt
          cases hlt
        simp [hnotMem, Prod.ext_iff, eq_comm]
      · have hne : ¬(k, a) = e := fun h => hk (congrArg Prod.fst h)
        simp [hne, hk]
  exact hlookup d.entries d.sorted

lemma mem_keys_iff [Std.LawfulEqOrd κ] [DecidableEq κ] (d : Dict κ α) (k : κ) :
    k ∈ d.keys ↔ ∃ a, d.get? k = some a := by
  simp only [Dict.keys, List.mem_map, Prod.exists, ← mem_entries_iff]
  constructor
  · rintro ⟨_, a, h, rfl⟩
    exact ⟨a, h⟩
  · rintro ⟨a, h⟩
    exact ⟨k, a, h, rfl⟩

lemma mem_values_iff [Std.LawfulEqOrd κ] [DecidableEq κ] (d : Dict κ α) (a : α) :
    a ∈ d.values ↔ ∃ k, d.get? k = some a := by
  simp only [Dict.values, List.mem_map, Prod.exists, ← mem_entries_iff]
  constructor
  · rintro ⟨k, _, h, rfl⟩
    exact ⟨k, h⟩
  · rintro ⟨k, h⟩
    exact ⟨k, a, h, rfl⟩

lemma contains_iff (d : Dict κ α) (k : κ) : d.contains k = true ↔ ∃ a, d.get? k = some a := by
  rw [Dict.contains, Option.isSome_iff_exists]

lemma get?_filter_iff [Std.LawfulEqOrd κ] [DecidableEq κ] (d : Dict κ α) (p : κ → α → Bool)
    (k : κ) (a : α) : (d.filter p).get? k = some a ↔ d.get? k = some a ∧ p k a = true := by
  rw [← mem_entries_iff, ← mem_entries_iff]
  exact List.mem_filter

lemma get?_erase_iff [Std.LawfulEqOrd κ] [DecidableEq κ] (d : Dict κ α) (k k' : κ) (a : α) :
    (d.erase k).get? k' = some a ↔ d.get? k' = some a ∧ k' ≠ k := by
  rw [Dict.erase, get?_filter_iff, bne_iff_ne, Ne, Std.LawfulEqOrd.compare_eq_iff_eq, eq_comm (a := k)]

lemma size_insert_of_new [Std.TransOrd κ] (d : Dict κ α) {k : κ} (h : d.get? k = none) (a : α) :
    (d.insert k a).size = d.size + 1 := by
  have hlength : ∀ es : List (κ × α), Dict.lookup k es = none →
      (Dict.insertEntry k a es).length = es.length + 1 := by
    intro es hes
    induction es with
    | nil => rfl
    | cons e rest ih =>
      rw [Dict.lookup] at hes
      split at hes
      · cases hes
      · next hne =>
        rw [Dict.insertEntry]
        split
        · rfl
        · next heq => exact absurd heq hne
        · rw [List.length_cons, ih hes, List.length_cons]
  exact hlength d.entries h

@[simp]
lemma size_modify (d : Dict κ α) (k : κ) (f : α → α) : (d.modify k f).size = d.size := by
  simp [Dict.size, Dict.modify, Dict.map]

/-- The values of a dictionary of which one is modified. -/
lemma values_modify [Std.LawfulEqOrd κ] [DecidableEq κ] (d : Dict κ α) (k : κ) (f : α → α) :
    (d.modify k f).values = d.entries.map fun e => if e.1 = k then f e.2 else e.2 := by
  rw [Dict.modify, Dict.values, Dict.map, List.map_map]
  refine List.map_congr_left fun e _ => ?_
  simp only [Function.comp_apply, Std.LawfulEqOrd.compare_eq_iff_eq, eq_comm (a := k)]

end Lookup

/-! ## Entries in order -/

section Order

variable {κ : Type u} {α : Type v} [Ord κ] [Std.TransOrd κ]

/-- An entry whose key is greater than all others comes last. -/
lemma insertEntry_last {k : κ} {es : List (κ × α)} (h : ∀ e ∈ es, compare e.1 k = .lt) (a : α) :
    Dict.insertEntry k a es = es ++ [(k, a)] := by
  induction es with
  | nil => rfl
  | cons e es ih =>
    obtain ⟨hhead, htail⟩ := List.forall_mem_cons.1 h
    rw [Dict.insertEntry, Std.OrientedCmp.gt_of_lt hhead, ih htail]
    rfl

/-- Entries that come in order are put behind one another. -/
lemma entries_foldl_insert {rest : List (κ × α)} {d : Dict κ α}
    (h : Dict.Sorted (d.entries ++ rest)) :
    (rest.foldl (fun d e => d.insert e.1 e.2) d).entries = d.entries ++ rest := by
  induction rest generalizing d with
  | nil => rw [List.foldl_nil, List.append_nil]
  | cons e rest ih =>
    have hlast : (d.insert e.1 e.2).entries = d.entries ++ [e] :=
      insertEntry_last (fun e' he' => (List.pairwise_append.1 h).2.2 e' he' e List.mem_cons_self) e.2
    have hmore : d.entries ++ e :: rest = (d.insert e.1 e.2).entries ++ rest := by
      rw [hlast, List.append_assoc, List.singleton_append]
    rw [List.foldl_cons, ih (hmore ▸ h), hmore]

lemma mem_of_mem_ofList {es : List (κ × α)} {e : κ × α} (h : e ∈ (Dict.ofList es).entries) :
    e ∈ es := by
  have hrun : ∀ (rest : List (κ × α)) (d : Dict κ α),
      e ∈ (rest.foldl (fun d e => d.insert e.1 e.2) d).entries → e ∈ rest ∨ e ∈ d.entries := by
    intro rest
    induction rest with
    | nil => exact fun _ he => .inr he
    | cons e' rest ih =>
      intro d he
      rcases ih _ he with he | he
      · exact .inl (List.mem_cons_of_mem _ he)
      · rcases Dict.mem_insertEntry he with rfl | he
        · exact .inl List.mem_cons_self
        · exact .inr he
  exact (hrun es .empty h).elim id fun he => nomatch he

/-- Two dictionaries in which every key has the same value are equal. -/
lemma dict_ext_get? [Std.LawfulEqOrd κ] [DecidableEq κ] {d d' : Dict κ α}
    (h : ∀ k, d.get? k = d'.get? k) : d = d' := by
  have hnodup : ∀ d : Dict κ α, d.entries.Nodup := fun d => d.sorted.imp fun {a b} hlt heq => by
    rw [heq, Std.ReflOrd.compare_self] at hlt
    cases hlt
  have hperm : d.entries.Perm d'.entries :=
    (List.perm_ext_iff_of_nodup (hnodup d) (hnodup d')).2 fun e => by
      rw [mem_entries_iff d e.1 e.2, mem_entries_iff d' e.1 e.2, h]
  refine dict_ext (hperm.eq_of_pairwise (fun a b _ _ hab hba => ?_) d.sorted d'.sorted)
  rw [Std.OrientedCmp.gt_of_lt hab] at hba
  cases hba

/-- A dictionary is made of its own entries. -/
lemma ofList_entries (d : Dict κ α) : Dict.ofList d.entries = d :=
  dict_ext (entries_foldl_insert (d := (Dict.empty : Dict κ α)) d.sorted)

end Order

/-! ## Ascending listings -/

lemma ascending_pairwise (ids : List Nat) : (ascending ids).Pairwise (· < ·) := by
  have hsorted := (Dict.ofList (ids.map fun id => (id, ()))).sorted
  rw [Dict.Sorted] at hsorted
  rw [ascending, Dict.keys, List.pairwise_map]
  exact hsorted.imp fun h => Nat.compare_eq_lt.1 h

@[simp]
lemma mem_ascending {ids : List Nat} {id : Nat} : id ∈ ascending ids ↔ id ∈ ids := by
  have hfold : ∀ (ids : List Nat) (d : Dict Nat Unit),
      (∃ a, ((ids.map fun id => (id, ())).foldl (fun d e => d.insert e.1 e.2) d).get? id = some a) ↔
        id ∈ ids ∨ ∃ a, d.get? id = some a := by
    intro ids
    induction ids with
    | nil => simp
    | cons i ids ih =>
      intro d
      simp only [List.map_cons, List.foldl_cons, ih, get?_insert, List.mem_cons]
      by_cases h : id = i
      · simp [h]
      · simp [h]
  rw [ascending, mem_keys_iff, Dict.ofList, hfold]
  simp

/-- The ascending listing of the members of an ascending list is that list. -/
lemma ascending_eq {ids l : List Nat} (hl : l.Pairwise (· < ·)) (h : ∀ id, id ∈ ids ↔ id ∈ l) :
    ascending ids = l := by
  have hids := ascending_pairwise ids
  have hperm : (ascending ids).Perm l :=
    (List.perm_ext_iff_of_nodup (hids.imp Nat.ne_of_lt) (hl.imp Nat.ne_of_lt)).2
      fun id => by rw [mem_ascending, h]
  exact hperm.eq_of_pairwise (fun a b _ _ hab hba => absurd hab (Nat.lt_asymm hba)) hids hl

end Novella.Proofs
