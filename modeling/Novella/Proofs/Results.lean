import Mathlib.Data.List.Forall2
import Mathlib.Tactic.Lemma

/-!
# Results

What is known of the steps of a computation that gave a result, and what a computation gives
whose steps are known.
-/

namespace Novella.Proofs

section Results

variable {ε α β : Type} {x : Except ε α} {b : β}

lemma exists_of_bind {f : α → Except ε β} (h : x >>= f = .ok b) :
    ∃ a, x = .ok a ∧ f a = .ok b := by
  cases x with
  | error fault => cases h
  | ok a => exact ⟨a, rfl, h⟩

lemma bind_of_eq_ok {a : α} (h : x = .ok a) (f : α → Except ε β) : x >>= f = f a := by
  rw [h]
  rfl

lemma ok_bind (a : α) (f : α → Except ε β) : (.ok a >>= f) = f a := rfl

lemma exists_of_map {f : α → β} (h : x.map f = .ok b) : ∃ a, x = .ok a ∧ f a = b := by
  cases x with
  | error fault => cases h
  | ok a => exact ⟨a, rfl, Except.ok.inj h⟩

lemma eq_error_of_map {f : α → β} {fault : ε} (h : x.map f = .error fault) : x = .error fault := by
  cases x with
  | error fault' => exact congrArg Except.error (Except.error.inj h)
  | ok a => cases h

lemma error_of_bind {f : α → Except ε β} {fault : ε} (h : x >>= f = .error fault) :
    x = .error fault ∨ ∃ a, x = .ok a ∧ f a = .error fault := by
  cases x with
  | error fault' => exact .inl (congrArg Except.error (Except.error.inj h))
  | ok a => exact .inr ⟨a, rfl, h⟩

lemma eq_ok_of_mapError {ε' : Type} {f : ε → ε'} {y : Except ε β} (h : y.mapError f = .ok b) :
    y = .ok b := by
  cases y with
  | error fault => cases h
  | ok c => exact congrArg Except.ok (Except.ok.inj h)

lemma eq_ok_of_toOption {x : Except ε α} {a : α} (h : x.toOption = some a) : x = .ok a := by
  cases x with
  | error fault => cases h
  | ok b => exact congrArg Except.ok (Option.some.inj h)

instance decidableForallOk {P : α → Prop} [DecidablePred P] :
    (x : Except ε α) → Decidable (∀ a, x = .ok a → P a)
  | .ok a => decidable_of_iff (P a) ⟨fun h _ heq => Except.ok.inj heq ▸ h, fun h => h a rfl⟩
  | .error _ => isTrue nofun

instance decidableExistsOk : (x : Except ε α) → Decidable (∃ a, x = .ok a)
  | .ok a => isTrue ⟨a, rfl⟩
  | .error _ => isFalse nofun

lemma forall₂_of_mapM {f : α → Except ε β} {R : α → β → Prop} {l : List α} {l' : List β}
    (hR : ∀ a ∈ l, ∀ b, f a = .ok b → R a b) (h : l.mapM f = .ok l') : List.Forall₂ R l l' := by
  induction l generalizing l' with
  | nil =>
    cases h
    exact .nil
  | cons a l ih =>
    rw [List.mapM_cons] at h
    obtain ⟨c, ha, h⟩ := exists_of_bind h
    obtain ⟨rest, hl, h⟩ := exists_of_bind h
    cases h
    obtain ⟨hhere, hrest⟩ := List.forall_mem_cons.1 hR
    exact .cons (hhere c ha) (ih hrest hl)

lemma mem_of_mapM {f : α → Except ε β} {l : List α} {l' : List β} (h : l.mapM f = .ok l')
    (hb : b ∈ l') : ∃ a ∈ l, f a = .ok b := by
  obtain ⟨hlength, hall⟩ := List.forall₂_iff_get.1 (forall₂_of_mapM (fun _ _ _ ha => ha) h)
  obtain ⟨i, hi, rfl⟩ := List.mem_iff_getElem.1 hb
  exact ⟨l[i], List.getElem_mem _, hall i (hlength ▸ hi) hi⟩

lemma exists_of_mapM_error {f : α → Except ε β} {l : List α} {fault : ε}
    (h : l.mapM f = .error fault) : ∃ a ∈ l, f a = .error fault := by
  induction l with
  | nil => cases h
  | cons a l ih =>
    rw [List.mapM_cons] at h
    obtain ha | ⟨_, -, h⟩ := error_of_bind h
    · exact ⟨a, List.mem_cons_self, ha⟩
    obtain hl | ⟨_, -, h⟩ := error_of_bind h
    · obtain ⟨a', ha', hf⟩ := ih hl
      exact ⟨a', List.mem_cons_of_mem _ ha', hf⟩
    · cases h

lemma mapM_of_forall₂ {f : α → Except ε β} {l : List α} {l' : List β}
    (h : List.Forall₂ (fun a b => f a = .ok b) l l') : l.mapM f = .ok l' := by
  induction h with
  | nil => rfl
  | cons ha _ ih =>
    rw [List.mapM_cons, ha]
    change (_ >>= fun rest => _) = _
    rw [ih]
    rfl

lemma mapM_of_forall {f : α → Except ε β} {h : α → β} {l : List α}
    (hl : ∀ a ∈ l, f a = .ok (h a)) : l.mapM f = .ok (l.map h) :=
  mapM_of_forall₂ (List.forall₂_map_right_iff.2 (List.forall₂_same.2 hl))

lemma mapM_eq_map {γ : Type} {x : α → Except ε β} {y : α → Except ε γ} {f : β → γ}
    (h : ∀ a, y a = f <$> x a) (l : List α) : l.mapM y = List.map f <$> l.mapM x := by
  induction l with
  | nil => rfl
  | cons a l ih =>
    simp only [List.mapM_cons, h, ih, map_bind, bind_map_left]
    rfl

/-- What every step keeps up holds where a fold ends. -/
lemma foldlM_induct_mem {σ : Type} {P : σ → Prop} {step : σ → α → Except ε σ} {l : List α}
    (hstep : ∀ s, ∀ a ∈ l, ∀ s', step s a = .ok s' → P s → P s') {s s' : σ}
    (h : l.foldlM step s = .ok s') (hs : P s) : P s' := by
  induction l generalizing s with
  | nil =>
    cases h
    exact hs
  | cons a l ih =>
    rw [List.foldlM_cons] at h
    obtain ⟨t, ht, h⟩ := exists_of_bind h
    exact ih (fun s b hb => hstep s b (List.mem_cons_of_mem a hb)) h
      (hstep s a List.mem_cons_self t ht hs)

lemma foldlM_induct {σ : Type} {P : σ → Prop} {step : σ → α → Except ε σ}
    (hstep : ∀ s a s', step s a = .ok s' → P s → P s') {l : List α} {s s' : σ}
    (h : l.foldlM step s = .ok s') (hs : P s) : P s' :=
  foldlM_induct_mem (fun s a _ => hstep s a) h hs

/-- A fold that goes well as far as to an item fails at the item if its step does. -/
lemma foldlM_eq_error {σ : Type} {step : σ → α → Except ε σ} {before after after' : List α} {a : α}
    {s s' : σ} {fault : ε} (h : (before ++ after).foldlM step s = .ok s')
    (ha : ∀ t, step t a = .error fault) : (before ++ a :: after').foldlM step s = .error fault := by
  induction before generalizing s with
  | nil =>
    rw [List.nil_append, List.foldlM_cons, ha]
    rfl
  | cons b before ih =>
    rw [List.cons_append, List.foldlM_cons] at h
    obtain ⟨t, ht, h⟩ := exists_of_bind h
    rw [List.cons_append, List.foldlM_cons, ht]
    exact ih h

section Follows

variable {γ σ : Type} {go : γ → β → Option γ} {make : γ → σ} {l : List α} {l' : List β} {c c' : γ}

/-- A fold whose steps follow those of a run that ends well ends well, too. Of the states of the run
only those have to be followed that have what the run keeps up. -/
lemma foldlM_follows_of {I : γ → Prop} {step : σ → α → Except ε σ}
    (hkeeps : ∀ c b c', go c b = some c' → I c → I c')
    (h : List.Forall₂ (fun a b => ∀ c c', I c → go c b = some c' →
      step (make c) a = .ok (make c')) l l')
    (hc : I c) (hrun : l'.foldlM go c = some c') : l.foldlM step (make c) = .ok (make c') := by
  induction h generalizing c with
  | nil =>
    cases hrun
    rfl
  | cons hstep _ ih =>
    rw [List.foldlM_cons, Option.bind_eq_bind, Option.bind_eq_some_iff] at hrun
    obtain ⟨d, hd, hrun⟩ := hrun
    rw [List.foldlM_cons, hstep c d hc hd]
    exact ih (hkeeps _ _ d hd hc) hrun

lemma foldlM_follows {step : σ → α → Except ε σ}
    (h : List.Forall₂ (fun a b => ∀ c c', go c b = some c' → step (make c) a = .ok (make c')) l l')
    (hrun : l'.foldlM go c = some c') : l.foldlM step (make c) = .ok (make c') :=
  foldlM_follows_of (I := fun _ => True) (fun _ _ _ _ _ => trivial)
    (h.imp fun _ _ hstep c c' _ => hstep c c') trivial hrun

end Follows

/-- Where no step fails, leaving out the steps that fail leaves nothing out. -/
lemma foldl_toOption {σ : Type} {step : σ → α → Except ε σ} {l : List α} {s t : σ}
    (h : l.foldlM step s = .ok t) : l.foldl (fun s a => (step s a).toOption.getD s) s = t := by
  induction l generalizing s with
  | nil => exact Except.ok.inj h
  | cons a l ih =>
    rw [List.foldlM_cons] at h
    obtain ⟨s', hs', h⟩ := exists_of_bind h
    rw [List.foldl_cons, hs']
    exact ih h

end Results

end Novella.Proofs
