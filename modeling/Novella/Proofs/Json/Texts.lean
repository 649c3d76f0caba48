import Novella.Proofs.Json.Numbers

/-!
# Texts of a JSON document

A character of a text is escaped by a letter, by its code, or not at all, and in each form it is read
as the character (`readText_escapeChar`). So a quoted text is read as the text (`textBoth_quoted`).
-/

namespace Novella.Proofs

open Json

section Texts

variable {a : Char} {rest : List Char} {c : Cursor}

lemma hexValue_digits : ∀ n < 32, (List.replicate (4 - (Text.hexDigits n).length) '0' ++
    Text.hexDigits n).mapM hexValue? = some [0, 0, n / 16, n % 16] := by
  decide

lemma length_hexDigits : ∀ n < 32, (List.replicate (4 - (Text.hexDigits n).length) '0' ++
    Text.hexDigits n).length = 4 := by
  decide

/-- A character is escaped by a letter, by its code, or not at all. -/
lemma escapeChar_cases (a : Char) :
    (∃ e, escapeChar a = ['\\', e] ∧ e ≠ 'u' ∧ simpleEscape? e = some a) ∨
    (a.toNat < 32 ∧ escapeChar a = '\\' :: 'u' ::
      (List.replicate (4 - (Text.hexDigits a.toNat).length) '0' ++ Text.hexDigits a.toNat)) ∨
    (escapeChar a = [a] ∧ a ≠ '"' ∧ a ≠ '\\' ∧ 32 ≤ a.toNat) := by
  unfold escapeChar
  split
  · exact .inl ⟨_, rfl, by decide, rfl⟩
  · exact .inl ⟨_, rfl, by decide, rfl⟩
  · exact .inl ⟨_, rfl, by decide, rfl⟩
  · exact .inl ⟨_, rfl, by decide, rfl⟩
  · exact .inl ⟨_, rfl, by decide, rfl⟩
  · exact .inl ⟨_, rfl, by decide, rfl⟩
  · exact .inl ⟨_, rfl, by decide, rfl⟩
  · next hquote hslash _ _ _ _ _ =>
    by_cases h : a.toNat < 32
    · exact .inr (.inl ⟨h, by rw [if_pos h]; rfl⟩)
    · exact .inr (.inr ⟨if_neg h, hquote, hslash, Nat.not_lt.1 h⟩)

lemma readText_escape {e : Char} (hc : c.rest = '\\' :: e :: rest) (fuel : Nat) (found : List Char) :
    readText (fuel + 1) found c =
      if e = 'u' then
        match readCodePoint c.step.step with
        | .error m => .error m
        | .ok (a, c) => readText fuel (a :: found) c
      else match simpleEscape? e with
        | some b => readText fuel (b :: found) c.step.step
        | none => .error (c.step.blameNext .badEscape) := by
  have hstep : c.step.rest = e :: rest := rest_step hc
  rw [readText, hc]
  split
  · next heq => cases heq
  · next heq => exact absurd (List.cons.inj heq).1 (by decide)
  · dsimp only
    rw [hstep]
    split
    · next heq => cases heq
    · next heq =>
      obtain ⟨rfl, -⟩ := List.cons.inj heq
      exact (if_pos rfl).symm
    · next hu heq =>
      obtain ⟨rfl, -⟩ := List.cons.inj heq
      exact (if_neg hu).symm
  · next hslash heq => exact absurd (List.cons.inj heq).1.symm hslash

lemma readText_letter {e : Char} (hu : e ≠ 'u') (he : simpleEscape? e = some a)
    (hc : c.rest = '\\' :: e :: rest) (fuel : Nat) (found : List Char) :
    readText (fuel + 1) found c = readText fuel (a :: found) c.step.step := by
  rw [readText_escape hc, if_neg hu, he]

lemma readText_code (h : a.toNat < 32) (hc : c.rest = '\\' :: 'u' ::
      (List.replicate (4 - (Text.hexDigits a.toNat).length) '0' ++ Text.hexDigits a.toNat) ++ rest)
    (fuel : Nat) (found : List Char) :
    readText (fuel + 1) found c = readText fuel (a :: found) (c.step.step.steps 4) := by
  obtain ⟨ds, hds⟩ : ∃ ds, ds = List.replicate (4 - (Text.hexDigits a.toNat).length) '0' ++
    Text.hexDigits a.toNat := ⟨_, rfl⟩
  rw [← hds] at hc
  have hlength : ds.length = 4 := hds ▸ length_hexDigits _ h
  have hvalue : ds.mapM hexValue? = some [0, 0, a.toNat / 16, a.toNat % 16] :=
    hds ▸ hexValue_digits _ h
  have hstep : c.step.rest = 'u' :: (ds ++ rest) := rest_step hc
  have hstep₂ : c.step.step.rest = ds ++ rest := rest_step hstep
  have htake : c.step.step.rest.take 4 = ds := by rw [hstep₂, ← hlength, List.take_left]
  have hhex : readHex c.step.step = .ok (a.toNat, c.step.step.steps 4) := by
    rw [readHex, htake, hvalue]
    dsimp only
    rw [show ((0 * 16 + 0) * 16 + a.toNat / 16) * 16 + a.toNat % 16 = a.toNat by omega]
  have hpoint : readCodePoint c.step.step = .ok (a, c.step.step.steps 4) := by
    have hlone : ¬(0xdc00 ≤ a.toNat ∧ a.toNat ≤ 0xdfff) := by omega
    have hone : a.toNat < 0xd800 ∨ 0xdbff < a.toNat := by omega
    rw [readCodePoint, hhex]
    change (if 0xdc00 ≤ a.toNat ∧ a.toNat ≤ 0xdfff then _ else _) = _
    rw [if_neg hlone]
    rw [if_pos hone, Char.ofNat_toNat]
    rfl
  rw [readText_escape hc, if_pos rfl, hpoint]

lemma readText_plain (hquote : a ≠ '"') (hslash : a ≠ '\\') (h : 32 ≤ a.toNat)
    (hc : c.rest = a :: rest) (fuel : Nat) (found : List Char) :
    readText (fuel + 1) found c = readText fuel (a :: found) c.step := by
  rw [readText, hc]
  split
  · next heq => cases heq
  · next heq => exact absurd (List.cons.inj heq).1 hquote
  · next heq => exact absurd (List.cons.inj heq).1 hslash
  · next heq =>
    obtain ⟨rfl, -⟩ := List.cons.inj heq
    rw [if_neg (Nat.not_lt.2 h)]

/-- An escaped character is read as the character. -/
lemma readText_escapeChar (hc : c.rest = escapeChar a ++ rest) (fuel : Nat) (found : List Char) :
    ∃ c', c'.rest = rest ∧ readText (fuel + 1) found c = readText fuel (a :: found) c' := by
  rcases escapeChar_cases a with ⟨e, heq, hu, he⟩ | ⟨h, heq⟩ | ⟨heq, hquote, hslash, h⟩
  · rw [heq] at hc
    exact ⟨_, rest_step (rest_step hc), readText_letter hu he hc fuel found⟩
  · rw [heq] at hc
    refine ⟨_, ?_, readText_code h hc fuel found⟩
    have hstep := rest_step (rest_step hc)
    rw [← length_hexDigits _ h]
    exact rest_steps hstep
  · rw [heq] at hc
    exact ⟨_, rest_step hc, readText_plain hquote hslash h hc fuel found⟩

lemma readText_escaped {cs : List Char} {fuel : Nat} (hc : c.rest = cs.flatMap escapeChar ++ '"' :: rest)
    (hfuel : cs.length < fuel) (found : List Char) :
    ∃ c', c'.rest = rest ∧ readText fuel found c = .ok (String.ofList (found.reverse ++ cs), c') := by
  induction cs generalizing c fuel found with
  | nil =>
    obtain ⟨fuel, rfl⟩ := Nat.exists_eq_add_one_of_ne_zero (Nat.ne_of_gt hfuel)
    refine ⟨c.step, rest_step hc, ?_⟩
    rw [readText, hc, List.append_nil]
    rfl
  | cons a cs ih =>
    obtain ⟨fuel, rfl⟩ := Nat.exists_eq_add_one_of_ne_zero (n := fuel) (by omega)
    rw [List.flatMap_cons, List.append_assoc] at hc
    obtain ⟨c₁, hc₁, hread⟩ := readText_escapeChar hc fuel found
    obtain ⟨c₂, hc₂, hread₂⟩ := ih hc₁ (Nat.lt_of_succ_lt_succ hfuel) (a :: found)
    refine ⟨c₂, hc₂, ?_⟩
    rw [hread, hread₂, List.reverse_cons, List.append_assoc, List.singleton_append]

lemma length_le_flatMap_escapeChar (cs : List Char) : cs.length ≤ (cs.flatMap escapeChar).length := by
  induction cs with
  | nil => exact Nat.le_refl 0
  | cons a cs ih =>
    have hone : 1 ≤ (escapeChar a).length := by
      rcases escapeChar_cases a with ⟨e, heq, -⟩ | ⟨-, heq⟩ | ⟨heq, -⟩ <;> simp [heq]
    rw [List.flatMap_cons, List.length_append, List.length_cons]
    omega

/-- A quoted text is read as the text. -/
lemma textBoth_quoted {s : String} (hc : c.rest = s.toList.flatMap escapeChar ++ '"' :: rest) :
    ∃ c', c'.rest = rest ∧ textBoth c = .ok (.ok s, c') := by
  have hfuel : s.toList.length < c.rest.length + 1 := by
    have hle := length_le_flatMap_escapeChar s.toList
    rw [hc, List.length_append]
    omega
  obtain ⟨c', hc', hread⟩ := readText_escaped hc hfuel []
  refine ⟨c', hc', ?_⟩
  rw [textBoth, hread, List.reverse_nil, List.nil_append, String.ofList_toList]

end Texts

end Novella.Proofs
