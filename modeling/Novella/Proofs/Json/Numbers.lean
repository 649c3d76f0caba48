import Novella.Json.Tree
import Novella.Proofs.Decimal.Literal

/-!
# Numbers of a JSON document

What is written for a number is read back as the number's digits, wherever no character follows
that could belong to it (`readNumber_spelling`). For a whole number of at most sixty-four bits
these digits stand for the number again. What the digits of a floating-point number stand for is
not exact for all of them, so it stays a condition on the number (`Json.Exact`).
-/

namespace Novella.Json

/-- The text of a number with the given digits. -/
def NumberText.spelling (t : NumberText) : List Char :=
  (if t.negative then ['-'] else []) ++ (t.whole ++ (t.part.elim [] ('.' :: ·) ++
    t.exponent.elim [] fun e => 'e' :: (if e.1 then '-' else '+') :: e.2))

/-- A character with which a number goes on. -/
def continuesNumber (c : Char) : Bool := c.isDigit || c = '.' || c = 'e' || c = 'E'

end Novella.Json

namespace Novella.Proofs

open Json

/-- There are digits wherever digits belong, and a zero stands first only if it stands alone. -/
structure Proper (t : NumberText) : Prop where
  whole : Digits t.whole
  front : t.whole.head? = some '0' → t.whole = ['0']
  part : ∀ ds ∈ t.part, Digits ds
  exponent : ∀ e ∈ t.exponent, Digits e.2

section Cursor

variable {c : Cursor} {a : Char} {rest : List Char}

lemma rest_step (h : c.rest = a :: rest) : c.step.rest = rest := by
  rw [Cursor.step, h]

lemma rest_steps {cs : List Char} (h : c.rest = cs ++ rest) : (c.steps cs.length).rest = rest := by
  rw [Cursor.steps, h, List.drop_left]

end Cursor

section Reading

variable {c : Cursor} {rest : List Char}

lemma notAhead_of_continues {p : Char → Bool} (h : NotAhead continuesNumber rest)
    (hp : ∀ c, p c = true → continuesNumber c = true) : NotAhead p rest := by
  intro c hc
  by_contra hne
  have hcontinues := hp c (by simpa using hne)
  rw [h c hc] at hcontinues
  cases hcontinues

lemma readDigitRow_append {ds : List Char} (hds : Digits ds) (hc : c.rest = ds ++ rest)
    (hrest : NotAhead Char.isDigit rest) : ∃ c', readDigitRow c = .ok (ds, c') ∧ c'.rest = rest := by
  have htake : c.rest.takeWhile Char.isDigit = ds := by
    rw [hc, takeWhile_append_of_notAhead hds.isDigit hrest]
  have hne : ds.isEmpty = false := List.isEmpty_eq_false_iff.2 hds.ne_nil
  refine ⟨c.steps ds.length, ?_, rest_steps hc⟩
  simp only [readDigitRow, htake, hne, Bool.false_eq_true, if_false]

lemma readWhole_append {ds : List Char} (hds : Digits ds) (hfront : ds.head? = some '0' → ds = ['0'])
    (hc : c.rest = ds ++ rest) (hrest : NotAhead Char.isDigit rest) :
    ∃ c', readWhole c = .ok (ds, c') ∧ c'.rest = rest := by
  have htake : c.rest.takeWhile Char.isDigit = ds := by
    rw [hc, takeWhile_append_of_notAhead hds.isDigit hrest]
  have heq : readWhole c = readDigitRow c := by
    rw [readWhole, htake]
    split
    · cases hfront rfl
    · rfl
  rw [heq]
  exact readDigitRow_append hds hc hrest

lemma readPart_append {part : Option (List Char)} (hpart : ∀ ds ∈ part, Digits ds)
    (hc : c.rest = part.elim [] ('.' :: ·) ++ rest) (hrest : NotAhead Char.isDigit rest)
    (hpoint : NotAhead (· = '.') rest) : ∃ c', readPart c = .ok (part, c') ∧ c'.rest = rest := by
  cases part with
  | none =>
    have hhead : c.rest.head? ≠ some '.' := fun heq => by
      rw [hc] at heq
      simpa using hpoint '.' heq
    exact ⟨c, by rw [readPart, if_neg hhead], hc⟩
  | some ds =>
    have hstep : c.step.rest = ds ++ rest := rest_step hc
    obtain ⟨c', hread, hc'⟩ := readDigitRow_append (hpart ds rfl) hstep hrest
    refine ⟨c', ?_, hc'⟩
    rw [readPart, hc, Option.elim_some, List.cons_append, List.head?_cons, if_pos rfl, hread]
    rfl

lemma readPower_append {exponent : Option (Bool × List Char)} (hexponent : ∀ e ∈ exponent, Digits e.2)
    (hc : c.rest = exponent.elim [] (fun e => 'e' :: (if e.1 then '-' else '+') :: e.2) ++ rest)
    (hrest : NotAhead continuesNumber rest) :
    ∃ c', readPower c = .ok (exponent, c') ∧ c'.rest = rest := by
  cases exponent with
  | none =>
    have hhead : ¬(c.rest.head? = some 'e' ∨ c.rest.head? = some 'E') := by
      rw [hc]
      rintro (heq | heq)
      · exact absurd (hrest 'e' heq) (by decide)
      · exact absurd (hrest 'E' heq) (by decide)
    exact ⟨c, by rw [readPower, if_neg hhead], hc⟩
  | some e =>
    obtain ⟨down, ds⟩ := e
    have hdigits : NotAhead Char.isDigit rest := notAhead_of_continues hrest fun c hd => by
      simp [continuesNumber, hd]
    have hmark : c.step.rest = (if down then '-' else '+') :: (ds ++ rest) := rest_step hc
    have hstep : c.step.step.rest = ds ++ rest := rest_step hmark
    obtain ⟨c', hread, hc'⟩ := readDigitRow_append (hexponent _ rfl) hstep hdigits
    refine ⟨c', ?_, hc'⟩
    rw [readPower, hc, Option.elim_some, List.cons_append, List.head?_cons, if_pos (.inl rfl)]
    dsimp only
    rw [hmark]
    cases down with
    | true =>
      simp only [if_true, hread]
      rfl
    | false =>
      simp only [Bool.false_eq_true, if_false, hread]
      rfl

/-- What follows a row of digits in a number does not go on with digits. -/
lemma notAhead_power {exponent : Option (Bool × List Char)} (hrest : NotAhead continuesNumber rest)
    {p : Char → Bool} (hp : ∀ c, p c = true → continuesNumber c = true) (he : p 'e' = false) :
    NotAhead p (exponent.elim [] (fun e => 'e' :: (if e.1 then '-' else '+') :: e.2) ++ rest) := by
  cases exponent with
  | none => exact notAhead_of_continues hrest hp
  | some e =>
    intro c hc
    cases hc
    exact he

/-- The digits of a number are read as far as they go. -/
lemma readNumber_spelling {t : NumberText} (ht : Proper t) (hc : c.rest = t.spelling ++ rest)
    (hrest : NotAhead continuesNumber rest) :
    ∃ c', readNumber c = .ok (t, c') ∧ c'.rest = rest := by
  obtain ⟨negative, whole, part, exponent⟩ := t
  simp only [NumberText.spelling, List.append_assoc] at hc
  have hdigit : ∀ c : Char, c.isDigit = true → continuesNumber c = true := fun c h => by
    simp [continuesNumber, h]
  have hafterWhole : NotAhead Char.isDigit (part.elim [] ('.' :: ·) ++
      (exponent.elim [] (fun e => 'e' :: (if e.1 then '-' else '+') :: e.2) ++ rest)) := by
    cases part with
    | none => exact notAhead_power hrest hdigit (by decide)
    | some ds =>
      intro c hc
      cases hc
      decide
  obtain ⟨c₀, hread₀, hc₀⟩ : ∃ c₀, readMinus c = (negative, c₀) ∧ c₀.rest = whole ++
      (part.elim [] ('.' :: ·) ++
        (exponent.elim [] (fun e => 'e' :: (if e.1 then '-' else '+') :: e.2) ++ rest)) := by
    cases negative with
    | true => exact ⟨c.step, by rw [readMinus, hc]; rfl, rest_step hc⟩
    | false =>
      obtain ⟨a, more, (rfl : whole = a :: more), ha⟩ := ht.whole.exists_cons
      have hhead : c.rest.head? ≠ some '-' := fun heq => by
        rw [hc] at heq
        obtain rfl : a = '-' := Option.some.inj heq
        exact absurd ha (by decide)
      exact ⟨c, by rw [readMinus, if_neg hhead], hc⟩
  obtain ⟨c₁, hread₁, hc₁⟩ := readWhole_append ht.whole ht.front hc₀ hafterWhole
  obtain ⟨c₂, hread₂, hc₂⟩ := readPart_append ht.part hc₁ (notAhead_power hrest hdigit (by decide))
    (notAhead_power hrest (fun c h => by simp [continuesNumber, of_decide_eq_true h]) (by decide))
  obtain ⟨c₃, hread₃, hc₃⟩ := readPower_append ht.exponent hc₂ hrest
  refine ⟨c₃, ?_, hc₃⟩
  rw [readNumber, hread₀]
  change (readWhole c₀ >>= _) = _
  rw [hread₁]
  change (readPart c₁ >>= _) = _
  rw [hread₂]
  change (readPower c₂ >>= _) = _
  rw [hread₃]
  rfl

end Reading

/-! ## Whole numbers -/

/-- The digits of a whole number. -/
def wholeText (n : Int) : NumberText := ⟨n < 0, decimalDigits n.natAbs, none, none⟩

lemma proper_wholeText (n : Int) : Proper (wholeText n) where
  whole := digits_decimalDigits _
  front h := by
    have hzero : n.natAbs = 0 := eq_zero_of_head?_decimalDigits h
    rw [wholeText, hzero]
    rfl
  part _ h := by cases h
  exponent _ h := by cases h

lemma spelling_wholeText (n : Int) : (wholeText n).spelling = (toString n).toList := by
  simp only [toString_toList, NumberText.spelling, wholeText, Option.elim_none, List.append_nil,
    decide_eq_true_eq]

lemma takeSignificand_of_lt {n : Nat} {cs : List Char} (h : Nat.ofDigitChars 10 cs n < 2 ^ 64) :
    takeSignificand n cs = (Nat.ofDigitChars 10 cs n, []) := by
  induction cs generalizing n with
  | nil => rfl
  | cons c rest ih =>
    rw [Nat.ofDigitChars_cons] at h ⊢
    have hle := le_ofDigitChars (10 * n + (c.toNat - '0'.toNat)) rest
    rw [takeSignificand, if_pos (hle.trans_lt h), ih h]

/-- The digits of a whole number of sixty-four bits, with a sign or without, stand for it. -/
lemma value_wholeText {n : Int} (hlow : -2 ^ 63 ≤ n) (hhigh : n < 2 ^ 64) :
    (wholeText n).value = .ok (.int n) := by
  have hvalue : Nat.ofDigitChars 10 (decimalDigits n.natAbs) 0 = n.natAbs :=
    Nat.ofDigitChars_ten_toDigits
  have hlt : n.natAbs < 2 ^ 64 := by omega
  have htake : takeSignificand 0 (decimalDigits n.natAbs) = (n.natAbs, []) := by
    rw [takeSignificand_of_lt (hvalue.symm ▸ hlt), hvalue]
  rw [NumberText.value, wholeText]
  dsimp only
  rw [htake]
  refine (if_neg Bool.false_ne_true).trans ?_
  by_cases hneg : n < 0
  · have hsmall : n.natAbs ≠ 0 ∧ n.natAbs ≤ 2 ^ 63 := by omega
    have habs : -(n.natAbs : Int) = n := by omega
    rw [if_neg (by rw [decide_eq_true hneg]; exact Bool.false_ne_true), if_pos hsmall, habs]
  · have habs : (n.natAbs : Int) = n := by omega
    rw [if_pos (by rw [decide_eq_false hneg]; rfl), habs]

/-! ## Floating-point numbers -/

/-- Only zero has the digit zero. -/
lemma exponent_shortest (tie : TieRule) {x : Binary64} (h : x.isFinite = true)
    (hdigits : (Decimal.shortest tie x).digits = 0) : (Decimal.shortest tie x).exponent = 0 := by
  have hlt : x.magnitude < 2 ^ 63 := (of_decide_eq_true h).trans (by decide)
  have hread := ofDecimal_shortest tie x h false
  rw [hdigits, Binary64.ofDecimal, if_pos rfl] at hread
  have hzero : x.magnitude = 0 := by
    rw [← magnitude_ofMagnitude false hlt, ← hread, magnitude_ofMagnitude false (by decide)]
  have hisZero : x.isZero = true := decide_eq_true hzero
  rw [Decimal.shortest, if_pos hisZero]

lemma plain_spelling (negative : Bool) {d : Decimal} (h : d.digits = 0 → d.exponent = 0) :
    ∃ t, Proper t ∧ (if negative then '-' :: d.plain else d.plain) = t.spelling := by
  obtain ⟨f⟩ := plain_pointForm d
  refine ⟨⟨negative, f.whole, some f.part, none⟩, ⟨f.whole_digits, f.front h, ?_, ?_⟩, ?_⟩
  · rintro ds ⟨⟩
    exact f.part_digits
  · exact fun _ h => by cases h
  · have heq := f.eq
    cases negative <;> simp [NumberText.spelling, heq]

lemma scientific_spelling (negative : Bool) (d : Decimal) :
    ∃ t, Proper t ∧ (if negative then '-' :: d.scientific else d.scientific) = t.spelling := by
  have hpower := digits_decimalDigits d.leading.natAbs
  obtain ⟨c, rest, hc, hdigit⟩ := (digits_decimalDigits d.digits).exists_cons
  have hone : Digits [c] := ⟨by simp, by simpa using hdigit⟩
  have hfront : [c].head? = some '0' → [c] = ['0'] := fun h => by rw [Option.some.inj h]
  cases rest with
  | nil =>
    refine ⟨⟨negative, [c], none, some (d.leading < 0, decimalDigits d.leading.natAbs)⟩,
      ⟨hone, hfront, ?_, ?_⟩, ?_⟩
    · exact fun _ h => by cases h
    · rintro e ⟨⟩
      exact hpower
    · cases negative <;> simp [NumberText.spelling, Decimal.scientific, hc]
  | cons a more =>
    have hmore : Digits (a :: more) := ⟨by simp, fun b hb =>
      (digits_decimalDigits d.digits).isDigit b (hc ▸ List.mem_cons_of_mem _ hb)⟩
    refine ⟨⟨negative, [c], some (a :: more), some (d.leading < 0, decimalDigits d.leading.natAbs)⟩,
      ⟨hone, hfront, ?_, ?_⟩, ?_⟩
    · rintro ds ⟨⟩
      exact hmore
    · rintro e ⟨⟩
      exact hpower
    · cases negative <;> simp [NumberText.spelling, Decimal.scientific, hc]

/-- What is written for a finite number has the form of a number. -/
lemma writeFloat_spelling {x : Binary64} (h : x.isFinite = true) :
    ∃ t, Proper t ∧ (writeFloat x).toList = t.spelling := by
  rw [writeFloat, if_pos h, FloatLayout.write, String.toList_ofList]
  by_cases hplain : FloatLayout.json.isPlain (Decimal.shortest FloatLayout.json.tie x).leading = true
  · rw [if_pos hplain]
    exact plain_spelling x.isNegative (exponent_shortest FloatLayout.json.tie h)
  · rw [if_neg hplain]
    exact scientific_spelling x.isNegative _

end Novella.Proofs
