import Mathlib.Data.List.TakeWhile
import Mathlib.Tactic.Ring
import Novella.Decimal.Layout
import Novella.Proofs.Decimal.Rounding

/-!
# Literals of numbers

What is written for a floating-point number in a script is an optional minus, digits, a point
and digits, and reads back as the number; for one that is not finite it reads back as zero.
The text of a whole number of sixty-four bits reads back as well.
-/

namespace Novella

/-- The number that the literal of a number stands for. -/
def Binary64.written (x : Binary64) : Binary64 := if x.isFinite then x else zero

end Novella

namespace Novella.Proofs

open Binary64

/-- A row of decimal digits, of which there is one at least. -/
structure Digits (cs : List Char) : Prop where
  ne_nil : cs ≠ []
  isDigit : ∀ c ∈ cs, c.isDigit = true

lemma digits_zero : Digits ['0'] := ⟨by simp, List.all_eq_true.1 rfl⟩

lemma digits_decimalDigits (n : Nat) : Digits (decimalDigits n) :=
  ⟨Nat.toDigits_ne_nil, fun _ hc => Nat.isDigit_of_mem_toDigits (by decide) (by decide) hc⟩

lemma Digits.append {cs ds : List Char} (hc : Digits cs) (hd : ∀ c ∈ ds, c.isDigit = true) :
    Digits (cs ++ ds) := by
  refine ⟨by simp [hc.ne_nil], fun c h => ?_⟩
  rcases List.mem_append.1 h with h | h
  · exact hc.isDigit c h
  · exact hd c h

lemma isDigit_of_mem_replicate {n : Nat} {c : Char} (h : c ∈ List.replicate n '0') :
    c.isDigit = true := by
  rw [List.eq_of_mem_replicate h]
  decide

lemma Digits.exists_cons {cs : List Char} (h : Digits cs) :
    ∃ c rest, cs = c :: rest ∧ c.isDigit = true := by
  cases cs with
  | nil => exact absurd rfl h.ne_nil
  | cons c rest => exact ⟨c, rest, rfl, h.isDigit c List.mem_cons_self⟩

lemma ne_of_isDigit {c d : Char} (hc : c.isDigit = true) (hd : d.isDigit = false) : c ≠ d := by
  rintro rfl
  exact absurd (hc.symm.trans hd) (by decide)

lemma Digits.head?_append {cs : List Char} (h : Digits cs) (rest : List Char) :
    (cs ++ rest).head? = cs.head? := by
  obtain ⟨c, more, rfl, -⟩ := h.exists_cons
  rfl

/-- The first character of a text, if there is one, is not of a class. -/
def NotAhead (p : Char → Bool) (cs : List Char) : Prop := ∀ c ∈ cs.head?, p c = false

lemma takeWhile_of_notAhead {p : Char → Bool} {cs : List Char} (h : NotAhead p cs) :
    cs.takeWhile p = [] := by
  cases cs with
  | nil => rfl
  | cons c rest =>
    have hc : p c = false := h c rfl
    simp [hc]

lemma dropWhile_of_notAhead {p : Char → Bool} {cs : List Char} (h : NotAhead p cs) :
    cs.dropWhile p = cs := by
  cases cs with
  | nil => rfl
  | cons c rest =>
    have hc : p c = false := h c rfl
    simp [hc]

lemma takeWhile_append_of_notAhead {p : Char → Bool} {cs tail : List Char}
    (h : ∀ c ∈ cs, p c = true) (ht : NotAhead p tail) : (cs ++ tail).takeWhile p = cs := by
  rw [List.takeWhile_append_of_pos h, takeWhile_of_notAhead ht, List.append_nil]

lemma dropWhile_append_of_notAhead {p : Char → Bool} {cs tail : List Char}
    (h : ∀ c ∈ cs, p c = true) (ht : NotAhead p tail) : (cs ++ tail).dropWhile p = tail := by
  rw [List.dropWhile_append_of_pos h, dropWhile_of_notAhead ht]

lemma spanDigits_append {cs tail : List Char} (h : Digits cs) (ht : NotAhead Char.isDigit tail) :
    spanDigits (cs ++ tail) = (cs, tail) := by
  rw [spanDigits, takeWhile_append_of_notAhead h.isDigit ht,
    dropWhile_append_of_notAhead h.isDigit ht]

/-! ## The value of digits -/

lemma digitsValue_eq (cs : List Char) : digitsValue cs = Nat.ofDigitChars 10 cs 0 := rfl

lemma digitsValue_decimalDigits (n : Nat) : digitsValue (decimalDigits n) = n := by
  rw [digitsValue_eq, decimalDigits, Nat.ofDigitChars_ten_toDigits]

lemma digitsValue_append_zeros (cs : List Char) (n : Nat) :
    digitsValue (cs ++ List.replicate n '0') = digitsValue cs * 10 ^ n := by
  rw [digitsValue_eq, Nat.ofDigitChars_append, Nat.ofDigitChars_replicate_zero, mul_comm,
    digitsValue_eq]

lemma digitsValue_zeros_append (n : Nat) (cs : List Char) :
    digitsValue (List.replicate n '0' ++ cs) = digitsValue cs := by
  rw [digitsValue_eq, Nat.ofDigitChars_append, Nat.ofDigitChars_replicate_zero, mul_zero,
    digitsValue_eq]

/-- No zero stands before the digits that count. -/
lemma head?_decimalDigits {n : Nat} (h : n ≠ 0) : (decimalDigits n).head? ≠ some '0' := by
  induction n using Nat.strong_induction_on with
  | _ n ih =>
    rw [decimalDigits]
    by_cases hn : n < 10
    · have hdigit : ∀ m < 10, m ≠ 0 → some (Nat.digitChar m) ≠ some '0' := by decide
      rw [Nat.toDigits_of_lt_base hn, List.head?_singleton]
      exact hdigit n hn h
    · rw [Nat.toDigits_of_base_le (by decide) (Nat.not_lt.1 hn), ← decimalDigits,
        (digits_decimalDigits _).head?_append]
      exact ih (n / 10) (by omega) (by omega)

lemma eq_zero_of_head?_decimalDigits {n : Nat} (h : (decimalDigits n).head? = some '0') : n = 0 := by
  by_contra hne
  exact head?_decimalDigits hne h

/-! ## Decimals without exponent -/

/-- The text of a decimal: digits on either side of a point, which have its value. -/
structure PointForm (d : Decimal) (cs : List Char) where
  whole : List Char
  part : List Char
  eq : cs = whole ++ '.' :: part
  whole_digits : Digits whole
  part_digits : Digits part
  value : digitsValue (whole ++ part) * 10 ^ (-d.exponent).toNat =
    d.digits * 10 ^ d.exponent.toNat * 10 ^ part.length
  front : (d.digits = 0 → d.exponent = 0) → whole.head? = some '0' → whole = ['0']

section Layouts

variable {d : Decimal}

/-- A whole number: the digits and the zeros of its power of ten, and a zero after the point. -/
lemma pointForm_whole (he : 0 ≤ d.exponent) : Nonempty (PointForm d
    (decimalDigits d.digits ++ List.replicate d.exponent.toNat '0' ++ '.' :: ['0'])) := by
  have hds := digits_decimalDigits d.digits
  refine ⟨_, ['0'], rfl, hds.append fun c => isDigit_of_mem_replicate, digits_zero, ?value,
    fun hzero hhead => ?front⟩
  case value =>
    have hzeros : List.replicate d.exponent.toNat '0' ++ ['0'] =
        List.replicate (d.exponent.toNat + 1) '0' := by rw [List.replicate_succ']
    have hpower : (-d.exponent).toNat = 0 := by omega
    rw [List.append_assoc, hzeros, digitsValue_append_zeros, digitsValue_decimalDigits, hpower,
      List.length_singleton]
    ring
  case front =>
    rw [hds.head?_append] at hhead
    have hdigits := eq_zero_of_head?_decimalDigits hhead
    rw [hdigits, hzero hdigits]
    rfl

/-- The point stands among the digits. -/
lemma pointForm_among {left : Nat} (hleft : 0 < left)
    (hplaces : left + (-d.exponent).toNat = (decimalDigits d.digits).length)
    (he : d.exponent < 0) : Nonempty (PointForm d
      ((decimalDigits d.digits).take left ++ '.' :: (decimalDigits d.digits).drop left)) := by
  have hds := digits_decimalDigits d.digits
  refine ⟨_, _, rfl, ⟨?whole, fun c hc => hds.isDigit c (List.mem_of_mem_take hc)⟩,
    ⟨?part, fun c hc => hds.isDigit c (List.mem_of_mem_drop hc)⟩, ?value,
    fun hzero hhead => ?front⟩
  case whole =>
    refine List.ne_nil_of_length_pos ?_
    rw [List.length_take]
    omega
  case part =>
    refine List.ne_nil_of_length_pos ?_
    rw [List.length_drop]
    omega
  case value =>
    have hpower : d.exponent.toNat = 0 := by omega
    have hlength : (decimalDigits d.digits).length - left = (-d.exponent).toNat := by omega
    rw [List.take_append_drop, digitsValue_decimalDigits, List.length_drop, hpower, hlength]
    ring
  case front =>
    rw [List.head?_take, if_neg (by omega)] at hhead
    exact absurd (hzero (eq_zero_of_head?_decimalDigits hhead)) (by omega)

/-- The point stands before the digits, with zeros between them. -/
lemma pointForm_before {zeros : Nat}
    (hplaces : zeros + (decimalDigits d.digits).length = (-d.exponent).toNat)
    (he : d.exponent < 0) : Nonempty (PointForm d
      (['0'] ++ '.' :: (List.replicate zeros '0' ++ decimalDigits d.digits))) := by
  have hds := digits_decimalDigits d.digits
  refine ⟨_, _, rfl, digits_zero, ⟨by simp [hds.ne_nil], fun c hc => ?part⟩, ?value, fun _ _ => rfl⟩
  case part =>
    rcases List.mem_append.1 hc with hc | hc
    · exact isDigit_of_mem_replicate hc
    · exact hds.isDigit c hc
  case value =>
    have hpower : d.exponent.toNat = 0 := by omega
    have hdigits : digitsValue (['0'] ++ (List.replicate zeros '0' ++ decimalDigits d.digits)) =
        d.digits := by
      rw [← List.append_assoc, List.singleton_append, ← List.replicate_succ,
        digitsValue_zeros_append, digitsValue_decimalDigits]
    rw [hdigits, List.length_append, List.length_replicate, hplaces, hpower]
    ring

end Layouts

lemma plain_pointForm (d : Decimal) : Nonempty (PointForm d d.plain) := by
  rw [Decimal.plain]
  dsimp only
  split
  · next he => exact pointForm_whole he
  · split
    · next hplaces => exact pointForm_among (by omega) (by omega) (by omega)
    · next hplaces => exact pointForm_before (by omega) (by omega)

/-! ## Literals -/

/-- The sign of a number as it is written. -/
def signText (negative : Bool) : List Char := if negative then ['-'] else []

/-- An optional minus, digits, a point and digits. -/
structure FloatText (cs : List Char) where
  negative : Bool
  whole : List Char
  part : List Char
  eq : cs = (if negative then ['-'] else []) ++ (whole ++ '.' :: part)
  whole_digits : Digits whole
  part_digits : Digits part

/-- The digits of a literal are read before the point and, if there is one, after it. -/
lemma ofLiteral_signed (negative : Bool) {whole tail part : List Char} (h : Digits whole)
    (ht : NotAhead Char.isDigit tail) (hpart : tail.tail.takeWhile Char.isDigit = part) :
    ofLiteral (signText negative ++ (whole ++ tail)) =
      ofDecimal negative (digitsValue (whole ++ part)) (-part.length) := by
  have hspan : spanDigits (whole ++ tail) = (whole, tail) := spanDigits_append h ht
  cases negative with
  | true => simp [signText, ofLiteral, hspan, hpart]
  | false =>
    obtain ⟨c, rest, hc, hdigit⟩ := h.exists_cons
    have hminus : c ≠ '-' := ne_of_isDigit hdigit (by decide)
    have hne : ∀ r, whole ++ tail = '-' :: r → False := by
      intro r hr
      rw [hc, List.cons_append, List.cons.injEq] at hr
      exact hminus hr.1
    rw [signText, if_neg (by simp), List.nil_append, ofLiteral, hspan]
    · simp [hpart]
    · exact hne

lemma FloatText.ofLiteral_eq {cs : List Char} (t : FloatText cs) :
    ofLiteral cs = ofDecimal t.negative (digitsValue (t.whole ++ t.part)) (-t.part.length) := by
  have hpart : t.part.takeWhile Char.isDigit = t.part :=
    List.takeWhile_eq_self_iff.2 t.part_digits.isDigit
  conv_lhs => rw [t.eq]
  exact ofLiteral_signed t.negative t.whole_digits (by intro c hc; cases hc; decide) hpart

lemma written_of_finite {x : Binary64} (h : x.isFinite = true) : x.written = x := by
  rw [written, if_pos h]

lemma written_written (x : Binary64) : x.written.written = x.written := by
  by_cases h : x.isFinite = true
  · rw [written_of_finite h, written_of_finite h]
  · rw [written, written, if_neg h, ite_self]

lemma literal_written (x : Binary64) : x.written.literal = x.literal := by
  unfold written
  split
  · rfl
  · next h =>
    rw [literal, literal, if_neg h]
    decide

lemma literal_floatText (x : Binary64) :
    ∃ t : FloatText x.literal.toList, ofDecimal t.negative (digitsValue (t.whole ++ t.part))
      (-t.part.length) = x.written := by
  by_cases h : x.isFinite = true
  · obtain ⟨f⟩ := plain_pointForm (Decimal.shortest .up x)
    have htext : x.literal.toList =
        (if x.isNegative then ['-'] else []) ++ (f.whole ++ '.' :: f.part) := by
      rw [literal, if_pos h, FloatLayout.write, String.toList_ofList, ← f.eq]
      cases x.isNegative <;> rfl
    refine ⟨⟨x.isNegative, f.whole, f.part, htext, f.whole_digits, f.part_digits⟩, ?_⟩
    calc ofDecimal x.isNegative (digitsValue (f.whole ++ f.part)) (-f.part.length)
        = ofDecimal x.isNegative (Decimal.shortest .up x).digits
            (Decimal.shortest .up x).exponent := by
          apply ofDecimal_congr
          rw [show (-(f.part.length : Int)).toNat = 0 by omega,
            show (-(-(f.part.length : Int))).toNat = f.part.length by omega, pow_zero, mul_one]
          exact f.value
      _ = ofMagnitude x.isNegative x.magnitude := ofDecimal_shortest .up x h _
      _ = x.written := by rw [ofMagnitude_self, written_of_finite h]
  · have htext : x.literal = "0.0" := by rw [literal, if_neg h]
    rw [htext]
    refine ⟨⟨false, ['0'], ['0'], rfl, digits_zero, digits_zero⟩, ?_⟩
    rw [written, if_neg h]
    rfl

/-- The literal of a number reads back as the number, or as zero if it is not finite. -/
theorem ofLiteral_literal (x : Binary64) : ofLiteral x.literal.toList = x.written := by
  obtain ⟨t, ht⟩ := literal_floatText x
  rw [t.ofLiteral_eq, ht]

/-! ## Property texts -/

lemma toLower_of_isDigit {c : Char} (h : c.isDigit = true) : c.toLower = c := by
  have hdigit : 48 ≤ c.val ∧ c.val ≤ 57 := by simpa [Char.isDigit] using h
  have hupper : ¬(c.val ≥ 'A'.val ∧ c.val ≤ 'Z'.val) := by
    rintro ⟨hlow, -⟩
    exact absurd (UInt32.le_trans hlow hdigit.2) (by decide)
  exact dif_neg hupper

lemma readMagnitude_eq (negative : Bool) {whole part : List Char} (hwhole : Digits whole)
    (hpart : Digits part) : readMagnitude negative (whole ++ '.' :: part) =
      some (ofDecimal negative (digitsValue (whole ++ part)) (-part.length)) := by
  have hspan : spanDigits (whole ++ '.' :: part) = (whole, '.' :: part) :=
    spanDigits_append hwhole (by intro c hc; cases hc; decide)
  have hspan' : spanDigits part = (part, []) := by
    have hspan := spanDigits_append hpart (show NotAhead Char.isDigit [] by intro c hc; cases hc)
    rwa [List.append_nil] at hspan
  have hword : ∀ {a : Char} {word : List Char}, a.isDigit = false →
      (whole ++ '.' :: part).map Char.toLower ≠ a :: word := by
    obtain ⟨c, rest, rfl, hc⟩ := hwhole.exists_cons
    intro a word ha heq
    obtain rfl : c.toLower = a := (List.cons.inj heq).1
    rw [toLower_of_isDigit hc, hc] at ha
    cases ha
  have hinf : ¬((whole ++ '.' :: part).map Char.toLower = "inf".toList ∨
      (whole ++ '.' :: part).map Char.toLower = "infinity".toList) :=
    fun h => h.elim (hword (by decide)) (hword (by decide))
  have hnan : ¬(whole ++ '.' :: part).map Char.toLower = "nan".toList := hword (by decide)
  have hne : (whole.isEmpty && part.isEmpty) = false := by
    rw [List.isEmpty_eq_false_iff.2 hwhole.ne_nil, Bool.false_and]
  rw [readMagnitude]
  simp only [Bool.or_eq_true, decide_eq_true_eq]
  rw [if_neg hinf, if_neg hnan, hspan]
  simp only [hspan', hne, Bool.false_eq_true, if_false, Option.map_some, zero_sub]

lemma FloatText.read_eq {cs : List Char} (t : FloatText cs) : Binary64.read cs =
    .ok (ofDecimal t.negative (digitsValue (t.whole ++ t.part)) (-t.part.length)) := by
  conv_lhs => rw [t.eq]
  cases t.negative with
  | true => simp [Binary64.read, readMagnitude_eq true t.whole_digits t.part_digits]
  | false =>
    obtain ⟨c, rest, hc, hdigit⟩ := t.whole_digits.exists_cons
    have hminus : c ≠ '-' := ne_of_isDigit hdigit (by decide)
    have hplus : c ≠ '+' := ne_of_isDigit hdigit (by decide)
    have hread := readMagnitude_eq false t.whole_digits t.part_digits
    rw [if_neg (by simp), List.nil_append]
    simp only [hc, List.cons_append] at hread ⊢
    rw [Binary64.read]
    · rw [hread]
      rfl
    · exact fun h => List.cons_ne_nil _ _ h
    · exact fun _ h => hminus (List.cons.inj h).1
    · exact fun _ h => hplus (List.cons.inj h).1

/-- The literal of a number is read as the number also where it stands for a property. -/
theorem read_literal (x : Binary64) : Binary64.read x.literal.toList = .ok x.written := by
  obtain ⟨t, ht⟩ := literal_floatText x
  rw [t.read_eq, ht]

/-! ## Whole numbers -/

/-- More digits never make a number smaller. -/
lemma le_ofDigitChars (n : Nat) (cs : List Char) : n ≤ Nat.ofDigitChars 10 cs n := by
  rw [Nat.ofDigitChars_eq_ofDigitChars_zero]
  have := Nat.le_mul_of_pos_left n (Nat.pow_pos (by decide : 0 < 10) (n := cs.length))
  omega

lemma readDigits_append (negative : Bool) (n : Nat) (cs : List Char)
    (h : ∀ c ∈ cs, c.isDigit = true)
    (hn : Nat.ofDigitChars 10 cs n < 2 ^ 63 + (if negative then 1 else 0)) :
    readDigits negative n cs = .ok (Nat.ofDigitChars 10 cs n) := by
  induction cs generalizing n with
  | nil => rfl
  | cons c rest ih =>
    have hc : c.isDigit = true := h c List.mem_cons_self
    rw [Nat.ofDigitChars_cons] at hn ⊢
    have hle := le_ofDigitChars (10 * n + (c.toNat - '0'.toNat)) rest
    have hih := ih _ (fun d hd => h d (List.mem_cons_of_mem _ hd)) hn
    unfold readDigits
    rw [hc]
    cases negative with
    | true =>
      simp only [if_true] at hn
      have hsmall : ¬2 ^ 63 < 10 * n + (c.toNat - '0'.toNat) := by omega
      simp only [Bool.not_true, Bool.false_eq_true, if_false, Bool.true_and, decide_eq_true_eq,
        Bool.false_and, hsmall]
      exact hih
    | false =>
      simp only [Bool.false_eq_true, if_false] at hn
      have hsmall : ¬2 ^ 63 ≤ 10 * n + (c.toNat - '0'.toNat) := by omega
      simp only [Bool.not_true, Bool.false_eq_true, if_false, Bool.not_false, decide_eq_true_eq,
        Bool.false_and, Bool.true_and, hsmall]
      exact hih

lemma readDigits_decimalDigits (negative : Bool) {n : Nat}
    (h : n < 2 ^ 63 + (if negative then 1 else 0)) :
    readDigits negative 0 (decimalDigits n) = .ok n := by
  have hvalue : Nat.ofDigitChars 10 (decimalDigits n) 0 = n := Nat.ofDigitChars_ten_toDigits
  rw [readDigits_append negative 0 _ (digits_decimalDigits n).isDigit (by rwa [hvalue]), hvalue]

lemma toString_toList (n : Int) : (toString n).toList =
    (if n < 0 then ['-'] else []) ++ decimalDigits n.natAbs := by
  rw [Int.toString_eq_repr, Int.repr_eq_if]
  by_cases h : 0 ≤ n
  · rw [if_pos h, if_neg (by omega), Nat.toList_repr, List.nil_append, decimalDigits,
      show n.toNat = n.natAbs by omega]
  · rw [if_neg h, if_pos (by omega), String.toList_append, Nat.toList_repr, decimalDigits,
      show (-n).toNat = n.natAbs by omega]
    rfl

lemma signText_decimalDigits (n : Int) :
    signText (n < 0) ++ decimalDigits n.natAbs = (toString n).toList := by
  rw [toString_toList]
  by_cases h : n < 0 <;> simp [signText, h]

lemma readInt64_signed (negative : Bool) {whole : List Char} (h : Digits whole) :
    readInt64 (signText negative ++ whole) = (readDigits negative 0 whole).map fun n : Nat =>
      Int64.ofInt (if negative then -(n : Int) else n) := by
  cases negative with
  | true =>
    simp only [signText, if_true, List.singleton_append, readInt64, List.isEmpty_iff, h.ne_nil,
      if_false]
    cases readDigits true 0 whole <;> rfl
  | false =>
    obtain ⟨c, rest, rfl, hdigit⟩ := h.exists_cons
    have hminus : c ≠ '-' := ne_of_isDigit hdigit (by decide)
    have hplus : c ≠ '+' := ne_of_isDigit hdigit (by decide)
    simp only [signText, Bool.false_eq_true, if_false, List.nil_append, readInt64]
    split
    · next heq => cases heq
    · next heq => exact absurd (List.cons.inj heq).1 hminus
    · next heq => exact absurd (List.cons.inj heq).1 hplus
    · cases readDigits false 0 (c :: rest) <;> rfl

/-- The text of a whole number of sixty-four bits reads back. -/
theorem readInt64_toString (n : Int64) : readInt64 (toString n.toInt).toList = .ok n := by
  have hlow : -2 ^ 63 ≤ n.toInt := n.le_toInt
  have hhigh : n.toInt < 2 ^ 63 := n.toInt_lt
  have hread := readDigits_decimalDigits (n.toInt < 0) (n := n.toInt.natAbs) (by
    simp only [decide_eq_true_eq]
    split <;> omega)
  have hvalue : (if n.toInt < 0 then -(n.toInt.natAbs : Int) else n.toInt.natAbs) = n.toInt := by
    split <;> omega
  rw [← signText_decimalDigits, readInt64_signed _ (digits_decimalDigits _), hread]
  simp only [Except.map, decide_eq_true_eq, hvalue, Int64.ofInt_toInt]

end Novella.Proofs
