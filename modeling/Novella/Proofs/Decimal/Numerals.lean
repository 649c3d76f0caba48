import Novella.Proofs.Decimal.Bounds
import Novella.Proofs.Decimal.Literal

/-!
# Numerals

A numeral is what stands for a number in a script. It is read as the floating-point number nearest to
it, which is finite exactly if the numeral is in range. A numeral without a point that is read as a
whole number of sixty-four bits is read exactly.
-/

namespace Novella

/-- An optional minus, digits, and optionally a point with more digits. -/
structure Numeral where
  negative : Bool
  whole : List Char
  part : List Char
  whole_digits : Proofs.Digits whole
  part_isDigit : ∀ c ∈ part, c.isDigit = true

namespace Numeral

def text (t : Numeral) : List Char :=
  Proofs.signText t.negative ++ (t.whole ++ if t.part = [] then [] else '.' :: t.part)

/-- The value of all digits, as if there were no point. -/
def digits (t : Numeral) : Nat := digitsValue (t.whole ++ t.part)

/-- The value of a numeral without a point. -/
def toInt (t : Numeral) : Int := if t.negative then -t.digits else t.digits

/-- The numeral is below the limit from which on numbers are infinite. -/
def InRange (t : Numeral) : Prop := t.digits < 10 ^ t.part.length * Binary64.finiteLimit

end Numeral

end Novella

namespace Novella.Proofs

open Binary64

variable {t : Numeral}

lemma Numeral.ofLiteral_eq (t : Numeral) :
    ofLiteral t.text = ofDecimal t.negative t.digits (-t.part.length) := by
  refine ofLiteral_signed t.negative t.whole_digits ?_ ?_
  · split
    · exact fun c hc => by cases hc
    · exact fun c hc => by cases hc; decide
  · split
    · next hpart => rw [hpart]; rfl
    · exact List.takeWhile_eq_self_iff.2 t.part_isDigit

/-- Which numerals are read as a finite number. -/
theorem isFinite_ofLiteral_iff (t : Numeral) : (ofLiteral t.text).isFinite = true ↔ t.InRange := by
  rw [Numeral.ofLiteral_eq, isFinite_ofDecimal_iff, Numeral.InRange]

lemma ofDigitChars_lt {cs : List Char} (h : ∀ c ∈ cs, c.isDigit = true) (n : Nat) :
    Nat.ofDigitChars 10 cs n < (n + 1) * 10 ^ cs.length := by
  induction cs generalizing n with
  | nil => simp
  | cons c rest ih =>
    obtain ⟨hc, hrest⟩ := List.forall_mem_cons.1 h
    have hdigit : c.toNat ≤ '9'.toNat := by
      simp only [Char.isDigit, Bool.and_eq_true, decide_eq_true_eq] at hc
      exact hc.2
    rw [Nat.ofDigitChars_cons, List.length_cons, pow_succ', ← mul_assoc]
    refine (ih hrest _).trans_le (Nat.mul_le_mul_right _ ?_)
    have hnine : '9'.toNat - '0'.toNat = 9 := by decide
    omega

/-- A numeral with at most 308 digits before its point is in range. -/
lemma inRange_of_whole (h : t.whole.length ≤ 308) : t.InRange := by
  have hdigits : t.digits < 1 * 10 ^ (t.whole ++ t.part).length := by
    refine ofDigitChars_lt (fun c hc => ?_) 0
    exact (List.mem_append.1 hc).elim (t.whole_digits.isDigit c) (t.part_isDigit c)
  have hlimit : 10 ^ 308 ≤ finiteLimit := by decide +kernel
  calc t.digits < 10 ^ t.part.length * 10 ^ t.whole.length := by
        rwa [one_mul, List.length_append, pow_add, mul_comm] at hdigits
    _ ≤ 10 ^ t.part.length * finiteLimit :=
        Nat.mul_le_mul_left _ ((Nat.pow_le_pow_right (by decide) h).trans hlimit)

/-! ## Whole numbers -/

/-- Digits that are read leave no range, and are read as their value. -/
lemma ofDigitChars_of_readDigits {negative : Bool} {n m : Nat} {cs : List Char}
    (hn : n < 2 ^ 63 + (if negative then 1 else 0)) (h : readDigits negative n cs = .ok m) :
    Nat.ofDigitChars 10 cs n = m ∧ m < 2 ^ 63 + (if negative then 1 else 0) := by
  induction cs generalizing n with
  | nil =>
    cases h
    exact ⟨rfl, hn⟩
  | cons c rest ih =>
    rw [readDigits] at h
    dsimp only at h
    rw [Nat.ofDigitChars_cons]
    split at h
    · cases h
    split at h
    · cases h
    split at h
    · cases h
    next hsmall hlarge =>
    refine ih ?_ h
    cases negative <;> simp at hsmall hlarge ⊢ <;> omega

/-- A numeral that is read as a whole number is read exactly. -/
theorem toInt_of_readInt64 {n : Int64} (hpart : t.part = []) (h : readInt64 t.text = .ok n) :
    n.toInt = t.toInt := by
  have htext : t.text = signText t.negative ++ t.whole := by
    rw [Numeral.text, if_pos hpart, List.append_nil]
  have hdigits : t.digits = Nat.ofDigitChars 10 t.whole 0 := by
    rw [Numeral.digits, hpart, List.append_nil, digitsValue_eq]
  rw [htext, readInt64_signed _ t.whole_digits] at h
  cases hread : readDigits t.negative 0 t.whole with
  | error e =>
    rw [hread] at h
    cases h
  | ok m =>
    rw [hread] at h
    obtain ⟨hvalue, hm⟩ := ofDigitChars_of_readDigits (by omega) hread
    obtain rfl := Except.ok.inj h
    rw [Numeral.toInt, hdigits, hvalue]
    generalize t.negative = negative at hm ⊢
    cases negative with
    | true =>
      simp only [if_true] at hm ⊢
      exact Int64.toInt_ofInt_of_le (by omega) (by omega)
    | false =>
      simp only [Bool.false_eq_true, if_false] at hm ⊢
      exact Int64.toInt_ofInt_of_le (by omega) (by omega)

end Novella.Proofs
