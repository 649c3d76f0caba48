import Mathlib.Tactic.Ring
import Mathlib.Tactic.Linarith
import Novella.Decimal.Shortest

/-!
# Rounding of decimals

`Binary64.ofDecimal` depends on the value of a decimal alone, whichever of its branches is
taken, and a number that is representable is its own rounding. Together they give the main
statement: the shortest decimal of a finite number reads back as the number.
-/

namespace Novella.Proofs

open Binary64

lemma roundDiv_scale (num den : Nat) {c : Nat} (hc : 0 < c) :
    roundDiv (c * num) (c * den) = roundDiv num den := by
  have hlt : ∀ a b : Nat, 2 * (c * a) < c * b ↔ 2 * a < b := by
    intro a b
    rw [← mul_assoc, mul_comm 2 c, mul_assoc]
    exact Nat.mul_lt_mul_left hc
  have hgt : ∀ a b : Nat, c * b < 2 * (c * a) ↔ b < 2 * a := by
    intro a b
    rw [← mul_assoc, mul_comm 2 c, mul_assoc]
    exact Nat.mul_lt_mul_left hc
  unfold roundDiv
  simp only [Nat.mul_div_mul_left _ _ hc, Nat.mul_mod_mul_left, hlt, hgt]

lemma nearestBits_scale (num den : Nat) {c : Nat} (hc : 0 < c) :
    nearestBits (c * num) (c * den) = nearestBits num den := by
  unfold nearestBits
  simp only [Nat.mul_div_mul_left _ _ hc, mul_assoc, roundDiv_scale _ _ hc]

/-- Rounding depends on the value of a fraction alone. -/
lemma nearestBits_congr {num den num' den' : Nat} (hd : 0 < den) (hd' : 0 < den')
    (h : num * den' = num' * den) : nearestBits num den = nearestBits num' den' := by
  calc nearestBits num den
      = nearestBits (den' * num) (den' * den) := (nearestBits_scale _ _ hd').symm
    _ = nearestBits (den * num') (den * den') := by
        rw [mul_comm den' num, h, mul_comm num' den, mul_comm den' den]
    _ = nearestBits num' den' := nearestBits_scale _ _ hd

lemma nearestBits_of_lt {num den : Nat} (h : 2 * num < den) : nearestBits num den = 0 := by
  have hlt : num < den := by omega
  simp [nearestBits, roundDiv, Nat.div_eq_of_lt hlt, Nat.mod_eq_of_lt hlt, h]

lemma nearestBits_of_large {num k : Nat} (hk : 2099 ≤ k) (h : 2 ^ k ≤ num) :
    nearestBits num 1 = infinityBits := by
  have hne : num ≠ 0 := by
    rintro rfl
    exact absurd h (Nat.not_le.2 (Nat.two_pow_pos _))
  have hlog : 2099 ≤ num.log2 := hk.trans ((Nat.le_log2 hne).2 h)
  have hshift : infinityBits ≤ (num.log2 - 52) * 2 ^ 52 := by
    unfold infinityBits
    exact Nat.mul_le_mul_right _ (by omega)
  unfold nearestBits
  rw [Nat.div_one]
  exact Nat.min_eq_right (hshift.trans (Nat.le_add_right _ _))

lemma exists_unit_eq_two_pow : ∃ k, k = 1074 ∧ unit = 2 ^ k := ⟨1074, rfl, unit.eq_1⟩

lemma two_pow_le_ten_pow (n : Nat) : 2 ^ (3 * n) ≤ 10 ^ n := by
  rw [pow_mul]
  exact Nat.pow_le_pow_left (by decide) n

/-- A decimal with so large an exponent is rounded to infinity. -/
lemma nearestBits_of_large_exponent {digits exponent : Nat} (hpos : digits ≠ 0)
    (h : 400 < exponent) : nearestBits (digits * 10 ^ exponent * unit) 1 = infinityBits := by
  obtain ⟨k, hk, hunit⟩ := exists_unit_eq_two_pow
  have hnum : 2 ^ (3 * exponent + k) ≤ digits * 10 ^ exponent * unit := by
    calc 2 ^ (3 * exponent + k) = 1 * 2 ^ (3 * exponent) * 2 ^ k := by
          rw [one_mul, ← pow_add]
      _ ≤ digits * 10 ^ exponent * unit := by
          rw [hunit]
          exact Nat.mul_le_mul_right _
            (Nat.mul_le_mul (Nat.pos_of_ne_zero hpos) (two_pow_le_ten_pow _))
  exact nearestBits_of_large (by omega) hnum

/-- A decimal so far below the smallest number is rounded to zero. -/
lemma nearestBits_of_small_exponent {digits places : Nat}
    (h : digits.log2 + 401 < places) : nearestBits (digits * unit) (10 ^ places) = 0 := by
  have hdigits : digits < 2 ^ (digits.log2 + 1) := Nat.lt_log2_self
  obtain ⟨k, hk, hunit⟩ := exists_unit_eq_two_pow
  apply nearestBits_of_lt
  calc 2 * (digits * unit) = digits * 2 ^ (k + 1) := by
        rw [hunit]
        ring
    _ < 2 ^ (digits.log2 + 1) * 2 ^ (k + 1) :=
        Nat.mul_lt_mul_of_pos_right hdigits (Nat.two_pow_pos _)
    _ ≤ 2 ^ (3 * places) := by
        rw [← pow_add]
        exact Nat.pow_le_pow_right (by decide) (by omega)
    _ ≤ 10 ^ places := two_pow_le_ten_pow _

/-- The branches of `ofDecimal` for very large and very small decimals round like the others. -/
theorem ofDecimal_eq_nearest (negative : Bool) (digits : Nat) (exponent : Int) :
    ofDecimal negative digits exponent = ofMagnitude negative
      (nearestBits (digits * 10 ^ exponent.toNat * unit) (10 ^ (-exponent).toNat)) := by
  unfold ofDecimal
  split
  · next h =>
    rw [h, zero_mul, zero_mul, nearestBits_of_lt (by simp)]
  split
  · next hpos hlarge =>
    rw [show (-exponent).toNat = 0 by omega, pow_zero,
      nearestBits_of_large_exponent hpos (by omega)]
    rfl
  split
  · next hsmall =>
    rw [show exponent.toNat = 0 by omega, pow_zero, mul_one,
      nearestBits_of_small_exponent (by omega)]
  split
  · next hnonneg =>
    rw [show (-exponent).toNat = 0 by omega, pow_zero]
    rfl
  · next hneg =>
    rw [show exponent.toNat = 0 by omega, pow_zero, mul_one]
    rfl

/-- Decimals of one value are read as one number. -/
lemma ofDecimal_congr (negative : Bool) {d d' : Nat} {e e' : Int}
    (h : d * 10 ^ e.toNat * 10 ^ (-e').toNat = d' * 10 ^ e'.toNat * 10 ^ (-e).toNat) :
    ofDecimal negative d e = ofDecimal negative d' e' := by
  rw [ofDecimal_eq_nearest, ofDecimal_eq_nearest]
  refine congrArg _ (nearestBits_congr (Nat.pow_pos (by decide)) (Nat.pow_pos (by decide)) ?_)
  calc d * 10 ^ e.toNat * unit * 10 ^ (-e').toNat
      = d * 10 ^ e.toNat * 10 ^ (-e').toNat * unit := by ring
    _ = d' * 10 ^ e'.toNat * 10 ^ (-e).toNat * unit := by rw [h]
    _ = d' * 10 ^ e'.toNat * unit * 10 ^ (-e).toNat := by ring

/-! ## Representable numbers -/

lemma log2_two_pow_add {k fraction : Nat} (h : fraction < 2 ^ 52) :
    ((2 ^ 52 + fraction) * 2 ^ k).log2 = 52 + k := by
  have hpos : (2 ^ 52 + fraction) * 2 ^ k ≠ 0 := by positivity
  apply le_antisymm
  · apply Nat.lt_succ_iff.1
    rw [Nat.log2_lt hpos]
    calc (2 ^ 52 + fraction) * 2 ^ k < 2 ^ 53 * 2 ^ k :=
          Nat.mul_lt_mul_of_pos_right (by omega) (Nat.two_pow_pos _)
      _ = 2 ^ (52 + k + 1) := by rw [← pow_add]; congr 1; omega
  · rw [Nat.le_log2 hpos, pow_add]
    exact Nat.mul_le_mul_right _ (by omega)

lemma roundDiv_mul (n : Nat) {d : Nat} (h : 0 < d) : roundDiv (n * d) d = n := by
  simp [roundDiv, Nat.mul_div_cancel _ h, h]

lemma nearestBits_scaled (x : Binary64) (h : x.isFinite = true) :
    nearestBits x.scaled 1 = x.magnitude := by
  have hfinite : x.magnitude < 0x7ff * 2 ^ 52 := of_decide_eq_true h
  have hfraction : x.magnitude % 2 ^ 52 < 2 ^ 52 := Nat.mod_lt _ (by decide)
  have hsplit := Nat.div_add_mod x.magnitude (2 ^ 52)
  unfold scaled nearestBits
  by_cases hexp : x.magnitude / 2 ^ 52 = 0
  · have hlog : (x.magnitude % 2 ^ 52).log2 - 52 = 0 := by
      rcases Nat.eq_zero_or_pos (x.magnitude % 2 ^ 52) with h0 | h0
      · rw [h0]
        rfl
      · have := (Nat.log2_lt (Nat.pos_iff_ne_zero.1 h0)).2 hfraction
        omega
    simp only [hexp, if_true, Nat.div_one, hlog, zero_mul, zero_add, pow_zero]
    have hround := roundDiv_mul (x.magnitude % 2 ^ 52) Nat.one_pos
    rw [mul_one] at hround
    rw [one_mul, hround]
    unfold infinityBits
    omega
  · have hlog := log2_two_pow_add (k := x.magnitude / 2 ^ 52 - 1) hfraction
    simp only [hexp, if_false, Nat.div_one, hlog, Nat.add_sub_cancel_left, one_mul,
      roundDiv_mul _ (Nat.two_pow_pos _)]
    unfold infinityBits
    omega

lemma ofMagnitude_self (x : Binary64) : ofMagnitude x.isNegative x.magnitude = x := by
  have hlt : x.bits.toNat < 2 ^ 64 := x.bits.toNat_lt
  have hbits : (if x.isNegative then 2 ^ 63 else 0) + x.magnitude = x.bits.toNat := by
    simp only [isNegative, magnitude, decide_eq_true_eq]
    split <;> omega
  unfold ofMagnitude
  rw [hbits, UInt64.ofNat_toNat]

lemma magnitude_ofMagnitude (negative : Bool) {m : Nat} (h : m < 2 ^ 63) :
    (ofMagnitude negative m).magnitude = m := by
  have hbits : (UInt64.ofNat ((if negative then 2 ^ 63 else 0) + m)).toNat =
      (if negative then 2 ^ 63 else 0) + m := by
    rw [UInt64.toNat_ofNat']
    refine Nat.mod_eq_of_lt ?_
    cases negative <;> simp <;> omega
  rw [magnitude, ofMagnitude, hbits]
  cases negative <;> simp <;> omega

/-! ## Shortest decimals -/

lemma ofDecimal_trim (negative : Bool) (n : Nat) (d : Decimal) :
    ofDecimal negative (Decimal.trim n d).digits (Decimal.trim n d).exponent =
      ofDecimal negative d.digits d.exponent := by
  induction n generalizing d with
  | zero => rfl
  | succ n ih =>
    rw [Decimal.trim]
    split
    · next h =>
      rw [ih]
      apply ofDecimal_congr
      have hdigits : d.digits = 10 * (d.digits / 10) := by omega
      rcases lt_or_ge d.exponent 0 with he | he
      · have hpow : (-d.exponent).toNat = (-(d.exponent + 1)).toNat + 1 := by omega
        rw [hpow, show (d.exponent + 1).toNat = 0 by omega, show d.exponent.toNat = 0 by omega]
        conv_rhs => rw [hdigits]
        ring
      · have hpow : (d.exponent + 1).toNat = d.exponent.toNat + 1 := by omega
        rw [hpow, show (-d.exponent).toNat = 0 by omega, show (-(d.exponent + 1)).toNat = 0 by omega]
        conv_rhs => rw [hdigits]
        ring
    · rfl

lemma ofDecimal_exactly (x : Binary64) (h : x.isFinite = true) :
    ofDecimal false (Decimal.exactly x).digits (Decimal.exactly x).exponent =
      ofMagnitude false x.magnitude := by
  obtain ⟨k, hk, hunit⟩ := exists_unit_eq_two_pow
  have hdecimal : Decimal.exactly x = ⟨x.scaled * 5 ^ k, -k⟩ := by
    rw [Decimal.exactly, hk, Nat.cast_ofNat]
  rw [ofDecimal_eq_nearest, ← nearestBits_scaled x h, hdecimal]
  refine congrArg _ (nearestBits_congr (Nat.pow_pos (by decide)) Nat.one_pos ?_)
  have hneg : (-(k : Int)).toNat = 0 := by omega
  have hpos : (-(-(k : Int))).toNat = k := by omega
  have hten : (10 : Nat) ^ k = 5 ^ k * 2 ^ k := Nat.mul_pow 5 2 k
  simp only [hneg, hpos, hten, hunit]
  ring

/-- A point of a decimal grid is only taken if it reads back. -/
lemma ofDecimal_pointOnGrid {tie : TieRule} {x : Binary64} {k : Int} {d : Decimal}
    (h : Decimal.pointOnGrid tie x k = some d) :
    ofDecimal false d.digits d.exponent = ofMagnitude false x.magnitude := by
  unfold Decimal.pointOnGrid at h
  simp only at h
  split at h
  · cases h
  · next hlow _ =>
    cases h
    simpa using hlow
  · next _ hhigh =>
    cases h
    simpa using hhigh
  · next hlow hhigh =>
    split at h
    · cases h
      simpa using hlow
    split at h
    · cases h
      simpa using hhigh
    cases tie with
    | up =>
      cases h
      simpa using hhigh
    | toEven =>
      cases h
      rcases Nat.mod_two_eq_zero_or_one
          ((Decimal.onGrid x.scaled k).1 / (Decimal.onGrid x.scaled k).2) with hpar | hpar
      · simpa [hpar] using hlow
      · simpa [hpar] using hhigh

/-- The shortest decimal of a finite number reads back as its magnitude. -/
theorem ofDecimal_shortest (tie : TieRule) (x : Binary64) (h : x.isFinite = true)
    (negative : Bool) :
    ofDecimal negative (Decimal.shortest tie x).digits (Decimal.shortest tie x).exponent =
      ofMagnitude negative x.magnitude := by
  have hfalse : ofDecimal false (Decimal.shortest tie x).digits
      (Decimal.shortest tie x).exponent = ofMagnitude false x.magnitude := by
    unfold Decimal.shortest
    split
    · next hzero =>
      have hm : x.magnitude = 0 := by simpa [isZero] using hzero
      rw [hm]
      rfl
    · simp only
      rw [ofDecimal_trim]
      cases hfind : (List.range 17).findSome? fun n : Nat =>
          Decimal.pointOnGrid tie x (Decimal.leadingExponent x.scaled - n) with
      | none => exact ofDecimal_exactly x h
      | some d =>
        obtain ⟨n, -, hn⟩ := List.exists_of_findSome?_eq_some hfind
        exact ofDecimal_pointOnGrid hn
  have hfinite : x.magnitude < 0x7ff * 2 ^ 52 := of_decide_eq_true h
  rw [ofDecimal_eq_nearest] at hfalse ⊢
  congr 1
  have hbits : ∀ num den, nearestBits num den ≤ 0x7ff * 2 ^ 52 := fun _ _ => Nat.min_le_right _ _
  have hle := hbits ((Decimal.shortest tie x).digits * 10 ^ (Decimal.shortest tie x).exponent.toNat
    * unit) (10 ^ (-(Decimal.shortest tie x).exponent).toNat)
  have hword := congrArg (fun y : Binary64 => y.bits.toNat) hfalse
  simp only [ofMagnitude, Bool.false_eq_true, if_false, zero_add, UInt64.toNat_ofNat'] at hword
  rw [Nat.mod_eq_of_lt (by omega), Nat.mod_eq_of_lt (by omega)] at hword
  exact hword

end Novella.Proofs
