import Novella.Proofs.Decimal.Rounding

/-!
# Bounds of rounded numbers

How large a rounded fraction is depends on the power of two that the fraction reaches. So quotients
by numbers that are not below one stay finite, as do whole numbers of sixty-four bits, and a decimal
is read as a finite number exactly if it is below `Binary64.finiteLimit`. Numbers are ordered by their
values, and whole numbers of at most fifty-three bits are not rounded.
-/

namespace Novella

/-- The least whole number that is too large for a finite number: halfway from the largest finite
number to the power of two after it. -/
def Binary64.finiteLimit : Nat := (2 ^ 54 - 1) * 2 ^ 970

end Novella

namespace Novella.Proofs

open Binary64

variable {num den k : Nat} {x p : Binary64}

lemma roundDiv_le (num den : Nat) : roundDiv num den ≤ num / den + 1 := by
  unfold roundDiv
  dsimp only
  split
  · omega
  · split <;> omega

lemma le_roundDiv (num den : Nat) : num / den ≤ roundDiv num den := by
  unfold roundDiv
  dsimp only
  split
  · omega
  · split <;> omega

lemma nearestBits_eq (num den : Nat) : nearestBits num den =
    min (((num / den).log2 - 52) * 2 ^ 52 + roundDiv num (den * 2 ^ ((num / den).log2 - 52)))
      infinityBits := rfl

/-- A fraction below a power of two is rounded to a magnitude that says so. -/
lemma nearestBits_le (hk : 53 ≤ k) (h : num / den < 2 ^ k) :
    nearestBits num den ≤ (k - 51) * 2 ^ 52 := by
  obtain ⟨q, hq⟩ : ∃ q, q = num / den := ⟨_, rfl⟩
  obtain ⟨shift, hshift⟩ : ∃ shift, shift = q.log2 - 52 := ⟨_, rfl⟩
  have hlog : q.log2 < k := by
    rcases Nat.eq_zero_or_pos q with rfl | hpos
    · exact Nat.lt_of_lt_of_le (by decide) hk
    · exact (Nat.log2_lt (Nat.pos_iff_ne_zero.1 hpos)).2 (hq ▸ h)
  have hscaled : num / (den * 2 ^ shift) < 2 ^ 53 := by
    rw [← Nat.div_div_eq_div_mul, ← hq, Nat.div_lt_iff_lt_mul (Nat.two_pow_pos _), ← pow_add]
    exact Nat.lt_of_lt_of_le Nat.lt_log2_self (Nat.pow_le_pow_right (by decide) (by omega))
  have hround := roundDiv_le num (den * 2 ^ shift)
  rw [nearestBits_eq, ← hq, ← hshift]
  calc min (shift * 2 ^ 52 + roundDiv num (den * 2 ^ shift)) infinityBits
      ≤ shift * 2 ^ 52 + roundDiv num (den * 2 ^ shift) := Nat.min_le_left _ _
    _ ≤ (k - 53) * 2 ^ 52 + 2 * 2 ^ 52 := Nat.add_le_add (Nat.mul_le_mul_right _ (by omega)) (by omega)
    _ = (k - 51) * 2 ^ 52 := by
      rw [← Nat.add_mul]
      congr 1
      omega

/-- A fraction not below a power of two is rounded to a magnitude that says so. -/
lemma le_nearestBits (hk : 52 ≤ k) (h : 2 ^ k ≤ num / den) :
    min ((k - 51) * 2 ^ 52) infinityBits ≤ nearestBits num den := by
  obtain ⟨q, hq⟩ : ∃ q, q = num / den := ⟨_, rfl⟩
  obtain ⟨shift, hshift⟩ : ∃ shift, shift = q.log2 - 52 := ⟨_, rfl⟩
  rw [← hq] at h
  have hpos : q ≠ 0 := by
    rintro rfl
    exact absurd h (Nat.not_le.2 (Nat.two_pow_pos _))
  have hlog : k ≤ q.log2 := (Nat.le_log2 hpos).2 h
  have hscaled : 2 ^ 52 ≤ num / (den * 2 ^ shift) := by
    rw [← Nat.div_div_eq_div_mul, ← hq, Nat.le_div_iff_mul_le (Nat.two_pow_pos _), ← pow_add]
    exact (Nat.pow_le_pow_right (by decide) (by omega)).trans (Nat.log2_self_le hpos)
  have hround := le_roundDiv num (den * 2 ^ shift)
  rw [nearestBits_eq, ← hq, ← hshift]
  refine min_le_min_right _ ?_
  calc (k - 51) * 2 ^ 52 = (k - 52) * 2 ^ 52 + 2 ^ 52 := by
        rw [← Nat.succ_mul]
        congr 1
        omega
    _ ≤ shift * 2 ^ 52 + roundDiv num (den * 2 ^ shift) :=
        Nat.add_le_add (Nat.mul_le_mul_right _ (by omega)) (hscaled.trans hround)

lemma scaled_eq (x : Binary64) : x.scaled = if x.magnitude / 2 ^ 52 = 0 then x.magnitude % 2 ^ 52
    else (2 ^ 52 + x.magnitude % 2 ^ 52) * 2 ^ (x.magnitude / 2 ^ 52 - 1) := rfl

/-- A magnitude up to an exponent is a number below the power of two. -/
lemma scaled_lt {e : Nat} (h : x.magnitude ≤ e * 2 ^ 52) : x.scaled < 2 ^ (52 + e) := by
  have hfraction : x.magnitude % 2 ^ 52 < 2 ^ 52 := Nat.mod_lt _ (by decide)
  rw [scaled_eq]
  split
  · exact Nat.lt_of_lt_of_le hfraction (Nat.pow_le_pow_right (by decide) (by omega))
  · next hexp =>
    calc (2 ^ 52 + x.magnitude % 2 ^ 52) * 2 ^ (x.magnitude / 2 ^ 52 - 1)
        < 2 ^ 53 * 2 ^ (x.magnitude / 2 ^ 52 - 1) :=
          Nat.mul_lt_mul_of_pos_right (by omega) (Nat.two_pow_pos _)
      _ = 2 ^ (53 + (x.magnitude / 2 ^ 52 - 1)) := (pow_add ..).symm
      _ ≤ 2 ^ (52 + e) := Nat.pow_le_pow_right (by decide) (by omega)

/-- A magnitude from an exponent on is a number not below the power of two. -/
lemma le_scaled {e : Nat} (he : 1 ≤ e) (h : e * 2 ^ 52 ≤ x.magnitude) : 2 ^ (51 + e) ≤ x.scaled := by
  have hexp : e ≤ x.magnitude / 2 ^ 52 := (Nat.le_div_iff_mul_le (by decide)).2 h
  rw [scaled_eq, if_neg (by omega)]
  calc 2 ^ (51 + e) = 2 ^ 52 * 2 ^ (e - 1) := by
        rw [← pow_add]
        congr 1
        omega
    _ ≤ (2 ^ 52 + x.magnitude % 2 ^ 52) * 2 ^ (x.magnitude / 2 ^ 52 - 1) :=
        Nat.mul_le_mul (Nat.le_add_right _ _) (Nat.pow_le_pow_right (by decide) (by omega))

lemma nearestBits_le_infinityBits (num den : Nat) : nearestBits num den ≤ infinityBits :=
  Nat.min_le_right _ _

lemma magnitude_nearest (negative : Bool) (num den : Nat) :
    (nearest negative num den).magnitude = nearestBits num den :=
  magnitude_ofMagnitude negative
    (Nat.lt_of_le_of_lt (nearestBits_le_infinityBits num den) (by decide))

/-- The number is finite and below the power of two, in units of `2 ^ -1074`. -/
structure Below (k : Nat) (x : Binary64) : Prop where
  finite : x.isFinite = true
  scaled : x.scaled < 2 ^ k

lemma below_nearest (negative : Bool) (hk : 53 ≤ k) (hlarge : k ≤ 2097) (h : num / den < 2 ^ k) :
    Below (k + 1) (nearest negative num den) := by
  have hbits := nearestBits_le hk h
  rw [← magnitude_nearest negative] at hbits
  constructor
  · have hlt : (k - 51) * 2 ^ 52 < infinityBits :=
      Nat.mul_lt_mul_of_pos_right (by omega) (by decide)
    exact decide_eq_true (Nat.lt_of_le_of_lt hbits hlt)
  · exact Nat.lt_of_lt_of_le (scaled_lt hbits) (Nat.pow_le_pow_right (by decide) (by omega))

lemma not_isNaN (h : x.isFinite = true) : x.isNaN = false :=
  decide_eq_false (Nat.not_lt.2 (Nat.le_of_lt (of_decide_eq_true h)))

lemma not_isInfinite (h : x.isFinite = true) : x.isInfinite = false :=
  decide_eq_false (Nat.ne_of_lt (of_decide_eq_true h))

lemma combine_of_finite (f : Binary64 → Binary64 → Binary64) (hx : x.isFinite = true)
    (hp : p.isFinite = true) : combine f x p = f x p := by
  rw [combine, not_isNaN hx, not_isNaN hp]
  rfl

/-- A product of finite numbers is finite unless it is infinite. -/
lemma isFinite_mul (hx : x.isFinite = true) (hp : p.isFinite = true)
    (h : (x * p).isInfinite = false) : (x * p).isFinite = true := by
  have hmul : x * p = nearest (x.isNegative != p.isNegative) (x.scaled * p.scaled) unit := by
    change Binary64.mul x p = _
    rw [Binary64.mul, combine_of_finite _ hx hp, not_isInfinite hx, not_isInfinite hp]
    rfl
  have hbits := nearestBits_le_infinityBits (x.scaled * p.scaled) unit
  rw [← magnitude_nearest (x.isNegative != p.isNegative), ← hmul] at hbits
  exact decide_eq_true (Nat.lt_of_le_of_ne hbits (of_decide_eq_false h))

/-- A quotient by a number that is not below one is hardly larger than the dividend. -/
lemma Below.div (h : Below k x) (hk : 53 ≤ k) (hlarge : k ≤ 2097) (hp : p.isFinite = true)
    (hone : unit ≤ p.scaled) : Below (k + 1) (x / p) := by
  have hpos : 0 < unit := by
    obtain ⟨_, -, hunit⟩ := exists_unit_eq_two_pow
    exact hunit ▸ Nat.two_pow_pos _
  have hzero : p.isZero = false := by
    rw [Bool.eq_false_iff]
    intro hzero
    have hmagnitude : p.magnitude = 0 := of_decide_eq_true hzero
    have hscaled : p.scaled = 0 := by
      rw [scaled_eq, hmagnitude]
      rfl
    omega
  have hdiv : x / p = nearest (x.isNegative != p.isNegative) (x.scaled * unit) p.scaled := by
    change Binary64.div x p = _
    rw [Binary64.div, combine_of_finite _ h.finite hp, not_isInfinite h.finite, not_isInfinite hp, hzero]
    rfl
  rw [hdiv]
  refine below_nearest _ hk hlarge (Nat.lt_of_le_of_lt ?_ h.scaled)
  calc x.scaled * unit / p.scaled ≤ x.scaled * unit / unit := Nat.div_le_div_left hone hpos
    _ = x.scaled := Nat.mul_div_cancel _ hpos

lemma magnitude_neg (x : Binary64) : (-x).magnitude = x.magnitude := by
  change (x.bits ^^^ 0x8000000000000000).toNat % 2 ^ 63 = x.bits.toNat % 2 ^ 63
  rw [UInt64.toNat_xor, Nat.xor_mod_two_pow]
  exact Nat.xor_zero _

lemma isFinite_neg (x : Binary64) : (-x).isFinite = x.isFinite := by
  rw [isFinite, isFinite, magnitude_neg]

/-! ## The order of numbers -/

section Order

variable {x y : Binary64}

/-- A number of a lower exponent is below the power of two that the other exponent stands for. -/
lemma scaled_lt_of_exponent_lt (h : x.magnitude / 2 ^ 52 < y.magnitude / 2 ^ 52) :
    x.scaled < y.scaled := by
  have hlow : x.scaled < 2 ^ (52 + x.magnitude / 2 ^ 52) := by
    have hfraction : x.magnitude % 2 ^ 52 < 2 ^ 52 := Nat.mod_lt _ (by decide)
    rw [scaled_eq]
    split
    · next hzero => rwa [hzero]
    · next hpos =>
      calc (2 ^ 52 + x.magnitude % 2 ^ 52) * 2 ^ (x.magnitude / 2 ^ 52 - 1)
          < 2 ^ 53 * 2 ^ (x.magnitude / 2 ^ 52 - 1) :=
            Nat.mul_lt_mul_of_pos_right (by omega) (Nat.two_pow_pos _)
        _ = 2 ^ (52 + x.magnitude / 2 ^ 52) := by
            rw [← pow_add]
            congr 1
            omega
  have hhigh : 2 ^ (51 + y.magnitude / 2 ^ 52) ≤ y.scaled :=
    le_scaled (by omega) (Nat.div_mul_le_self _ _)
  exact hlow.trans_le ((Nat.pow_le_pow_right (by decide) (by omega)).trans hhigh)

/-- A number is below another only if its magnitude is. -/
lemma magnitude_lt_of_scaled_lt (h : x.scaled < y.scaled) : x.magnitude < y.magnitude := by
  by_contra hle
  rw [Nat.not_lt] at hle
  rcases (Nat.div_le_div_right (c := 2 ^ 52) hle).lt_or_eq with hexp | hexp
  · exact absurd (scaled_lt_of_exponent_lt hexp) (Nat.not_lt.2 h.le)
  · have hfraction : y.magnitude % 2 ^ 52 ≤ x.magnitude % 2 ^ 52 := by omega
    rw [scaled_eq, scaled_eq, hexp] at h
    split at h
    · omega
    · have hmul := Nat.lt_of_mul_lt_mul_right h
      omega

/-- Numbers stand in the order of their values. -/
lemma orderKey_lt_of_signedScaled_lt (h : x.signedScaled < y.signedScaled) :
    x.orderKey < y.orderKey := by
  unfold signedScaled at h
  unfold orderKey
  by_cases hx : x.isNegative = true <;> by_cases hy : y.isNegative = true <;>
    simp only [hx, hy, if_true, if_false, Bool.false_eq_true] at h ⊢
  · have hmagnitude : y.magnitude < x.magnitude := magnitude_lt_of_scaled_lt (by omega)
    omega
  · omega
  · omega
  · have hmagnitude : x.magnitude < y.magnitude := magnitude_lt_of_scaled_lt (by omega)
    omega

end Order

/-! ## The limit of the finite numbers -/

/-- Below an even number are the fractions that are more than a half below it, since the half goes
to the even number. -/
lemma roundDiv_lt_iff {m : Nat} (hden : 0 < den) (hm : m % 2 = 0) :
    roundDiv num den < m ↔ 2 * num + den < 2 * (den * m) := by
  have hnum := Nat.div_add_mod num den
  have hlt := Nat.mod_lt num hden
  have hlow := le_roundDiv num den
  have hhigh := roundDiv_le num den
  rcases lt_trichotomy (num / den + 1) m with hq | hq | hq
  · have hmul : den * (num / den + 2) ≤ den * m := Nat.mul_le_mul_left _ hq
    rw [Nat.mul_add] at hmul
    exact iff_of_true (by omega) (by omega)
  · have hmul : den * m = den * (num / den) + den := by rw [← hq, Nat.mul_succ]
    unfold roundDiv
    dsimp only
    split
    · omega
    · split <;> omega
  · have hmul : den * m ≤ den * (num / den) := Nat.mul_le_mul_left _ (Nat.lt_succ_iff.1 hq)
    exact iff_of_false (by omega) (by omega)

lemma exists_finiteLimit_eq :
    ∃ k, k = 2044 ∧ finiteLimit * unit = (2 ^ 54 - 1) * 2 ^ k := by
  obtain ⟨k, hk, hunit⟩ := exists_unit_eq_two_pow
  obtain ⟨m, hm, hlimit⟩ : ∃ m, m = 970 ∧ finiteLimit = (2 ^ 54 - 1) * 2 ^ m :=
    ⟨970, rfl, finiteLimit.eq_1⟩
  exact ⟨m + k, by omega, by rw [hlimit, hunit, mul_assoc, pow_add]⟩

/-- Which fractions are rounded to a finite number. -/
lemma isFinite_nearest_iff (negative : Bool) (hden : 0 < den) :
    (nearest negative num den).isFinite = true ↔ num < den * (finiteLimit * unit) := by
  obtain ⟨k, hk, hlimit⟩ := exists_finiteLimit_eq
  have hpow : ∀ n, 2 ^ (k + n) = 2 ^ k * 2 ^ n := fun n => pow_add 2 k n
  have hpos : 0 < 2 ^ k := Nat.two_pow_pos k
  rw [isFinite, decide_eq_true_iff, magnitude_nearest, hlimit]
  by_cases hsmall : num / den < 2 ^ (k + 53)
  · have hbits := nearestBits_le (k := k + 53) (by omega) hsmall
    have hnum := (Nat.div_lt_iff_lt_mul hden).1 hsmall
    refine iff_of_true (hbits.trans_lt ?_) (hnum.trans_le ?_)
    · exact Nat.mul_lt_mul_of_pos_right (by omega) (by decide)
    · rw [Nat.mul_comm, hpow, Nat.mul_comm (2 ^ k)]
      exact Nat.mul_le_mul_left _ (Nat.mul_le_mul_right _ (by decide))
  have hinfinity : infinityBits = (k + 3) * 2 ^ 52 := by rw [hk, infinityBits]
  by_cases hlarge : 2 ^ (k + 54) ≤ num / den
  · have hbits := le_nearestBits (k := k + 54) (by omega) hlarge
    have hnum := (Nat.le_div_iff_mul_le hden).1 hlarge
    refine iff_of_false (Nat.not_lt.2 (le_trans ?_ hbits)) (Nat.not_lt.2 (le_trans ?_ hnum))
    · exact (Nat.min_eq_right hinfinity.le).ge
    · rw [Nat.mul_comm den, hpow, Nat.mul_comm (2 ^ k)]
      exact Nat.mul_le_mul_right _ (Nat.mul_le_mul_right _ (by decide))
  -- The last power of two with finite numbers: rounding goes past it from the limit on.
  · have hlog : (num / den).log2 = k + 53 := by
      have hne : num / den ≠ 0 := fun hzero => hsmall (hzero ▸ Nat.two_pow_pos _)
      exact le_antisymm (Nat.lt_succ_iff.1 ((Nat.log2_lt hne).2 (Nat.not_le.1 hlarge)))
        ((Nat.le_log2 hne).2 (Nat.not_lt.1 hsmall))
    have hround : roundDiv num (den * 2 ^ (k + 1)) < 2 ^ 53 ↔
        2 * num + den * 2 ^ (k + 1) < 2 * (den * 2 ^ (k + 1) * 2 ^ 53) :=
      roundDiv_lt_iff (Nat.mul_pos hden (Nat.two_pow_pos _)) (by decide)
    rw [nearestBits_eq, hlog, show k + 53 - 52 = k + 1 by omega, hinfinity]
    generalize roundDiv num (den * 2 ^ (k + 1)) = rounded at hround ⊢
    rw [hpow, pow_one, ← Nat.mul_assoc] at hround
    rw [Nat.mul_left_comm]
    generalize den * 2 ^ k = d at hround ⊢
    omega

/-- Which decimals are read as a finite number. -/
theorem isFinite_ofDecimal_iff (negative : Bool) (digits places : Nat) :
    (ofDecimal negative digits (-places)).isFinite = true ↔ digits < 10 ^ places * finiteLimit := by
  have hunit : 0 < unit := by
    obtain ⟨k, -, hunit⟩ := exists_unit_eq_two_pow
    exact hunit ▸ Nat.two_pow_pos k
  rw [ofDecimal_eq_nearest, show (-(places : Int)).toNat = 0 by omega,
    show (-(-(places : Int))).toNat = places by omega, pow_zero, mul_one, ← nearest,
    isFinite_nearest_iff negative (Nat.pow_pos (by decide)), ← mul_assoc]
  exact Nat.mul_lt_mul_right hunit

/-! ## Whole numbers -/

section WholeNumbers

variable {m n : Nat}

/-- The bits of a whole number of at most fifty-three bits. -/
lemma magnitude_ofNat {e fraction : Nat} (h : fraction < 2 ^ 52) (he : e ≤ 52)
    (hn : n * 2 ^ (52 - e) = 2 ^ 52 + fraction) :
    (ofNat n).magnitude = (1023 + e) * 2 ^ 52 + fraction := by
  have hbits : min ((1022 + e) * 2 ^ 52 + (2 ^ 52 + fraction)) infinityBits =
      (1023 + e) * 2 ^ 52 + fraction := by
    rw [infinityBits]
    omega
  obtain ⟨k, hk, hunit⟩ := exists_unit_eq_two_pow
  have hshift : k + e - 52 = 1022 + e := by omega
  have hexp : 52 - e + (k + e - 52) = k := by omega
  have hnum : n * unit = (2 ^ 52 + fraction) * 2 ^ (k + e - 52) := by
    rw [← hn, mul_assoc, ← pow_add, hexp, hunit]
  have hlog : (n * unit).log2 - 52 = k + e - 52 := by
    rw [hnum, log2_two_pow_add h, Nat.add_sub_cancel_left]
  have hround : roundDiv (n * unit) (2 ^ (k + e - 52)) = 2 ^ 52 + fraction := by
    rw [hnum, roundDiv_mul _ (Nat.two_pow_pos _)]
  rw [ofNat, magnitude_nearest, nearestBits_eq, Nat.div_one, hlog, Nat.one_mul, hround, hshift, hbits]

lemma isNegative_ofMagnitude {m : Nat} (h : m < 2 ^ 63) : (ofMagnitude false m).isNegative = false := by
  have hbits : (UInt64.ofNat (0 + m)).toNat = m := by
    rw [UInt64.toNat_ofNat', Nat.zero_add]
    exact Nat.mod_eq_of_lt (h.trans (by decide))
  rw [isNegative, ofMagnitude, if_neg Bool.false_ne_true, hbits]
  exact decide_eq_false (Nat.not_le.2 h)

lemma isNegative_ofNat (n : Nat) : (ofNat n).isNegative = false :=
  isNegative_ofMagnitude (Nat.lt_of_le_of_lt (nearestBits_le_infinityBits _ _) (by decide))

/-- Whole numbers of at most fifty-three bits are not rounded. -/
lemma scaled_ofNat (h : n < 2 ^ 53) : (ofNat n).scaled = n * unit := by
  rcases Nat.eq_zero_or_pos n with rfl | hpos
  · rw [Nat.zero_mul]
    decide +kernel
  · have he : n.log2 ≤ 52 := Nat.lt_succ_iff.1 ((Nat.log2_lt hpos.ne').2 h)
    have hlow : 2 ^ 52 ≤ n * 2 ^ (52 - n.log2) := by
      calc 2 ^ 52 = 2 ^ n.log2 * 2 ^ (52 - n.log2) := by rw [← pow_add, Nat.add_sub_cancel' he]
        _ ≤ n * 2 ^ (52 - n.log2) := Nat.mul_le_mul_right _ (Nat.log2_self_le hpos.ne')
    have hhigh : n * 2 ^ (52 - n.log2) < 2 ^ 53 := by
      calc n * 2 ^ (52 - n.log2) < 2 ^ (n.log2 + 1) * 2 ^ (52 - n.log2) :=
            Nat.mul_lt_mul_of_pos_right Nat.lt_log2_self (Nat.two_pow_pos _)
        _ = 2 ^ 53 := by
            rw [← pow_add]
            congr 1
            omega
    obtain ⟨fraction, hfraction⟩ := Nat.exists_eq_add_of_le hlow
    have hlt : fraction < 2 ^ 52 := by omega
    have hmagnitude := magnitude_ofNat hlt he hfraction
    have hquotient : (ofNat n).magnitude / 2 ^ 52 = 1023 + n.log2 := by omega
    have hremainder : (ofNat n).magnitude % 2 ^ 52 = fraction := by omega
    have hne : 1023 + n.log2 ≠ 0 := by omega
    obtain ⟨k, hk, hunit⟩ := exists_unit_eq_two_pow
    have hexp : 52 - n.log2 + (1023 + n.log2 - 1) = k := by omega
    rw [scaled_eq, hquotient, hremainder, if_neg hne, ← hfraction, mul_assoc, ← pow_add, hexp,
      hunit]

lemma signedScaled_ofNat (h : n < 2 ^ 53) : (ofNat n).signedScaled = (n * unit : Nat) := by
  rw [signedScaled, isNegative_ofNat, scaled_ofNat h]
  rfl

lemma isFinite_ofNat (h : n < 2 ^ 53) : (ofNat n).isFinite = true := by
  have hlimit : 2 ^ 53 ≤ finiteLimit := by decide +kernel
  rw [ofNat, isFinite_nearest_iff _ Nat.one_pos, Nat.one_mul]
  obtain ⟨k, -, hunit⟩ := exists_unit_eq_two_pow
  exact Nat.mul_lt_mul_of_pos_right (h.trans_le hlimit) (hunit ▸ Nat.two_pow_pos k)

/-- Sums and products of such numbers are rounded once. -/
lemma ofNat_add (hm : m < 2 ^ 53) (hn : n < 2 ^ 53) : ofNat m + ofNat n = ofNat (m + n) := by
  have hfinite := isFinite_ofNat hm
  have hfinite' := isFinite_ofNat hn
  have hsum : (ofNat m).signedScaled + (ofNat n).signedScaled = ((m + n) * unit : Nat) := by
    rw [signedScaled_ofNat hm, signedScaled_ofNat hn, Nat.add_mul, Int.natCast_add]
  change Binary64.add (ofNat m) (ofNat n) = nearest false ((m + n) * unit) 1
  rw [Binary64.add, combine_of_finite _ hfinite hfinite', not_isInfinite hfinite,
    not_isInfinite hfinite', hsum, isNegative_ofNat, isNegative_ofNat]
  generalize (m + n) * unit = sum
  have hpos : ¬(sum : Int) < 0 := Int.not_lt.2 (Int.natCast_nonneg _)
  simp only [hpos, decide_false, Int.natAbs_natCast, Bool.false_eq_true, if_false, Bool.and_self]
  split
  · next hzero => rw [Int.natCast_eq_zero.1 hzero]; rfl
  · rfl

lemma ofNat_mul (hm : m < 2 ^ 53) (hn : n < 2 ^ 53) : ofNat m * ofNat n = ofNat (m * n) := by
  have hfinite := isFinite_ofNat hm
  have hfinite' := isFinite_ofNat hn
  have hmul : ofNat m * ofNat n = nearest false (m * unit * (n * unit)) unit := by
    change Binary64.mul (ofNat m) (ofNat n) = _
    rw [Binary64.mul, combine_of_finite _ hfinite hfinite', not_isInfinite hfinite,
      not_isInfinite hfinite', scaled_ofNat hm, scaled_ofNat hn, isNegative_ofNat, isNegative_ofNat]
    rfl
  obtain ⟨k, -, hunit⟩ := exists_unit_eq_two_pow
  have hpos : 0 < unit := hunit ▸ Nat.two_pow_pos k
  rw [hmul, nearest, ofNat, nearest, nearestBits_congr hpos Nat.one_pos]
  ring

end WholeNumbers

end Novella.Proofs
