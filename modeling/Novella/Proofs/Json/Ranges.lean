import Novella.Json.Decode
import Novella.Proofs.Decimal.Bounds

/-!
# Ranges of the numbers of documents

A reader refuses a number that is out of range. So every number that it does find is `InRange`: a
whole number has sixty-four bits, and a floating-point number is finite.
-/

namespace Novella.Proofs

open Json Binary64

/-- The value is not a number that no document has. -/
def InRange : Json → Prop
  | .int n => -2 ^ 63 ≤ n ∧ n < 2 ^ 64
  | .float x => x.isFinite = true
  | _ => True

/-! ## Numbers -/

section Numbers

variable {x y : Binary64}

lemma below_ofNat (negative : Bool) {n : Nat} (h : n < 2 ^ 64) :
    Below 1139 (nearest negative (n * unit) 1) := by
  obtain ⟨k, hk, hunit⟩ := exists_unit_eq_two_pow
  have hbound : n * unit / 1 < 2 ^ 1138 := by
    rw [Nat.div_one, hunit, show 1138 = 64 + k by omega, pow_add]
    exact Nat.mul_lt_mul_of_pos_right h (Nat.two_pow_pos _)
  exact below_nearest negative (by decide) (by decide) hbound

lemma isFinite_ofInt {n : Int} (hlow : -2 ^ 63 ≤ n) (hhigh : n < 2 ^ 64) :
    (Binary64.ofInt n).isFinite = true :=
  (below_ofNat (n < 0) (by omega)).finite

/-- The powers of ten that a number is scaled by are finite and not below one. -/
lemma power_of_ten {n : Nat} (h : n ≤ 308) : (ofDecimal false 1 n).isFinite = true ∧
    unit ≤ (ofDecimal false 1 n).scaled := by
  obtain ⟨k, hk, hunit⟩ := exists_unit_eq_two_pow
  have hnearest : ofDecimal false 1 n = nearest false (10 ^ n * unit) 1 := by
    rw [ofDecimal_eq_nearest, one_mul, Int.toNat_natCast, show (-(n : Int)).toNat = 0 by omega,
      pow_zero, nearest]
  have hfinite : (ofDecimal false 1 n).isFinite = true := by
    by_cases hn : n ≤ 306
    · obtain ⟨m, hm⟩ : ∃ m, m = 102 := ⟨_, rfl⟩
      have hbound : 10 ^ n * unit / 1 < 2 ^ (10 * m + k + 1) := by
        calc 10 ^ n * unit / 1 = 10 ^ n * 2 ^ k := by rw [Nat.div_one, hunit]
          _ ≤ (10 ^ 3) ^ m * 2 ^ k := by
              rw [← pow_mul]
              exact Nat.mul_le_mul_right _ (Nat.pow_le_pow_right (by decide) (by omega))
          _ ≤ (2 ^ 10) ^ m * 2 ^ k := Nat.mul_le_mul_right _ (Nat.pow_le_pow_left (by decide) m)
          _ = 2 ^ (10 * m + k) := by rw [← pow_mul, ← pow_add]
          _ < 2 ^ (10 * m + k + 1) := Nat.pow_lt_pow_right (by decide) (Nat.lt_succ_self _)
      rw [hnearest]
      exact (below_nearest false (by omega) (by omega) hbound).finite
    · have hn' : n = 307 ∨ n = 308 := by omega
      rcases hn' with rfl | rfl <;> decide +kernel
  refine ⟨hfinite, ?_⟩
  have hbits : min ((k - 51) * 2 ^ 52) infinityBits ≤ (ofDecimal false 1 n).magnitude := by
    rw [hnearest, magnitude_nearest]
    refine le_nearestBits (by omega) ?_
    rw [Nat.div_one, hunit]
    exact Nat.le_mul_of_pos_left _ (Nat.pow_pos (by decide))
  have hsmall : (k - 51) * 2 ^ 52 ≤ infinityBits :=
    Nat.mul_le_mul_right _ (by omega)
  rw [Nat.min_eq_left hsmall] at hbits
  have hscaled := le_scaled (by omega) hbits
  rwa [show 51 + (k - 51) = k by omega, ← hunit] at hscaled

/-- Scaling by a power that is in range gives a finite number or none. -/
lemma isFinite_scaleOnce {k n : Nat} {up : Prop} [Decidable up] (hx : Below k x) (hk : 53 ≤ k)
    (hlarge : k ≤ 2097) (hn : n ≤ 308)
    (h : (if up then
        if (x * ofDecimal false 1 n).isInfinite then none else some (x * ofDecimal false 1 n)
      else some (x / ofDecimal false 1 n)) = some y) : y.isFinite = true := by
  obtain ⟨hfinite, hone⟩ := power_of_ten hn
  split at h
  · split at h
    · cases h
    · next hinfinite =>
      obtain rfl := Option.some.inj h
      exact isFinite_mul hx.finite hfinite (Bool.eq_false_iff.2 hinfinite)
  · obtain rfl := Option.some.inj h
    exact (hx.div hk hlarge hfinite hone).finite

lemma isFinite_scaleByTen {steps k : Nat} {e : Int} (hx : Below k x) (hk : 53 ≤ k)
    (hlarge : k + steps ≤ 2097) (h : scaleByTen steps x e = some y) : y.isFinite = true := by
  induction steps generalizing x k e with
  | zero =>
    rw [scaleByTen] at h
    split at h
    · next he => exact isFinite_scaleOnce hx hk hlarge he h
    · split at h
      · exact Option.some.inj h ▸ hx.finite
      · split at h
        · cases h
        · obtain rfl := Option.some.inj h
          rfl
  | succ steps ih =>
    rw [scaleByTen] at h
    split at h
    · next he => exact isFinite_scaleOnce hx hk (by omega) he h
    · split at h
      · exact Option.some.inj h ▸ hx.finite
      · split at h
        · cases h
        · obtain ⟨hfinite, hone⟩ := power_of_ten (Nat.le_refl 308)
          exact ih (hx.div hk (by omega) hfinite hone) (by omega) (by omega) h

lemma isFinite_floatOf {negative : Bool} {significand : Nat} {e : Int} (hn : significand < 2 ^ 64)
    (h : floatOf negative significand e = some x) : x.isFinite = true := by
  obtain ⟨y, hy, rfl⟩ := Option.map_eq_some_iff.1 h
  have hfinite := isFinite_scaleByTen (below_ofNat false hn) (by decide) (by decide) hy
  split
  · rw [isFinite_neg, hfinite]
  · exact hfinite

lemma takeSignificand_lt {n : Nat} {cs : List Char} (hn : n < 2 ^ 64) :
    (takeSignificand n cs).1 < 2 ^ 64 := by
  induction cs generalizing n with
  | nil => exact hn
  | cons c cs ih =>
    rw [takeSignificand]
    split
    · next hm => exact ih hm
    · exact hn

/-- The digits that are taken before the point and after it stay in range. -/
lemma significand_lt {n : Nat} {left : List Char} (part : Option (List Char)) (hn : n < 2 ^ 64) :
    (match part with
      | none => ((n, left.length) : Nat × Int)
      | some ds => ((takeSignificand n ds).1,
          left.length - (ds.length - (takeSignificand n ds).2.length : Nat))).1 < 2 ^ 64 := by
  cases part with
  | none => exact hn
  | some ds => exact takeSignificand_lt hn

lemma inRange_scaled {negative : Bool} {size significand : Nat} {e : Int} {v : Json}
    (hn : significand < 2 ^ 64)
    (h : (match floatOf negative significand e with
      | some x => Except.ok (Json.float x)
      | none => .error size) = .ok v) : InRange v := by
  split at h
  · next x hx =>
    obtain rfl := Except.ok.inj h
    exact isFinite_floatOf hn hx
  · cases h

/-- What stands for a number is in range. -/
lemma inRange_value {t : NumberText} {v : Json} (h : t.value = .ok v) : InRange v := by
  have hwhole : (takeSignificand 0 t.whole).1 < 2 ^ 64 := takeSignificand_lt (by decide)
  rw [NumberText.value] at h
  generalize takeSignificand 0 t.whole = taken at h hwhole
  obtain ⟨n, left⟩ := taken
  dsimp only at h hwhole
  split at h
  · split at h
    · have hzero : InRange (.float (ofMagnitude t.negative 0)) :=
        decide_eq_true (by rw [magnitude_ofMagnitude _ (by decide)]; decide)
      split at h <;> split at h
      · cases h
      · exact Except.ok.inj h ▸ hzero
      · cases h
      · exact Except.ok.inj h ▸ hzero
    · exact inRange_scaled (significand_lt t.part hwhole) h
  · split at h
    · exact inRange_scaled (significand_lt t.part hwhole) h
    · split at h
      · obtain rfl := Except.ok.inj h
        exact ⟨by omega, by omega⟩
      · split at h
        · obtain rfl := Except.ok.inj h
          exact ⟨by omega, by omega⟩
        · obtain rfl := Except.ok.inj h
          exact (isFinite_neg _).trans (below_ofNat false hwhole).finite

end Numbers

/-! ## Trees -/

/-- All numbers of the tree are in range. -/
inductive Ranged : Tree → Prop
  | scalar {peek stop : Spot} {value : Scalar}
      (number : ∀ v, value = .number (.ok v) → InRange v) : Ranged (.scalar peek stop value)
  | list {start : Spot} {items : List Tree} {tail : Tail} (each : ∀ t ∈ items, Ranged t) :
      Ranged (.list start items tail)
  | record {start : Spot} {members : List (Key × Tree)} {tail : Tail}
      (each : ∀ m ∈ members, Ranged m.2) : Ranged (.record start members tail)
  | broken {peek : Spot} {opening : Option Char} {reading skipping : Mishap} :
      Ranged (.broken peek opening reading skipping)

section Trees

lemma ranged_numberLeaf (start : Cursor) (t : NumberText) {peek stop : Spot} :
    Ranged (.scalar peek stop (numberLeaf start t)) := by
  refine .scalar fun v hv => ?_
  rw [numberLeaf] at hv
  split at hv
  · next w hw =>
    cases hv
    exact inRange_value hw
  · cases hv

lemma ranged_word {letters : List Char} {start : Cursor} {value : Scalar}
    (h : ∀ v, value ≠ .number (.ok v)) : Ranged (match readWord letters start with
      | .ok c => (Tree.scalar start.peekSpot c.spot value, some c)
      | .error m => brokenAt start m m).1 := by
  split
  · exact .scalar fun v hv => absurd hv (h v)
  · exact .broken

lemma ranged_item {read : Tree × Option Cursor} {more : Cursor → List Tree × Tail × Option Cursor}
    {tail : Tail} (h : Ranged read.1) (hmore : ∀ c, ∀ t ∈ (more c).1, Ranged t) :
    ∀ t ∈ (match read with
      | (t, none) => ([t], tail, none)
      | (t, some c) => (t :: (more c).1, (more c).2.1, (more c).2.2)).1, Ranged t := by
  split
  · exact List.forall_mem_singleton.2 h
  · exact List.forall_mem_cons.2 ⟨h, hmore _⟩

lemma ranged_member {read : Tree × Option Cursor}
    {more : Cursor → List (Key × Tree) × Tail × Option Cursor} {key : Key} {tail : Tail}
    (h : Ranged read.1) (hmore : ∀ c, ∀ m ∈ (more c).1, Ranged m.2) :
    ∀ m ∈ (match read.2 with
      | none => ([(key, read.1)], tail, none)
      | some c => ((key, read.1) :: (more c).1, (more c).2.1, (more c).2.2)).1, Ranged m.2 := by
  split
  · exact List.forall_mem_singleton.2 h
  · exact List.forall_mem_cons.2 ⟨h, hmore _⟩

/-- The value of a member, or what stands for it where no colon is found. -/
lemma ranged_afterColon {rest : List Char} {read missing : Tree × Option Cursor}
    {other : Tree × Option Cursor} (h : Ranged read.1) (hmissing : Ranged missing.1)
    (hother : Ranged other.1) : Ranged (match rest with
      | ':' :: _ => read
      | [] => missing
      | _ => other).1 := by
  split
  · exact h
  · exact hmissing
  · exact hother

section Steps

variable {fuel : Nat}

lemma ranged_readValue (hitems : ∀ first c, ∀ t ∈ (readItems fuel first c).1, Ranged t)
    (hmembers : ∀ first c, ∀ m ∈ (readMembers fuel first c).1, Ranged m.2) (c : Cursor) :
    Ranged (readValue (fuel + 1) c).1 := by
  rw [readValue]
  dsimp only
  split
  · exact .broken
  split
  · exact ranged_word nofun
  split
  · exact ranged_word nofun
  split
  · exact ranged_word nofun
  split
  · split
    · exact .scalar nofun
    · exact .broken
  split
  · exact .list (hitems _ _)
  split
  · exact .record (hmembers _ _)
  split
  · split
    · exact ranged_numberLeaf _ _
    · exact .broken
  · exact .broken

lemma ranged_readItems (hvalue : ∀ c, Ranged (readValue fuel c).1)
    (hitems : ∀ first c, ∀ t ∈ (readItems fuel first c).1, Ranged t) (first : Bool) (c : Cursor) :
    ∀ t ∈ (readItems (fuel + 1) first c).1, Ranged t := by
  intro t ht
  rw [readItems] at ht
  dsimp only at ht
  split at ht
  · cases ht
  split at ht
  · cases ht
  split at ht
  · exact ranged_item (hvalue _) (hitems false) t ht
  split at ht
  · split at ht
    · cases ht
    split at ht
    · cases ht
    · exact ranged_item (hvalue _) (hitems false) t ht
  · cases ht

lemma ranged_readMembers (hvalue : ∀ c, Ranged (readValue fuel c).1)
    (hmembers : ∀ first c, ∀ m ∈ (readMembers fuel first c).1, Ranged m.2) (first : Bool) (c : Cursor) :
    ∀ m ∈ (readMembers (fuel + 1) first c).1, Ranged m.2 := by
  intro m hm
  rw [readMembers] at hm
  dsimp only at hm
  split at hm
  · cases hm
  split at hm
  · cases hm
  split at hm
  · split at hm
    · split at hm
      · cases hm
      · exact ranged_member (ranged_afterColon (hvalue _) .broken .broken) (hmembers false) m hm
    · cases hm
  split at hm
  · split at hm
    · cases hm
    split at hm
    · split at hm
      · cases hm
      · exact ranged_member (ranged_afterColon (hvalue _) .broken .broken) (hmembers false) m hm
    split at hm
    · cases hm
    · cases hm
  · cases hm

end Steps

/-- Every tree that is read is in range, whatever its text is. -/
lemma ranged_read (fuel : Nat) : (∀ c, Ranged (readValue fuel c).1) ∧
    (∀ first c, ∀ t ∈ (readItems fuel first c).1, Ranged t) ∧
    ∀ first c, ∀ m ∈ (readMembers fuel first c).1, Ranged m.2 := by
  induction fuel with
  | zero =>
    refine ⟨fun c => .broken, fun first c t ht => ?_, fun first c m hm => ?_⟩
    · cases ht
    · cases hm
  | succ fuel ih =>
    obtain ⟨hvalue, hitems, hmembers⟩ := ih
    exact ⟨ranged_readValue hitems hmembers, ranged_readItems hvalue hitems,
      ranged_readMembers hvalue hmembers⟩

end Trees

end Novella.Proofs
