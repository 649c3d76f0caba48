import Novella.Decimal.Reading

/-!
# Shortest decimals

`Binary64.shortest` finds the decimal with the fewest digits that reads back as a given
finite number, and of those the one nearest to it. For one digit, two digits and so on it
tries the two points of the decimal grid around the number; a number that no grid of
seventeen digits meets is given exactly, so the result always reads back. Zeros at the end are
dropped, which matters where the upper neighbour is a power of ten.
-/

namespace Novella

/-- The decimal `digits * 10 ^ exponent`. -/
structure Decimal where
  digits : Nat
  exponent : Int
  deriving DecidableEq, Repr

/-- Which of two equally near decimals to take. -/
inductive TieRule
  | up
  | toEven
  deriving DecidableEq, Repr

namespace Decimal

def powerAtMost (k : Int) (s : Nat) : Bool :=
  if 0 ≤ k then 10 ^ k.toNat * Binary64.unit ≤ s
  else Binary64.unit ≤ s * 10 ^ (-k).toNat

/-- The largest `e` with `10 ^ e` at most `s` units of `2 ^ -1074`, for positive `s`. -/
def leadingExponent (s : Nat) : Int :=
  let guess := ((s.log2 : Int) - 1074) * 30103 / 100000
  if powerAtMost (guess + 1) s then guess + 1 else guess

/-- `s` units of `2 ^ -1074` divided by `10 ^ k`, as a fraction. -/
def onGrid (s : Nat) (k : Int) : Nat × Nat :=
  if 0 ≤ k then (s, 10 ^ k.toNat * Binary64.unit) else (s * 10 ^ (-k).toNat, Binary64.unit)

/-- The point of the grid of `10 ^ k` that reads back as `x`, the nearer one if both
neighbours do. -/
def pointOnGrid (tie : TieRule) (x : Binary64) (k : Int) : Option Decimal :=
  let (num, den) := onGrid x.scaled k
  let low := num / den
  let readsBack (d : Nat) : Bool :=
    Binary64.ofDecimal false d k = Binary64.ofMagnitude false x.magnitude
  match readsBack low, readsBack (low + 1) with
  | false, false => none
  | true, false => some ⟨low, k⟩
  | false, true => some ⟨low + 1, k⟩
  | true, true =>
    let twice := 2 * (num % den)
    if twice < den then some ⟨low, k⟩
    else if den < twice then some ⟨low + 1, k⟩
    else match tie with
      | .up => some ⟨low + 1, k⟩
      | .toEven => some ⟨low + low % 2, k⟩

/-- The same decimal without zeros at the end of its digits, of which at most `n` are
dropped. -/
def trim : Nat → Decimal → Decimal
  | 0, d => d
  | n + 1, d => if d.digits % 10 = 0 then trim n ⟨d.digits / 10, d.exponent + 1⟩ else d

def exactly (x : Binary64) : Decimal :=
  ⟨x.scaled * 5 ^ 1074, -1074⟩

/-- The decimal of fewest digits that reads back as the magnitude of the finite number `x`. -/
def shortest (tie : TieRule) (x : Binary64) : Decimal :=
  if x.isZero then ⟨0, 0⟩
  else
    let e := leadingExponent x.scaled
    let d := ((List.range 17).findSome? fun (n : Nat) => pointOnGrid tie x (e - n)).getD (exactly x)
    trim d.digits.log2 d

end Decimal

end Novella
