import Novella.Json.Mishap

/-!
# Numbers of JSON documents

`NumberText` is a number taken apart into its digits, and `NumberText.value` is what it
stands for. A whole number that fits into sixty-four bits is exact. Any other number is its
first digits, as many as fit into sixty-four bits, scaled by a power of ten in one correctly
rounded step, or in two where the power itself is out of range.
-/

namespace Novella.Json

/-- The digits of a number. The exponent is absent where nothing follows the mark. -/
structure NumberText where
  negative : Bool
  whole : List Char
  part : Option (List Char)
  exponent : Option (Bool × List Char)

/-- Digits taken into a significand of at most sixty-four bits, and those left over. -/
def takeSignificand : Nat → List Char → Nat × List Char
  | n, [] => (n, [])
  | n, c :: rest =>
    let m := 10 * n + (c.toNat - '0'.toNat)
    if m < 2 ^ 64 then takeSignificand m rest else (n, c :: rest)

/-- `x * 10 ^ e`, rounded once where `10 ^ e` is in range; `none` past the largest number.
Small powers beyond the range are taken in steps, of which `steps` are left. -/
def scaleByTen : Nat → Binary64 → Int → Option Binary64
  | steps, x, e =>
    if e.natAbs ≤ 308 then
      let power := Binary64.ofDecimal false 1 e.natAbs
      if 0 ≤ e then
        let y := x * power
        if y.isInfinite then none else some y
      else some (x / power)
    else if x.isZero then some x
    else if 0 ≤ e then none
    else match steps with
      | 0 => some Binary64.zero
      | steps + 1 => scaleByTen steps (x / Binary64.ofDecimal false 1 308) (e + 308)

def floatOf (negative : Bool) (significand : Nat) (e : Int) : Option Binary64 :=
  (scaleByTen 3 (Binary64.ofNat significand) e).map fun x => if negative then -x else x

/-- The largest exponent that is read; a longer row of digits stands for more than that. -/
def largestExponent : Nat := 2 ^ 31 - 1

/-- How many digits of an exponent are read: up to the first at which it grows past the
largest. -/
def exponentDigitsRead : Nat → List Char → Nat
  | _, [] => 0
  | n, c :: rest =>
    let m := 10 * n + (c.toNat - '0'.toNat)
    if largestExponent < m then 1 else 1 + exponentDigitsRead m rest

/-- What a number stands for, or the number of characters after which it is out of range. -/
def NumberText.value (t : NumberText) : Except Nat Json :=
  let (n, left) := takeSignificand 0 t.whole
  let scaled (size : Nat) (significand : Nat) (e : Int) : Except Nat Json :=
    match floatOf t.negative significand e with
    | some x => .ok (.float x)
    | none => .error size
  let (m, e) : Nat × Int := match t.part with
    | none => (n, left.length)
    | some ds =>
      let (m, rest) := takeSignificand n ds
      (m, (left.length : Int) - (ds.length - rest.length : Nat))
  let size := (if t.negative then 1 else 0) + t.whole.length + (t.part.elim 0 (·.length + 1))
  match t.exponent with
  | some (negative, ds) =>
    let power := digitsValue ds
    if largestExponent < power then
      if m ≠ 0 ∧ !negative then .error (size + exponentDigitsRead 0 ds)
      else .ok (.float (Binary64.ofMagnitude t.negative 0))
    else scaled (size + ds.length) m (if negative then e - power else e + power)
  | none =>
    if t.part.isSome || !left.isEmpty then scaled size m e
    else if !t.negative then .ok (.int n)
    else if n ≠ 0 ∧ n ≤ 2 ^ 63 then .ok (.int (-(n : Int)))
    else .ok (.float (-Binary64.ofNat n))

end Novella.Json
