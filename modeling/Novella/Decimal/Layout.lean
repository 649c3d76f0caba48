import Novella.Decimal.Shortest

/-!
# Written forms of floating-point numbers

A `FloatLayout` says how a finite number is written: its digits are always the shortest that
read back, and the layout says which exponents are written out in full. Either form of a
whole number keeps one digit after the point when it is written out.
-/

namespace Novella

/-- How a finite floating-point number is written. -/
structure FloatLayout where
  /-- Which of two equally near shortest decimals is taken. -/
  tie : TieRule
  /-- Whether a number whose first digit stands for `10 ^ e` is written without exponent. -/
  isPlain : Int → Bool

def decimalDigits (n : Nat) : List Char := Nat.toDigits 10 n

namespace Decimal

/-- Power of ten of the first digit. -/
def leading (d : Decimal) : Int := (decimalDigits d.digits).length - 1 + d.exponent

/-- The number without exponent, with at least one digit on either side of the point. -/
def plain (d : Decimal) : List Char :=
  let ds := decimalDigits d.digits
  if 0 ≤ d.exponent then ds ++ List.replicate d.exponent.toNat '0' ++ ".0".toList
  else
    let places := (-d.exponent).toNat
    if places < ds.length then
      ds.take (ds.length - places) ++ '.' :: ds.drop (ds.length - places)
    else "0.".toList ++ List.replicate (places - ds.length) '0' ++ ds

/-- One digit, the others after a point, and the exponent with its sign. -/
def scientific (d : Decimal) : List Char :=
  let exponent := d.leading
  let power := (if exponent < 0 then '-' else '+') :: decimalDigits exponent.natAbs
  match decimalDigits d.digits with
  | [] => []
  | [c] => c :: 'e' :: power
  | c :: rest => c :: '.' :: rest ++ 'e' :: power

end Decimal

namespace FloatLayout

def write (layout : FloatLayout) (x : Binary64) : String :=
  let d := Decimal.shortest layout.tie x
  let text := if layout.isPlain d.leading then d.plain else d.scientific
  String.ofList (if x.isNegative then '-' :: text else text)

/-- Numbers of scripts and settings: no exponent at all, and a tie goes up. -/
def script : FloatLayout := ⟨.up, fun _ => true⟩

/-- Numbers of JSON documents: written out from `10 ^ -5` up to below `10 ^ 16`, otherwise
with an exponent; a tie goes to the even digit. -/
def json : FloatLayout := ⟨.toEven, fun e => -5 ≤ e && e < 16⟩

end FloatLayout

/-- The number as a literal of a script, which always has a point. One that is not finite has
no literal and is written as zero. -/
def Binary64.literal (x : Binary64) : String :=
  if x.isFinite then FloatLayout.script.write x else "0.0"

end Novella
