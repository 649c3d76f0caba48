/-!
# Binary floating-point numbers

A `Binary64` is a word of 64 bits: a sign, eleven bits of exponent and fifty-two bits of
fraction. The magnitude of a finite number is a whole multiple of `2 ^ -1074`, and
`Binary64.scaled` is that multiple; all arithmetic here is exact arithmetic on it, followed
by one rounding to the nearest number, a tie going to the even one (`Binary64.nearest`).
-/

-- The powers here and in the modules after this one are those of the core library, also
-- where another instance is in scope.
attribute [instance (20000), default_instance 20000] instPowNat

namespace Novella

/-- A floating-point number in the interchange format of sixty-four bits. -/
structure Binary64 where
  bits : UInt64
  deriving DecidableEq, Repr

namespace Binary64

/-- Bits of the infinite magnitude; larger magnitudes are not numbers. -/
def infinityBits : Nat := 0x7ff * 2 ^ 52

def isNegative (x : Binary64) : Bool := 2 ^ 63 ≤ x.bits.toNat

def magnitude (x : Binary64) : Nat := x.bits.toNat % 2 ^ 63

def ofMagnitude (negative : Bool) (m : Nat) : Binary64 :=
  ⟨UInt64.ofNat ((if negative then 2 ^ 63 else 0) + m)⟩

def isNaN (x : Binary64) : Bool := infinityBits < x.magnitude

def isInfinite (x : Binary64) : Bool := x.magnitude = infinityBits

def isFinite (x : Binary64) : Bool := x.magnitude < infinityBits

def isZero (x : Binary64) : Bool := x.magnitude = 0

/-- The magnitude of a finite number as a multiple of `2 ^ -1074`. -/
def scaled (x : Binary64) : Nat :=
  let exponent := x.magnitude / 2 ^ 52
  let fraction := x.magnitude % 2 ^ 52
  if exponent = 0 then fraction else (2 ^ 52 + fraction) * 2 ^ (exponent - 1)

/-- The value of a finite number as a multiple of `2 ^ -1074`. -/
def signedScaled (x : Binary64) : Int :=
  if x.isNegative then -x.scaled else x.scaled

/-- `num / den` to the nearest whole number, a half going to the even one. -/
def roundDiv (num den : Nat) : Nat :=
  let q := num / den
  let r := num % den
  if 2 * r < den then q
  else if den < 2 * r then q + 1
  else q + q % 2

/-- Bits of the magnitude nearest to `num / den` units of `2 ^ -1074`. A result past the
largest finite number is infinite. -/
def nearestBits (num den : Nat) : Nat :=
  let shift := (num / den).log2 - 52
  min (shift * 2 ^ 52 + roundDiv num (den * 2 ^ shift)) infinityBits

/-- The number nearest to `num / den` units of `2 ^ -1074`, with the given sign. -/
def nearest (negative : Bool) (num den : Nat) : Binary64 :=
  ofMagnitude negative (nearestBits num den)

/-- One unit: the number of steps of `2 ^ -1074` up to the number one. -/
def unit : Nat := 2 ^ 1074

def zero : Binary64 := ⟨0⟩

def infinity (negative : Bool) : Binary64 := ofMagnitude negative infinityBits

/-- The result of an operation without a value, such as infinity less infinity. -/
def invalid : Binary64 := ⟨0xfff8000000000000⟩

/-- The plain value that stands for "not a number". -/
def nan (negative : Bool) : Binary64 := ofMagnitude negative 0x7ff8000000000000

instance : Inhabited Binary64 := ⟨zero⟩

def ofNat (n : Nat) : Binary64 := nearest false (n * unit) 1

def ofInt (n : Int) : Binary64 := nearest (n < 0) (n.natAbs * unit) 1

instance (n : Nat) : OfNat Binary64 n := ⟨ofNat n⟩

/-- The same value without the signalling mark that an operand may carry. -/
def quieted (x : Binary64) : Binary64 := ⟨x.bits ||| 0x0008000000000000⟩

def neg (x : Binary64) : Binary64 := ⟨x.bits ^^^ 0x8000000000000000⟩

/-- The first operand that is not a number decides; `f` sees numbers only. -/
def combine (f : Binary64 → Binary64 → Binary64) (x y : Binary64) : Binary64 :=
  if x.isNaN then x.quieted
  else if y.isNaN then y.quieted
  else f x y

def add : Binary64 → Binary64 → Binary64 := combine fun x y =>
  if x.isInfinite then
    if y.isInfinite && x.isNegative != y.isNegative then invalid else x
  else if y.isInfinite then y
  else
    let sum := x.signedScaled + y.signedScaled
    if sum = 0 then ofMagnitude (x.isNegative && y.isNegative) 0
    else nearest (sum < 0) sum.natAbs 1

def mul : Binary64 → Binary64 → Binary64 := combine fun x y =>
  let negative := x.isNegative != y.isNegative
  if x.isInfinite || y.isInfinite then
    if x.isZero || y.isZero then invalid else infinity negative
  else nearest negative (x.scaled * y.scaled) unit

def div : Binary64 → Binary64 → Binary64 := combine fun x y =>
  let negative := x.isNegative != y.isNegative
  if x.isInfinite then
    if y.isInfinite then invalid else infinity negative
  else if y.isInfinite then ofMagnitude negative 0
  else if y.isZero then
    if x.isZero then invalid else infinity negative
  else nearest negative (x.scaled * unit) y.scaled

instance : Add Binary64 := ⟨add⟩
instance : Mul Binary64 := ⟨mul⟩
instance : Div Binary64 := ⟨div⟩
instance : Neg Binary64 := ⟨neg⟩

/-- Equality of values: the two zeros are equal, and what is not a number equals nothing. -/
def numEq (x y : Binary64) : Bool :=
  !x.isNaN && !y.isNaN && (x.bits = y.bits || (x.isZero && y.isZero))

/-- Position in the total order of all words: negative before positive, `-0.0` before `0.0`,
and the words that are not numbers at the two ends. -/
def orderKey (x : Binary64) : Int :=
  if x.isNegative then -1 - (x.magnitude : Int) else x.magnitude

end Binary64

end Novella
