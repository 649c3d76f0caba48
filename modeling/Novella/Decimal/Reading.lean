import Novella.Decimal.Binary64

/-!
# Reading decimal numbers

`Binary64.ofDecimal` gives the number nearest to a decimal. The readers below take the
written forms apart: `Binary64.ofLiteral?` for the literals of scripts, `Binary64.read` for
the free form of property texts, and `readInt64` for whole numbers of sixty-four bits.
-/

namespace Novella

namespace Binary64

/-- The number nearest to `digits * 10 ^ exponent`. The two early cases hold every decimal
that is past the largest number or nearer to zero than to the smallest. -/
def ofDecimal (negative : Bool) (digits : Nat) (exponent : Int) : Binary64 :=
  if digits = 0 then ofMagnitude negative 0
  else if 400 < exponent then infinity negative
  else if exponent < -(digits.log2 + 401 : Nat) then ofMagnitude negative 0
  else if 0 ≤ exponent then nearest negative (digits * 10 ^ exponent.toNat * unit) 1
  else nearest negative (digits * unit) (10 ^ (-exponent).toNat)

end Binary64

def digitsValue (cs : List Char) : Nat :=
  cs.foldl (fun n c => 10 * n + (c.toNat - '0'.toNat)) 0

def spanDigits (cs : List Char) : List Char × List Char :=
  (cs.takeWhile Char.isDigit, cs.dropWhile Char.isDigit)

namespace Binary64

/-- Reads a literal with a point, or a whole number: an optional minus, digits, and
optionally a point with more digits. -/
def ofLiteral (cs : List Char) : Binary64 :=
  let (negative, cs) := match cs with
    | '-' :: rest => (true, rest)
    | _ => (false, cs)
  let (whole, rest) := spanDigits cs
  let part := (rest.drop 1).takeWhile Char.isDigit
  ofDecimal negative (digitsValue (whole ++ part)) (-part.length)

inductive ReadError
  | empty
  | malformed
  deriving DecidableEq

def ReadError.message : ReadError → String
  | .empty => "cannot parse float from empty string"
  | .malformed => "invalid float literal"

def readExponent (cs : List Char) : Option Int :=
  let (negative, ds) := match cs with
    | '-' :: rest => (true, rest)
    | '+' :: rest => (false, rest)
    | _ => (false, cs)
  if ds.isEmpty || !ds.all Char.isDigit then none
  else some (if negative then -(digitsValue ds : Int) else digitsValue ds)

def readMagnitude (negative : Bool) (cs : List Char) : Option Binary64 :=
  let word := cs.map Char.toLower
  if word = "inf".toList || word = "infinity".toList then some (infinity negative)
  else if word = "nan".toList then some (nan negative)
  else
    let (whole, rest) := spanDigits cs
    let (part, rest) := match rest with
      | '.' :: rest => spanDigits rest
      | _ => ([], rest)
    let exponent := match rest with
      | [] => some 0
      | 'e' :: rest => readExponent rest
      | 'E' :: rest => readExponent rest
      | _ => none
    if whole.isEmpty && part.isEmpty then none
    else exponent.map fun e => ofDecimal negative (digitsValue (whole ++ part)) (e - part.length)

/-- Reads a number: an optional sign, then digits with an optional point and exponent, or a
name of infinity or of "not a number" in any case. -/
def read (cs : List Char) : Except ReadError Binary64 :=
  match cs with
  | [] => .error .empty
  | '-' :: rest => (readMagnitude true rest).elim (.error .malformed) .ok
  | '+' :: rest => (readMagnitude false rest).elim (.error .malformed) .ok
  | _ => (readMagnitude false cs).elim (.error .malformed) .ok

end Binary64

inductive IntReadError
  | empty
  | badDigit
  | tooLarge
  | tooSmall
  deriving DecidableEq

def IntReadError.message : IntReadError → String
  | .empty => "cannot parse integer from empty string"
  | .badDigit => "invalid digit found in string"
  | .tooLarge => "number too large to fit in target type"
  | .tooSmall => "number too small to fit in target type"

/-- Reads digits from the left; the first that is no digit, or that leaves the range, decides
the error. -/
def readDigits (negative : Bool) : Nat → List Char → Except IntReadError Nat
  | n, [] => .ok n
  | n, c :: rest =>
    if !c.isDigit then .error .badDigit
    else
      let m := 10 * n + (c.toNat - '0'.toNat)
      if negative && 2 ^ 63 < m then .error .tooSmall
      else if !negative && 2 ^ 63 ≤ m then .error .tooLarge
      else readDigits negative m rest

def readInt64 (cs : List Char) : Except IntReadError Int64 :=
  let signed (negative : Bool) (ds : List Char) : Except IntReadError Int64 :=
    if ds.isEmpty then .error .badDigit
    else (readDigits negative 0 ds).map fun n =>
      Int64.ofInt (if negative then -(n : Int) else n)
  match cs with
  | [] => .error .empty
  | '-' :: rest => signed true rest
  | '+' :: rest => signed false rest
  | _ => signed false cs

end Novella
