import Novella.Decimal.Binary64

/-!
# Expressions of scripts

Literals, variables, two operators before an operand and thirteen between two operands. All
operators between operands group to the left, and `BinaryOp.precedence` says how strongly
they bind, the loosest first.
-/

namespace Novella.Script

inductive Literal where
  | int (n : Int64)
  | float (x : Binary64)
  | bool (b : Bool)
  | text (s : String)
  deriving DecidableEq

/-- An operator before its operand. -/
inductive UnaryOp where
  | not
  | neg
  deriving DecidableEq

/-- An operator between its operands. -/
inductive BinaryOp where
  | or
  | and
  | eq
  | ne
  | lt
  | le
  | gt
  | ge
  | add
  | sub
  | mul
  | div
  | rem
  deriving DecidableEq

namespace BinaryOp

def precedence : BinaryOp → Nat
  | or => 1
  | and => 2
  | eq | ne => 3
  | lt | le | gt | ge => 4
  | add | sub => 5
  | mul | div | rem => 6

def symbol : BinaryOp → String
  | or => "or"
  | and => "and"
  | eq => "=="
  | ne => "!="
  | lt => "<"
  | le => "<="
  | gt => ">"
  | ge => ">="
  | add => "+"
  | sub => "-"
  | mul => "*"
  | div => "/"
  | rem => "%"

end BinaryOp

inductive Expression where
  | literal (l : Literal)
  | var (name : String)
  | unary (op : UnaryOp) (operand : Expression)
  | binary (op : BinaryOp) (left right : Expression)
  deriving DecidableEq

/-- Equality of literals by value: two floating-point literals are equal as numbers. -/
def Literal.sameValue : Literal → Literal → Bool
  | .float x, .float y => x.numEq y
  | a, b => a = b

def Expression.sameValue : Expression → Expression → Bool
  | .literal a, .literal b => a.sameValue b
  | .var a, .var b => a = b
  | .unary o a, .unary p b => o = p && a.sameValue b
  | .binary o a b, .binary p c d => o = p && a.sameValue c && b.sameValue d
  | _, _ => false

end Novella.Script
