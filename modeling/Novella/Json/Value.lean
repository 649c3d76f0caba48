import Novella.Decimal.Layout
import Novella.Text.Shown

/-!
# JSON values and their text

A `Json` value keeps the members of a record in the order in which they are written. Two
written forms are given: `Json.compact` on one line, for messages, and `Json.pretty` with two
spaces of indentation, for documents. A floating-point number that is not finite is written
as `null`.
-/

namespace Novella

/-- A value of the JSON data format. Whole numbers are those from `-2 ^ 63` to `2 ^ 64 - 1`. -/
inductive Json where
  | null
  | bool (b : Bool)
  | int (n : Int)
  | float (x : Binary64)
  | text (s : String)
  | list (items : List Json)
  | record (members : List (String × Json))
  deriving Inhabited

namespace Json

def nat (n : Nat) : Json := .int n

def texts (items : List String) : Json := .list (items.map .text)

def text? : Option String → Json
  | none => .null
  | some s => .text s

def escapeChar (c : Char) : List Char :=
  match c with
  | '"' => ['\\', '"']
  | '\\' => ['\\', '\\']
  | '\x08' => ['\\', 'b']
  | '\x0c' => ['\\', 'f']
  | '\n' => ['\\', 'n']
  | '\r' => ['\\', 'r']
  | '\t' => ['\\', 't']
  | _ =>
    if c.toNat < 0x20 then
      let ds := Text.hexDigits c.toNat
      ['\\', 'u'] ++ List.replicate (4 - ds.length) '0' ++ ds
    else [c]

def quote (s : String) : String :=
  String.ofList ('"' :: (s.toList.flatMap escapeChar ++ ['"']))

/-- A floating-point number; one that is not finite is written as `null`. -/
def writeFloat (x : Binary64) : String :=
  if x.isFinite then FloatLayout.json.write x else "null"

def writeBool (b : Bool) : String := if b then "true" else "false"

mutual

def compact : Json → String
  | .null => "null"
  | .bool b => writeBool b
  | .int n => toString n
  | .float x => writeFloat x
  | .text s => quote s
  | .list items => "[" ++ compactItems items ++ "]"
  | .record members => "\x7b" ++ compactMembers members ++ "\x7d"

def compactItems : List Json → String
  | [] => ""
  | [v] => compact v
  | v :: rest => compact v ++ "," ++ compactItems rest

def compactMembers : List (String × Json) → String
  | [] => ""
  | [(k, v)] => quote k ++ ":" ++ compact v
  | (k, v) :: rest => quote k ++ ":" ++ compact v ++ "," ++ compactMembers rest

end

def newLine (depth : Nat) : String := String.ofList ('\n' :: List.replicate (2 * depth) ' ')

mutual

/-- The text of a value over several lines; lines after the first start with `depth` steps of
indentation or more. -/
def prettyAt (depth : Nat) : Json → String
  | .null => "null"
  | .bool b => writeBool b
  | .int n => toString n
  | .float x => writeFloat x
  | .text s => quote s
  | .list [] => "[]"
  | .list (v :: rest) =>
    "[" ++ newLine (depth + 1) ++ prettyAt (depth + 1) v ++ prettyItems (depth + 1) rest ++
      newLine depth ++ "]"
  | .record [] => "\x7b\x7d"
  | .record ((k, v) :: rest) =>
    "\x7b" ++ newLine (depth + 1) ++ quote k ++ ": " ++ prettyAt (depth + 1) v ++
      prettyMembers (depth + 1) rest ++ newLine depth ++ "\x7d"

def prettyItems (depth : Nat) : List Json → String
  | [] => ""
  | v :: rest => "," ++ newLine depth ++ prettyAt depth v ++ prettyItems depth rest

def prettyMembers (depth : Nat) : List (String × Json) → String
  | [] => ""
  | (k, v) :: rest =>
    "," ++ newLine depth ++ quote k ++ ": " ++ prettyAt depth v ++ prettyMembers depth rest

end

def pretty (v : Json) : String := prettyAt 0 v

def member? (name : String) : Json → Option Json
  | .record members => members.lookup name
  | _ => none

end Json

end Novella
