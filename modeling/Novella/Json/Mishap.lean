import Novella.Json.Value
import Novella.Text.Excerpt
import Novella.Text.Lines

/-!
# What can be wrong with a JSON document

A `Mishap` is a complaint and the place it is about. The place is a line and a column that
counts bytes; `Mishap.excerpt` turns it into an excerpt of the document, taking the column as
a number of characters of the line.
-/

namespace Novella.Json

inductive Found where
  | null
  | bool (b : Bool)
  | int (n : Int)
  | float (x : Binary64)
  | text (s : String)
  | list
  | record
  deriving DecidableEq

def Found.describe : Found → String
  | .null => "null"
  | .bool b => "boolean `" ++ writeBool b ++ "`"
  | .int n => "integer `" ++ toString n ++ "`"
  | .float x => "floating point `" ++ writeFloat x ++ "`"
  | .text s => "string " ++ Text.shown s
  | .list => "sequence"
  | .record => "map"

inductive Complaint where
  | endInValue
  | endInRecord
  | endInList
  | endInText
  | expectedValue
  | expectedWord
  | expectedColon
  | expectedCommaOrListEnd
  | expectedCommaOrRecordEnd
  | keyNotText
  | trailingComma
  | trailingCharacters
  | badNumber
  | numberOutOfRange
  | badEscape
  | endInHexEscape
  | loneSurrogate
  | controlCharacter
  | tooDeep
  | wrongType (found : Found) (want : String)
  | wrongValue (found : Found) (want : String)
  | wrongLength (length : Nat) (want : String)
  | missingField (name : String)
  | duplicateField (name : String)
  | unknownVariant (name : String) (variants : List String)
  deriving DecidableEq

def describeVariants : List String → String
  | [a] => "`" ++ a ++ "`"
  | [a, b] => "`" ++ a ++ "` or `" ++ b ++ "`"
  | names => "one of " ++ ", ".intercalate (names.map fun n => "`" ++ n ++ "`")

def Complaint.message : Complaint → String
  | .endInValue => "EOF while parsing a value"
  | .endInRecord => "EOF while parsing an object"
  | .endInList => "EOF while parsing a list"
  | .endInText => "EOF while parsing a string"
  | .expectedValue => "expected value"
  | .expectedWord => "expected ident"
  | .expectedColon => "expected `:`"
  | .expectedCommaOrListEnd => "expected `,` or `]`"
  | .expectedCommaOrRecordEnd => "expected `,` or `\x7d`"
  | .keyNotText => "key must be a string"
  | .trailingComma => "trailing comma"
  | .trailingCharacters => "trailing characters"
  | .badNumber => "invalid number"
  | .numberOutOfRange => "number out of range"
  | .badEscape => "invalid escape"
  | .endInHexEscape => "unexpected end of hex escape"
  | .loneSurrogate => "lone leading surrogate in hex escape"
  | .controlCharacter => "control character (\\u0000-\\u001F) found while parsing a string"
  | .tooDeep => "recursion limit exceeded"
  | .wrongType found want => "invalid type: " ++ found.describe ++ ", expected " ++ want
  | .wrongValue found want => "invalid value: " ++ found.describe ++ ", expected " ++ want
  | .wrongLength length want => "invalid length " ++ toString length ++ ", expected " ++ want
  | .missingField name => "missing field `" ++ name ++ "`"
  | .duplicateField name => "duplicate field `" ++ name ++ "`"
  | .unknownVariant name variants =>
    "unknown variant `" ++ name ++ "`, expected " ++ describeVariants variants

/-- A place in a document: lines count from one, and the column is the number of bytes of the
line before the place. -/
structure Spot where
  line : Nat := 1
  column : Nat := 0
  deriving DecidableEq, Repr

structure Mishap where
  complaint : Complaint
  spot : Spot
  deriving DecidableEq

namespace Mishap

def message (m : Mishap) : String :=
  m.complaint.message ++ " at line " ++ toString m.spot.line ++ " column " ++
    toString m.spot.column

/-- Byte offset and length of the place that line `line` and column `column` name, where
`chunks` are the lines with their line feeds and `start` is where the first of them begins. -/
def span (line column start : Nat) : List (List Char) → Nat × Nat
  | [] => (start, 0)
  | chunk :: rest =>
    if line = 1 then (start + Text.byteCount (chunk.take (column - 1)), 1)
    else span (line - 1) column (start + Text.byteCount chunk) rest

/-- Byte offset and length of the place that a mishap is about. One without a line or a column is
about the front of the document. -/
def place (source : List Char) (m : Mishap) : Nat × Nat :=
  if m.spot.line = 0 || m.spot.column = 0 then (0, 1)
  else span m.spot.line m.spot.column 0 (Text.chunks source)

def excerpt (source : List Char) (m : Mishap) : Text.Excerpt :=
  let (offset, length) := m.place source
  Text.Excerpt.around source offset length

end Mishap

end Novella.Json
