import Novella.Fault
import Novella.Json.Decode
import Novella.Text.Blank

/-!
# Property values

The properties of a flow node hold values of six kinds. A value has a text form, which editors
work with, and a form in documents, where its kind is not written down: `PropertyValue.ofJson`
recovers it from the kind that the property is declared with, or else from the document.
-/

namespace Novella.Flow

inductive PropertyValue where
  | null
  | bool (b : Bool)
  | int (n : Int64)
  | float (x : Binary64)
  | text (s : String)
  | texts (items : List String)
  deriving DecidableEq

namespace PropertyValue

def kind : PropertyValue → PropertyKind
  | null => .null
  | bool _ => .bool
  | int _ => .int
  | float _ => .float
  | text _ => .text
  | texts _ => .texts

/-- Equality by value: floating-point numbers are equal as numbers. -/
def sameValue : PropertyValue → PropertyValue → Bool
  | float x, float y => x.numEq y
  | a, b => a = b

def render : PropertyValue → String
  | null => ""
  | bool b => if b then "true" else "false"
  | int n => toString n.toInt
  | float x => x.literal
  | text s => s
  | texts items => (Json.texts items).compact

def parse (kind : PropertyKind) (s : String) : Except TextIssue PropertyValue :=
  let trimmed := Text.trimChars s.toList
  match kind with
  | .null => .ok null
  | .bool =>
    if s = "true" then .ok (bool true)
    else if s = "false" then .ok (bool false)
    else .error (.notBool s)
  | .int => ((readInt64 trimmed).map int).mapError .notInt
  | .float => ((Binary64.read trimmed).map float).mapError .notFloat
  | .text => .ok (text s)
  | .texts =>
    if trimmed.isEmpty then .ok (texts [])
    else ((Json.decodeDocument (Json.decodeList Json.decodeText) s).map texts).mapError .notTexts

def toJson : PropertyValue → Json
  | null => .null
  | bool b => .bool b
  | int n => .int n.toInt
  | float x => if x.isFinite then .float x else .null
  | text s => .text s
  | texts items => Json.texts items

/-- The texts of a list that holds nothing else. -/
def textsOf? (items : List Json) : Option (List String) :=
  items.mapM fun
    | .text s => some s
    | _ => none

/-- A value of a document as a value of the given kind, or of the kind that fits it best where
none is declared. -/
def ofJson (expected : Option PropertyKind) (v : Json) : Except ValueIssue PropertyValue :=
  let refuse : Except ValueIssue PropertyValue := match expected with
    | some kind => .error (.notOfKind kind v.compact)
    | none => .error (.unsupported v.compact)
  let fits (kind : PropertyKind) : Bool := expected = none || expected = some kind
  match v with
  | .null => .ok null
  | .bool b => if fits .bool then .ok (bool b) else refuse
  | .int n =>
    if expected = some .float then .ok (float (.ofInt n))
    else if !fits .int then refuse
    else if n < 2 ^ 63 then .ok (int (Int64.ofInt n))
    else if expected = none then .ok (float (.ofInt n))
    else refuse
  | .float x => if fits .float then .ok (float x) else refuse
  | .text s => if fits .text then .ok (text s) else refuse
  | .list items =>
    if fits .texts then
      match textsOf? items with
      | some items => .ok (texts items)
      | none => .error .notTexts
    else refuse
  | .record _ => refuse

end PropertyValue

end Novella.Flow
