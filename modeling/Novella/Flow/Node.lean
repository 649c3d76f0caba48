import Novella.Flow.Value
import Novella.Script.Program

/-!
# Flow nodes

A node has a fixed id and kind, properties by name, the place of the construct that it was
made from, and a position on the canvas. A property is read by the kind of value that is
wanted; one that is missing or of another kind counts as absent, or as an empty value.
-/

namespace Novella.Flow

open Script (Location)

structure Node where
  id : Nat
  kind : NodeKind
  properties : Dict String PropertyValue := .empty
  loc : Location := {}
  x : Binary64 := Binary64.zero
  y : Binary64 := Binary64.zero
  deriving DecidableEq

namespace Node

def property? (n : Node) (name : String) : Option PropertyValue := n.properties.get? name

def set (n : Node) (name : String) (v : PropertyValue) : Node :=
  { n with properties := n.properties.insert name v }

def unset (n : Node) (name : String) : Node :=
  { n with properties := n.properties.erase name }

def moveTo (n : Node) (x y : Binary64) : Node := { n with x, y }

/-- The node's values put under their names, one after the other. -/
def setAll (n : Node) (vs : List (String × PropertyValue)) : Node :=
  vs.foldl (fun n v => n.set v.1 v.2) n

def text? (n : Node) (name : String) : Option String :=
  match n.property? name with
  | some (.text s) => some s
  | _ => none

def bool? (n : Node) (name : String) : Option Bool :=
  match n.property? name with
  | some (.bool b) => some b
  | _ => none

def int? (n : Node) (name : String) : Option Int64 :=
  match n.property? name with
  | some (.int i) => some i
  | _ => none

def float? (n : Node) (name : String) : Option Binary64 :=
  match n.property? name with
  | some (.float x) => some x
  | _ => none

def texts? (n : Node) (name : String) : Option (List String) :=
  match n.property? name with
  | some (.texts items) => some items
  | _ => none

def text (n : Node) (name : String) : String := (n.text? name).getD ""

def bool (n : Node) (name : String) : Bool := (n.bool? name).getD false

def int (n : Node) (name : String) : Int64 := (n.int? name).getD 0

def float (n : Node) (name : String) : Binary64 := (n.float? name).getD .zero

def texts (n : Node) (name : String) : List String := (n.texts? name).getD []

/-- Equality by value: numbers are compared as numbers. -/
def sameValue (a b : Node) : Bool :=
  a.id = b.id && a.kind = b.kind && a.loc = b.loc && a.x.numEq b.x && a.y.numEq b.y &&
    a.properties.keys = b.properties.keys &&
    (a.properties.values.zip b.properties.values).all fun (v, w) => v.sameValue w

end Node

end Novella.Flow
