import Novella.Flow.Graph

/-!
# Canvas graphs

A `CanvasGraph` is what an editor works with: the nodes and connections of a flow graph, where
the kind of a node is a tag and every property is a text. Where the declared kind of a
property does not say what kind of value the text stands for, the node keeps a hint.
-/

namespace Novella.Canvas

open Novella.Flow (PropertyKind Character putCharacter)

/-- A node as an editor sees it. -/
structure Node where
  id : Nat := 0
  tag : String := ""
  title : String := ""
  x : Binary64 := .zero
  y : Binary64 := .zero
  width : Binary64 := 200
  height : Binary64 := 80
  collapsed : Bool := false
  selected : Bool := false
  properties : Dict String String := .empty
  hints : Dict String PropertyKind := .empty
  loc : Script.Location := {}
  deriving DecidableEq

structure CanvasGraph where
  name : String := ""
  graph : PortGraph Node String := {}
  scenes : Dict String Nat := .empty
  characters : List Character := []

namespace CanvasGraph

def nodes (g : CanvasGraph) : List Node := g.graph.nodes.values

def node? (g : CanvasGraph) (id : Nat) : Option Node := g.graph.node? id

def add (g : CanvasGraph) (tag : String) (x y : Binary64) : Nat × CanvasGraph :=
  let (id, graph) := g.graph.add fun id => { id, tag, title := tag, x, y }
  (id, { g with graph })

/-- Adds a node under its own id, which must be positive and free. -/
def insert? (g : CanvasGraph) (n : Node) : Option CanvasGraph :=
  (g.graph.insert? n.id n).map fun graph => { g with graph }

def remove (g : CanvasGraph) (id : Nat) : CanvasGraph :=
  if g.graph.contains id then
    { g with graph := g.graph.remove id, scenes := g.scenes.filter fun _ start => start ≠ id }
  else g

def modify (g : CanvasGraph) (id : Nat) (f : Node → Node) : Except Fault CanvasGraph :=
  if g.graph.contains id then .ok { g with graph := g.graph.modify id f }
  else .error (.unknownNode id)

def moveTo (g : CanvasGraph) (id : Nat) (x y : Binary64) : Except Fault CanvasGraph :=
  g.modify id fun n => { n with x, y }

/-- Edits the text of a property. The text then stands for a value of the kind that is
declared, so a hint is dropped. -/
def setProperty (g : CanvasGraph) (id : Nat) (name text : String) : Except Fault CanvasGraph :=
  g.modify id fun n =>
    { n with properties := n.properties.insert name text, hints := n.hints.erase name }

def connect (g : CanvasGraph) (source target : Port) (label : String) :
    Except Fault CanvasGraph :=
  (g.graph.connect source target label).map fun graph => { g with graph }

/-- Removes the connection of two ports, if there is one. -/
def disconnect (g : CanvasGraph) (source target : Port) : CanvasGraph :=
  { g with graph := g.graph.disconnect source target }

def addScene (g : CanvasGraph) (scene : String) (id : Nat) : Except Fault CanvasGraph :=
  if g.graph.contains id then .ok { g with scenes := g.scenes.insert scene id }
  else .error (.unknownNode id)

def addCharacter (g : CanvasGraph) (c : Character) : CanvasGraph :=
  { g with characters := putCharacter c g.characters }

end CanvasGraph

end Novella.Canvas
