import Novella.Flow.Ports
import Novella.Graph.Cycles
import Novella.Graph.Walk
import Novella.Story.Kind

/-!
# Story graphs

A `StoryGraph` is a port graph whose nodes declare their own ports. A connection joins a
declared output to a declared input of the same kind, and goes when its output goes. One node
may be declared the start of the story.
-/

namespace Novella.Story

/-- A node of a story. It carries an id of its own, which an editor may change without moving
the node. -/
structure Node where
  id : Nat := 0
  kind : NodeKind := .comment
  title : String := ""
  description : String := ""
  x : Binary64 := .zero
  y : Binary64 := .zero
  width : Binary64 := 180
  height : Binary64 := 90
  inputs : List PortDecl := []
  outputs : List PortDecl := []
  properties : Dict String String := .empty
  selected : Bool := false
  collapsed : Bool := false
  deriving DecidableEq

namespace Node

def ofKind (id : Nat) (kind : NodeKind) (x y : Binary64) : Node :=
  { id, kind, title := kind.tag, x, y, inputs := kind.inputs, outputs := kind.outputs }

def input? (n : Node) (name : String) : Option PortDecl := n.inputs.find? (·.name = name)

def output? (n : Node) (name : String) : Option PortDecl := n.outputs.find? (·.name = name)

def set (n : Node) (name text : String) : Node :=
  { n with properties := n.properties.insert name text }

/-- The name of a further option: the first of `option_0`, `option_1`, … that is no output.
One of the first `n + 1` is free among `n` outputs. -/
def freeOption (n : Node) : String :=
  (((List.range (n.outputs.length + 1)).map Flow.optionPort).find? fun name =>
    (n.output? name).isNone).getD ""

end Node

/-- A graph of a story. Connections carry whether they are selected. -/
structure StoryGraph where
  name : String := ""
  graph : PortGraph Node Bool := {}
  start? : Option Nat := none

namespace StoryGraph

def nodes (g : StoryGraph) : List Node := g.graph.nodes.values

def node? (g : StoryGraph) (id : Nat) : Option Node := g.graph.node? id

def create (g : StoryGraph) (kind : NodeKind) (x y : Binary64) : Nat × StoryGraph :=
  let (id, graph) := g.graph.add fun id => .ofKind id kind x y
  (id, { g with graph })

def insert? (g : StoryGraph) (n : Node) : Option StoryGraph :=
  (g.graph.insert? n.id n).map fun graph => { g with graph }

/-- Removes a node with its connections. The start goes with its node. -/
def remove (g : StoryGraph) (id : Nat) : StoryGraph :=
  if g.graph.contains id then
    { g with graph := g.graph.remove id, start? := g.start?.filter (· ≠ id) }
  else g

def modify (g : StoryGraph) (id : Nat) (f : Node → Node) : StoryGraph :=
  { g with graph := g.graph.modify id f }

def setStart (g : StoryGraph) (id : Nat) : Except Fault StoryGraph :=
  if g.graph.contains id then .ok { g with start? := some id } else .error (.unknownNode id)

/-! ## Ports -/

/-- Adds an output at the end of a node's outputs, unless there is one of its name. Also
tells whether it was added. -/
def addOutput (g : StoryGraph) (id : Nat) (port : PortDecl) : Except Fault (Bool × StoryGraph) :=
  match g.node? id with
  | none => .error (.unknownNode id)
  | some n =>
    if (n.output? port.name).isSome then .ok (false, g)
    else .ok (true, g.modify id fun n => { n with outputs := n.outputs ++ [port] })

/-- Removes the outputs of a name from a node, with every connection that leaves them. Also
tells whether there was one. -/
def removeOutput (g : StoryGraph) (id : Nat) (name : String) : Except Fault (Bool × StoryGraph) :=
  match g.node? id with
  | none => .error (.unknownNode id)
  | some n =>
    if (n.output? name).isNone then .ok (false, g)
    else
      let graph := (g.graph.outgoingFrom id name).foldl
        (fun graph e => graph.disconnect e.source e.target) g.graph
      .ok (true, { g with graph }.modify id fun n =>
        { n with outputs := n.outputs.filter (·.name ≠ name) })

def addOption (g : StoryGraph) (id : Nat) (text : String) : Except Fault (String × StoryGraph) :=
  match g.node? id with
  | none => .error (.unknownNode id)
  | some n =>
    if n.kind ≠ .choice then .error (.badProperty id "options" (.noOptions n.kind.tag))
    else do
      let name := n.freeOption
      let (added, g) ← g.addOutput id ⟨name, .flow, text⟩
      if added then return (name, g) else throw (.badPort id name .nameTaken)

/-! ## Connections -/

def checkPorts (fromNode toNode : Node) (source target : Port) : Except Fault Unit :=
  match fromNode.output? source.name, toNode.input? target.name with
  | none, _ => .error (.badPort source.node source.name (.noOutput fromNode.kind.tag))
  | some _, none => .error (.badPort target.node target.name (.noInput toNode.kind.tag))
  | some output, some input =>
    if output.kind = input.kind then .ok ()
    else .error (.badPort target.node target.name
      (.kindsDiffer output.kind.describe input.kind.describe))

/-- Connects two ports. Where the directions are right and both nodes are there, the ports
must be declared and of one kind. -/
def connect (g : StoryGraph) (source target : Port) : Except Fault StoryGraph := do
  if source.isOutput && !target.isOutput then
    match g.node? source.node, g.node? target.node with
    | some fromNode, some toNode => checkPorts fromNode toNode source target
    | _, _ => pure ()
  return { g with graph := ← g.graph.connect source target false }

def disconnect (g : StoryGraph) (source target : Port) : StoryGraph :=
  { g with graph := g.graph.disconnect source target }

def select (g : StoryGraph) (source target : Port) (selected : Bool) : StoryGraph :=
  { g with graph := g.graph.setEdge source target selected }

end StoryGraph

end Novella.Story
