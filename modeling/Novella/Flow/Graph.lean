import Novella.Flow.Ports
import Novella.Graph.Walk
import Novella.Graph.Cycles

/-!
# Flow graphs

A `FlowGraph` is a port graph of flow nodes with a name, a table of scenes that says at which
node each begins, and a list of characters. Connections carry a label. The scenes of the table
always begin at nodes of the graph, and no two characters have one id.
-/

namespace Novella.Flow

structure Character where
  id : String
  displayName : String
  color : Option String
  deriving DecidableEq

/-- Puts a character into a list, in the place of the one with its id if there is one. -/
def putCharacter (c : Character) : List Character → List Character
  | [] => [c]
  | d :: rest => if d.id = c.id then c :: rest else d :: putCharacter c rest

/-- A graph of the flow of a script. -/
structure FlowGraph where
  name : String := ""
  graph : PortGraph Node String := {}
  scenes : Dict String Nat := .empty
  characters : List Character := []

namespace FlowGraph

def nodes (g : FlowGraph) : List Node := g.graph.nodes.values

def node? (g : FlowGraph) (id : Nat) : Option Node := g.graph.node? id

def create (g : FlowGraph) (kind : NodeKind) : Nat × FlowGraph :=
  let (id, graph) := g.graph.add fun id => { id, kind }
  (id, { g with graph })

/-- Adds a node under its own id, which must be positive and free. -/
def insert? (g : FlowGraph) (n : Node) : Option FlowGraph :=
  (g.graph.insert? n.id n).map fun graph => { g with graph }

def remove (g : FlowGraph) (id : Nat) : FlowGraph :=
  if g.graph.contains id then
    { g with graph := g.graph.remove id, scenes := g.scenes.filter fun _ start => start ≠ id }
  else g

def modify (g : FlowGraph) (id : Nat) (f : Node → Node) : FlowGraph :=
  { g with graph := g.graph.modify id f }

def connect (g : FlowGraph) (source target : Port) (label : String) : Except Fault FlowGraph :=
  (g.graph.connect source target label).map fun graph => { g with graph }

def disconnect (g : FlowGraph) (source target : Port) : FlowGraph :=
  { g with graph := g.graph.disconnect source target }

/-- The node that the first connection of an output port leads to. -/
def targetOf? (g : FlowGraph) (id : Nat) (port : String) : Option Nat :=
  (g.graph.outgoingFrom id port).head?.map (·.target.node)

def addScene (g : FlowGraph) (scene : String) (id : Nat) : Except Fault FlowGraph :=
  if g.graph.contains id then .ok { g with scenes := g.scenes.insert scene id }
  else .error (.unknownNode id)

def addCharacter (g : FlowGraph) (c : Character) : FlowGraph :=
  { g with characters := putCharacter c g.characters }

def character? (g : FlowGraph) (id : String) : Option Character :=
  g.characters.find? (·.id = id)

/-! ## Analyses -/

/-- Nodes at which scenes begin: those of the table and all others that are scene starts. -/
def entries (g : FlowGraph) : List Nat :=
  ascending (g.scenes.values.filter g.graph.contains ++
    (g.nodes.filter (·.kind = .sceneStart)).map (·.id))

/-- Nodes that the outputs of a node lead to, in the order of the outputs. -/
def flowSuccessors (g : FlowGraph) (id : Nat) : List Nat :=
  match g.node? id with
  | none => []
  | some n => (n.outputs.flatMap fun port => g.graph.outgoingFrom id port).map (·.target.node)

/-- Nodes in reading order: each scene from its start along the outputs, then the nodes that
no scene reaches in this way, in topological order. -/
def executionOrder (g : FlowGraph) : List Nat :=
  let read := (Walk.fromRoots g.flowSuccessors (g.graph.size + 1) g.entries).preorder
  read ++ g.graph.topologicalOrder.filter fun id => !read.contains id

/-- Nodes that no scene reaches, in ascending order. -/
def unreachable (g : FlowGraph) : List Nat :=
  let reached := g.graph.reachableFrom g.entries
  g.graph.ids.filter fun id => !reached.contains id

inductive Finding where
  | sceneAtMissingNode (scene : String) (id : Nat)
  | sceneAtWrongKind (scene : String) (id : Nat) (kind : NodeKind)
  | noOutput (id : Nat) (kind : NodeKind) (port : String)
  | noInput (id : Nat) (kind : NodeKind) (port : String)
  | selfConnection (id : Nat)
  | cycle (members : List Nat)
  | unreachable (id : Nat) (kind : NodeKind)
  deriving DecidableEq

def Finding.message : Finding → String
  | sceneAtMissingNode scene id =>
    "scene '" ++ scene ++ "' starts at missing node " ++ toString id
  | sceneAtWrongKind scene id kind =>
    "scene '" ++ scene ++ "' starts at node " ++ toString id ++ " of type " ++ kind.tag ++
      ", expected SceneStart"
  | noOutput id kind port =>
    "node " ++ toString id ++ " (" ++ kind.tag ++ ") has no output port '" ++ port ++ "'"
  | noInput id kind port =>
    "node " ++ toString id ++ " (" ++ kind.tag ++ ") has no input port '" ++ port ++ "'"
  | selfConnection id => "node " ++ toString id ++ " connects to itself"
  | cycle members => "cycle detected: " ++ " -> ".intercalate (members.map toString)
  | unreachable id kind =>
    "node " ++ toString id ++ " (" ++ kind.tag ++ ") is unreachable from any scene start"

def sceneFindings (g : FlowGraph) (scene : String) (id : Nat) : List Finding :=
  match g.node? id with
  | none => [.sceneAtMissingNode scene id]
  | some n => if n.kind = .sceneStart then [] else [.sceneAtWrongKind scene id n.kind]

def edgeFindings (g : FlowGraph) (e : Edge String) : List Finding :=
  let source := match g.node? e.source.node with
    | some n => if n.hasOutput e.source.name then [] else [.noOutput e.source.node n.kind e.source.name]
    | none => []
  let target := match g.node? e.target.node with
    | some n => if n.hasInput e.target.name then [] else [.noInput e.target.node n.kind e.target.name]
    | none => []
  source ++ target ++
    (if e.source.node = e.target.node then [.selfConnection e.source.node] else [])

def findings (g : FlowGraph) : List Finding :=
  g.scenes.entries.flatMap (fun (scene, id) => g.sceneFindings scene id) ++
  g.graph.edges.flatMap g.edgeFindings ++
  g.graph.cycles.map .cycle ++
  g.unreachable.filterMap fun id => (g.node? id).map fun n => .unreachable id n.kind

structure Stats where
  total : Nat
  reachable : Nat
  unreachable : Nat
  dialogues : Nat
  choices : Nat
  /-- Choices, branches, switches and loops. -/
  branches : Nat
  scenes : Nat
  connections : Nat
  deriving DecidableEq

def stats (g : FlowGraph) : Stats :=
  let count (kinds : List NodeKind) : Nat := g.nodes.countP fun n => kinds.contains n.kind
  let missed := g.unreachable.length
  { total := g.graph.size
    reachable := g.graph.size - missed
    unreachable := missed
    dialogues := count [.dialogue]
    choices := count [.choice]
    branches := count [.choice, .branch, .switch, .loop]
    scenes := g.entries.length
    connections := g.graph.edges.length }

def Stats.toJson (s : Stats) : Json := .record [
  ("total_nodes", .nat s.total), ("reachable_nodes", .nat s.reachable),
  ("unreachable_nodes", .nat s.unreachable), ("dialogue_count", .nat s.dialogues),
  ("choice_count", .nat s.choices), ("branch_count", .nat s.branches),
  ("scene_count", .nat s.scenes), ("connection_count", .nat s.connections)]

end FlowGraph

end Novella.Flow
