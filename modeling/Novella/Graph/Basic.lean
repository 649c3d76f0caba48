import Novella.Dict
import Novella.Fault

/-!
# Port graphs

A `PortGraph` holds nodes under their ids and a list of edges from output ports to input
ports, in the order in which they were made. Ids are positive and are handed out by a counter
that never goes back, so an id is not used again after its node is removed. No two edges join
the same two ports.
-/

namespace Novella

/-- A connection from an output port to an input port. -/
structure Edge (ε : Type) where
  source : Port
  target : Port
  data : ε
  deriving DecidableEq

namespace Edge

variable {ε : Type}

def joins (e : Edge ε) (source target : Port) : Bool := e.source = source && e.target = target

def touches (e : Edge ε) (id : Nat) : Bool := e.source.node = id || e.target.node = id

end Edge

/-- The given numbers in ascending order, each once. -/
def ascending (ids : List Nat) : List Nat := (Dict.ofList (ids.map fun id => (id, ()))).keys

/-- Nodes under their ids, edges in the order of their making, and the next id. -/
structure PortGraph (ν ε : Type) where
  nodes : Dict Nat ν := .empty
  edges : List (Edge ε) := []
  nextId : Nat := 1

namespace PortGraph

variable {ν ε : Type}

instance : Inhabited (PortGraph ν ε) := ⟨{}⟩

def largestId : Nat := 2 ^ 64 - 1

/-! ## Nodes -/

def size (g : PortGraph ν ε) : Nat := g.nodes.size

def ids (g : PortGraph ν ε) : List Nat := g.nodes.keys

def node? (g : PortGraph ν ε) (id : Nat) : Option ν := g.nodes.get? id

def contains (g : PortGraph ν ε) (id : Nat) : Bool := g.nodes.contains id

def add (g : PortGraph ν ε) (build : Nat → ν) : Nat × PortGraph ν ε :=
  (g.nextId, { g with nodes := g.nodes.insert g.nextId (build g.nextId), nextId := g.nextId + 1 })

def insert? (g : PortGraph ν ε) (id : Nat) (node : ν) : Option (PortGraph ν ε) :=
  if id = 0 ∨ g.contains id then none
  else some { g with
    nodes := g.nodes.insert id node
    nextId := max g.nextId (min (id + 1) largestId) }

def remove (g : PortGraph ν ε) (id : Nat) : PortGraph ν ε :=
  { g with nodes := g.nodes.erase id, edges := g.edges.filter fun e => !e.touches id }

def modify (g : PortGraph ν ε) (id : Nat) (f : ν → ν) : PortGraph ν ε :=
  { g with nodes := g.nodes.modify id f }

def mapNodes (g : PortGraph ν ε) (f : Nat → ν → ν) : PortGraph ν ε :=
  { g with nodes := g.nodes.map f }

/-- Removes all nodes and edges. The counter stays. -/
def clear (g : PortGraph ν ε) : PortGraph ν ε := { nextId := g.nextId }

/-! ## Edges -/

def edge? (g : PortGraph ν ε) (source target : Port) : Option (Edge ε) :=
  g.edges.find? (·.joins source target)

def hasEdge (g : PortGraph ν ε) (source target : Port) : Bool :=
  g.edges.any (·.joins source target)

/-- Joins an output port to an input port. The directions are checked first, then that both
nodes are there, then that the ports are not joined yet. -/
def connect (g : PortGraph ν ε) (source target : Port) (data : ε) :
    Except Fault (PortGraph ν ε) :=
  if !source.isOutput then .error (.badPort source.node source.name .sourceNotOutput)
  else if target.isOutput then .error (.badPort target.node target.name .targetNotInput)
  else if !g.contains source.node then .error (.unknownNode source.node)
  else if !g.contains target.node then .error (.unknownNode target.node)
  else if g.hasEdge source target then .error (.duplicateConnection source target)
  else .ok { g with edges := g.edges ++ [⟨source, target, data⟩] }

def disconnect (g : PortGraph ν ε) (source target : Port) : PortGraph ν ε :=
  { g with edges := g.edges.eraseP (·.joins source target) }

def setEdge (g : PortGraph ν ε) (source target : Port) (data : ε) : PortGraph ν ε :=
  { g with edges := g.edges.map fun e => if e.joins source target then { e with data } else e }

def outgoing (g : PortGraph ν ε) (id : Nat) : List (Edge ε) := g.edges.filter (·.source.node = id)

def incoming (g : PortGraph ν ε) (id : Nat) : List (Edge ε) := g.edges.filter (·.target.node = id)

def outgoingFrom (g : PortGraph ν ε) (id : Nat) (port : String) : List (Edge ε) :=
  (g.outgoing id).filter (·.source.name = port)

/-- Nodes that an edge from the node leads to, in ascending order. -/
def successors (g : PortGraph ν ε) (id : Nat) : List Nat :=
  ascending ((g.outgoing id).map (·.target.node))

def predecessors (g : PortGraph ν ε) (id : Nat) : List Nat :=
  ascending ((g.incoming id).map (·.source.node))

end PortGraph

end Novella
