import Novella.Graph.Basic

/-!
# Depth-first walks

A walk visits a node, then what follows it and is not visited yet, in order. It records the
nodes in the order in which it reaches them and in the order in which it is done with them;
both orders, and the set of nodes reached, are what the analyses of a graph are made of.
-/

namespace Novella

/-- What a walk has visited: nodes reached and nodes done with, each with the last one first. -/
structure Walk where
  reached : List Nat := []
  done : List Nat := []

namespace Walk

/-- Visits a node and what `next` leads to from it, up to `depth` steps deep. -/
def visit (next : Nat → List Nat) : Nat → Walk → Nat → Walk
  | 0, w, _ => w
  | depth + 1, w, id =>
    if id ∈ w.reached then w
    else
      let w := (next id).foldl (visit next depth) { w with reached := id :: w.reached }
      { w with done := id :: w.done }

def fromRoots (next : Nat → List Nat) (depth : Nat) (roots : List Nat) : Walk :=
  roots.foldl (visit next depth) {}

def preorder (w : Walk) : List Nat := w.reached.reverse

def postorder (w : Walk) : List Nat := w.done.reverse

end Walk

namespace PortGraph

variable {ν ε : Type}

/-- Every node once, each after all its predecessors if no cycle forbids it: the walk against
the edges, from each node in ascending order. -/
def topologicalOrder (g : PortGraph ν ε) : List Nat :=
  (Walk.fromRoots g.predecessors (g.size + 1) g.ids).postorder

/-- Nodes that the roots lead to, the roots that are in the graph included, in ascending
order. -/
def reachableFrom (g : PortGraph ν ε) (roots : List Nat) : List Nat :=
  ascending (Walk.fromRoots g.successors (g.size + 1) (roots.filter g.contains)).reached

/-- The layer of a node, given the layers of the nodes before it in topological order: one
more than the greatest layer of a predecessor that has one. -/
def layerOf (g : PortGraph ν ε) (layers : Dict Nat Nat) (id : Nat) : Nat :=
  ((g.predecessors id).filterMap fun p => (layers.get? p).map (· + 1)).foldl max 0

/-- The layer of every node. Without cycles it is the length of the longest path to the node. -/
def layers (g : PortGraph ν ε) : Dict Nat Nat :=
  g.topologicalOrder.foldl (fun layers id => layers.insert id (g.layerOf layers id)) .empty

end PortGraph

end Novella
