import Novella.Graph.Basic

/-!
# Cycles

`PortGraph.cycles` walks along the edges and reports a cycle wherever an edge leads back to a
node of the current path. A cycle is given by its members from that node on; of several cycles
with the same members only the first is reported.
-/

namespace Novella

/-- What a search for cycles has found: nodes reached, the last one first, and cycles in the
order in which they were met. -/
structure CycleSearch where
  reached : List Nat := []
  cycles : List (List Nat) := []

namespace CycleSearch

/-- Reports a cycle unless one with the same members is known. -/
def report (s : CycleSearch) (members : List Nat) : CycleSearch :=
  if s.cycles.any fun c => ascending c = ascending members then s
  else { s with cycles := s.cycles ++ [members] }

/-- Visits a node that the path `path` leads to, and what follows it, up to `depth` steps
deep. -/
def visit (next : Nat → List Nat) : Nat → List Nat → CycleSearch → Nat → CycleSearch
  | 0, _, s, _ => s
  | depth + 1, path, s, id =>
    if id ∈ path then s.report (path.dropWhile (· ≠ id))
    else if id ∈ s.reached then s
    else (next id).foldl (visit next depth (path ++ [id])) { s with reached := id :: s.reached }

end CycleSearch

namespace PortGraph

variable {ν ε : Type}

/-- The cycles of a graph. An edge from a node to itself is a cycle of one. -/
def cycles (g : PortGraph ν ε) : List (List Nat) :=
  (g.ids.foldl (CycleSearch.visit g.successors (g.size + 2) []) {}).cycles

end PortGraph

end Novella
