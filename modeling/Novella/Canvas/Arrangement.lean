import Novella.Canvas.Basic
import Novella.Settings.Basic

/-!
# Arranging a canvas

The layered layout puts every node into the column of its layer. In a column the nodes keep
their vertical order, equal heights being ordered by id; the row of a node is the number of
nodes of its column that come before it.
-/

namespace Novella.Canvas

/-- What the place of a node depends on: its column and how high it stands. -/
structure Cell where
  id : Nat
  column : Nat
  height : Int
  deriving DecidableEq

namespace Cell

def ofNode (layers : Dict Nat Nat) (id : Nat) (n : Node) : Cell :=
  ⟨id, (layers.get? id).getD 0, n.y.orderKey⟩

/-- Whether a cell comes before another of its column. -/
def isAbove (a b : Cell) : Bool :=
  a.column = b.column && (a.height < b.height || (a.height = b.height && a.id < b.id))

def row (cells : List Cell) (c : Cell) : Nat := cells.countP (·.isAbove c)

end Cell

namespace CanvasGraph

def cells (g : CanvasGraph) (layers : Dict Nat Nat) : List Cell :=
  g.graph.nodes.entries.map fun (id, n) => .ofNode layers id n

def arrange (p : Placement) (g : CanvasGraph) : CanvasGraph :=
  let layers := g.graph.layers
  let cells := g.cells layers
  let place (id : Nat) (n : Node) : Node :=
    let cell := Cell.ofNode layers id n
    { n with
      x := p.startX + .ofNat cell.column * p.columnSpacing
      y := p.startY + .ofNat (Cell.row cells cell) * p.rowSpacing }
  { g with graph := g.graph.mapNodes place }

end CanvasGraph

end Novella.Canvas
