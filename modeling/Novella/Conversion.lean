import Novella.Canvas.Projection
import Novella.Flow.Lowering
import Novella.Flow.Raising
import Novella.Script.Difference

/-!
# Conversions

The ways between the text of a script, its flow graph and the canvas, under given settings.
-/

namespace Novella.Conversion

open Novella.Flow (FlowGraph)
open Canvas (CanvasGraph)

def flowOfText (s : Settings) (text : String) : Except Fault FlowGraph := do
  Flow.lower s.placement (← Script.parse text)

def textOfFlow (s : Settings) (g : FlowGraph) : Except Fault String :=
  (Flow.raise s.comments g).map (Script.Program.render s.indentWidth)

def canvasOfText (s : Settings) (text : String) : Except Fault CanvasGraph :=
  (flowOfText s text).map CanvasGraph.ofFlow

def textOfCanvas (s : Settings) (g : CanvasGraph) : Except Fault String := do
  textOfFlow s (← g.toFlow)

def roundTrip (s : Settings) (text : String) : Except Fault String := do
  textOfFlow s (← flowOfText s text)

end Novella.Conversion
