import Novella.Canvas.Basic

/-!
# Flow graphs on the canvas

`CanvasGraph.ofFlow` shows a flow graph to an editor, and `CanvasGraph.toFlow` types it again.
The kind that a text stands for is its hint if it has one, else the declared kind, else text.
An empty text without a hint stands for no value where a truth value or a number is declared.
-/

namespace Novella.Canvas

open Novella.Flow (FlowGraph NodeKind PropertyKind PropertyValue)

/-- The kind of a property's text without a hint. -/
def impliedKind (kind : NodeKind) (name : String) : PropertyKind :=
  (kind.propertyKind? name).getD .text

def titleOf (n : Flow.Node) : String :=
  match n.kind with
  | .sceneStart | .sceneEnd =>
    let scene := n.text "scene"
    if scene.isEmpty then n.kind.tag else n.kind.tag ++ ": " ++ scene
  | .dialogue =>
    let speaker := n.text "speaker"
    if speaker.isEmpty then "Narration" else speaker
  | kind => kind.tag

def hintsOf (kind : NodeKind) (properties : Dict String PropertyValue) : Dict String PropertyKind :=
  (properties.filter fun name v => v.kind ≠ impliedKind kind name).map fun _ v => v.kind

def Node.ofFlow (n : Flow.Node) : Node :=
  { id := n.id, tag := n.kind.tag, title := titleOf n, x := n.x, y := n.y
    properties := n.properties.map fun _ v => v.render
    hints := hintsOf n.kind n.properties
    loc := n.loc }

/-- The value that a text stands for, given its hint and its declared kind. -/
def valueOf (hint declared : Option PropertyKind) (text : String) :
    Except TextIssue PropertyValue :=
  match hint, declared with
  | some kind, _ => PropertyValue.parse kind text
  | none, none => .ok (.text text)
  | none, some kind =>
    if text.isEmpty && (kind = .bool || kind = .int || kind = .float) then .ok .null
    else PropertyValue.parse kind text

def valuesOf (n : Node) (kind : NodeKind) :
    List (String × String) → Except Fault (List (String × PropertyValue))
  | [] => .ok []
  | (name, text) :: rest => do
    let value ← (valueOf (n.hints.get? name) (kind.propertyKind? name) text).mapError fun issue =>
      Fault.badProperty n.id name (.badText issue)
    return (name, value) :: (← valuesOf n kind rest)

/-- The flow node that an editor's node stands for. -/
def Node.toFlow (n : Node) : Except Fault Flow.Node := do
  let kind ← match NodeKind.ofTag? n.tag with
    | some kind => .ok kind
    | none => .error (.unknownKind n.tag)
  let values ← valuesOf n kind n.properties.entries
  return { id := n.id, kind, properties := Dict.ofList values, loc := n.loc, x := n.x, y := n.y }

namespace CanvasGraph

/-- Shows a flow graph. A node, a connection or a scene that the canvas refuses is left out. -/
def ofFlow (g : FlowGraph) : CanvasGraph :=
  let canvas := g.nodes.foldl (fun (canvas : CanvasGraph) n =>
    (canvas.insert? (.ofFlow n)).getD canvas) ({ name := g.name } : CanvasGraph)
  let canvas := g.graph.edges.foldl (fun (canvas : CanvasGraph) e =>
    (canvas.connect e.source e.target e.data).toOption.getD canvas) canvas
  let canvas := g.scenes.entries.foldl (fun (canvas : CanvasGraph) (scene, id) =>
    (canvas.addScene scene id).toOption.getD canvas) canvas
  g.characters.foldl CanvasGraph.addCharacter canvas

/-- The flow graph that an editor's graph stands for. -/
def toFlow (g : CanvasGraph) : Except Fault FlowGraph := do
  let flow ← g.nodes.foldlM (fun (flow : FlowGraph) n => do
    match flow.insert? (← n.toFlow) with
    | some flow => return flow
    | none => throw (.badNodeId n.id)) ({ name := g.name } : FlowGraph)
  let flow ← g.graph.edges.foldlM (fun (flow : FlowGraph) e =>
    flow.connect e.source e.target e.data) flow
  let flow ← g.scenes.entries.foldlM (fun (flow : FlowGraph) (name, id) =>
    flow.addScene name id) flow
  return g.characters.foldl FlowGraph.addCharacter flow

end CanvasGraph

end Novella.Canvas
