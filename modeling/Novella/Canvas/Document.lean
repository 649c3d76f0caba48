import Novella.Canvas.Basic
import Novella.Graph.Document

/-!
# Canvas documents

The JSON form of a canvas graph. It holds everything that an editor keeps, also which nodes
are collapsed or selected.
-/

namespace Novella.Canvas

open Json (Layout decodeNat decodeText decodeFloat decodeBool decodeOption decodeList decodeDict
  decodeVariant)
open Novella.Flow (PropertyKind Character)

/-! ## Writing -/

def Node.toJson (n : Node) : Json := .record ([
  ("id", .nat n.id), ("type", .text n.tag), ("title", .text n.title),
  ("x", .float n.x), ("y", .float n.y), ("width", .float n.width), ("height", .float n.height),
  ("collapsed", .bool n.collapsed), ("selected", .bool n.selected),
  ("properties", .record (n.properties.entries.map fun (name, s) => (name, .text s)))] ++
  (if n.hints.isEmpty then []
    else [("propertyKinds", .record (n.hints.entries.map fun (name, k) => (name, .text k.tag)))]) ++
  [("sourceLocation", n.loc.toJson)])

def characterJson (c : Character) : Json := .record [
  ("id", .text c.id), ("displayName", .text c.displayName), ("color", Json.text? c.color)]

def CanvasGraph.document (g : CanvasGraph) : Json := .record [
  ("schemaVersion", .text schemaVersion), ("name", .text g.name),
  ("nodes", .list (g.nodes.map Node.toJson)),
  ("edges", .list (g.graph.edges.map fun e => (Link.ofEdge id e).toJson)),
  ("scenes", scenesJson g.scenes),
  ("characters", .list (g.characters.map characterJson))]

def CanvasGraph.toJson (g : CanvasGraph) : String := g.document.pretty

/-! ## Reading -/

def decodeKind : Json.Decoder PropertyKind :=
  decodeVariant (PropertyKind.all.map fun k => (k.tag, k))

def Node.layout : Layout Node := ⟨"VisualGraphNode", {}, [
  .of "id" .required (decodeNat 64) fun n v => { n with id := v },
  .of "type" .required decodeText fun n v => { n with tag := v },
  .of "title" .defaulted decodeText fun n v => { n with title := v },
  .of "x" .defaulted decodeFloat fun n v => { n with x := v },
  .of "y" .defaulted decodeFloat fun n v => { n with y := v },
  .of "width" .defaulted decodeFloat fun n v => { n with width := v },
  .of "height" .defaulted decodeFloat fun n v => { n with height := v },
  .of "collapsed" .defaulted decodeBool fun n v => { n with collapsed := v },
  .of "selected" .defaulted decodeBool fun n v => { n with selected := v },
  .of "properties" .defaulted (decodeDict decodeText) fun n v => { n with properties := v },
  .of "propertyKinds" .defaulted (decodeDict decodeKind) fun n v => { n with hints := v },
  .of "sourceLocation" .defaulted Script.Location.layout.decode fun n v => { n with loc := v }]⟩

def characterLayout : Layout Character := ⟨"VisualCharacter", ⟨"", "", none⟩, [
  .of "id" .required decodeText fun c v => { c with id := v },
  .of "displayName" .required decodeText fun c v => { c with displayName := v },
  .of "color" .defaulted (decodeOption decodeText) fun c v => { c with color := v }]⟩

structure GraphEntry where
  version : Option String := none
  name : String := ""
  nodes : List Node := []
  links : List Link := []
  scenes : Dict String Nat := .empty
  characters : List Character := []

def GraphEntry.layout : Layout GraphEntry := ⟨"VisualGraphDocument", {}, [
  .of "schemaVersion" .defaulted (decodeOption decodeText) fun g v => { g with version := v },
  .of "name" .defaulted decodeText fun g v => { g with name := v },
  .of "nodes" .defaulted (decodeList Node.layout.decode) fun g v => { g with nodes := v },
  .of "edges" .defaulted (decodeList Link.layout.decode) fun g v => { g with links := v },
  .of "scenes" .defaulted (decodeDict (decodeNat 64)) fun g v => { g with scenes := v },
  .of "characters" .defaulted (decodeList characterLayout.decode) fun g v =>
    { g with characters := v }]⟩

/-- Builds the graph that a document gives. -/
def GraphEntry.graph (d : GraphEntry) : Except Fault CanvasGraph := do
  checkVersion d.version
  let g ← d.nodes.foldlM (fun (g : CanvasGraph) n =>
    match g.insert? n with
    | some g => .ok g
    | none => .error (.badNodeId n.id)) ({ name := d.name } : CanvasGraph)
  let g ← d.links.foldlM (fun (g : CanvasGraph) l =>
    (g.connect l.source l.target l.label).mapError (Fault.badLink "edge")) g
  let g ← d.scenes.entries.foldlM (fun (g : CanvasGraph) (name, id) =>
    (g.addScene name id).mapError (Fault.badScene name)) g
  return d.characters.foldl CanvasGraph.addCharacter g

def CanvasGraph.ofJson (text : String) : Except Fault CanvasGraph := do
  (← readDocument GraphEntry.layout.decode text).graph

end Novella.Canvas
