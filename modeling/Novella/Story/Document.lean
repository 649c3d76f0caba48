import Novella.Graph.Document
import Novella.Story.Graph

/-!
# Story documents

The JSON form of a story graph. What is selected is left out; all else comes back as it was.
Reading checks connections against the declared ports, as connecting does.
-/

namespace Novella.Story

open Json (Layout decodeNat decodeText decodeFloat decodeBool decodeOption decodeList decodeDict
  decodeVariant)

/-! ## Writing -/

def PortDecl.toJson (p : PortDecl) : Json := .record [
  ("name", .text p.name), ("kind", .text p.kind.tag), ("label", .text p.label)]

def Node.toJson (n : Node) : Json := .record [
  ("id", .nat n.id), ("type", .text n.kind.tag), ("title", .text n.title),
  ("description", .text n.description), ("x", .float n.x), ("y", .float n.y),
  ("width", .float n.width), ("height", .float n.height),
  ("inputs", .list (n.inputs.map PortDecl.toJson)),
  ("outputs", .list (n.outputs.map PortDecl.toJson)),
  ("properties", .record (n.properties.entries.map fun (name, s) => (name, .text s))),
  ("collapsed", .bool n.collapsed)]

def StoryGraph.document (g : StoryGraph) : Json := .record [
  ("schemaVersion", .text schemaVersion), ("name", .text g.name),
  ("startNode", g.start?.elim .null .nat),
  ("nodes", .list (g.nodes.map Node.toJson)),
  ("connections", .list (g.graph.edges.map fun e => (Link.ofEdge (fun _ => "") e).toJson))]

def StoryGraph.toJson (g : StoryGraph) : String := g.document.pretty

/-! ## Reading -/

def decodePortKind : Json.Decoder PortKind :=
  decodeVariant (PortKind.all.map fun k => (k.tag, k))

def decodeNodeKind : Json.Decoder NodeKind :=
  decodeVariant (NodeKind.all.map fun k => (k.tag, k))

def PortDecl.layout : Layout PortDecl := ⟨"StoryPort", {}, [
  .of "name" .required decodeText fun p v => { p with name := v },
  .of "kind" .required decodePortKind fun p v => { p with kind := v },
  .of "label" .defaulted decodeText fun p v => { p with label := v }]⟩

def Node.layout : Layout Node := ⟨"StoryNode", {}, [
  .of "id" .required (decodeNat 64) fun n v => { n with id := v },
  .of "type" .required decodeNodeKind fun n v => { n with kind := v },
  .of "title" .defaulted decodeText fun n v => { n with title := v },
  .of "description" .defaulted decodeText fun n v => { n with description := v },
  .of "x" .defaulted decodeFloat fun n v => { n with x := v },
  .of "y" .defaulted decodeFloat fun n v => { n with y := v },
  .of "width" .defaulted decodeFloat fun n v => { n with width := v },
  .of "height" .defaulted decodeFloat fun n v => { n with height := v },
  .of "inputs" .defaulted (decodeList PortDecl.layout.decode) fun n v => { n with inputs := v },
  .of "outputs" .defaulted (decodeList PortDecl.layout.decode) fun n v => { n with outputs := v },
  .of "properties" .defaulted (decodeDict decodeText) fun n v => { n with properties := v },
  .of "collapsed" .defaulted decodeBool fun n v => { n with collapsed := v }]⟩

structure StoryEntry where
  version : Option String := none
  name : String := ""
  start? : Option Nat := none
  nodes : List Node := []
  links : List Link := []

def StoryEntry.layout : Layout StoryEntry := ⟨"StoryGraphDocument", {}, [
  .of "schemaVersion" .defaulted (decodeOption decodeText) fun g v => { g with version := v },
  .of "name" .defaulted decodeText fun g v => { g with name := v },
  .of "startNode" .defaulted (decodeOption (decodeNat 64)) fun g v => { g with start? := v },
  .of "nodes" .defaulted (decodeList Node.layout.decode) fun g v => { g with nodes := v },
  .of "connections" .defaulted (decodeList Link.layout.decode) fun g v =>
    { g with links := v }]⟩

def StoryEntry.graph (d : StoryEntry) : Except Fault StoryGraph := do
  checkVersion d.version
  let g ← d.nodes.foldlM (fun (g : StoryGraph) n =>
    match g.insert? n with
    | some g => .ok g
    | none => .error (.badNodeId n.id)) ({ name := d.name } : StoryGraph)
  let g ← d.links.foldlM (fun (g : StoryGraph) l =>
    (g.connect l.source l.target).mapError (Fault.badLink "connection")) g
  match d.start? with
  | none => return g
  | some id => (g.setStart id).mapError .badStart

def StoryGraph.ofJson (text : String) : Except Fault StoryGraph := do
  (← readDocument StoryEntry.layout.decode text).graph

end Novella.Story
