import Novella.Flow.Graph
import Novella.Graph.Document

/-!
# Flow documents

The JSON form of a flow graph. Values of properties stand in it without their kinds; reading
takes the kind that the node declares for a property. A location that says nothing is left
out.
-/

namespace Novella.Flow

open Json (Layout Slot decodeNat decodeText decodeFloat decodeOption decodeList decodeDict
  decodeAny)

/-! ## Writing -/

def Node.toJson (n : Node) : Json := .record ([
  ("id", .nat n.id), ("type", .text n.kind.tag),
  ("properties", .record (n.properties.entries.map fun (name, v) => (name, v.toJson))),
  ("x", .float n.x), ("y", .float n.y)] ++
  if n.loc = {} then [] else [("sourceLocation", n.loc.toJson)])

def Character.toJson (c : Character) : Json := .record [
  ("id", .text c.id), ("displayName", .text c.displayName), ("color", Json.text? c.color)]

def FlowGraph.document (g : FlowGraph) : Json := .record [
  ("schemaVersion", .text schemaVersion), ("name", .text g.name),
  ("nodes", .list (g.nodes.map Node.toJson)),
  ("connections", .list (g.graph.edges.map fun e => (Link.ofEdge id e).toJson)),
  ("scenes", scenesJson g.scenes),
  ("characters", .list (g.characters.map Character.toJson))]

def FlowGraph.toJson (g : FlowGraph) : String := g.document.pretty

/-! ## Reading -/

structure NodeEntry where
  id : Nat := 0
  tag : String := ""
  properties : Dict String Json := .empty
  x : Binary64 := .zero
  y : Binary64 := .zero
  loc : Option Script.Location := none

/-- How deep a property may open brackets: a document goes less than 128 deep, and a property
stands in four brackets. -/
def propertyRoom : Nat := 128 - 4

def NodeEntry.layout : Layout NodeEntry := ⟨"IrNodeDocument", {}, [
  .of "id" .required (decodeNat 64) fun n v => { n with id := v },
  .of "type" .required decodeText fun n v => { n with tag := v },
  .of "properties" .defaulted (decodeDict (decodeAny propertyRoom)) fun n v =>
    { n with properties := v },
  .of "x" .defaulted decodeFloat fun n v => { n with x := v },
  .of "y" .defaulted decodeFloat fun n v => { n with y := v },
  .of "sourceLocation" .defaulted (decodeOption Script.Location.layout.decode) fun n v =>
    { n with loc := v }]⟩

/-- The fields of a character, of which a color that is not named is absent. -/
def Character.layout : Layout Character := ⟨"CharacterInfo", ⟨"", "", none⟩, [
  .of "id" .required decodeText fun c v => { c with id := v },
  .of "displayName" .required decodeText fun c v => { c with displayName := v },
  .of "color" .nullable (decodeOption decodeText) fun c v => { c with color := v }]⟩

structure GraphEntry where
  version : Option String := none
  name : String := ""
  nodes : List NodeEntry := []
  links : List Link := []
  scenes : Dict String Nat := .empty
  characters : List Character := []

def GraphEntry.layout : Layout GraphEntry := ⟨"IrGraphDocument", {}, [
  .of "schemaVersion" .defaulted (decodeOption decodeText) fun g v => { g with version := v },
  .of "name" .defaulted decodeText fun g v => { g with name := v },
  .of "nodes" .defaulted (decodeList NodeEntry.layout.decode) fun g v => { g with nodes := v },
  .of "connections" .defaulted (decodeList Link.layout.decode) fun g v => { g with links := v },
  .of "scenes" .defaulted (decodeDict (decodeNat 64)) fun g v => { g with scenes := v },
  .of "characters" .defaulted (decodeList Character.layout.decode) fun g v =>
    { g with characters := v }]⟩

def propertiesOf (id : Nat) (kind : NodeKind) :
    List (String × Json) → Except Fault (List (String × PropertyValue))
  | [] => .ok []
  | (name, v) :: rest => do
    let value ← (PropertyValue.ofJson (kind.propertyKind? name) v).mapError fun issue =>
      Fault.badValue id name issue
    return (name, value) :: (← propertiesOf id kind rest)

def NodeEntry.node (n : NodeEntry) : Except Fault Node := do
  let kind ← match NodeKind.ofTag? n.tag with
    | some kind => .ok kind
    | none => .error (.unknownKind n.tag)
  let properties ← propertiesOf n.id kind n.properties.entries
  return { id := n.id, kind, properties := Dict.ofList properties, loc := n.loc.getD {},
           x := n.x, y := n.y }

def GraphEntry.graph (d : GraphEntry) : Except Fault FlowGraph := do
  checkVersion d.version
  let g ← d.nodes.foldlM (fun g entry => do
    match g.insert? (← entry.node) with
    | some g => return g
    | none => throw (.badNodeId entry.id)) ({ name := d.name } : FlowGraph)
  let g ← d.links.foldlM (fun (g : FlowGraph) l =>
    (g.connect l.source l.target l.label).mapError (Fault.badLink "connection")) g
  let g ← d.scenes.entries.foldlM (fun (g : FlowGraph) (name, id) =>
    (g.addScene name id).mapError (Fault.badScene name)) g
  return d.characters.foldl FlowGraph.addCharacter g

def FlowGraph.ofJson (text : String) : Except Fault FlowGraph := do
  (← readDocument GraphEntry.layout.decode text).graph

end Novella.Flow
