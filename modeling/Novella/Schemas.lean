import Novella.Canvas.Basic
import Novella.Json.Schema
import Novella.Story.Graph

/-!
# Schemas of the graph documents

What the documents of flow graphs, of canvas graphs and of stories look like.
-/

namespace Novella.Schemas

open Json (Field Shape schema)
open Json.Shape

/-! ## Shared parts -/

def version : Field := .may "schemaVersion" (optionalText.defaulted .null)

def name : Field := .may "name" (text.defaulted (.text ""))

def items (field definitionName : String) : Field :=
  .may field ((listOf (definition definitionName)).defaulted (.list []))

def scenes : Field := .may "scenes" ((dictOf (natural 64)).defaulted (.record []))

def distance (field : String) (x : Binary64) : Field := .may field (number.defaulted (.float x))

def flag (field : String) : Field := .may field (truth.defaulted (.bool false))

def textField (field : String) : Field := .may field (text.defaulted (.text ""))

def link : String × Shape := ("EdgeDocument", (object [
  .must "sourceNode" (natural 64), .must "sourcePort" text,
  .must "targetNode" (natural 64), .must "targetPort" text,
  textField "label"]).described
    "Flat edge record used by every JSON document of the crate.")

def location : String × Shape := ("SourceLocation", (object [
  .must "line" (natural 32), .must "column" (natural 32)]).described
    "1-based position of a construct in its source text.")

/-! ## Flow graphs -/

def flow : Json := schema "IrGraphDocument"
  [version, name, items "nodes" "IrNodeDocument", items "connections" "EdgeDocument", scenes,
    items "characters" "CharacterInfo"]
  [("CharacterInfo", object [
      .must "id" text, .must "displayName" text, .may "color" optionalText]),
    link,
    ("IrNodeDocument", object [
      .must "id" (natural 64), .must "type" text,
      .may "properties" (anyDict.defaulted (.record [])),
      distance "x" 0, distance "y" 0,
      .may "sourceLocation" (optionalDefinition "SourceLocation")]),
    location]

/-! ## Canvas graphs -/

def canvas : Json := schema "VisualGraphDocument"
  [version, name, items "nodes" "VisualGraphNode", items "edges" "EdgeDocument", scenes,
    items "characters" "VisualCharacter"]
  [link,
    ("PropertyKind", oneOf (Flow.PropertyKind.all.map (·.tag))),
    location,
    ("VisualCharacter", object [
      .must "id" text, .must "displayName" text,
      .may "color" (optionalText.defaulted .null)]),
    ("VisualGraphNode", object [
      .must "id" (natural 64),
      .must "type" (text.described "IR node type tag, e.g. `\"Dialogue\"`."),
      textField "title", distance "x" 0, distance "y" 0, distance "width" 200,
      distance "height" 80, flag "collapsed", flag "selected",
      .may "properties" ((dictOf text).defaulted (.record [])),
      .may "propertyKinds" ((dictOf (definition "PropertyKind")).described
        ("Value kinds the node type's schema does not imply, so such values re-type exactly " ++
          "on the way back to IR.")),
      .may "sourceLocation" ((allOf "SourceLocation").defaulted
        (.record [("column", .nat 0), ("line", .nat 0)]))])]

/-! ## Stories -/

def story : Json := schema "StoryGraphDocument"
  [version, name, .may "startNode" ((optionalNatural 64).defaulted .null),
    items "nodes" "StoryNode", items "connections" "EdgeDocument"]
  [link,
    ("PortKind", [("oneOf", .list [
      .record ((oneOf ["flow"]).described "Execution order."),
      .record ((oneOf ["data"]).described "Value wiring.")])]),
    ("StoryNode", object [
      .must "id" (natural 64), .must "type" (definition "StoryNodeType"),
      textField "title", textField "description", distance "x" 0, distance "y" 0,
      distance "width" 180, distance "height" 90,
      items "inputs" "StoryPort", items "outputs" "StoryPort",
      .may "properties" ((dictOf text).defaulted (.record [])), flag "collapsed"]),
    ("StoryNodeType", oneOf (Story.NodeKind.all.map (·.tag))),
    ("StoryPort", object [
      .must "name" text, .must "kind" (definition "PortKind"), textField "label"])]

end Novella.Schemas
