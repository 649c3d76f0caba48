import Novella.Graph.Basic
import Novella.Json.Decode
import Novella.Script.Program

/-!
# What graph documents share

Every graph document names the version of its schema, of which the part before the first point
must be the current one, and lists its connections in one form.
-/

namespace Novella

def majorVersion (version : String) : List Char := version.toList.takeWhile (· ≠ '.')

/-- Accepts a document without version and one of the current major version. -/
def checkVersion : Option String → Except Fault Unit
  | none => .ok ()
  | some found =>
    if majorVersion found = majorVersion schemaVersion then .ok () else .error (.badVersion found)

/-- Reads a document; a mishap is reported with the part of the text that it is about. -/
def readDocument {α : Type} (d : Json.Decoder α) (text : String) : Except Fault α :=
  (Json.decodeDocument d text).mapError fun m => .badJson m (m.excerpt text.toList)

structure Link where
  sourceNode : Nat := 0
  sourcePort : String := ""
  targetNode : Nat := 0
  targetPort : String := ""
  label : String := ""
  deriving DecidableEq

namespace Link

def source (l : Link) : Port := .output l.sourceNode l.sourcePort

def target (l : Link) : Port := .input l.targetNode l.targetPort

def ofEdge {ε : Type} (label : ε → String) (e : Edge ε) : Link :=
  ⟨e.source.node, e.source.name, e.target.node, e.target.name, label e.data⟩

def toJson (l : Link) : Json := .record [
  ("sourceNode", .nat l.sourceNode), ("sourcePort", .text l.sourcePort),
  ("targetNode", .nat l.targetNode), ("targetPort", .text l.targetPort),
  ("label", .text l.label)]

open Json in
def layout : Layout Link := ⟨"EdgeDocument", {}, [
  .of "sourceNode" .required (decodeNat 64) fun l v => { l with sourceNode := v },
  .of "sourcePort" .required decodeText fun l v => { l with sourcePort := v },
  .of "targetNode" .required (decodeNat 64) fun l v => { l with targetNode := v },
  .of "targetPort" .required decodeText fun l v => { l with targetPort := v },
  .of "label" .defaulted decodeText fun l v => { l with label := v }]⟩

end Link

namespace Script.Location

def toJson (l : Location) : Json :=
  .record [("line", .nat l.line.toNat), ("column", .nat l.column.toNat)]

open Json in
def layout : Layout Location := ⟨"SourceLocation", {}, [
  .of "line" .required (decodeNat 32) fun l v => { l with line := UInt32.ofNat v },
  .of "column" .required (decodeNat 32) fun l v => { l with column := UInt32.ofNat v }]⟩

end Script.Location

def scenesJson (scenes : Dict String Nat) : Json :=
  .record (scenes.entries.map fun (name, id) => (name, .nat id))

end Novella
