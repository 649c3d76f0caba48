import Novella.Decimal.Layout
import Novella.Fault
import Novella.Settings.Basic
import Novella.Toml.Reader

/-!
# Settings documents

The TOML form of the settings: three tables, of which each and every entry of each may be left
out. A name that is not known refuses the document, so that a misspelt setting is noticed.
-/

namespace Novella

open Toml (Value)

/-- A setting of a group `σ`: its name, and how its value is read and put into place. -/
structure Setting (σ : Type) where
  name : String
  read : σ → Value → Option σ

def Setting.of {σ α : Type} (name : String) (read : Value → Option α) (set : σ → α → σ) :
    Setting σ :=
  ⟨name, fun s v => (read v).map (set s)⟩

namespace Settings

variable {σ : Type}

/-- Reads a group of settings: a table, or a list with the values of the first of them in
order. -/
def readGroup (settings : List (Setting σ)) (initial : σ) : Value → Option σ
  | .table _ es => es.foldlM (fun s (name, v) => do
      (← settings.find? (·.name = name)).read s v) initial
  | .list items => (settings.zip items).foldlM (fun s (setting, v) => setting.read s v) initial
  | _ => none

def readDistance : Value → Option Binary64
  | .float x => some x
  | .int n => some (.ofInt n.toInt)
  | _ => none

def readCount : Value → Option Nat
  | .int n => if n.toInt < 0 then none else some n.toInt.toNat
  | _ => none

/-- A policy: its name, or a table that holds nothing but an empty value under the name. -/
def readPolicy : Value → Option CommentPolicy
  | .text name => CommentPolicy.ofTag? name
  | .table _ [(name, .table _ [])] => CommentPolicy.ofTag? name
  | .table _ [(name, .list [])] => CommentPolicy.ofTag? name
  | _ => none

def placementGroup : List (Setting Placement) := [
  .of "start_x" readDistance fun p x => { p with startX := x },
  .of "start_y" readDistance fun p x => { p with startY := x },
  .of "node_spacing" readDistance fun p x => { p with nodeSpacing := x },
  .of "scene_spacing" readDistance fun p x => { p with sceneSpacing := x },
  .of "arm_offset" readDistance fun p x => { p with armOffset := x },
  .of "column_spacing" readDistance fun p x => { p with columnSpacing := x },
  .of "row_spacing" readDistance fun p x => { p with rowSpacing := x }]

def groups : List (Setting Settings) := [
  .of "layout" (readGroup placementGroup {}) fun s p => { s with placement := p },
  .of "generator" (readGroup [.of "indent_width" readCount fun _ n => n] 4) fun s n =>
    { s with indentWidth := n },
  .of "conversion" (readGroup [.of "comments" readPolicy fun _ c => c] .preserve) fun s c =>
    { s with comments := c }]

def ofToml (text : String) : Except Fault Settings :=
  match (Toml.read text).bind fun es => readGroup groups {} (.table .header es) with
  | some s => .ok s
  | none => .error .settings

/-- A distance in a document. The sign of a value that is not a number is left out. -/
def writeDistance (x : Binary64) : String :=
  if x.isFinite then x.literal else if x.isNaN then "nan" else if x.isNegative then "-inf" else "inf"

def lines (s : Settings) : List String := [
  "[layout]",
  "start_x = " ++ writeDistance s.placement.startX,
  "start_y = " ++ writeDistance s.placement.startY,
  "node_spacing = " ++ writeDistance s.placement.nodeSpacing,
  "scene_spacing = " ++ writeDistance s.placement.sceneSpacing,
  "arm_offset = " ++ writeDistance s.placement.armOffset,
  "column_spacing = " ++ writeDistance s.placement.columnSpacing,
  "row_spacing = " ++ writeDistance s.placement.rowSpacing,
  "",
  "[generator]",
  "indent_width = " ++ toString s.indentWidth,
  "",
  "[conversion]",
  "comments = \"" ++ s.comments.tag ++ "\""]

def toToml (s : Settings) : String := String.join (s.lines.map (· ++ "\n"))

end Settings

end Novella
