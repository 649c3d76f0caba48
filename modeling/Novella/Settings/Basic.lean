import Novella.Decimal.Reading

/-!
# Settings

Where nodes are placed, how far scripts are indented, and whether comments are kept.
-/

namespace Novella

structure Placement where
  startX : Binary64 := 100
  startY : Binary64 := 100
  /-- Vertical distance of statements that follow each other. -/
  nodeSpacing : Binary64 := 100
  /-- Horizontal distance of scenes. -/
  sceneSpacing : Binary64 := 400
  /-- Horizontal distance of an arm from the statement that it belongs to. -/
  armOffset : Binary64 := 250
  /-- Horizontal distance of the columns of the layered layout. -/
  columnSpacing : Binary64 := 300
  /-- Vertical distance of the rows of the layered layout. -/
  rowSpacing : Binary64 := 120
  deriving DecidableEq

def Placement.sameValue (a b : Placement) : Bool :=
  a.startX.numEq b.startX && a.startY.numEq b.startY && a.nodeSpacing.numEq b.nodeSpacing &&
    a.sceneSpacing.numEq b.sceneSpacing && a.armOffset.numEq b.armOffset &&
    a.columnSpacing.numEq b.columnSpacing && a.rowSpacing.numEq b.rowSpacing

/-- What becomes of comments when a script is made from a graph. -/
inductive CommentPolicy where
  | preserve
  | drop
  deriving DecidableEq

namespace CommentPolicy

def tag : CommentPolicy → String
  | preserve => "preserve"
  | drop => "drop"

def all : List CommentPolicy := [preserve, drop]

def ofTag? (tag : String) : Option CommentPolicy := all.find? (·.tag = tag)

end CommentPolicy

structure Settings where
  placement : Placement := {}
  indentWidth : Nat := 4
  comments : CommentPolicy := .preserve
  deriving DecidableEq

def Settings.sameValue (a b : Settings) : Bool :=
  a.placement.sameValue b.placement && a.indentWidth = b.indentWidth && a.comments = b.comments

end Novella
