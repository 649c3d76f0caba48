import Novella.Fault

/-!
# Kinds of story nodes

The closed set of node kinds of a story graph. A story node declares its own ports; its kind
gives the ports that it begins with and the property that it must have.
-/

namespace Novella.Story

inductive PortKind where
  /-- The order of events. -/
  | flow
  /-- Values. -/
  | data
  deriving DecidableEq, Repr

namespace PortKind

def describe : PortKind → String
  | flow => "Flow"
  | data => "Data"

def tag : PortKind → String
  | flow => "flow"
  | data => "data"

def all : List PortKind := [flow, data]

end PortKind

structure PortDecl where
  name : String := ""
  kind : PortKind := .flow
  label : String := ""
  deriving DecidableEq

namespace PortDecl

def flow (name : String) : PortDecl := ⟨name, .flow, name⟩

def data (name : String) : PortDecl := ⟨name, .data, name⟩

end PortDecl

inductive NodeKind where
  | start
  | stop
  | dialogue
  | choice
  | condition
  | scene
  | event
  | variable
  | jump
  | comment
  deriving DecidableEq, Repr

namespace NodeKind

def all : List NodeKind :=
  [start, stop, dialogue, choice, condition, scene, event, .variable, jump, comment]

/-- The kind in documents and messages, which also is the first title of a node. -/
def tag : NodeKind → String
  | start => "Start"
  | stop => "End"
  | dialogue => "Dialogue"
  | choice => "Choice"
  | condition => "Condition"
  | scene => "Scene"
  | event => "Event"
  | .variable => "Variable"
  | jump => "Jump"
  | comment => "Comment"

def ofTag? (tag : String) : Option NodeKind := all.find? (·.tag = tag)

/-- The property that a node must have, and not blank. -/
def required? : NodeKind → Option String
  | dialogue => some "text"
  | condition => some "condition"
  | scene => some "scene"
  | event => some "event"
  | .variable => some "variable"
  | jump => some "target"
  | start | stop | choice | comment => none

def inputs : NodeKind → List PortDecl
  | start | comment => []
  | condition => [.flow "in", .data "condition"]
  | _ => [.flow "in"]

def outputs : NodeKind → List PortDecl
  | start | dialogue | scene | event => [.flow "out"]
  | condition => [.flow "true", .flow "false"]
  | .variable => [.flow "out", .data "value"]
  | stop | jump | choice | comment => []

theorem ofTag?_tag (kind : NodeKind) : ofTag? kind.tag = some kind := by
  cases kind <;> rfl

end NodeKind

end Novella.Story
