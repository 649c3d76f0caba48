/-!
# Kinds of nodes and of properties

The closed set of node kinds of a flow graph, the kinds of value a property can hold, and for
each node kind the properties it declares.
-/

namespace Novella.Flow

inductive PropertyKind where
  | null
  | bool
  | int
  | float
  | text
  | texts
  deriving DecidableEq, Repr

namespace PropertyKind

def describe : PropertyKind → String
  | null => "null"
  | bool => "bool"
  | int => "int"
  | float => "float"
  | text => "string"
  | texts => "string list"

def tag : PropertyKind → String
  | null => "null"
  | bool => "bool"
  | int => "int"
  | float => "float"
  | text => "string"
  | texts => "string_list"

def all : List PropertyKind := [null, bool, int, float, text, texts]

end PropertyKind

inductive NodeKind where
  | sceneStart
  | sceneEnd
  | dialogue
  | choice
  | branch
  | switch
  | loop
  | goto
  | setVariable
  | showBackground
  | showCharacter
  | hideCharacter
  | playMusic
  | stopMusic
  | playSound
  | transition
  | wait
  | comment
  deriving DecidableEq, Repr

namespace NodeKind

def all : List NodeKind := [sceneStart, sceneEnd, dialogue, choice, branch, switch, loop, goto,
  setVariable, showBackground, showCharacter, hideCharacter, playMusic, stopMusic, playSound,
  transition, wait, comment]

def tag : NodeKind → String
  | sceneStart => "SceneStart"
  | sceneEnd => "SceneEnd"
  | dialogue => "Dialogue"
  | choice => "Choice"
  | branch => "Branch"
  | switch => "Switch"
  | loop => "Loop"
  | goto => "Goto"
  | setVariable => "SetVariable"
  | showBackground => "ShowBackground"
  | showCharacter => "ShowCharacter"
  | hideCharacter => "HideCharacter"
  | playMusic => "PlayMusic"
  | stopMusic => "StopMusic"
  | playSound => "PlaySound"
  | transition => "Transition"
  | wait => "Wait"
  | comment => "Comment"

def ofTag? (tag : String) : Option NodeKind := all.find? (·.tag = tag)

/-- The properties that a kind declares, with the kinds of their values. -/
def schema : NodeKind → List (String × PropertyKind)
  | sceneStart | sceneEnd => [("scene", .text)]
  | dialogue => [("speaker", .text), ("text", .text)]
  | choice => [("options", .texts), ("conditions", .texts)]
  | branch => [("condition", .text), ("has_else", .bool)]
  | switch => [("subject", .text), ("cases", .texts), ("has_default", .bool)]
  | loop => [("condition", .text)]
  | goto => [("target", .text)]
  | setVariable => [("variable", .text), ("value", .text)]
  | showBackground | playMusic | playSound => [("asset", .text)]
  | showCharacter => [("character", .text), ("position", .text)]
  | hideCharacter => [("character", .text)]
  | stopMusic => []
  | transition => [("kind", .text), ("duration", .float)]
  | wait => [("duration", .float)]
  | comment => [("text", .text)]

def propertyKind? (kind : NodeKind) (name : String) : Option PropertyKind :=
  kind.schema.lookup name

theorem ofTag?_tag (kind : NodeKind) : ofTag? kind.tag = some kind := by
  cases kind <;> rfl

end NodeKind

end Novella.Flow
