import Novella.Flow.Node

/-!
# Ports of flow nodes

A node of a structured statement has an output for each of its arms and the output `next`.
An arm leads to a chain of nodes whose last one has nothing at its continuation port; the flow
then goes on at `next`. How many arms a choice or a switch has is read from its properties.
-/

namespace Novella.Flow

def optionPort (index : Nat) : String := "option_" ++ toString index

def casePort (index : Nat) : String := "case_" ++ toString index

namespace NodeKind

def inputs : NodeKind → List String
  | sceneStart => []
  | _ => ["in"]

/-- The port through which the flow leaves a node for good. -/
def continuation? : NodeKind → Option String
  | sceneEnd => none
  | choice | branch | switch | loop => some "next"
  | _ => some "out"

end NodeKind

namespace Node

/-- Ports of the arms of a node, in the order of the arms. -/
def arms (n : Node) : List String :=
  match n.kind with
  | .branch => ["true", "false"]
  | .choice => (List.range (n.texts "options").length).map optionPort
  | .switch => (List.range (n.texts "cases").length).map casePort ++ ["default"]
  | .loop => ["body"]
  | _ => []

/-- Ports through which the flow leaves a node, in the order in which it takes them. -/
def outputs (n : Node) : List String := n.arms ++ n.kind.continuation?.toList

def hasOutput (n : Node) (port : String) : Bool := n.outputs.contains port

def hasInput (n : Node) (port : String) : Bool := n.kind.inputs.contains port

end Node

end Novella.Flow
