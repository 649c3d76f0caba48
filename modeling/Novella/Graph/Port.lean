/-!
# Ports

A connection joins two ports. A port is named by the node it belongs to, its name there, and
whether it is an output or an input of the node.
-/

namespace Novella

structure Port where
  node : Nat
  name : String
  isOutput : Bool
  deriving DecidableEq, Repr

namespace Port

def output (node : Nat) (name : String) : Port := ⟨node, name, true⟩

def input (node : Nat) (name : String) : Port := ⟨node, name, false⟩

def describe (p : Port) : String :=
  toString p.node ++ "." ++ p.name ++ "(" ++ (if p.isOutput then "out" else "in") ++ ")"

end Port

end Novella
