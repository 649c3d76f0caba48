import Novella.Story.Graph
import Novella.Text.Blank

/-!
# Validation of stories

Ids that are not those the nodes are stored under, a missing start, cycles, connections
between ports that are not declared or not of one kind, and missing properties are errors.
What the start does not reach, and a second start, are only warned of.
-/

namespace Novella.Story

inductive Severity where
  | error
  | warning
  deriving DecidableEq, Repr

inductive Issue where
  /-- The node stored under `key` carries another id. -/
  | strayId (key id : Nat)
  | missingStart
  /-- There are `count` nodes of the kind of a start; `id` is the second. -/
  | manyStarts (id count : Nat)
  | cycle (members : List Nat)
  | unreachable (id : Nat)
  | missingEnd (source target : Port)
  | noOutput (id : Nat) (port : String)
  | noInput (id target : Nat) (port : String)
  | kindsDiffer (id : Nat) (output input : PortDecl)
  | missingProperty (id : Nat) (kind : NodeKind) (name : String)
  deriving DecidableEq

namespace Issue

def severity : Issue → Severity
  | manyStarts _ _ | unreachable _ => .warning
  | _ => .error

def code : Issue → String
  | strayId _ _ => "VAL_DUPLICATE_ID"
  | missingStart => "VAL_START_MISSING"
  | manyStarts _ _ => "VAL_START_MULTIPLE"
  | cycle _ => "VAL_CYCLE"
  | unreachable _ => "VAL_UNREACHABLE"
  | missingEnd _ _ | noOutput _ _ | noInput _ _ _ | kindsDiffer _ _ _ => "VAL_CONNECTION"
  | missingProperty _ _ _ => "VAL_PROPERTY_MISSING"

def node? : Issue → Option Nat
  | missingStart => none
  | cycle members => members.head?
  | missingEnd source _ => some source.node
  | strayId id _ | manyStarts id _ | unreachable id | noOutput id _ | noInput id _ _
  | kindsDiffer id _ _ | missingProperty id _ _ => some id

def detail : Issue → String
  | strayId key id => "node stored under id " ++ toString key ++ " carries id " ++ toString id
  | missingStart => "graph has no start node"
  | manyStarts _ count => toString count ++ " Start nodes, only one is the entry"
  | cycle members => "cycle through nodes " ++ " -> ".intercalate (members.map toString)
  | unreachable _ => "not reachable from the start node"
  | missingEnd source target =>
    "connection " ++ source.describe ++ " -> " ++ target.describe ++ " references a missing node"
  | noOutput _ port => "output port '" ++ port ++ "' does not exist"
  | noInput _ target port =>
    "input port '" ++ port ++ "' on node " ++ toString target ++ " does not exist"
  | kindsDiffer _ output input =>
    "port kinds differ: " ++ output.kind.describe ++ " '" ++ output.name ++ "' -> " ++
      input.kind.describe ++ " '" ++ input.name ++ "'"
  | missingProperty _ kind name => kind.tag ++ " node needs a non-empty '" ++ name ++ "'"

def message (i : Issue) : String :=
  "[" ++ i.code ++ "] " ++ i.node?.elim "" (fun id => "node " ++ toString id ++ ": ") ++ i.detail

end Issue

structure Report where
  issues : List Issue
  cycles : List (List Nat)
  unreachable : Nat
  deriving DecidableEq

namespace Report

def errors (r : Report) : List Issue := r.issues.filter (·.severity = .error)

def warnings (r : Report) : List Issue := r.issues.filter (·.severity = .warning)

def isValid (r : Report) : Bool := r.errors.isEmpty

end Report

namespace StoryGraph

def starts (g : StoryGraph) : List Nat := (g.nodes.filter (·.kind = .start)).map (·.id)

/-- The node at which the story begins: the declared start, or else the first node of the kind
of a start. -/
def entry? (g : StoryGraph) : Option Nat :=
  match g.start?.filter g.graph.contains with
  | some id => some id
  | none => g.starts.head?

/-- Nodes that the story does not come to. Comments never count, and without a beginning
nothing does. -/
def unreachable (g : StoryGraph) : List Nat :=
  match g.entry? with
  | none => []
  | some entry =>
    let reached := g.graph.reachableFrom [entry]
    ((g.nodes.filter (·.kind ≠ .comment)).map (·.id)).filter fun id => !reached.contains id

def idIssues (g : StoryGraph) : List Issue :=
  (g.graph.nodes.entries.filter fun (key, n) => n.id ≠ key).map fun (key, n) => .strayId key n.id

def startIssues (g : StoryGraph) : List Issue :=
  (if g.entry? = none then [.missingStart] else []) ++
  match g.starts with
  | _ :: second :: _ => [.manyStarts second g.starts.length]
  | _ => []

def connectionIssues (g : StoryGraph) (e : Edge Bool) : List Issue :=
  match g.node? e.source.node, g.node? e.target.node with
  | some source, some target =>
    match source.output? e.source.name, target.input? e.target.name with
    | none, _ => [.noOutput source.id e.source.name]
    | some _, none => [.noInput source.id target.id e.target.name]
    | some output, some input =>
      if output.kind = input.kind then [] else [.kindsDiffer source.id output input]
  | _, _ => [.missingEnd e.source e.target]

def hasRequired (n : Node) (name : String) : Bool :=
  match n.properties.get? name with
  | some text => !Text.isBlankText text
  | none => false

def propertyIssues (n : Node) : List Issue :=
  match n.kind.required? with
  | none => []
  | some name => if hasRequired n name then [] else [.missingProperty n.id n.kind name]

def validate (g : StoryGraph) : Report where
  issues := g.idIssues ++ g.startIssues ++ g.graph.cycles.map .cycle ++
    g.unreachable.map .unreachable ++ g.graph.edges.flatMap g.connectionIssues ++
    g.nodes.flatMap propertyIssues
  cycles := g.graph.cycles
  unreachable := g.unreachable.length

end StoryGraph

end Novella.Story
