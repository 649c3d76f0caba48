import Novella.Flow.Graph

/-!
# Flow graphs in the DOT language

One line for each node and for each connection. Labels are quoted texts; quotes, backslashes
and line feeds in them get a backslash, and carriage returns are left out, so that a label
never ends early and never runs over its line.
-/

namespace Novella.Flow

namespace Dot

def escapeChar (c : Char) : List Char :=
  match c with
  | '\\' => ['\\', '\\']
  | '"' => ['\\', '"']
  | '\n' => ['\\', 'n']
  | '\r' => []
  | _ => [c]

def escape (s : String) : String := String.ofList (s.toList.flatMap escapeChar)

/-- What a label says of a node beside its id and kind. -/
def detail (n : Node) : String :=
  match n.kind with
  | .sceneStart | .sceneEnd => n.text "scene"
  | .dialogue =>
    let speaker := n.text "speaker"
    (if speaker.isEmpty then "narrator" else speaker) ++ ": " ++ n.text "text"
  | .choice => toString (n.texts "options").length ++ " options"
  | .branch | .loop => n.text "condition"
  | .switch => n.text "subject"
  | .goto => n.text "target"
  | .setVariable => n.text "variable" ++ " = " ++ n.text "value"
  | .showBackground | .playMusic | .playSound => n.text "asset"
  | .showCharacter | .hideCharacter => n.text "character"
  | .transition => n.text "kind"
  | .wait => (n.float "duration").literal
  | .stopMusic => ""
  | .comment => n.text "text"

def label (n : Node) : String :=
  let head := "[" ++ toString n.id ++ "] " ++ n.kind.tag
  let detail := detail n
  if detail.isEmpty then head else head ++ ": " ++ detail

def shape : NodeKind → String
  | .choice | .branch | .switch => "diamond"
  | .loop => "hexagon"
  | .sceneStart | .sceneEnd | .goto => "ellipse"
  | .comment => "note"
  | _ => "box"

/-- The color of a node: red if no scene reaches it, green for the start of a scene. -/
def color (unreachable : List Nat) (n : Node) : String :=
  if unreachable.contains n.id then "red"
  else if n.kind = .sceneStart then "green"
  else "black"

def nodeLine (unreachable : List Nat) (n : Node) : String :=
  "    n" ++ toString n.id ++ " [label=\"" ++ escape (label n) ++ "\" shape=" ++ shape n.kind ++
    " color=" ++ color unreachable n ++ "];"

def style (port : String) : String :=
  if port = "out" || port = "next" then "solid"
  else if port = "true" || port = "body" then "bold"
  else if port = "false" || port = "default" then "dotted"
  else "dashed"

def edgeLine (e : Edge String) : String :=
  let label := if e.data.isEmpty then "" else " label=\"" ++ escape e.data ++ "\""
  "    n" ++ toString e.source.node ++ " -> n" ++ toString e.target.node ++ " [style=" ++
    style e.source.name ++ label ++ "];"

def header : List String :=
  ["digraph IrGraph \x7b", "    rankdir=TB;", "    node [shape=box];", ""]

def lines (g : FlowGraph) : List String :=
  let unreachable := g.unreachable
  header ++ g.nodes.map (nodeLine unreachable) ++ [""] ++ g.graph.edges.map edgeLine ++ ["\x7d"]

end Dot

def FlowGraph.toDot (g : FlowGraph) : String :=
  String.join ((Dot.lines g).map (· ++ "\n"))

end Novella.Flow
