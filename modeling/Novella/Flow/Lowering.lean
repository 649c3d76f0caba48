import Novella.Flow.Graph
import Novella.Script.Printer
import Novella.Settings.Basic

/-!
# From scripts to flow graphs

Each scene becomes a chain of nodes from a scene start to a scene end. A structured statement
becomes one node: the outputs of its arms lead to the chains of their statements, and its
output `next` leads on. Nested blocks have no node; their statements join the chain around
them. Nodes are placed from top to bottom in the order in which they are made, each arm a
little further to the right.
-/

namespace Novella.Flow

open Script

/-- A graph under construction, and where its next node is placed. -/
structure Draft where
  graph : FlowGraph
  x : Binary64
  y : Binary64

/-- A chain under construction: the draft, the port that waits for the next node, and the
label of the connection to it. -/
structure Chain where
  draft : Draft
  pending : Port
  label : String

/-- The properties of the node of a statement, and its kind. A nested block has none. -/
def nodeOf? {σ : Type} : Act σ → Option (NodeKind × List (String × PropertyValue))
  | .say speaker text => some (.dialogue, [("speaker", .text (speaker.getD "")), ("text", .text text)])
  | .showBackground asset => some (.showBackground, [("asset", .text asset)])
  | .showCharacter character position =>
    some (.showCharacter, [("character", .text character), ("position", .text (position.getD ""))])
  | .hide character => some (.hideCharacter, [("character", .text character)])
  | .choice options => some (.choice, [
      ("options", .texts (options.map (·.text))),
      ("conditions", .texts (options.map fun o => o.condition.elim "" Expression.render))])
  | .branch condition _ elseBody => some (.branch, [
      ("condition", .text condition.render), ("has_else", .bool elseBody.isSome)])
  | .switch subject cases default => some (.switch, [
      ("subject", .text subject.render), ("cases", .texts (cases.map (·.value.render))),
      ("has_default", .bool default.isSome)])
  | .loop condition _ => some (.loop, [("condition", .text condition.render)])
  | .set target value => some (.setVariable, [("variable", .text target), ("value", .text value.render)])
  | .goto target => some (.goto, [("target", .text target)])
  | .wait seconds => some (.wait, [("duration", .float seconds)])
  | .playMusic asset => some (.playMusic, [("asset", .text asset)])
  | .playSound asset => some (.playSound, [("asset", .text asset)])
  | .stopMusic => some (.stopMusic, [])
  | .transition kind duration =>
    some (.transition, [("kind", .text kind), ("duration", .float duration)])
  | .comment text => some (.comment, [("text", .text text)])
  | .block _ => none

/-- Makes a node where the draft stands and moves down. -/
def Draft.place (p : Placement) (d : Draft) (kind : NodeKind) (loc : Location)
    (properties : List (String × PropertyValue)) : Nat × Draft :=
  let (id, graph) := d.graph.create kind
  let graph := graph.modify id fun n => ({ n with loc }.moveTo d.x d.y).setAll properties
  (id, { d with graph, y := d.y + p.nodeSpacing })

/-- Where the arm of the given number begins. -/
def armX (p : Placement) (x : Binary64) (index : Nat) : Binary64 :=
  x + p.armOffset * .ofNat (index + 1)

mutual

def lowerStatement (p : Placement) (x : Binary64) : Statement → Chain → Except Fault Chain
  | .mk _ (.block body), c => lowerBody p x body c
  | .mk loc act, c => do
    match nodeOf? act with
    | none => throw (.unsupported ("nested block at line " ++ toString loc.line.toNat ++
        ", column " ++ toString loc.column.toNat))
    | some (kind, properties) =>
      let (id, draft) := { c.draft with x }.place p kind loc properties
      let draft ← lowerArms p x id act draft
      let graph ← draft.graph.connect c.pending (.input id "in") c.label
      return ⟨{ draft with graph }, .output id (kind.continuation?.getD "out"), ""⟩

def lowerBody (p : Placement) (x : Binary64) : List Statement → Chain → Except Fault Chain
  | [], c => .ok c
  | s :: rest, c => do lowerBody p x rest (← lowerStatement p x s c)

def lowerArms (p : Placement) (x : Binary64) (owner : Nat) :
    Act Statement → Draft → Except Fault Draft
  | .choice options, d => lowerOptions p x owner 0 options d
  | .branch _ thenBody elseBody, d => do
    let c ← lowerBody p (armX p x 0) thenBody ⟨d, .output owner "true", "true"⟩
    lowerOptional p (armX p x 1) owner "false" elseBody c.draft
  | .switch _ cases default, d => do
    let d ← lowerCases p x owner 0 cases d
    lowerOptional p (armX p x cases.length) owner "default" default d
  | .loop _ body, d => do
    return (← lowerBody p (armX p x 0) body ⟨d, .output owner "body", "body"⟩).draft
  | _, d => .ok d

def lowerOptional (p : Placement) (x : Binary64) (owner : Nat) (port : String) :
    Option (List Statement) → Draft → Except Fault Draft
  | none, d => .ok d
  | some body, d => do return (← lowerBody p x body ⟨d, .output owner port, port⟩).draft

def lowerOptions (p : Placement) (x : Binary64) (owner : Nat) :
    Nat → List (ChoiceOption Statement) → Draft → Except Fault Draft
  | _, [], d => .ok d
  | index, ⟨text, _, body⟩ :: rest, d => do
    let c ← lowerBody p (armX p x index) body ⟨d, .output owner (optionPort index), text⟩
    lowerOptions p x owner (index + 1) rest c.draft

def lowerCases (p : Placement) (x : Binary64) (owner : Nat) :
    Nat → List (SwitchCase Statement) → Draft → Except Fault Draft
  | _, [], d => .ok d
  | index, ⟨_, body⟩ :: rest, d => do
    let port := casePort index
    let c ← lowerBody p (armX p x index) body ⟨d, .output owner port, port⟩
    lowerCases p x owner (index + 1) rest c.draft

end

def lowerScene (p : Placement) (index : Nat) (s : SceneDecl) (g : FlowGraph) :
    Except Fault FlowGraph := do
  let x := p.startX + .ofNat index * p.sceneSpacing
  let (start, d) := (⟨g, x, p.startY⟩ : Draft).place p .sceneStart s.loc [("scene", .text s.name)]
  let graph ← d.graph.addScene s.name start
  let c ← lowerBody p x s.body ⟨{ d with graph }, .output start "out", ""⟩
  let (stop, d) := c.draft.place p .sceneEnd s.loc [("scene", .text s.name)]
  d.graph.connect c.pending (.input stop "in") ""

def lowerScenes (p : Placement) : Nat → List SceneDecl → FlowGraph → Except Fault FlowGraph
  | _, [], g => .ok g
  | index, s :: rest, g => do lowerScenes p (index + 1) rest (← lowerScene p index s g)

/-- The flow graph of a script, named for its first scene. -/
def lower (p : Placement) (program : Program) : Except Fault FlowGraph :=
  let g : FlowGraph := { name := (program.scenes.head?.map (·.name)).getD "script" }
  let g := program.characters.foldl
    (fun (g : FlowGraph) c => g.addCharacter ⟨c.id, c.displayName, c.color⟩) g
  lowerScenes p 0 program.scenes g

end Novella.Flow
