import Novella.Flow.Graph
import Novella.Script.Reader
import Novella.Settings.Basic

/-!
# From flow graphs to scripts

Scenes come out in the ascending order of the nodes at which they begin. Each is read along
the continuation ports from its start; the chain of the scene itself has to reach a scene end,
while the chain of an arm ends where nothing is connected. A node is read once in a scene: a
chain that comes to it again ends there, so that no graph is too tangled to be read. Texts
that stand for names or expressions have to be names or expressions.
-/

namespace Novella.Flow

open Script

def nameOf (n : Node) (property : String) : Except Fault String :=
  let text := n.text property
  if isName text then .ok text else .error (.badProperty n.id property (.notName text))

def nameOf? (n : Node) (property : String) : Except Fault (Option String) :=
  if n.text property = "" then .ok none else (nameOf n property).map some

def expressionIn (n : Node) (property text : String) : Except Fault Expression :=
  match parseExpression text with
  | .ok e => .ok e
  | .error (.badScript issue _) => .error (.badProperty n.id property (.notExpression issue))
  | .error fault => .error fault

def expressionOf (n : Node) (property : String) : Except Fault Expression :=
  expressionIn n property (n.text property)

/-- The condition of an option, of which an empty one is none. -/
def conditionOf (n : Node) (index : Nat) : Except Fault (Option Expression) :=
  match (n.texts "conditions")[index]? with
  | none => .ok none
  | some text => if text = "" then .ok none else (expressionIn n "conditions" text).map some

/-- Reading along a graph, with the nodes visited so far. -/
abbrev Reading := StateT (List Nat) (Except Fault)

/-- Reads the options of a choice, the first of which has the given number; `arm` reads the
chain at a port. -/
def readOptions (n : Node) (arm : String → Reading (List Statement)) :
    Nat → List String → Reading (List (ChoiceOption Statement))
  | _, [] => return []
  | index, text :: rest => do
    let condition ← conditionOf n index
    let body ← arm (optionPort index)
    return ⟨text, condition, body⟩ :: (← readOptions n arm (index + 1) rest)

def readCases (n : Node) (arm : String → Reading (List Statement)) :
    Nat → List String → Reading (List (SwitchCase Statement))
  | _, [] => return []
  | index, text :: rest => do
    let value ← expressionIn n "cases" text
    let body ← arm (casePort index)
    return ⟨value, body⟩ :: (← readCases n arm (index + 1) rest)

/-- Reads an arm that is there if the node says so or if something is connected to it. -/
def readOptional (g : FlowGraph) (n : Node) (arm : String → Reading (List Statement))
    (flag port : String) : Reading (Option (List Statement)) := do
  if n.bool flag || (g.targetOf? n.id port).isSome then
    return some (← arm port)
  else
    return none

/-- What the node says, if it stands for a statement; `arm` reads the chain at a port. -/
def readNode (policy : CommentPolicy) (g : FlowGraph) (arm : String → Reading (List Statement))
    (n : Node) : Reading (Option (Act Statement)) := do
  match n.kind with
  | .sceneStart | .sceneEnd => return none
  | .comment => return if policy = .preserve then some (.comment (n.text "text")) else none
  | .dialogue => return some (.say (← nameOf? n "speaker") (n.text "text"))
  | .showBackground => return some (.showBackground (n.text "asset"))
  | .showCharacter =>
    let character ← nameOf n "character"
    return some (.showCharacter character (← nameOf? n "position"))
  | .hideCharacter => return some (.hide (← nameOf n "character"))
  | .choice => return some (.choice (← readOptions n arm 0 (n.texts "options")))
  | .branch =>
    let condition ← expressionOf n "condition"
    let thenBody ← arm "true"
    return some (.branch condition thenBody (← readOptional g n arm "has_else" "false"))
  | .switch =>
    let subject ← expressionOf n "subject"
    let cases ← readCases n arm 0 (n.texts "cases")
    return some (.switch subject cases (← readOptional g n arm "has_default" "default"))
  | .loop =>
    let condition ← expressionOf n "condition"
    return some (.loop condition (← arm "body"))
  | .goto => return some (.goto (← nameOf n "target"))
  | .setVariable =>
    let target ← nameOf n "variable"
    return some (.set target (← expressionOf n "value"))
  | .wait => return some (.wait (n.float "duration"))
  | .playMusic => return some (.playMusic (n.text "asset"))
  | .playSound => return some (.playSound (n.text "asset"))
  | .stopMusic => return some .stopMusic
  | .transition => return some (.transition (← nameOf n "kind") (n.float "duration"))

/-- Reads the chain at an output port, visiting at most `steps` nodes one after or in the
other. On the chain of a scene (`topLevel`) every port must be connected. -/
def readChain (policy : CommentPolicy) (g : FlowGraph) :
    Nat → Bool → Nat → String → Reading (List Statement)
  | 0, _, _, _ => return []
  | steps + 1, topLevel, node, port => do
    match g.targetOf? node port with
    | none => if topLevel then throw (.incomplete node port) else return []
    | some id =>
      match g.node? id with
      | none => throw (.unknownNode id)
      | some n =>
        if n.kind = .sceneEnd then return []
        if (← get).contains id then return []
        modify (id :: ·)
        let act ← readNode policy g (readChain policy g steps false n.id) n
        let rest ← match n.kind.continuation? with
          | some next => readChain policy g steps topLevel id next
          | none => pure []
        return (act.map (Statement.mk n.loc)).toList ++ rest

/-- The name of the scene that begins at a node: the first of the table that does, else what
the node says, else one made from the id. -/
def sceneName (g : FlowGraph) (start : Node) : String :=
  let named := match g.scenes.entries.find? (·.2 = start.id) with
    | some (name, _) => some name
    | none => start.text? "scene"
  match named.filter (· ≠ "") with
  | some name => name
  | none => "scene_" ++ toString start.id

def readScene (policy : CommentPolicy) (g : FlowGraph) (start : Nat) : Except Fault SceneDecl :=
  match g.node? start with
  | none => .error (.unknownNode start)
  | some n => do
    let name := sceneName g n
    if !isName name then throw (.badProperty n.id "scene" (.notName name))
    let (body, _) ← (readChain policy g (g.graph.size + 1) true start "out").run [start]
    return ⟨name, body, n.loc⟩

def declare (c : Character) : Except Fault CharacterDecl :=
  if isName c.id then .ok { id := c.id, displayName := c.displayName, color := c.color }
  else .error (.badCharacter c.id)

/-- The script of a flow graph. -/
def raise (policy : CommentPolicy) (g : FlowGraph) : Except Fault Program := do
  let characters ← g.characters.mapM declare
  let scenes ← g.entries.mapM (readScene policy g)
  return ⟨characters, scenes⟩

end Novella.Flow
