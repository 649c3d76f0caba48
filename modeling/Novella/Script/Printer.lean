import Novella.Decimal.Layout
import Novella.Script.Program
import Novella.Text.Lines
import Novella.Text.Quoted

/-!
# Canonical text of scripts

Expressions carry only the parentheses that their grouping needs, and numbers with a point
always keep a digit after it. Statements are laid out as lines with a depth of nesting; an
`else` that holds a single `if` is written as `else if`. A comment runs to the end of its
line, so one with several lines becomes several comments.
-/

namespace Novella.Script

/-! ## Expressions -/

def Literal.render : Literal → String
  | .int n => toString n.toInt
  | .float x => x.literal
  | .bool b => if b then "true" else "false"
  | .text s => Text.quote s

def UnaryOp.render : UnaryOp → String
  | .not => "not "
  | .neg => "-"

namespace Expression

/-- Whether an operand between operators needs parentheses: it is an operation that binds
more loosely than `parent`, or on the right side as loosely. -/
def bindsLooser (parent : BinaryOp) (onRight : Bool) : Expression → Bool
  | .binary op _ _ =>
    if onRight then op.precedence ≤ parent.precedence else op.precedence < parent.precedence
  | _ => false

/-- Whether an operand after an operator needs parentheses: it is an operation between
operands, or a number after a minus. -/
def needsParentheses (op : UnaryOp) : Expression → Bool
  | .binary _ _ _ => true
  | .literal (.int _) => op = .neg
  | .literal (.float _) => op = .neg
  | _ => false

def wrapped (wrap : Bool) (text : String) : String := if wrap then "(" ++ text ++ ")" else text

def render : Expression → String
  | .literal l => l.render
  | .var name => name
  | .unary op e => op.render ++ wrapped (e.needsParentheses op) e.render
  | .binary op l r =>
    wrapped (l.bindsLooser op false) l.render ++ " " ++ op.symbol ++ " " ++
      wrapped (r.bindsLooser op true) r.render

end Expression

/-! ## Statements -/

def Act.simpleText {σ : Type} : Act σ → Option String
  | .say (some speaker) text => some ("say " ++ speaker ++ " " ++ Text.quote text)
  | .say none text => some ("say " ++ Text.quote text)
  | .showBackground asset => some ("show background " ++ Text.quote asset)
  | .showCharacter character (some position) => some ("show " ++ character ++ " at " ++ position)
  | .showCharacter character none => some ("show " ++ character)
  | .hide character => some ("hide " ++ character)
  | .set target value => some ("set " ++ target ++ " = " ++ value.render)
  | .goto target => some ("goto " ++ target)
  | .wait seconds => some ("wait " ++ seconds.literal)
  | .playMusic asset => some ("play music " ++ Text.quote asset)
  | .playSound asset => some ("play sound " ++ Text.quote asset)
  | .stopMusic => some "stop music"
  | .transition kind duration => some ("transition " ++ kind ++ " " ++ duration.literal)
  | .comment text => some ("// " ++ text)
  | .choice _ | .branch _ _ _ | .switch _ _ _ | .loop _ _ | .block _ => none

structure Line where
  depth : Nat
  text : String
  deriving DecidableEq, Repr

def Line.render (width : Nat) (line : Line) : String :=
  String.ofList (List.replicate (line.depth * width) ' ') ++ line.text ++ "\n"

/-- The lines of a comment, of which there is always one. -/
def commentLines (text : String) : List String :=
  let lines := (Text.lines text.toList).map fun line =>
    String.ofList (line.map fun c => if c = '\r' then ' ' else c)
  if lines.isEmpty then [""] else lines

mutual

def Statement.lines (depth : Nat) : Statement → List Line
  | .mk _ (.comment text) => (commentLines text).map fun line => ⟨depth, "// " ++ line⟩
  | .mk _ (.choice options) =>
    ⟨depth, "choice \x7b"⟩ :: optionLines (depth + 1) options ++ [⟨depth, "\x7d"⟩]
  | .mk _ (.branch condition thenBody elseBody) =>
    ⟨depth, "if " ++ condition.render ++ " \x7b"⟩ :: bodyLines (depth + 1) thenBody ++
      elseLines depth elseBody
  | .mk _ (.switch subject cases default) =>
    ⟨depth, "switch " ++ subject.render ++ " \x7b"⟩ :: caseLines (depth + 1) cases ++
      defaultLines (depth + 1) default ++ [⟨depth, "\x7d"⟩]
  | .mk _ (.loop condition body) =>
    ⟨depth, "while " ++ condition.render ++ " \x7b"⟩ :: bodyLines (depth + 1) body ++
      [⟨depth, "\x7d"⟩]
  | .mk _ (.block body) => ⟨depth, "\x7b"⟩ :: bodyLines (depth + 1) body ++ [⟨depth, "\x7d"⟩]
  | .mk _ act => act.simpleText.toList.map fun text => ⟨depth, text⟩

def bodyLines (depth : Nat) : List Statement → List Line
  | [] => []
  | s :: rest => s.lines depth ++ bodyLines depth rest

/-- The lines from the end of the statements after `if` on. -/
def elseLines (depth : Nat) : Option (List Statement) → List Line
  | none => [⟨depth, "\x7d"⟩]
  | some [.mk _ (.branch condition thenBody elseBody)] =>
    ⟨depth, "\x7d else if " ++ condition.render ++ " \x7b"⟩ :: bodyLines (depth + 1) thenBody ++
      elseLines depth elseBody
  | some body =>
    ⟨depth, "\x7d else \x7b"⟩ :: bodyLines (depth + 1) body ++ [⟨depth, "\x7d"⟩]

def optionLines (depth : Nat) : List (ChoiceOption Statement) → List Line
  | [] => []
  | ⟨text, condition, body⟩ :: rest =>
    let guard := match condition with
      | some condition => " if " ++ condition.render
      | none => ""
    ⟨depth, Text.quote text ++ guard ++ " -> \x7b"⟩ :: bodyLines (depth + 1) body ++
      ⟨depth, "\x7d"⟩ :: optionLines depth rest

def caseLines (depth : Nat) : List (SwitchCase Statement) → List Line
  | [] => []
  | ⟨value, body⟩ :: rest =>
    ⟨depth, "case " ++ value.render ++ " \x7b"⟩ :: bodyLines (depth + 1) body ++
      ⟨depth, "\x7d"⟩ :: caseLines depth rest

def defaultLines (depth : Nat) : Option (List Statement) → List Line
  | none => []
  | some body => ⟨depth, "default \x7b"⟩ :: bodyLines (depth + 1) body ++ [⟨depth, "\x7d"⟩]

end

/-! ## Scripts -/

def CharacterDecl.line (c : CharacterDecl) : Line :=
  let color := match c.color with
    | some color => ", color: " ++ Text.quote color
    | none => ""
  ⟨0, "character " ++ c.id ++ "(name: " ++ Text.quote c.displayName ++ color ++ ")"⟩

def SceneDecl.lines (s : SceneDecl) : List Line :=
  ⟨0, "scene " ++ s.name ++ " \x7b"⟩ :: bodyLines 1 s.body ++ [⟨0, "\x7d"⟩]

/-- The lines of scenes with an empty line before each, the first excepted unless `separated`
says that something stands before it. -/
def sceneLines (separated : Bool) : List SceneDecl → List Line
  | [] => []
  | s :: rest => (if separated then [⟨0, ""⟩] else []) ++ s.lines ++ sceneLines true rest

def Program.lines (p : Program) : List Line :=
  p.characters.map CharacterDecl.line ++ sceneLines (!p.characters.isEmpty) p.scenes

/-- The canonical text of a script with `width` spaces for each depth of nesting. -/
def Program.render (width : Nat) (p : Program) : String :=
  String.join (p.lines.map (Line.render width))

end Novella.Script
