import Novella.Script.Parser
import Novella.Text.Blank

/-!
# The grammar of scripts

One parser for each rule of the grammar. Two rules contain themselves, the expression in
parentheses and the block of statements; their parsers take the depth of nesting that is left,
and the entry points give them more than the text has characters.
-/

namespace Novella.Script

open Novella.Script.Parser

/-! ## Lexemes -/

def identifier : Parser String := rule .identifier do
  return String.ofList (← lexeme scanName)

def quotedText : Parser String := rule .string do
  let text ← lexeme scanQuoted
  return String.ofList (Text.unescape (text.drop 1).dropLast)

def floatNumber : Parser Binary64 := rule .float do
  return Binary64.ofLiteral (← lexeme scanFloat)

/-- Reads the characters of a whole number, and the place where they begin. -/
def integerText : Parser (Place × List Char) := rule .integer do
  let place ← here
  return (place, ← lexeme scanInteger)

def number : Parser Binary64 := floatNumber.orElse do
  return Binary64.ofLiteral (← integerText).2

/-- Reads a whole number. One out of range is noted, and read as zero. -/
def integer : Parser Int64 := do
  let (place, text) ← integerText
  match readInt64 text with
  | .ok n => return n
  | .error _ =>
    noteOverflow place.offset text.length
    return 0

def boolean : Parser Bool := rule .boolean do
  return (← lexeme (scanWord ["true", "false"])) = "true".toList

/-! ## Expressions -/

def operator (r : Rule) (scan : Scanner) (ops : List BinaryOp) : Parser BinaryOp := rule r do
  let text ← lexeme scan
  match ops.find? fun op => op.symbol.toList = text with
  | some op => return op
  | none => miss

/-- Reads operands with operators between them, which group to the left. -/
def chain (r : Rule) (op : Parser BinaryOp) (operand : Parser Expression) : Parser Expression :=
  rule r do
    let first ← operand
    let others ← many do
      let op ← op
      let right ← operand
      return (op, right)
    return others.foldl (fun left (op, right) => .binary op left right) first

/-- Reads an operand without operators; `inner` reads what stands in parentheses. -/
def primary (inner : Parser Expression) : Parser Expression := first [
  do return .literal (.float (← floatNumber)),
  do return .literal (.int (← integer)),
  do return .literal (.bool (← boolean)),
  do return .literal (.text (← quotedText)),
  do return .var (← identifier),
  do
    token "("
    let e ← inner
    token ")"
    return e]

def unaryOperator : Parser UnaryOp :=
  (rule .notOperator do
    let _ ← lexeme (scanWord ["not"])
    return .not).orElse
  (rule .negOperator do
    let _ ← lexeme scanMinus
    return .neg)

/-- Reads an operand with the operators before it. -/
def unaryExpression (inner : Parser Expression) : Parser Expression := rule .unary do
  let ops ← many unaryOperator
  let e ← primary inner
  return ops.foldr (fun op e => .unary op e) e

def expressionOver (inner : Parser Expression) : Parser Expression :=
  let multiplicative := chain .multiplicative
    (operator .multiplicativeOperator (scanAny ["*", "/", "%"]) [.mul, .div, .rem])
    (unaryExpression inner)
  let additive := chain .additive
    (operator .additiveOperator (scanAny ["+", "-"]) [.add, .sub]) multiplicative
  let comparison := chain .comparison
    (operator .comparisonOperator (scanAny ["<=", ">=", "<", ">"]) [.le, .ge, .lt, .gt]) additive
  let equality := chain .equality
    (operator .equalityOperator (scanAny ["==", "!="]) [.eq, .ne]) comparison
  let conjunction := chain .andExpression
    (operator .andOperator (scanWord ["and"]) [.and]) equality
  let disjunction := chain .orExpression
    (operator .orOperator (scanWord ["or"]) [.or]) conjunction
  rule .expression disjunction

/-- Reads an expression with parentheses at most `depth` deep. -/
def expressionWithin : Nat → Parser Expression
  | 0 => miss
  | depth + 1 => fun i f => expressionOver (expressionWithin depth) i f

def expression : Parser Expression := fun i f => expressionWithin (i.rest.length + 1) i f

/-! ## Statements -/

def comment : Parser String := rule .comment do
  let text ← lexeme scanComment
  return String.ofList (Text.trimChars (text.drop 2))

def sayStatement : Parser (Act Statement) := rule .sayStatement do
  token "say"
  let speaker ← optional identifier
  return .say speaker (← quotedText)

def showBackgroundStatement : Parser (Act Statement) := rule .showBackgroundStatement do
  token "show"
  token "background"
  return .showBackground (← quotedText)

def showCharacterStatement : Parser (Act Statement) := rule .showCharacterStatement do
  token "show"
  let character ← identifier
  let position ← optional do
    token "at"
    identifier
  return .showCharacter character position

def hideStatement : Parser (Act Statement) := rule .hideStatement do
  token "hide"
  return .hide (← identifier)

def setStatement : Parser (Act Statement) := rule .setStatement do
  token "set"
  let target ← identifier
  token "="
  return .set target (← expression)

def gotoStatement : Parser (Act Statement) := rule .gotoStatement do
  token "goto"
  return .goto (← identifier)

def waitStatement : Parser (Act Statement) := rule .waitStatement do
  token "wait"
  return .wait (← number)

def playMusicStatement : Parser (Act Statement) := rule .playMusicStatement do
  token "play"
  token "music"
  return .playMusic (← quotedText)

def playSoundStatement : Parser (Act Statement) := rule .playSoundStatement do
  token "play"
  token "sound"
  return .playSound (← quotedText)

def stopMusicStatement : Parser (Act Statement) := rule .stopMusicStatement do
  token "stop"
  token "music"
  return .stopMusic

def transitionStatement : Parser (Act Statement) := rule .transitionStatement do
  token "transition"
  let kind ← identifier
  return .transition kind (← number)

def choiceOption (block : Parser (List Statement)) : Parser (ChoiceOption Statement) :=
  rule .choiceOption do
    let text ← quotedText
    let condition ← optional do
      token "if"
      expression
    token "->"
    return ⟨text, condition, ← block⟩

def choiceStatement (block : Parser (List Statement)) : Parser (Act Statement) :=
  rule .choiceStatement do
    token "choice"
    token "\x7b"
    let options ← many (choiceOption block)
    token "\x7d"
    return .choice options

def switchCase (block : Parser (List Statement)) : Parser (SwitchCase Statement) :=
  rule .switchCase do
    token "case"
    let value ← expression
    return ⟨value, ← block⟩

def switchStatement (block : Parser (List Statement)) : Parser (Act Statement) :=
  rule .switchStatement do
    token "switch"
    let subject ← expression
    token "\x7b"
    let cases ← many (switchCase block)
    let default ← optional (rule .defaultCase do
      token "default"
      block)
    token "\x7d"
    return .switch subject cases default

def whileStatement (block : Parser (List Statement)) : Parser (Act Statement) :=
  rule .whileStatement do
    token "while"
    let condition ← expression
    return .loop condition (← block)

/-- Reads `if` with its `else`, which holds a block or another `if`; `chained` reads that. -/
def ifStatement (block : Parser (List Statement)) (chained : Parser (Act Statement)) :
    Parser (Act Statement) :=
  rule .ifStatement do
    token "if"
    let condition ← expression
    let thenBody ← block
    let elseBody ← optional (rule .elseClause do
      token "else"
      orElse (do
          let place ← here
          return [.mk place.location (← chained)])
        block)
    return .branch condition thenBody elseBody

/-- Reads a block of statements, given how to read one. -/
def blockOf (statement : Parser Statement) : Parser (List Statement) := rule .block do
  token "\x7b"
  let body ← many statement
  token "\x7d"
  return body

/-- Reads a statement, given how to read the blocks and the chained `if` in it. -/
def statementOver (block : Parser (List Statement)) (ifStatement : Parser (Act Statement)) :
    Parser Statement :=
  rule .statement do
    let place ← here
    let act ← first [
      do return .comment (← comment),
      sayStatement,
      showBackgroundStatement,
      showCharacterStatement,
      hideStatement,
      choiceStatement block,
      ifStatement,
      switchStatement block,
      whileStatement block,
      setStatement,
      gotoStatement,
      waitStatement,
      playMusicStatement,
      playSoundStatement,
      stopMusicStatement,
      transitionStatement,
      rule .blockStatement do return .block (← block)]
    return .mk place.location act

mutual

/-- Reads a block with blocks at most `depth` deep. -/
def blockWithin : Nat → Parser (List Statement)
  | 0 => miss
  | depth + 1 => fun i f => blockOf (statementOver (blockWithin depth) (ifWithin depth)) i f

def ifWithin : Nat → Parser (Act Statement)
  | 0 => miss
  | depth + 1 => fun i f => ifStatement (blockWithin depth) (ifWithin depth) i f

end

def block : Parser (List Statement) := fun i f => blockWithin (2 * i.rest.length + 2) i f

/-! ## Scripts -/

inductive CharacterField where
  | name (text : String)
  | color (text : String)

def characterField : Parser CharacterField := rule .characterField do
  let name ← rule .fieldName (lexeme (scanWord ["name", "color"]))
  token ":"
  let text ← quotedText
  return if name = "name".toList then .name text else .color text

def CharacterDecl.withField (c : CharacterDecl) : CharacterField → CharacterDecl
  | .name text => { c with displayName := text }
  | .color text => { c with color := some text }

/-- Reads the declaration of a character. A later field takes the place of an earlier one. -/
def characterDecl : Parser CharacterDecl := rule .characterDecl do
  let place ← here
  token "character"
  let id ← identifier
  token "("
  let fields ← optional do
    let field ← characterField
    let others ← many do
      token ","
      characterField
    let _ ← optional (token ",")
    return field :: others
  token ")"
  return (fields.getD []).foldl CharacterDecl.withField ⟨id, id, none, place.location⟩

def sceneDecl : Parser SceneDecl := rule .sceneDecl do
  let place ← here
  token "scene"
  let name ← identifier
  return ⟨name, ← block, place.location⟩

inductive Item where
  | comment
  | character (c : CharacterDecl)
  | scene (s : SceneDecl)

def Item.character? : Item → Option CharacterDecl
  | .character c => some c
  | _ => none

def Item.scene? : Item → Option SceneDecl
  | .scene s => some s
  | _ => none

def program : Parser Program := rule .program do
  spaces
  let items ← many (first [
    do let _ ← comment; return .comment,
    do return .character (← characterDecl),
    do return .scene (← sceneDecl)])
  endOfText
  return ⟨items.filterMap Item.character?, items.filterMap Item.scene?⟩

def expressionOnly : Parser Expression := rule .expressionOnly do
  spaces
  let e ← expression
  endOfText
  return e

end Novella.Script
