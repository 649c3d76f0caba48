/-!
# Grammar rules and what can be wrong with a script

A message about a script names the grammar rules that could have continued it. `Rule.all`
lists the rules in the order in which a message names them.
-/

namespace Novella.Script

/-- A grammar rule that a message can name. -/
inductive Rule where
  | endOfText
  | program
  | expressionOnly
  | characterDecl
  | characterField
  | fieldName
  | sceneDecl
  | block
  | statement
  | comment
  | sayStatement
  | showBackgroundStatement
  | showCharacterStatement
  | hideStatement
  | choiceStatement
  | choiceOption
  | ifStatement
  | elseClause
  | switchStatement
  | switchCase
  | defaultCase
  | whileStatement
  | setStatement
  | gotoStatement
  | waitStatement
  | playMusicStatement
  | playSoundStatement
  | stopMusicStatement
  | transitionStatement
  | blockStatement
  | expression
  | orExpression
  | andExpression
  | equality
  | comparison
  | additive
  | multiplicative
  | unary
  | orOperator
  | andOperator
  | notOperator
  | negOperator
  | equalityOperator
  | comparisonOperator
  | additiveOperator
  | multiplicativeOperator
  | float
  | integer
  | boolean
  | string
  | identifier
  deriving DecidableEq, Repr

namespace Rule

def all : List Rule := [endOfText, program, expressionOnly, characterDecl, characterField,
  fieldName, sceneDecl, block, statement, comment, sayStatement, showBackgroundStatement,
  showCharacterStatement, hideStatement, choiceStatement, choiceOption, ifStatement, elseClause,
  switchStatement, switchCase, defaultCase, whileStatement, setStatement, gotoStatement,
  waitStatement, playMusicStatement, playSoundStatement, stopMusicStatement,
  transitionStatement, blockStatement, expression, orExpression, andExpression, equality,
  comparison, additive, multiplicative, unary, orOperator, andOperator, notOperator,
  negOperator, equalityOperator, comparisonOperator, additiveOperator, multiplicativeOperator,
  float, integer, boolean, string, identifier]

def name : Rule → String
  | endOfText => "EOI"
  | program => "program"
  | expressionOnly => "expression_only"
  | characterDecl => "character_decl"
  | characterField => "character_field"
  | fieldName => "field_name"
  | sceneDecl => "scene_decl"
  | block => "block"
  | statement => "statement"
  | comment => "comment"
  | sayStatement => "say_stmt"
  | showBackgroundStatement => "show_background_stmt"
  | showCharacterStatement => "show_character_stmt"
  | hideStatement => "hide_stmt"
  | choiceStatement => "choice_stmt"
  | choiceOption => "choice_option"
  | ifStatement => "if_stmt"
  | elseClause => "else_clause"
  | switchStatement => "switch_stmt"
  | switchCase => "switch_case"
  | defaultCase => "default_case"
  | whileStatement => "while_stmt"
  | setStatement => "set_stmt"
  | gotoStatement => "goto_stmt"
  | waitStatement => "wait_stmt"
  | playMusicStatement => "play_music_stmt"
  | playSoundStatement => "play_sound_stmt"
  | stopMusicStatement => "stop_music_stmt"
  | transitionStatement => "transition_stmt"
  | blockStatement => "block_stmt"
  | expression => "expression"
  | orExpression => "or_expr"
  | andExpression => "and_expr"
  | equality => "equality"
  | comparison => "comparison"
  | additive => "additive"
  | multiplicative => "multiplicative"
  | unary => "unary"
  | orOperator => "or_op"
  | andOperator => "and_op"
  | notOperator => "not_op"
  | negOperator => "neg_op"
  | equalityOperator => "eq_op"
  | comparisonOperator => "cmp_op"
  | additiveOperator => "add_op"
  | multiplicativeOperator => "mul_op"
  | float => "float"
  | integer => "integer"
  | boolean => "boolean"
  | string => "string"
  | identifier => "ident"

end Rule

/-- The items as an enumeration in words: `A`, `A or B`, `A, B, or C`. -/
def enumerate : List String → String
  | [] => ""
  | [a] => a
  | [a, b] => a ++ " or " ++ b
  | items => ", ".intercalate items.dropLast ++ ", or " ++ (items.getLast?.getD "")

inductive Issue where
  /-- None of the rules `expected` continues the script at the place. -/
  | unexpected (expected : List Rule) (line column : Nat)
  | integerRange
  deriving DecidableEq

def Issue.message : Issue → String
  | .unexpected expected line column =>
    "parse error: expected " ++ enumerate (expected.map Rule.name) ++ " at line " ++
      toString line ++ ", column " ++ toString column
  | .integerRange => "parse error: integer literal out of range"

end Novella.Script
