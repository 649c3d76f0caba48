import Novella.Fault
import Novella.Script.Grammar

/-!
# Reading scripts

`Script.parse` reads a whole script and `Script.parseExpression` a single expression. A script
that does not follow the grammar is refused at the furthest place that its reading reached,
with the rules that could have continued there; one that does is still refused if it holds a
whole number out of range.
-/

namespace Novella.Script

def Parser.run {α : Type} (p : Parser α) (source : String) : Except Fault α :=
  let text := source.toList
  let fault (issue : Issue) (offset length : Nat) : Fault :=
    .badScript issue (Text.Excerpt.around text offset length)
  match p ⟨text, {}, none⟩ {} with
  | (none, frontier) =>
    let place := frontier.place
    let expected := Rule.all.filter fun r => frontier.rules.contains r
    .error (fault (.unexpected expected place.line place.column) place.offset 1)
  | (some (a, input), _) =>
    match input.overflow with
    | some (offset, length) => .error (fault .integerRange offset length)
    | none => .ok a

def parse (source : String) : Except Fault Program := program.run source

def parseExpression (source : String) : Except Fault Expression := expressionOnly.run source

end Novella.Script
