/-!
# Lines

Two ways to take a text apart at its line feeds: `lines` gives what stands on the lines,
without the line ends, and `chunks` keeps every line feed with the line before it.
-/

namespace Novella.Text

/-- The pieces of a text that end with a line feed, and what follows the last of them unless
it is empty. -/
def chunks : List Char → List (List Char)
  | [] => []
  | c :: rest =>
    if c = '\n' then [c] :: chunks rest
    else match chunks rest with
      | [] => [[c]]
      | first :: others => (c :: first) :: others

/-- A piece without the line feed at its end and without a carriage return before that. -/
def dropLineEnd (cs : List Char) : List Char :=
  if cs.getLast? = some '\n' then
    let line := cs.dropLast
    if line.getLast? = some '\r' then line.dropLast else line
  else cs

/-- What stands on the lines of a text. A line ends with a line feed, or with a carriage
return and a line feed; a text that ends with a line end has no empty line after it. -/
def lines (cs : List Char) : List (List Char) := (chunks cs).map dropLineEnd

end Novella.Text
