import Novella.Text.Quoted
import Novella.Decimal.Reading

/-!
# Lexemes of scripts

A scanner takes a lexeme off the front of a text: it gives the characters of the lexeme and
the rest, or nothing. Keywords are not lexemes of their own: where a statement is introduced
by a word, only its letters are matched, and what follows may touch it. The operators that
are words, the truth values and the names end where no character of a name follows.
-/

namespace Novella.Script

/-- Splits a lexeme off the front of a text. -/
abbrev Scanner := List Char → Option (List Char × List Char)

/-- Characters of names after the first: ASCII letters, digits and the underscore. -/
def isNameChar (c : Char) : Bool := c.isAlphanum || c = '_'

/-- Characters that may stand between lexemes. -/
def isSpace (c : Char) : Bool := c = ' ' || c = '\t' || c = '\r' || c = '\n'

def keywords : List String :=
  ["character", "choice", "scene", "say", "show", "hide", "background", "at", "if", "else",
    "switch", "case", "default", "while", "set", "goto", "wait", "play", "stop", "music",
    "sound", "transition", "true", "false", "and", "or", "not"]

/-- The characters of the name, keyword or number at the front of a text. -/
def frontWord (cs : List Char) : List Char := cs.takeWhile isNameChar

def scanText : List Char → Scanner
  | [], cs => some ([], cs)
  | _ :: _, [] => none
  | w :: ws, c :: cs => if w = c then (scanText ws cs).map fun (t, rest) => (c :: t, rest) else none

def scanAny (texts : List String) : Scanner := fun cs =>
  texts.findSome? fun text => scanText text.toList cs

/-- Scans one of the given words with no character of a name after it. -/
def scanWord (words : List String) : Scanner := fun cs =>
  let word := frontWord cs
  if words.any fun w => w.toList = word then some (word, cs.dropWhile isNameChar) else none

/-- Whether a row of characters is a name: it begins with a letter or an underscore and is no
keyword. -/
def isNameWord (word : List Char) : Bool :=
  match word with
  | [] => false
  | c :: _ => !c.isDigit && !keywords.any fun w => w.toList = word

def scanName : Scanner := fun cs =>
  let word := frontWord cs
  if isNameWord word then some (word, cs.dropWhile isNameChar) else none

def scanInteger : Scanner := fun cs =>
  let (mark, cs) : List Char × List Char := match cs with
    | '-' :: rest => (['-'], rest)
    | _ => ([], cs)
  match spanDigits cs with
  | ([], _) => none
  | (digits, rest) => some (mark ++ digits, rest)

def scanFloat : Scanner := fun cs =>
  match scanInteger cs with
  | some (whole, '.' :: rest) =>
    match spanDigits rest with
    | ([], _) => none
    | (part, rest) => some (whole ++ '.' :: part, rest)
  | _ => none

/-- Scans a minus that is not the sign of a number. -/
def scanMinus : Scanner := fun cs =>
  match cs with
  | '-' :: rest => if rest.head?.any Char.isDigit then none else some (['-'], rest)
  | _ => none

def scanQuoted : Scanner := fun cs =>
  match cs with
  | '"' :: rest => (Text.spanQuoted rest).map fun (inside, rest) => ('"' :: inside ++ ['"'], rest)
  | _ => none

def endsComment (c : Char) : Bool := c = '\n' || c = '\r'

def scanComment : Scanner := fun cs =>
  match cs with
  | '/' :: '/' :: rest =>
    let text := rest.takeWhile fun c => !endsComment c
    some ('/' :: '/' :: text, rest.dropWhile fun c => !endsComment c)
  | _ => none

/-- Whether a text can stand where a script needs a name. -/
def isName (text : String) : Bool := scanName text.toList = some (text.toList, [])

end Novella.Script
