import Novella.Decimal.Reading

/-!
# Texts in YAML

A text is written plain if it then reads back as the same text, else between single quotes, and
between double quotes where a character needs an escape. A text of several lines is written as
a block. `Yaml.scalar` writes the text of an entry whose further lines are indented by two.
-/

namespace Novella.Text.Yaml

/-! ## Characters -/

/-- Line feed, carriage return, next line, and the line and paragraph separators. -/
def isBreak (c : Char) : Bool :=
  c = '\n' || c = '\r' || c = '\u0085' || c = '\u2028' || c = '\u2029'

def isPrintable (c : Char) : Bool :=
  let n := c.toNat
  c = '\n' || (0x20 ≤ n && n ≤ 0x7e) || (0xa0 ≤ n && n ≤ 0xfffd && n ≠ 0xfeff) || 0x10000 ≤ n

/-- Whether a word ends before this character, or before the end of the text. -/
def endsWord : Option Char → Bool
  | none => true
  | some c => c = ' ' || c = '\t' || c = '\x00' || isBreak c

/-- Whether a character has a meaning of its own where it stands. -/
def isIndicator (before : Option Char) (c : Char) (after : Option Char) : Bool :=
  match before with
  | none => "#,[]\x7b\x7d&*!|>'\"%@`".toList.contains c ||
      ((c = '?' || c = ':' || c = '-') && endsWord after)
  | some b => (c = ':' && endsWord after) || (c = '#' && endsWord (some b))

/-- Whether some character has a meaning of its own; `before` stands before the text. -/
def hasIndicator : Option Char → List Char → Bool
  | _, [] => false
  | before, c :: rest => isIndicator before c rest.head? || hasIndicator (some c) rest

def adjacent (p q : Char → Bool) : List Char → Bool
  | a :: b :: rest => (p a && q b) || adjacent p q (b :: rest)
  | _ => false

/-! ## Texts that read as something else -/

def areDigits (base : Nat) (cs : List Char) : Bool :=
  !cs.isEmpty && cs.all fun c =>
    let n := c.toLower.toNat
    (0x30 ≤ n && n < 0x30 + min base 10) || (0x61 ≤ n && n < 0x61 + (base - 10))

def isNumber (cs : List Char) : Bool :=
  match cs with
  | '0' :: 'x' :: ds => areDigits 16 ds
  | '0' :: 'o' :: ds => areDigits 8 ds
  | '0' :: 'b' :: ds => areDigits 2 ds
  | _ =>
    String.ofList cs ∈ [".inf", ".Inf", ".INF"] ||
      areDigits 10 cs ||
      match Binary64.readMagnitude false cs with
      | some x => x.isFinite
      | none => false

/-- Whether a plain text is read as a number, a truth value or nothing, by some reader at
least. -/
def isAmbiguous (cs : List Char) : Bool :=
  let word := String.ofList (cs.map Char.toLower)
  word ∈ ["", "~", "null", "true", "false", "y", "n", "yes", "no", "on", "off"] ||
    String.ofList cs ∈ [".nan", ".NaN", ".NAN"] ||
    match cs with
    | '-' :: rest => isNumber rest
    | '+' :: rest => isNumber rest
    | _ => isNumber cs

/-! ## Styles -/

inductive Style where
  | plain
  | singleQuoted
  | doubleQuoted
  | block
  deriving DecidableEq

def styleOf (cs : List Char) : Style :=
  let isSpace := fun c => c = ' '
  let escaped := cs.any (fun c => !isPrintable c) || adjacent isSpace isBreak cs
  let quotable := !escaped && !adjacent isBreak isSpace cs
  let bounded (c : Option Char) : Bool := c.any fun c => isSpace c || isBreak c
  if cs.contains '\n' then
    if escaped || cs.getLast? = some ' ' then .doubleQuoted else .block
  else if quotable && !isAmbiguous cs && !bounded cs.head? && !bounded cs.getLast? &&
      !cs.any isBreak && !hasIndicator none cs && !("---".toList.isPrefixOf cs) &&
      !("...".toList.isPrefixOf cs) then .plain
  else if quotable then .singleQuoted
  else .doubleQuoted

/-! ## Writing -/

/-- Characters with two spaces before each that follows a line break; `fresh` says whether
the first one does. -/
def indented (write : Char → List Char) : Bool → List Char → List Char
  | _, [] => []
  | fresh, c :: rest =>
    if isBreak c then c :: indented write true rest
    else (if fresh then [' ', ' '] else []) ++ write c ++ indented write false rest

/-- How a block begins: its indentation where its first line would not show it, and what
becomes of the line breaks at its end. -/
def blockHead (cs : List Char) : List Char :=
  let indentation := if cs.head?.any (fun c => c = ' ' || isBreak c) then ['2'] else []
  let ending := match cs.reverse with
    | a :: rest =>
      if !isBreak a then ['-'] else if rest.head?.all isBreak then ['+'] else []
    | [] => ['-']
  '|' :: indentation ++ ending ++ ['\n']

def hexDigits (count n : Nat) : List Char :=
  let ds := (Nat.toDigits 16 n).map Char.toUpper
  List.replicate (count - ds.length) '0' ++ ds

def escapeChar (c : Char) : List Char :=
  if isPrintable c && !isBreak c && c ≠ '"' && c ≠ '\\' then [c]
  else '\\' :: match c with
    | '\x00' => ['0']
    | '\x07' => ['a']
    | '\x08' => ['b']
    | '\t' => ['t']
    | '\n' => ['n']
    | '\x0b' => ['v']
    | '\x0c' => ['f']
    | '\r' => ['r']
    | '\x1b' => ['e']
    | '"' => ['"']
    | '\\' => ['\\']
    | '\u0085' => ['N']
    | '\u2028' => ['L']
    | '\u2029' => ['P']
    | _ =>
      let n := c.toNat
      if n ≤ 0xff then 'x' :: hexDigits 2 n
      else if n ≤ 0xffff then 'u' :: hexDigits 4 n
      else 'U' :: hexDigits 8 n

def write (cs : List Char) : List Char :=
  match styleOf cs with
  | .plain => cs
  | .singleQuoted =>
    '\'' :: indented (fun c => if c = '\'' then [c, c] else [c]) false cs ++
      (if cs.getLast?.any isBreak then [' ', ' '] else []) ++ ['\'']
  | .doubleQuoted => '"' :: cs.flatMap escapeChar ++ ['"']
  | .block => blockHead cs ++ indented (fun c => [c]) true cs

def scalar (s : String) : String :=
  let cs := write s.toList
  String.ofList (if cs.getLast? = some '\n' then cs else cs ++ ['\n'])

end Novella.Text.Yaml
