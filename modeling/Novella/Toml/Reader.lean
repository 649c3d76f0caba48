import Novella.Toml.Value

/-!
# Reading TOML

A reader takes a part off the front of a text or fails; of two alternatives the first that can
be read counts. The whole of a document has to be read, so that one wrong line refuses it.
-/

namespace Novella.Toml

abbrev Reader := StateT (List Char) Option

namespace Reader

variable {α : Type}

def char (p : Char → Bool) : Reader Char := fun
  | c :: rest => if p c then some (c, rest) else none
  | [] => none

def sign (c : Char) : Reader Unit := do
  let _ ← char (· = c)

def word : List Char → Reader Unit
  | [] => return ()
  | c :: rest => do sign c; word rest

def row (p : Char → Bool) : Reader (List Char) := fun s => some (s.span p)

def times (r : Reader α) : Nat → Reader (List α)
  | 0 => return []
  | n + 1 => (do return (← r) :: (← times r n)) <|> return []

def many (r : Reader α) : Reader (List α) := fun s => times r s.length s

def separated (r : Reader α) (separator : Reader Unit) : Reader (List α) := do
  return (← r) :: (← many do separator; r)

def finish : Reader Unit := fun s => if s.isEmpty then some ((), []) else none

end Reader

open Reader

/-! ## Lines and blanks -/

/-- A character that may stand in a comment or a text: no control character but a tab. -/
def isPlain (c : Char) : Bool := c = '\t' || (' ' ≤ c && c ≠ '\x7f')

def blanks : Reader Unit := do
  let _ ← row fun c => c = ' ' || c = '\t'

def newLine : Reader Unit := sign '\n' <|> word ['\r', '\n']

def comment : Reader Unit := do
  sign '#'
  let _ ← row isPlain

def lineEnd : Reader Unit := do
  blanks
  let _ ← optional comment
  newLine <|> finish

def gap : Reader Unit := do
  let _ ← many ((do let _ ← char fun c => c = ' ' || c = '\t') <|> newLine <|> comment)

/-! ## Texts -/

def hexDigit? (c : Char) : Option Nat :=
  if c.isDigit then some (c.toNat - '0'.toNat)
  else if 'a' ≤ c && c ≤ 'f' then some (c.toNat - 'a'.toNat + 10)
  else if 'A' ≤ c && c ≤ 'F' then some (c.toNat - 'A'.toNat + 10)
  else none

def digitsIn (base : Nat) (cs : List Char) : Option Nat :=
  cs.foldlM (fun n c => (hexDigit? c).map (base * n + ·)) 0

def numbered (count : Nat) : Reader Char := fun s =>
  if s.length < count then none
  else do
    let n ← digitsIn 16 (s.take count)
    if n.isValidChar then return (Char.ofNat n, s.drop count) else none

def escape : Reader Char := do
  sign '\\'
  let c ← char fun _ => true
  match c with
  | 'b' => return '\x08'
  | 't' => return '\t'
  | 'n' => return '\n'
  | 'f' => return '\x0c'
  | 'r' => return '\r'
  | '"' => return '"'
  | '\\' => return '\\'
  | 'u' => numbered 4
  | 'U' => numbered 8
  | _ => failure

def quoted : Reader String := do
  sign '"'
  let cs ← many (char (fun c => isPlain c && c ≠ '"' && c ≠ '\\') <|> escape)
  sign '"'
  return String.ofList cs

def verbatim : Reader String := do
  sign '\''
  let cs ← row fun c => isPlain c && c ≠ '\''
  sign '\''
  return String.ofList cs

/-- One or two quotes that do not end a text over several lines. -/
def innerQuotes (quote : Char) : Reader (List Char) := fun s =>
  match s.span (· = quote) with
  | (quotes, rest) =>
    if quotes.isEmpty || 2 < quotes.length then none else some (quotes, rest)

/-- The three quotes that end a text over several lines, with up to two quotes before them that
belong to the text. -/
def closingQuotes (quote : Char) : Reader (List Char) := fun s =>
  let quotes := min (s.takeWhile (· = quote)).length 5
  if quotes < 3 then none else some (List.replicate (quotes - 3) quote, s.drop quotes)

/-- A backslash at the end of a line, with the white space up to the next character. -/
def joinedLines : Reader (List Char) := do
  sign '\\'
  blanks
  newLine
  let _ ← many ((do let _ ← char fun c => c = ' ' || c = '\t') <|> newLine)
  return []

def longText (quote : Char) (part : Reader (List Char)) : Reader String := do
  word [quote, quote, quote]
  let _ ← optional newLine
  let parts ← many (innerQuotes quote <|> (do newLine; return ['\n']) <|> part)
  let rest ← closingQuotes quote
  return String.ofList (parts.flatten ++ rest)

def longQuoted : Reader String :=
  longText '"' ((do return [← char fun c => isPlain c && c ≠ '"' && c ≠ '\\']) <|>
    joinedLines <|> (do return [← escape]))

def longVerbatim : Reader String :=
  longText '\'' (do return [← char fun c => isPlain c && c ≠ '\''])

/-! ## Keys -/

def simpleKey : Reader String :=
  quoted <|> verbatim <|> do
    let c ← char isBare
    return String.ofList (c :: (← row isBare))
where
  isBare (c : Char) : Bool := c.isAlphanum || c = '-' || c = '_'

def key : Reader (List String × String) := do
  let names ← separated (do blanks; let name ← simpleKey; blanks; return name) (sign '.')
  match names.getLast? with
  | some last => return (names.dropLast, last)
  | none => failure

/-! ## Numbers -/

def digits (p : Char → Bool) : Reader (List Char) := do
  let c ← char p
  return c :: (← many do let _ ← optional (sign '_'); char p)

def plusOrMinus : Reader (List Char) := do
  return (← optional (char fun c => c = '+' || c = '-')).toList

def whole : Reader (List Char) := do
  let s ← plusOrMinus
  return s ++ (← (do sign '0'; return ['0']) <|> digits Char.isDigit)

def exponent : Reader (List Char) := do
  let e ← char fun c => c = 'e' || c = 'E'
  return e :: (← plusOrMinus) ++ (← digits Char.isDigit)

def fraction : Reader (List Char) := do
  sign '.'
  return '.' :: (← digits Char.isDigit)

/-- A number with a fraction or an exponent. One that is too large is refused. -/
def fractional : Reader Value := do
  let w ← whole
  let tail ← exponent <|> do return (← fraction) ++ (← optional exponent).getD []
  match Binary64.read (w ++ tail) with
  | .ok x => if x = .infinity false then failure else return .float x
  | .error _ => failure

def special : Reader Value := do
  let negative := (← plusOrMinus) = ['-']
  (do word ['i', 'n', 'f']; return .float (.infinity negative)) <|>
    (do word ['n', 'a', 'n']; return .float (.nan negative))

def inBase (name : Char) (base : Nat) : Reader Value := do
  word ['0', name]
  match digitsIn base (← digits fun c => (hexDigit? c).any (· < base)) with
  | some n => if n < 2 ^ 63 then return .int (Int64.ofInt n) else failure
  | none => failure

def wholeNumber : Reader Value := do
  match readInt64 (← whole) with
  | .ok n => return .int n
  | .error _ => failure

def number : Reader Value :=
  fractional <|> special <|> inBase 'x' 16 <|> inBase 'o' 8 <|> inBase 'b' 2 <|> wholeNumber

/-! ## Values -/

def truth : Reader Value :=
  (do word "true".toList; return .bool true) <|> (do word "false".toList; return .bool false)

def list (value : Reader Value) : Reader Value := do
  sign '['
  let items ← optional (separated (do gap; let v ← value; gap; return v) (sign ','))
  if items.isSome then
    let _ ← optional (sign ',')
  gap
  sign ']'
  return .list (items.getD [])

def pair (value : Reader Value) : Reader ((List String × String) × Value) := do
  let k ← key
  sign '='
  blanks
  return (k, ← value)

def inlineTable (value : Reader Value) : Reader Value := do
  sign '\x7b'
  let pairs ← optional (separated (do let p ← pair value; blanks; return p) (sign ','))
  blanks
  sign '\x7d'
  match (pairs.getD []).foldlM (fun es ((path, k), v) => Entries.assign k v path es) [] with
  | some es => return .table .inline es
  | none => failure

def value : Nat → Reader Value
  | 0 => failure
  | depth + 1 =>
    (do return .text (← longQuoted <|> quoted <|> longVerbatim <|> verbatim)) <|> number <|>
      truth <|> list (value depth) <|> inlineTable (value depth)

/-! ## Documents -/

inductive Line where
  | header (path : List String) (key : String)
  | entry (path : List String) (key : String) (v : Value)

def header : Reader Line := do
  sign '['
  let (path, k) ← key
  sign ']'
  lineEnd
  return .header path k

def entry (depth : Nat) : Reader Line := do
  let ((path, k), v) ← pair (value depth)
  lineEnd
  return .entry path k v

def emptyLine : Reader Unit := newLine <|> (do comment; newLine <|> finish)

/-- All lines of a document, after a byte order mark if there is one. -/
def lines (depth : Nat) : Reader (List Line) := do
  let _ ← optional (sign '\ufeff')
  blanks
  let found ← many do
    let line ← (do emptyLine; return none) <|> (do return some (← header <|> entry depth))
    blanks
    return line
  finish
  return found.filterMap id

/-- Adds what a line says to the content of a document; also gives the table that the lines
after it belong to. -/
def Line.add (at? : List String × Entries) : Line → Option (List String × Entries)
  | .header path k => do return (path ++ [k], ← Entries.openTable k path at?.2)
  | .entry path k v => do return (at?.1, ← Entries.within (Entries.assign k v path) at?.1 at?.2)

def read (text : String) : Option Entries := do
  let cs := text.toList
  let (found, _) ← lines cs.length cs
  let (_, es) ← found.foldlM Line.add ([], [])
  return es

end Novella.Toml
