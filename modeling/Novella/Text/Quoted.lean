/-!
# Quoted texts of scripts

A script writes a text between double quotes. A quote, a backslash, a line feed, a tab and a
carriage return inside it are written with a backslash; every other character stands for
itself. `unescape` reads what stands between the quotes.
-/

namespace Novella.Text

def escapeChar (c : Char) : List Char :=
  match c with
  | '"' => ['\\', '"']
  | '\\' => ['\\', '\\']
  | '\n' => ['\\', 'n']
  | '\t' => ['\\', 't']
  | '\r' => ['\\', 'r']
  | _ => [c]

def escape (cs : List Char) : List Char := cs.flatMap escapeChar

def quote (text : String) : String := String.ofList ('"' :: (escape text.toList ++ ['"']))

def unescapeChar (c : Char) : Char :=
  match c with
  | 'n' => '\n'
  | 't' => '\t'
  | 'r' => '\r'
  | _ => c

def unescape : List Char → List Char
  | [] => []
  | '\\' :: c :: rest => unescapeChar c :: unescape rest
  | c :: rest => c :: unescape rest

/-- Takes the inside of a quoted text off the characters after its opening quote, up to the
closing quote. A backslash must be followed by one of the five characters it can mark. -/
def spanQuoted : List Char → Option (List Char × List Char)
  | [] => none
  | '"' :: rest => some ([], rest)
  | '\\' :: c :: rest =>
    if c = '"' || c = '\\' || c = 'n' || c = 't' || c = 'r' then
      (spanQuoted rest).map fun (inside, rest) => ('\\' :: c :: inside, rest)
    else none
  | c :: rest =>
    if c = '\\' then none else (spanQuoted rest).map fun (inside, rest) => (c :: inside, rest)

theorem unescape_escape (cs : List Char) : unescape (escape cs) = cs := by
  induction cs with
  | nil => rfl
  | cons c rest ih =>
    have h : ∀ cs, unescape (escapeChar c ++ cs) = c :: unescape cs := by
      intro cs
      unfold escapeChar
      split <;> simp_all [unescape, unescapeChar]
    rw [escape, List.flatMap_cons, h, ← escape, ih]

end Novella.Text
