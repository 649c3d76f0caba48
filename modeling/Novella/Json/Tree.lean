import Novella.Json.Number

/-!
# Documents with places

`Tree.read` takes the text of a JSON document apart into a tree that remembers where its
parts stand. It never fails: where the text cannot be read any further the tree has a broken
leaf with a complaint. So a decoder that walks over a tree in document order meets, of all
the things that are wrong with a document, the one that stands first, whether it is about the
text or about the meaning.

Some faults count only for a reader who wants the value and not for one who skips it (a
number out of range), and some are worded differently for the two; the tree keeps both.
-/

namespace Novella.Json

/-- The rest of a document and where it begins. -/
structure Cursor where
  rest : List Char
  spot : Spot := {}

namespace Cursor

/-- The place after the next byte, or at the end of the document. -/
def peekSpot (c : Cursor) : Spot :=
  match c.rest with
  | [] => c.spot
  | '\n' :: _ => ⟨c.spot.line + 1, 0⟩
  | _ => ⟨c.spot.line, c.spot.column + 1⟩

def spotAfter (spot : Spot) (c : Char) : Spot :=
  if c = '\n' then ⟨spot.line + 1, 0⟩ else ⟨spot.line, spot.column + c.utf8Size⟩

def step (c : Cursor) : Cursor :=
  match c.rest with
  | [] => c
  | a :: rest => ⟨rest, spotAfter c.spot a⟩

/-- Steps over `n` characters that take one byte each and hold no line feed. -/
def steps (c : Cursor) (n : Nat) : Cursor :=
  ⟨c.rest.drop n, ⟨c.spot.line, c.spot.column + n⟩⟩

def skipBlanksFrom : List Char → Spot → Cursor
  | [], spot => ⟨[], spot⟩
  | c :: rest, spot =>
    if c = ' ' || c = '\n' || c = '\t' || c = '\r' then skipBlanksFrom rest (spotAfter spot c)
    else ⟨c :: rest, spot⟩

def skipBlanks (c : Cursor) : Cursor := skipBlanksFrom c.rest c.spot

/-- A complaint about the place before the next character. -/
def blame (c : Cursor) (complaint : Complaint) : Mishap := ⟨complaint, c.spot⟩

/-- A complaint about the next byte. -/
def blameNext (c : Cursor) (complaint : Complaint) : Mishap := ⟨complaint, c.peekSpot⟩

end Cursor

def hexValue? (c : Char) : Option Nat :=
  let n := c.toNat
  if 48 ≤ n && n ≤ 57 then some (n - 48)
  else if 65 ≤ n && n ≤ 70 then some (n - 55)
  else if 97 ≤ n && n ≤ 102 then some (n - 87)
  else none

/-- The place `n` bytes further on. -/
def spotAfterBytes : Nat → List Char → Spot → Spot
  | _, [], spot => spot
  | n, c :: rest, spot =>
    if n = 0 then spot
    else if c = '\n' then spotAfterBytes (n - 1) rest ⟨spot.line + 1, 0⟩
    else spotAfterBytes (n - c.utf8Size) rest ⟨spot.line, spot.column + min n c.utf8Size⟩

/-- Reads the digits of an escape, which are the next four bytes. -/
def readHex (c : Cursor) : Except Mishap (Nat × Cursor) :=
  match (c.rest.take 4).mapM hexValue? with
  | some [a, b, d, e] => .ok (((a * 16 + b) * 16 + d) * 16 + e, c.steps 4)
  | _ =>
    if Text.byteCount c.rest < 4 then .error ⟨.endInText, c.rest.foldl Cursor.spotAfter c.spot⟩
    else .error ⟨.badEscape, spotAfterBytes 4 c.rest c.spot⟩

def simpleEscape? : Char → Option Char
  | '"' => some '"'
  | '\\' => some '\\'
  | '/' => some '/'
  | 'b' => some '\x08'
  | 'f' => some '\x0c'
  | 'n' => some '\n'
  | 'r' => some '\r'
  | 't' => some '\t'
  | _ => none

/-- Reads the code point of an escape after its `u`. A code point beyond four digits is
written as a pair. -/
def readCodePoint (c : Cursor) : Except Mishap (Char × Cursor) := do
  let (n, c) ← readHex c
  if 0xdc00 ≤ n ∧ n ≤ 0xdfff then throw (c.blame .loneSurrogate)
  if n < 0xd800 ∨ 0xdbff < n then return (Char.ofNat n, c)
  match c.rest with
  | [] => throw (c.blame .endInText)
  | '\\' :: _ =>
    let c := c.step
    match c.rest with
    | [] => throw (c.blame .endInText)
    | 'u' :: _ =>
      let (m, c) ← readHex c.step
      if m < 0xdc00 ∨ 0xdfff < m then throw (c.blame .loneSurrogate)
      return (Char.ofNat ((n - 0xd800) * 0x400 + (m - 0xdc00) + 0x10000), c)
    | _ => throw (c.blameNext .endInHexEscape)
  | _ => throw (c.blameNext .endInHexEscape)

/-- Reads a text after its opening quote; `found` holds what was read, last first. -/
def readText : Nat → List Char → Cursor → Except Mishap (String × Cursor)
  | 0, _, c => .error (c.blame .endInText)
  | fuel + 1, found, c =>
    match c.rest with
    | [] => .error (c.blame .endInText)
    | '"' :: _ => .ok (String.ofList found.reverse, c.step)
    | '\\' :: _ =>
      let c := c.step
      match c.rest with
      | [] => .error (c.blame .endInText)
      | 'u' :: _ =>
        match readCodePoint c.step with
        | .error m => .error m
        | .ok (a, c) => readText fuel (a :: found) c
      | a :: _ =>
        match simpleEscape? a with
        | some b => readText fuel (b :: found) c.step
        | none => .error (c.blameNext .badEscape)
    | a :: _ =>
      if a.toNat < 0x20 then .error (c.blameNext .controlCharacter)
      else readText fuel (a :: found) c.step

/-- Skips a text after its opening quote. Pairs of escapes are not looked at. -/
def skipText : Nat → Cursor → Except Mishap Cursor
  | 0, c => .error (c.blame .endInText)
  | fuel + 1, c =>
    match c.rest with
    | [] => .error (c.blame .endInText)
    | '"' :: _ => .ok c.step
    | '\\' :: _ =>
      let c := c.step
      match c.rest with
      | [] => .error (c.blame .endInText)
      | 'u' :: _ =>
        match readHex c.step with
        | .error m => .error m
        | .ok (_, c) => skipText fuel c
      | a :: _ =>
        if (simpleEscape? a).isSome then skipText fuel c.step
        else .error (c.blameNext .badEscape)
    | a :: _ =>
      if a.toNat < 0x20 then .error (c.blameNext .controlCharacter)
      else skipText fuel c.step

inductive Scalar where
  | null
  | bool (b : Bool)
  | number (value : Except Mishap Json)
  | text (value : Except Mishap String)

/-- The name of a member: the name, the place where the member begins (at its comma, unless it
is the first), the place after the closing quote, and the place where reading goes on when the
member is refused. -/
structure Key where
  name : Except Mishap String
  start : Spot
  stop : Spot
  resume : Spot

/-- How a list or record ends: with its bracket, or broken off with a complaint for one who
reads it, for one who skips it, and for one who wants nothing more of it. At the front of a
record the last complaint is for one who wants the name of a variant there. -/
inductive Tail where
  | closed (stop : Spot)
  | broken (reading skipping closing : Mishap)

/-- A document with the places of its parts. -/
inductive Tree where
  | scalar (peek stop : Spot) (value : Scalar)
  | list (start : Spot) (items : List Tree) (tail : Tail)
  | record (start : Spot) (members : List (Key × Tree)) (tail : Tail)
  | broken (peek : Spot) (opening : Option Char) (reading skipping : Mishap)

namespace Tree

/-- The place a complaint about the first byte of the value names. -/
def peekSpot : Tree → Spot
  | .scalar peek _ _ => peek
  | .list start _ _ => ⟨start.line, start.column + 1⟩
  | .record start _ _ => ⟨start.line, start.column + 1⟩
  | .broken peek _ _ _ => peek

/-- The mishap of finding this value where `want` was wanted. -/
def mismatch (want : String) : Tree → Mishap
  | .scalar _ stop value =>
    let found (f : Found) : Mishap := ⟨.wrongType f want, stop⟩
    match value with
    | .null => found .null
    | .bool b => found (.bool b)
    | .number (.ok (.int n)) => found (.int n)
    | .number (.ok (.float x)) => found (.float x)
    | .number (.ok _) => found .null
    | .number (.error m) => m
    | .text (.ok s) => found (.text s)
    | .text (.error m) => m
  | .list start _ _ => ⟨.wrongType .list want, start⟩
  | .record start _ _ => ⟨.wrongType .record want, start⟩
  | .broken _ _ reading _ => reading

end Tree

/-- The complaints about a text that is no number, for one who reads it and for one who skips
it. -/
def badNumber (c : Cursor) : Mishap × Mishap :=
  match c.rest with
  | [] => (c.blame .endInValue, c.blame .badNumber)
  | _ => (c.blameNext .badNumber, c.blameNext .badNumber)

/-- Reads the digits that come next, of which there must be one. -/
def readDigitRow (c : Cursor) : Except (Mishap × Mishap) (List Char × Cursor) :=
  let ds := c.rest.takeWhile Char.isDigit
  if ds.isEmpty then .error (badNumber c) else .ok (ds, c.steps ds.length)

/-- Reads the digits of the whole part, where nothing comes after a zero in front. -/
def readWhole (c : Cursor) : Except (Mishap × Mishap) (List Char × Cursor) :=
  match c.rest.takeWhile Char.isDigit with
  | '0' :: _ :: _ => .error (badNumber (c.steps 1))
  | _ => readDigitRow c

/-- Reads the part after the point, if there is a point. -/
def readPart (c : Cursor) : Except (Mishap × Mishap) (Option (List Char) × Cursor) :=
  if c.rest.head? = some '.' then (readDigitRow c.step).map fun (ds, c) => (some ds, c)
  else .ok (none, c)

/-- Reads the exponent and whether it is negative, if there is one. -/
def readPower (c : Cursor) : Except (Mishap × Mishap) (Option (Bool × List Char) × Cursor) :=
  if c.rest.head? = some 'e' ∨ c.rest.head? = some 'E' then
    let c := c.step
    let (down, c) := match c.rest with
      | '-' :: _ => (true, c.step)
      | '+' :: _ => (false, c.step)
      | _ => (false, c)
    (readDigitRow c).map fun (ds, c) => (some (down, ds), c)
  else .ok (none, c)

/-- Whether a minus comes next, and the place after it. -/
def readMinus (c : Cursor) : Bool × Cursor :=
  if c.rest.head? = some '-' then (true, c.step) else (false, c)

/-- Takes a number apart. -/
def readNumber (c : Cursor) : Except (Mishap × Mishap) (NumberText × Cursor) := do
  let (negative, c) := readMinus c
  let (whole, c) ← readWhole c
  let (part, c) ← readPart c
  let (exponent, c) ← readPower c
  return (⟨negative, whole, part, exponent⟩, c)

/-- Steps over the letters of a word, of which the first is known to be right. -/
def readWord : List Char → Cursor → Except Mishap Cursor
  | [], c => .ok c
  | w :: word, c =>
    match c.rest with
    | [] => .error (c.blame .endInValue)
    | a :: _ => if a = w then readWord word c.step else .error (c.blameNext .expectedWord)

/-- Width of the signs before the digits of an exponent, which the digits do not count. -/
def exponentMark (start : Cursor) (t : NumberText) : Nat :=
  let size := (if t.negative then 1 else 0) + t.whole.length + (t.part.elim 0 (·.length + 1))
  match t.exponent, start.rest.drop size with
  | some _, _ :: sign :: _ => if sign = '-' || sign = '+' then 2 else 1
  | _, _ => 0

def numberLeaf (start : Cursor) (t : NumberText) : Scalar :=
  .number <| match t.value with
    | .ok v => .ok v
    | .error size => .error ((start.steps (size + exponentMark start t)).blame .numberOutOfRange)

/-- A broken leaf, and no cursor to go on from. -/
def brokenAt (start : Cursor) (reading skipping : Mishap) : Tree × Option Cursor :=
  (.broken start.peekSpot start.rest.head? reading skipping, none)

/-- Reads a text after its opening quote in both ways. -/
def textBoth (c : Cursor) : Except (Mishap × Mishap) (Except Mishap String × Cursor) :=
  let fuel := c.rest.length + 1
  match readText fuel [] c with
  | .ok (s, c) => .ok (.ok s, c)
  | .error m =>
    match skipText fuel c with
    | .ok c => .ok (.error m, c)
    | .error m' => .error (m, m')

mutual

/-- Reads a value. Where nothing is left to go on from, no cursor is given. -/
def readValue : Nat → Cursor → Tree × Option Cursor
  | 0, c => brokenAt c (c.blame .endInValue) (c.blame .endInValue)
  | fuel + 1, c =>
    let start := c.skipBlanks
    let word (letters : String) (value : Scalar) : Tree × Option Cursor :=
      match readWord letters.toList start with
      | .ok c => (.scalar start.peekSpot c.spot value, some c)
      | .error m => brokenAt start m m
    match start.rest with
    | [] => brokenAt start (start.blame .endInValue) (start.blame .endInValue)
    | a :: _ =>
      if a = 'n' then word "null" .null
      else if a = 't' then word "true" (.bool true)
      else if a = 'f' then word "false" (.bool false)
      else if a = '"' then
        match textBoth start.step with
        | .ok (s, c) => (.scalar start.peekSpot c.spot (.text s), some c)
        | .error (m, m') => brokenAt start m m'
      else if a = '[' then
        let (items, tail, stop) := readItems fuel true start.step
        (.list start.spot items tail, stop)
      else if a = '\x7b' then
        let (members, tail, stop) := readMembers fuel true start.step
        (.record start.spot members tail, stop)
      else if a = '-' || a.isDigit then
        match readNumber start with
        | .ok (t, c) => (.scalar start.peekSpot c.spot (numberLeaf start t), some c)
        | .error (m, m') => brokenAt start m m'
      else brokenAt start (start.blameNext .expectedValue) (start.blameNext .expectedValue)

def readItems : Nat → Bool → Cursor → List Tree × Tail × Option Cursor
  | 0, _, c => ([], .broken (c.blame .endInList) (c.blame .endInList) (c.blame .endInList), none)
  | fuel + 1, first, c =>
    let c := c.skipBlanks
    let broken (reading skipping closing : Complaint) (c : Cursor) :
        List Tree × Tail × Option Cursor :=
      ([], .broken (c.blameNext reading) (c.blameNext skipping) (c.blameNext closing), none)
    let item (c : Cursor) : List Tree × Tail × Option Cursor :=
      match readValue fuel c with
      | (t, none) =>
        ([t], .broken (c.blame .endInList) (c.blame .endInList) (c.blame .endInList), none)
      | (t, some c) =>
        let (ts, tail, stop) := readItems fuel false c
        (t :: ts, tail, stop)
    match c.rest with
    | [] => broken .endInList .endInList .endInList c
    | a :: _ =>
      if a = ']' then ([], .closed c.step.spot, some c.step)
      else if first then item c
      else if a = ',' then
        let c := c.step.skipBlanks
        match c.rest with
        | [] => broken .endInValue .endInValue .trailingCharacters c
        | b :: _ =>
          if b = ']' then broken .trailingComma .expectedValue .trailingComma c else item c
      else broken .expectedCommaOrListEnd .expectedCommaOrListEnd .trailingCharacters c

def readMembers : Nat → Bool → Cursor → List (Key × Tree) × Tail × Option Cursor
  | 0, _, c =>
    ([], .broken (c.blame .endInRecord) (c.blame .endInRecord) (c.blame .endInRecord), none)
  | fuel + 1, first, c =>
    let c := c.skipBlanks
    let start := c.spot
    let broken (reading skipping : Complaint) (closing : Mishap) (c : Cursor) :
        List (Key × Tree) × Tail × Option Cursor :=
      ([], .broken (c.blameNext reading) (c.blameNext skipping) closing, none)
    let value (key : Key) (c : Cursor) : List (Key × Tree) × Tail × Option Cursor :=
      let ended : Mishap := c.blame .endInRecord
      let (tree, stop) := match c.rest with
        | ':' :: _ => readValue fuel c.step
        | [] => (.broken c.spot none ended ended, none)
        | _ =>
          let m := c.blameNext .expectedColon
          (.broken c.spot none m m, none)
      match stop with
      | none => ([(key, tree)], .broken ended ended ended, none)
      | some c =>
        let (members, tail, stop) := readMembers fuel false c
        ((key, tree) :: members, tail, stop)
    let member (more : Option Mishap) (c : Cursor) : List (Key × Tree) × Tail × Option Cursor :=
      match textBoth c.step with
      | .error (m, m') => ([], .broken m m' (more.getD m), none)
      | .ok (name, c) =>
        let next := c.skipBlanks
        let resume := if next.rest.head? = some '\x7d' then next.step.spot else next.spot
        value ⟨name, start, c.spot, resume⟩ next
    let more : Mishap := ⟨.expectedValue, start⟩
    match c.rest with
    | [] =>
      broken .endInRecord .endInRecord
        (c.blame (if first then .endInValue else .endInRecord)) c
    | a :: _ =>
      if a = '\x7d' then ([], .closed c.step.spot, some c.step)
      else if first then
        if a = '"' then member none c
        else broken .keyNotText .keyNotText ((readValue fuel c).1.mismatch "variant identifier") c
      else if a = ',' then
        let c := c.step.skipBlanks
        match c.rest with
        | [] => broken .endInValue .endInRecord more c
        | b :: _ =>
          if b = '"' then member (some more) c
          else if b = '\x7d' then broken .trailingComma .keyNotText more c
          else broken .keyNotText .keyNotText more c
      else broken .expectedCommaOrRecordEnd .expectedCommaOrRecordEnd more c

end

/-- Reads a document: its tree, and the rest of the text after it. -/
def Tree.read (text : List Char) : Tree × Option Cursor :=
  readValue (2 * text.length + 2) ⟨text, {}⟩

end Novella.Json
