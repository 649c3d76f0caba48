import Novella.Script.Lexeme
import Novella.Script.Program
import Novella.Script.Rule

/-!
# Parsers

A parser reads from an `Input` and either finds a value or misses; alternatives are tried in
order, and the first that finds something decides. Beside that it carries the `Frontier`: the
furthest place at which rules have missed so far, with the rules that missed there. It is what
a message about a faulty script names.

Every parser begins where a lexeme can begin: spaces are skipped once at the start and then
after each lexeme.
-/

namespace Novella.Script

/-- A place in a script: bytes before it, and line and column counted from one. -/
structure Place where
  offset : Nat := 0
  line : Nat := 1
  column : Nat := 1
  deriving DecidableEq, Repr

namespace Place

def step (p : Place) (c : Char) : Place :=
  if c = '\n' then ⟨p.offset + 1, p.line + 1, 1⟩
  else ⟨p.offset + c.utf8Size, p.line, p.column + 1⟩

def past (p : Place) (cs : List Char) : Place := cs.foldl step p

/-- The largest number of a line or column that a location keeps. -/
def largest : Nat := 2 ^ 32 - 1

def location (p : Place) : Location :=
  ⟨UInt32.ofNat (min p.line largest), UInt32.ofNat (min p.column largest)⟩

end Place

/-- The rest of a script, where it begins, and the offset and length of the first whole number
before it that is out of range. -/
structure Input where
  rest : List Char
  place : Place := {}
  overflow : Option (Nat × Nat) := none

def Input.skipSpaces (i : Input) : Input :=
  { i with
    rest := i.rest.dropWhile isSpace
    place := i.place.past (i.rest.takeWhile isSpace) }

/-- The furthest place where rules missed, and these rules in the order in which they missed. -/
structure Frontier where
  place : Place := {}
  rules : List Rule := []

namespace Frontier

/-- How many rules have missed at an offset, if it is the furthest. -/
def countAt (f : Frontier) (offset : Nat) : Nat :=
  if f.place.offset = offset then f.rules.length else 0

/-- Notes that `r` missed at `p`, where `before` rules had missed there when `r` was tried. A
rule whose parts missed in a single way at its own place is not noted: the part says more. -/
def note (f : Frontier) (r : Rule) (p : Place) (before : Nat) : Frontier :=
  if f.countAt p.offset = before + 1 then f
  else if p.offset < f.place.offset then f
  else if p.offset = f.place.offset then ⟨p, f.rules.take before ++ [r]⟩
  else ⟨p, [r]⟩

end Frontier

/-- Reads a value from an input or misses, and moves the frontier. -/
def Parser (α : Type) := Input → Frontier → Option (α × Input) × Frontier

namespace Parser

variable {α β : Type}

protected def pure (a : α) : Parser α := fun i f => (some (a, i), f)

protected def bind (p : Parser α) (q : α → Parser β) : Parser β := fun i f =>
  match p i f with
  | (none, f) => (none, f)
  | (some (a, i), f) => q a i f

instance : Monad Parser where
  pure := Parser.pure
  bind := Parser.bind

def miss : Parser α := fun _ f => (none, f)

def orElse (p q : Parser α) : Parser α := fun i f =>
  match p i f with
  | (none, f) => q i f
  | found => found

def first : List (Parser α) → Parser α
  | [] => miss
  | p :: ps => p.orElse (first ps)

def optional (p : Parser α) : Parser (Option α) := fun i f =>
  match p i f with
  | (none, f) => (some (none, i), f)
  | (some (a, i), f) => (some (some a, i), f)

/-- Reads with `p` until it misses, at most `n` times. -/
def upTo (p : Parser α) : Nat → Parser (List α)
  | 0 => Parser.pure []
  | n + 1 => fun i f =>
    match p i f with
    | (none, f) => (some ([], i), f)
    | (some (a, i), f) =>
      match upTo p n i f with
      | (none, f) => (none, f)
      | (some (as, i), f) => (some (a :: as, i), f)

/-- Reads with `p` until it misses. Each reading takes a character at least, so there are no
more of them than characters. -/
def many (p : Parser α) : Parser (List α) := fun i f => upTo p (i.rest.length + 1) i f

/-- Reads with `p` as the rule `r`, which is noted where `p` misses. -/
def rule (r : Rule) (p : Parser α) : Parser α := fun i f =>
  match p i f with
  | (none, f') => (none, f'.note r i.place (f.countAt i.place.offset))
  | found => found

def here : Parser Place := fun i f => (some (i.place, i), f)

/-- Notes that the whole number at `offset` is out of range, unless an earlier one is. -/
def noteOverflow (offset length : Nat) : Parser Unit := fun i f =>
  (some ((), { i with overflow := i.overflow.or (some (offset, length)) }), f)

def spaces : Parser Unit := fun i f => (some ((), i.skipSpaces), f)

def lexeme (scan : Scanner) : Parser (List Char) := fun i f =>
  match scan i.rest with
  | none => (none, f)
  | some (text, rest) =>
    (some (text, Input.skipSpaces { i with rest := rest, place := i.place.past text }), f)

def token (text : String) : Parser Unit := do
  let _ ← lexeme (scanText text.toList)
  return ()

def endOfText : Parser Unit := rule .endOfText fun i f =>
  if i.rest.isEmpty then (some ((), i), f) else (none, f)

end Parser

end Novella.Script
