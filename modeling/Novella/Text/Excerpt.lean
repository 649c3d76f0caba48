/-!
# Excerpts

A message about a place in a long text carries an excerpt of the text: whole characters that
reach at most a fixed number of bytes beyond the place on either side, and the bytes of the
excerpt that are meant. Offsets and lengths count bytes of the UTF-8 form.
-/

namespace Novella.Text

def byteCount (cs : List Char) : Nat := cs.foldl (fun size c => size + c.utf8Size) 0

/-- Drops the characters that end within the first `n` bytes. -/
def dropBytes : Nat → List Char → List Char
  | _, [] => []
  | n, c :: rest => if c.utf8Size ≤ n then dropBytes (n - c.utf8Size) rest else c :: rest

/-- Takes the characters that begin within the first `n` bytes. -/
def takeBytes : Nat → List Char → List Char
  | _, [] => []
  | n, c :: rest => if n = 0 then [] else c :: takeBytes (n - c.utf8Size) rest

/-- Whether byte `n` is the first one of a character or the end of the text. -/
def isBoundary : Nat → List Char → Bool
  | 0, _ => true
  | _ + 1, [] => false
  | n + 1, c :: rest => c.utf8Size ≤ n + 1 && isBoundary (n + 1 - c.utf8Size) rest

/-- The last boundary that is not after byte `n`. -/
def boundaryBefore (cs : List Char) : Nat → Nat
  | 0 => 0
  | n + 1 => if isBoundary (n + 1) cs then n + 1 else boundaryBefore cs n

/-- The first boundary from byte `n` on, where the text ends `room` bytes further on. -/
def boundaryAfter (cs : List Char) (n : Nat) : (room : Nat) → Nat
  | 0 => n
  | room + 1 => if isBoundary n cs then n else boundaryAfter cs (n + 1) room

/-- The characters from byte `start` up to byte `stop`. A text can be cut at boundaries only, and
not backwards. -/
def slice? (start stop : Nat) (cs : List Char) : Option (List Char) :=
  if start ≤ stop && isBoundary start cs && isBoundary stop cs then
    some (takeBytes (stop - start) (dropBytes start cs))
  else none

/-- A piece of a text, and the bytes of the piece that a message is about. -/
structure Excerpt where
  text : String := ""
  offset : Nat := 0
  length : Nat := 0
  deriving DecidableEq, Repr

namespace Excerpt

/-- Bytes of context on either side of the place. -/
def context : Nat := 160

/-- Where the excerpt for a place at `offset` begins. -/
def start (source : List Char) (offset : Nat) : Nat := boundaryBefore source (offset - context)

/-- Where the excerpt for `length` bytes at `offset` ends. -/
def stop (source : List Char) (offset length : Nat) : Nat :=
  let reach := min (offset + length + context) (byteCount source)
  boundaryAfter source reach (byteCount source - reach)

/-- The excerpt around `length` bytes at `offset`. A place past the end is moved to the end,
and the bytes meant end with the excerpt at the latest. -/
def around (source : List Char) (offset length : Nat) : Excerpt :=
  let offset := min offset (byteCount source)
  let start := start source offset
  let text := (slice? start (stop source offset length) source).getD []
  ⟨String.ofList text, offset - start, min length (byteCount text - (offset - start))⟩

end Excerpt

end Novella.Text
