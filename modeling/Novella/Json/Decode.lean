import Novella.Json.Tree
import Novella.Dict

/-!
# Decoders

A `Decoder α` turns a document tree into a value, or blames the first thing that is wrong.
Records are described by a `Layout`: the names of their fields in order, which of them may be
missing, and how each is read into the value under construction. A record may be written with
its field names or as a list of its fields in order.
-/

namespace Novella.Json

abbrev Decoder (α : Type) := Tree → Except Mishap α

/-- What a tail means to one who has read all items before it. -/
def Tail.read : Tail → Except Mishap Spot
  | .closed stop => .ok stop
  | .broken reading _ _ => .error reading

/-- What a tail means to one who skips. -/
def Tail.skip : Tail → Except Mishap Unit
  | .closed _ => .ok ()
  | .broken _ skipping _ => .error skipping

mutual

def skip : Decoder Unit
  | .scalar _ _ _ => .ok ()
  | .list _ items tail => do skipItems items; tail.skip
  | .record _ members tail => do skipMembers members; tail.skip
  | .broken _ _ _ skipping => .error skipping

def skipItems : List Tree → Except Mishap Unit
  | [] => .ok ()
  | t :: rest => do skip t; skipItems rest

def skipMembers : List (Key × Tree) → Except Mishap Unit
  | [] => .ok ()
  | (_, t) :: rest => do skip t; skipMembers rest

end

mutual

/-- Reads a value of any form that opens brackets less than `room` deep. The members of a
record come out in the order of their names, and of two members with one name the later
counts. -/
def decodeAny (room : Nat) : Decoder Json
  | .scalar _ _ value =>
    match value with
    | .null => .ok .null
    | .bool b => .ok (.bool b)
    | .number v => v
    | .text s => s.map .text
  | .list start items tail => do
    if room ≤ 1 then throw ⟨.tooDeep, ⟨start.line, start.column + 1⟩⟩
    let vs ← decodeItems (room - 1) items
    let _ ← tail.read
    return .list vs
  | .record start members tail => do
    if room ≤ 1 then throw ⟨.tooDeep, ⟨start.line, start.column + 1⟩⟩
    let vs ← decodeMembers (room - 1) members
    let _ ← tail.read
    return .record (Dict.ofList vs).entries
  | .broken _ _ reading _ => .error reading

def decodeItems (room : Nat) : List Tree → Except Mishap (List Json)
  | [] => .ok []
  | t :: rest => do
    let v ← decodeAny room t
    let vs ← decodeItems room rest
    return v :: vs

def decodeMembers (room : Nat) : List (Key × Tree) → Except Mishap (List (String × Json))
  | [] => .ok []
  | (key, t) :: rest => do
    let name ← key.name
    let v ← decodeAny room t
    let vs ← decodeMembers room rest
    return (name, v) :: vs

end

def decodeText : Decoder String
  | .scalar _ _ (.text s) => s
  | t => .error (t.mismatch "a string")

def decodeBool : Decoder Bool
  | .scalar _ _ (.bool b) => .ok b
  | t => .error (t.mismatch "a boolean")

/-- Reads a natural number below `2 ^ width`. -/
def decodeNat (width : Nat) : Decoder Nat
  | t@(.scalar _ stop (.number (.ok (.int n)))) =>
    let want := "u" ++ toString width
    if n < 0 ∨ 2 ^ width ≤ n then .error ⟨.wrongValue (.int n) want, stop⟩
    else match n with
      | .ofNat n => .ok n
      | .negSucc _ => .error (t.mismatch want)
  | t => .error (t.mismatch ("u" ++ toString width))

/-- Reads a floating-point number; a whole number counts as one. -/
def decodeFloat : Decoder Binary64
  | .scalar _ _ (.number (.ok (.int n))) => .ok (.ofInt n)
  | .scalar _ _ (.number (.ok (.float x))) => .ok x
  | t => .error (t.mismatch "f64")

def decodeOption {α : Type} (d : Decoder α) : Decoder (Option α)
  | .scalar _ _ .null => .ok none
  | t => (d t).map some

def decodeList {α : Type} (d : Decoder α) : Decoder (List α)
  | .list _ items tail => do
    let vs ← items.mapM d
    let _ ← tail.read
    return vs
  | t => .error (t.mismatch "a sequence")

/-- Reads a record with free names. Of two members with one name the later counts. -/
def decodeDict {α : Type} (d : Decoder α) : Decoder (Dict String α)
  | .record _ members tail => do
    let vs ← members.mapM fun (key, t) => do
      let name ← key.name
      let v ← d t
      return (name, v)
    let _ ← tail.read
    return Dict.ofList vs
  | t => .error (t.mismatch "a map")

/-- Reads one of several names: a text, or a record with the name over `null`. -/
def decodeVariant {α : Type} (variants : List (String × α)) : Decoder α := fun t =>
  let named (name : String) (stop : Spot) : Except Mishap α :=
    match variants.lookup name with
    | some a => .ok a
    | none => .error ⟨.unknownVariant name (variants.map (·.1)), stop⟩
  match t with
  | .scalar _ stop (.text s) => do named (← s) stop
  | .record _ [] (.closed stop) => .error ⟨.expectedValue, stop⟩
  | .record _ [] (.broken _ _ closing) => .error closing
  | .record _ ((key, value) :: others) tail => do
    let a ← named (← key.name) key.stop
    match value with
    | .scalar _ _ .null =>
      match others, tail with
      | [], .closed _ => return a
      | [], .broken _ _ closing => throw closing
      | (next, _) :: _, _ => throw ⟨.expectedValue, next.start⟩
    | value => throw (value.mismatch "unit")
  | .broken peek opening reading _ =>
    match opening with
    | none => .error reading
    | some c => .error (if c = '"' then reading else ⟨.expectedValue, peek⟩)
  | t => .error ⟨.expectedValue, t.peekSpot⟩

/-! ## Records -/

/-- When a field may be missing: never, only where the fields are named, or anywhere, in
which case the later fields of a list may be missing too. -/
inductive Presence where
  | required
  | nullable
  | defaulted
  deriving DecidableEq

/-- A field of a record that is read into a value of type `σ`. -/
structure Slot (σ : Type) where
  name : String
  presence : Presence
  read : σ → Decoder σ

def Slot.of {σ α : Type} (name : String) (presence : Presence) (d : Decoder α)
    (set : σ → α → σ) : Slot σ :=
  ⟨name, presence, fun s t => (d t).map (set s)⟩

/-- A record: its name, the value it has while no field is read, and its fields in order. -/
structure Layout (σ : Type) where
  name : String
  initial : σ
  slots : List (Slot σ)

namespace Layout

variable {σ : Type}

def want (layout : Layout σ) : String := "struct " ++ layout.name

/-- Reads named fields in the order of the document; `seen` are the names met so far. -/
def decodeNamed (layout : Layout σ) :
    List String → σ → List (Key × Tree) → Except Mishap (List String × σ)
  | seen, s, [] => .ok (seen, s)
  | seen, s, (key, t) :: rest => do
    let name ← key.name
    match layout.slots.find? (·.name = name) with
    | none =>
      skip t
      decodeNamed layout seen s rest
    | some slot =>
      if name ∈ seen then throw ⟨.duplicateField name, key.resume⟩
      let s ← slot.read s t
      decodeNamed layout (name :: seen) s rest

/-- Reads fields in their order; `index` of them are read. -/
def decodePlain (layout : Layout σ) (tail : Tail) :
    Nat → σ → List (Slot σ) → List Tree → Except Mishap σ
  | _, s, [], [] =>
    match tail with
    | .closed _ => .ok s
    | .broken _ _ closing => .error closing
  | _, _, [], t :: _ => .error ⟨.trailingCharacters, t.peekSpot⟩
  | index, s, slot :: slots, [] =>
    match tail with
    | .broken reading _ _ => .error reading
    | .closed stop =>
      if slot.presence = .defaulted then decodePlain layout tail (index + 1) s slots []
      else .error ⟨.wrongLength index
        (layout.want ++ " with " ++ toString layout.slots.length ++ " elements"), stop⟩
  | index, s, slot :: slots, t :: rest => do
    let s ← slot.read s t
    decodePlain layout tail (index + 1) s slots rest

def decode (layout : Layout σ) : Decoder σ
  | .record _ members tail => do
    let (seen, s) ← layout.decodeNamed [] layout.initial members
    let stop ← tail.read
    match layout.slots.find? fun slot => slot.presence = .required && !seen.contains slot.name with
    | some slot => throw ⟨.missingField slot.name, stop⟩
    | none => return s
  | .list _ items tail => layout.decodePlain tail 0 layout.initial layout.slots items
  | t => .error (t.mismatch layout.want)

end Layout

def decodeDocument {α : Type} (d : Decoder α) (text : String) : Except Mishap α := do
  let (tree, stop) := Tree.read text.toList
  let a ← d tree
  match stop with
  | none => return a
  | some c =>
    let c := c.skipBlanks
    if c.rest.isEmpty then return a else throw (c.blameNext .trailingCharacters)

def read (text : String) : Except Mishap Json :=
  decodeDocument (decodeAny (text.length + 2)) text

end Novella.Json
