import Novella.Decimal.Reading

/-!
# TOML values

A table is defined once. It may come from a header of its own, from a header of a table inside
it, from a key with dots, or be written in one line; what may still be added to it depends on
that. A table which so far is only implied gets its header later; a table from dotted keys
takes more dotted keys; a table in one line takes nothing. Dates, times and lists of tables are
not covered.
-/

namespace Novella.Toml

/-- Where a table comes from. -/
inductive Origin where
  | header
  | implied
  | dotted
  | inline
  deriving DecidableEq, Repr

/-- A value of a document. The names in a table are distinct. -/
inductive Value where
  | bool (b : Bool)
  | int (n : Int64)
  | float (x : Binary64)
  | text (s : String)
  | list (items : List Value)
  | table (origin : Origin) (entries : List (String × Value))

abbrev Entries := List (String × Value)

namespace Entries

/-- Puts what `f` makes of the value under a name in its place, or at the end if there is no
such value. -/
def update (name : String) (f : Option Value → Option Value) : Entries → Option Entries
  | [] => (f none).map fun v => [(name, v)]
  | (n, v) :: rest =>
    if n = name then (f (some v)).map fun v => (n, v) :: rest
    else (update name f rest).map ((n, v) :: ·)

/-- Puts a value under a key with dots. The tables on the way come from keys with dots; the
key must be free. -/
def assign (key : String) (v : Value) : List String → Entries → Option Entries
  | [], es => update key (fun old => if old.isSome then none else some v) es
  | name :: path, es =>
    update name (fun
      | none => (assign key v path []).map (.table .dotted)
      | some (.table .dotted inner) => (assign key v path inner).map (.table .dotted)
      | some (.table .implied inner) =>
        if path.isEmpty then none else (assign key v path inner).map (.table .implied)
      | some _ => none) es

/-- Opens a table by its header. The tables on the way are implied where they are new. -/
def openTable (key : String) : List String → Entries → Option Entries
  | [], es =>
    update key (fun
      | none => some (.table .header [])
      | some (.table .implied inner) => some (.table .header inner)
      | some _ => none) es
  | name :: path, es =>
    update name (fun
      | none => (openTable key path []).map (.table .implied)
      | some (.table .inline _) => none
      | some (.table origin inner) => (openTable key path inner).map (.table origin)
      | some _ => none) es

def within (f : Entries → Option Entries) : List String → Entries → Option Entries
  | [], es => f es
  | name :: path, es =>
    update name (fun
      | some (.table origin inner) => (within f path inner).map (.table origin)
      | _ => none) es

end Entries

end Novella.Toml
