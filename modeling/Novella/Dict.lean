/-!
# Ordered dictionaries

A `Dict κ α` is a finite map listed in strictly increasing key order. The order is part of
the type, so two dictionaries with the same entries are equal, and every listing of one is
in key order. Text keys are ordered by code point, which is also the order of their UTF-8
bytes.
-/

namespace Novella

universe u v w

/-- Entries of `es` stand in strictly increasing key order. -/
def Dict.Sorted {κ : Type u} {α : Type v} [Ord κ] (es : List (κ × α)) : Prop :=
  es.Pairwise fun a b => compare a.1 b.1 = .lt

/-- A finite map with its entries in strictly increasing key order. -/
structure Dict (κ : Type u) (α : Type v) [Ord κ] where
  entries : List (κ × α) := []
  sorted : Dict.Sorted entries := by exact List.Pairwise.nil

namespace Dict

variable {κ : Type u} {α : Type v} {β : Type w} [Ord κ]

instance [DecidableEq κ] [DecidableEq α] : DecidableEq (Dict κ α) := fun a b =>
  decidable_of_iff (a.entries = b.entries)
    ⟨fun h => by cases a; cases b; cases h; rfl, fun h => h ▸ rfl⟩

def empty : Dict κ α := {}

instance : EmptyCollection (Dict κ α) := ⟨empty⟩

instance : Inhabited (Dict κ α) := ⟨empty⟩

def size (d : Dict κ α) : Nat := d.entries.length

def isEmpty (d : Dict κ α) : Bool := d.entries.isEmpty

def keys (d : Dict κ α) : List κ := d.entries.map (·.1)

def values (d : Dict κ α) : List α := d.entries.map (·.2)

def lookup (k : κ) : List (κ × α) → Option α
  | [] => none
  | (k', a) :: rest => if compare k k' = .eq then some a else lookup k rest

def get? (d : Dict κ α) (k : κ) : Option α := lookup k d.entries

def contains (d : Dict κ α) (k : κ) : Bool := (d.get? k).isSome

def filter (p : κ → α → Bool) (d : Dict κ α) : Dict κ α where
  entries := d.entries.filter fun e => p e.1 e.2
  sorted := List.Pairwise.filter _ d.sorted

def map (f : κ → α → β) (d : Dict κ α) : Dict κ β where
  entries := d.entries.map fun e => (e.1, f e.1 e.2)
  sorted := by simpa [Sorted, List.pairwise_map] using d.sorted

def erase (d : Dict κ α) (k : κ) : Dict κ α :=
  d.filter fun k' _ => compare k k' != .eq

/-- Puts `a` under `k` into a list of entries, in place of what `k` had. -/
def insertEntry (k : κ) (a : α) : List (κ × α) → List (κ × α)
  | [] => [(k, a)]
  | (k', b) :: rest =>
    match compare k k' with
    | .lt => (k, a) :: (k', b) :: rest
    | .eq => (k, a) :: rest
    | .gt => (k', b) :: insertEntry k a rest

theorem mem_insertEntry {k : κ} {a : α} {e : κ × α} :
    ∀ {es : List (κ × α)}, e ∈ insertEntry k a es → e = (k, a) ∨ e ∈ es
  | [], h => by simpa [insertEntry] using h
  | (k', b) :: rest, h => by
    simp only [insertEntry] at h
    split at h
    · simpa using h
    · rcases List.mem_cons.1 h with h | h
      · exact .inl h
      · exact .inr (List.mem_cons_of_mem _ h)
    · rcases List.mem_cons.1 h with h | h
      · exact .inr (h ▸ List.mem_cons_self)
      · exact (mem_insertEntry h).imp id (List.mem_cons_of_mem _)

variable [Std.TransOrd κ]

theorem sorted_insertEntry {k : κ} {a : α} :
    ∀ {es : List (κ × α)}, Sorted es → Sorted (insertEntry k a es)
  | [], _ => List.pairwise_singleton _ _
  | (k', b) :: rest, h => by
    have ⟨hhead, htail⟩ := List.pairwise_cons.1 h
    simp only [insertEntry]
    split
    · next hk =>
      refine List.pairwise_cons.2 ⟨fun e he => ?_, h⟩
      rcases List.mem_cons.1 he with rfl | he
      · exact hk
      · exact Std.TransCmp.lt_trans hk (hhead e he)
    · next hk =>
      exact List.pairwise_cons.2
        ⟨fun e he => Std.TransCmp.lt_of_eq_of_lt hk (hhead e he), htail⟩
    · next hk =>
      refine List.pairwise_cons.2 ⟨fun e he => ?_, sorted_insertEntry htail⟩
      rcases mem_insertEntry he with rfl | he
      · exact Std.OrientedCmp.lt_of_gt hk
      · exact hhead e he

def insert (d : Dict κ α) (k : κ) (a : α) : Dict κ α where
  entries := insertEntry k a d.entries
  sorted := sorted_insertEntry d.sorted

/-- Puts the pairs into the empty dictionary one after the other, so that of two pairs with
one key the later counts. -/
def ofList (es : List (κ × α)) : Dict κ α :=
  es.foldl (fun d e => d.insert e.1 e.2) empty

def modify (d : Dict κ α) (k : κ) (f : α → α) : Dict κ α :=
  d.map fun k' a => if compare k k' = .eq then f a else a

end Dict

end Novella
