import Mathlib.Tactic.Lemma
import Novella.Json.Decode
import Novella.Proofs.Json.Readable

/-!
# The written forms of JSON values

The two written forms of a JSON value differ in the blanks between its parts only: each of them is
the text of the value with its own spacing (`toList_prettyAt`, `toList_compact`).
-/

namespace Novella.Json

/-- The blanks between the parts of a document: before an item at a depth, and after a colon. -/
structure Spacing where
  gap : Nat → List Char
  afterColon : List Char

namespace Spacing

def compact : Spacing := ⟨fun _ => [], []⟩

def pretty : Spacing := ⟨fun depth => '\n' :: List.replicate (2 * depth) ' ', [' ']⟩

end Spacing

mutual

/-- The text of a value with the given blanks between its parts. -/
def spelled (s : Spacing) (depth : Nat) : Json → List Char
  | .null => "null".toList
  | .bool b => (writeBool b).toList
  | .int n => (toString n).toList
  | .float x => (writeFloat x).toList
  | .text t => (quote t).toList
  | .list [] => ['[', ']']
  | .list (v :: rest) => '[' :: (s.gap (depth + 1) ++ (spelled s (depth + 1) v ++
      (spelledItems s (depth + 1) rest ++ (s.gap depth ++ [']']))))
  | .record [] => ['\x7b', '\x7d']
  | .record ((k, v) :: rest) => '\x7b' :: (s.gap (depth + 1) ++ ((quote k).toList ++
      (':' :: (s.afterColon ++ (spelled s (depth + 1) v ++
        (spelledMembers s (depth + 1) rest ++ (s.gap depth ++ ['\x7d'])))))))

def spelledItems (s : Spacing) (depth : Nat) : List Json → List Char
  | [] => []
  | v :: rest => ',' :: (s.gap depth ++ (spelled s depth v ++ spelledItems s depth rest))

def spelledMembers (s : Spacing) (depth : Nat) : List (String × Json) → List Char
  | [] => []
  | (k, v) :: rest => ',' :: (s.gap depth ++ ((quote k).toList ++ (':' :: (s.afterColon ++
      (spelled s depth v ++ spelledMembers s depth rest)))))

end

end Novella.Json

namespace Novella.Proofs

open Json

/-- A blank of a document. -/
def isGap (c : Char) : Bool := c = ' ' || c = '\n' || c = '\t' || c = '\r'

/-- The spacing puts nothing but blanks between the parts. -/
structure Blank (s : Spacing) : Prop where
  gap : ∀ depth, ∀ a ∈ s.gap depth, isGap a = true
  afterColon : ∀ a ∈ s.afterColon, isGap a = true

lemma blank_compact : Blank .compact where
  gap _ a ha := by cases ha
  afterColon a ha := by cases ha

lemma blank_pretty : Blank .pretty where
  gap depth a ha := by
    rcases List.mem_cons.1 ha with rfl | ha
    · decide
    · rw [(List.mem_replicate.1 ha).2]
      decide
  afterColon a ha := by
    rw [List.mem_singleton.1 ha]
    decide

lemma toList_newLine (depth : Nat) : (newLine depth).toList = Spacing.pretty.gap depth :=
  String.toList_ofList

mutual

lemma toList_prettyAt (depth : Nat) : ∀ v, (prettyAt depth v).toList = spelled .pretty depth v
  | .null => rfl
  | .bool _ => rfl
  | .int _ => rfl
  | .float _ => rfl
  | .text _ => rfl
  | .list [] => by
    simp only [prettyAt, spelled]
    rfl
  | .list (v :: rest) => by
    simp only [prettyAt, spelled, String.toList_append, toList_newLine, toList_prettyAt _ v,
      toList_prettyItems _ rest, List.append_assoc]
    rfl
  | .record [] => by
    simp only [prettyAt, spelled]
    rfl
  | .record ((k, v) :: rest) => by
    simp only [prettyAt, spelled, String.toList_append, toList_newLine, toList_prettyAt _ v,
      toList_prettyMembers _ rest, List.append_assoc]
    rfl

lemma toList_prettyItems (depth : Nat) :
    ∀ vs, (prettyItems depth vs).toList = spelledItems .pretty depth vs
  | [] => rfl
  | v :: rest => by
    simp only [prettyItems, spelledItems, String.toList_append, toList_newLine,
      toList_prettyAt _ v, toList_prettyItems _ rest, List.append_assoc]
    rfl

lemma toList_prettyMembers (depth : Nat) :
    ∀ kvs, (prettyMembers depth kvs).toList = spelledMembers .pretty depth kvs
  | [] => rfl
  | (k, v) :: rest => by
    simp only [prettyMembers, spelledMembers, String.toList_append, toList_newLine,
      toList_prettyAt _ v, toList_prettyMembers _ rest, List.append_assoc]
    rfl

end

lemma toList_compactItems {depth : Nat} {v : Json} {vs : List Json}
    (h : ∀ w ∈ v :: vs, (compact w).toList = spelled .compact depth w) :
    (compactItems (v :: vs)).toList = spelled .compact depth v ++ spelledItems .compact depth vs := by
  induction vs generalizing v with
  | nil => rw [compactItems, h v List.mem_cons_self, spelledItems, List.append_nil]
  | cons w vs ih =>
    obtain ⟨hv, hvs⟩ := List.forall_mem_cons.1 h
    simp only [compactItems, spelledItems, String.toList_append, hv, ih hvs, List.append_assoc]
    rfl

lemma toList_compactMembers {depth : Nat} {k : String} {v : Json} {kvs : List (String × Json)}
    (h : ∀ m ∈ (k, v) :: kvs, (compact m.2).toList = spelled .compact depth m.2) :
    (compactMembers ((k, v) :: kvs)).toList = (quote k).toList ++
      (':' :: (spelled .compact depth v ++ spelledMembers .compact depth kvs)) := by
  induction kvs generalizing k v with
  | nil =>
    have hv := h (k, v) List.mem_cons_self
    simp only [compactMembers, spelledMembers, String.toList_append, hv, List.append_nil,
      List.append_assoc]
    rfl
  | cons m kvs ih =>
    obtain ⟨hv, hkvs⟩ := List.forall_mem_cons.1 h
    simp only [compactMembers, spelledMembers, String.toList_append, hv, ih hkvs,
      List.append_assoc]
    rfl

lemma toList_compact (v : Json) : ∀ depth, (compact v).toList = spelled .compact depth v := by
  induction v using json_induct with
  | null => exact fun _ => rfl
  | bool b => exact fun _ => rfl
  | int n => exact fun _ => rfl
  | float x => exact fun _ => rfl
  | text s => exact fun _ => rfl
  | list items ih =>
    intro depth
    cases items with
    | nil => rfl
    | cons v vs =>
      have hitems := toList_compactItems fun w hw => ih w hw (depth + 1)
      simp only [compact, spelled, String.toList_append, hitems, List.append_assoc]
      rfl
  | record members ih =>
    intro depth
    cases members with
    | nil =>
      simp only [compact, compactMembers, spelled]
      rfl
    | cons m kvs =>
      obtain ⟨k, v⟩ := m
      have hmembers := toList_compactMembers fun m hm => ih m hm (depth + 1)
      simp only [compact, spelled, String.toList_append, hmembers, List.append_assoc,
        List.cons_append]
      rfl

lemma toList_quote (k : String) : (quote k).toList = '"' :: (k.toList.flatMap escapeChar ++ ['"']) := by
  rw [quote, String.toList_ofList]

end Novella.Proofs
