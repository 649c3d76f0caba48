import Mathlib.Tactic.Lemma
import Novella.Json.Decode

/-!
# Values that come back from their text

The text of a JSON value gives back its texts, truth values and structure, whatever they are. It gives
back a whole number if it has at most sixty-four bits. Of a floating-point number this is a condition
(`Exact`), since reading does not round every text to the nearest number. A value all numbers of
which come back is `Readable`; of a given value this can be decided.
-/

namespace Novella.Json

/-- What holds of a value as soon as it holds of all values in it holds of every value. -/
theorem json_induct {P : Json → Prop} (null : P .null) (bool : ∀ b, P (.bool b))
    (int : ∀ n, P (.int n)) (float : ∀ x, P (.float x)) (text : ∀ s, P (.text s))
    (list : ∀ items, (∀ v ∈ items, P v) → P (.list items))
    (record : ∀ members, (∀ m ∈ members, P m.2) → P (.record members)) : ∀ v, P v
  | .null => null
  | .bool b => bool b
  | .int n => int n
  | .float x => float x
  | .text s => text s
  | .list items => list items fun v hv =>
    have hsize : sizeOf v < sizeOf (Json.list items) := by
      have := List.sizeOf_lt_of_mem hv
      simp only [Json.list.sizeOf_spec]
      omega
    json_induct null bool int float text list record v
  | .record members => record members fun m hm =>
    have hsize : sizeOf m.2 < sizeOf (Json.record members) := by
      have := List.sizeOf_lt_of_mem hm
      have hsecond : sizeOf m.2 < sizeOf m := by
        cases m
        simp only [Prod.mk.sizeOf_spec]
        omega
      simp only [Json.record.sizeOf_spec]
      omega
    json_induct null bool int float text list record m.2
termination_by v => sizeOf v
decreasing_by all_goals exact hsize

/-- What is written for a number is read as the number. -/
def Exact (x : Binary64) : Prop := Json.read (writeFloat x) = .ok (.float x)

/-- All numbers of the value come back from its text, those that are not finite as `null`. -/
inductive Readable : Json → Prop
  | null : Readable .null
  | bool {b : Bool} : Readable (.bool b)
  | int {n : Int} (low : -2 ^ 63 ≤ n) (high : n < 2 ^ 64) : Readable (.int n)
  | float {x : Binary64} (exactly : x.isFinite = true → Exact x) : Readable (.float x)
  | text {s : String} : Readable (.text s)
  | list {items : List Json} (each : ∀ v ∈ items, Readable v) : Readable (.list items)
  | record {members : List (String × Json)} (each : ∀ m ∈ members, Readable m.2) :
      Readable (.record members)

section Parts

variable {α : Type}

lemma Readable.nat_lt {n : Nat} (h : Readable (.nat n)) : n < 2 ^ 64 := by
  cases h with
  | int low high => exact_mod_cast high

lemma Readable.member {members : List (String × Json)} (h : Readable (.record members))
    (name : String) {v : Json} (hmem : (name, v) ∈ members) : Readable v := by
  cases h with
  | record each => exact each _ hmem

/-- What is found in a readable record is readable. -/
lemma Readable.member? {v w : Json} (h : Readable v) (name : String) (hw : v.member? name = some w) :
    Readable w := by
  cases v with
  | record members =>
    obtain ⟨before, after, rfl, -⟩ := List.lookup_eq_some_iff.1 hw
    exact h.member name (by simp)
  | _ => cases hw

lemma Readable.of_list_map {f : α → Json} {l : List α} (h : Readable (.list (l.map f))) {a : α}
    (ha : a ∈ l) : Readable (f a) := by
  cases h with
  | list each => exact each _ (List.mem_map_of_mem ha)

lemma readable_nat {m : Nat} (h : m < 2 ^ 64) : Readable (.nat m) := by
  refine .int ?_ ?_ <;> omega

lemma readable_texts (items : List String) : Readable (Json.texts items) := by
  refine .list fun v hv => ?_
  obtain ⟨s, -, rfl⟩ := List.mem_map.1 hv
  exact .text

end Parts

/-! ## Deciding whether a value comes back -/

instance : DecidablePred Exact := fun x =>
  match h : Json.read (writeFloat x) with
  | .ok (.float y) => decidable_of_iff (y = x) (by simp [Exact, h])
  | .ok .null | .ok (.bool _) | .ok (.int _) | .ok (.text _) | .ok (.list _) | .ok (.record _)
  | .error _ => isFalse (by simp [Exact, h])

mutual

def isReadable : Json → Bool
  | .null | .bool _ | .text _ => true
  | .int n => decide (-2 ^ 63 ≤ n ∧ n < 2 ^ 64)
  | .float x => decide (x.isFinite = true → Exact x)
  | .list items => areReadable items
  | .record members => haveReadable members

def areReadable : List Json → Bool
  | [] => true
  | v :: rest => isReadable v && areReadable rest

def haveReadable : List (String × Json) → Bool
  | [] => true
  | (_, v) :: rest => isReadable v && haveReadable rest

end

lemma areReadable_iff (items : List Json) :
    areReadable items = true ↔ ∀ v ∈ items, isReadable v = true := by
  induction items with
  | nil => simp [areReadable]
  | cons v items ih => simp [areReadable, ih]

lemma haveReadable_iff (members : List (String × Json)) :
    haveReadable members = true ↔ ∀ m ∈ members, isReadable m.2 = true := by
  induction members with
  | nil => simp [haveReadable]
  | cons m members ih => simp [haveReadable, ih]

theorem isReadable_iff (v : Json) : isReadable v = true ↔ Readable v := by
  induction v using json_induct with
  | null => exact ⟨fun _ => .null, fun _ => rfl⟩
  | bool b => exact ⟨fun _ => .bool, fun _ => rfl⟩
  | text s => exact ⟨fun _ => .text, fun _ => rfl⟩
  | int n =>
    rw [isReadable, decide_eq_true_eq]
    refine ⟨fun h => .int h.1 h.2, fun h => ?_⟩
    cases h with
    | int low high => exact ⟨low, high⟩
  | float x =>
    rw [isReadable, decide_eq_true_eq]
    refine ⟨.float, fun h => ?_⟩
    cases h with
    | float exactly => exact exactly
  | list items ih =>
    rw [isReadable, areReadable_iff]
    refine ⟨fun h => .list fun v hv => (ih v hv).1 (h v hv), fun h v hv => ?_⟩
    cases h with
    | list each => exact (ih v hv).2 (each v hv)
  | record members ih =>
    rw [isReadable, haveReadable_iff]
    refine ⟨fun h => .record fun m hm => (ih m hm).1 (h m hm), fun h m hm => ?_⟩
    cases h with
    | record each => exact (ih m hm).2 (each m hm)

instance : DecidablePred Readable := fun v => decidable_of_iff _ (isReadable_iff v)

end Novella.Json
