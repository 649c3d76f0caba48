import Novella.Graph.Document
import Novella.Proofs.Dict
import Novella.Proofs.Json.Ranges
import Novella.Proofs.Results

/-!
# What decoders give

`Yields d P` says that what the decoder `d` finds has the property `P`, whatever document it is
given. A number is in range, a list or a table has items with the property of its items, and a
record has every property that its fields keep (`yields_layout`).
-/

namespace Novella.Proofs

open Json

/-- What the decoder finds in a tree whose numbers are in range has the property. -/
def Yields {α : Type} (d : Decoder α) (P : α → Prop) : Prop :=
  ∀ t a, Ranged t → d t = .ok a → P a

section Decoders

variable {α σ : Type} {d : Decoder α} {P : α → Prop} {Q : σ → Prop}

lemma yields_true (d : Decoder α) : Yields d fun _ => True := fun _ _ _ _ => trivial

lemma yields_nat (width : Nat) : Yields (decodeNat width) (· < 2 ^ width) := by
  intro t n _ h
  unfold decodeNat at h
  split at h
  · dsimp only at h
    split at h
    · cases h
    · next hin =>
      split at h
      · next m _ _ _ =>
        obtain rfl := Except.ok.inj h
        have hlt : ((2 ^ width : Nat) : Int) = 2 ^ width := by push_cast; rfl
        change ¬((m : Int) < 0 ∨ 2 ^ width ≤ (m : Int)) at hin
        rw [← hlt] at hin
        omega
      · cases h
  · cases h

lemma yields_float : Yields decodeFloat (·.isFinite = true) := by
  intro t x ht h
  unfold decodeFloat at h
  split at h
  · obtain rfl := Except.ok.inj h
    cases ht with
    | scalar number =>
      obtain ⟨hlow, hhigh⟩ := number _ rfl
      exact isFinite_ofInt hlow hhigh
  · obtain rfl := Except.ok.inj h
    cases ht with
    | scalar number => exact number _ rfl
  · cases h

lemma yields_any (room : Nat) : Yields (decodeAny room) InRange := by
  intro t v ht h
  cases ht with
  | @scalar _ _ value number =>
    cases value with
    | null => exact Except.ok.inj h ▸ trivial
    | bool b => exact Except.ok.inj h ▸ trivial
    | number w =>
      obtain rfl : w = .ok v := h
      exact number v rfl
    | text s =>
      obtain ⟨_, -, rfl⟩ := exists_of_map h
      trivial
  | list each =>
    rw [decodeAny] at h
    split at h
    · cases h
    obtain ⟨_, -, h⟩ := exists_of_bind h
    obtain ⟨_, -, h⟩ := exists_of_bind h
    exact Except.ok.inj h ▸ trivial
  | record each =>
    rw [decodeAny] at h
    split at h
    · cases h
    obtain ⟨_, -, h⟩ := exists_of_bind h
    obtain ⟨_, -, h⟩ := exists_of_bind h
    exact Except.ok.inj h ▸ trivial
  | broken => cases h

lemma Yields.list (h : Yields d P) : Yields (decodeList d) fun as => ∀ a ∈ as, P a := by
  intro t as ht hread
  cases ht with
  | list each =>
    obtain ⟨vs, hvs, hread⟩ := exists_of_bind hread
    obtain ⟨_, -, hread⟩ := exists_of_bind hread
    obtain rfl := Except.ok.inj hread
    intro a ha
    obtain ⟨t, ht, hd⟩ := mem_of_mapM hvs ha
    exact h t a (each t ht) hd
  | _ => cases hread

lemma Yields.dict (h : Yields d P) : Yields (decodeDict d) fun as => ∀ e ∈ as.entries, P e.2 := by
  intro t as ht hread
  cases ht with
  | record each =>
    obtain ⟨vs, hvs, hread⟩ := exists_of_bind hread
    obtain ⟨_, -, hread⟩ := exists_of_bind hread
    cases hread
    intro e he
    obtain ⟨⟨key, t⟩, hmem, hd⟩ := mem_of_mapM hvs (mem_of_mem_ofList he)
    obtain ⟨name, -, hd⟩ := exists_of_bind hd
    obtain ⟨v, hv, hd⟩ := exists_of_bind hd
    obtain rfl := Except.ok.inj hd
    exact h t v (each _ hmem) hv
  | _ => cases hread

/-- A field that is read keeps the property of the record. -/
def Slot.Keeps (Q : σ → Prop) (slot : Slot σ) : Prop :=
  ∀ s t s', Ranged t → Q s → slot.read s t = .ok s' → Q s'

lemma Yields.keeps (h : Yields d P) {name : String} {presence : Presence} {set : σ → α → σ}
    (hset : ∀ s a, Q s → P a → Q (set s a)) : Slot.Keeps Q (Slot.of name presence d set) := by
  intro s t s' ht hs hread
  obtain ⟨a, ha, rfl⟩ := exists_of_map hread
  exact hset s a hs (h t a ht ha)

variable {layout : Layout σ}

lemma decodeNamed_keeps (hslots : ∀ slot ∈ layout.slots, Slot.Keeps Q slot)
    {members : List (Key × Tree)} (hmembers : ∀ m ∈ members, Ranged m.2) {seen seen' : List String}
    {s s' : σ} (hs : Q s) (h : layout.decodeNamed seen s members = .ok (seen', s')) : Q s' := by
  induction members generalizing seen s with
  | nil =>
    obtain ⟨-, rfl⟩ := Prod.mk.inj (Except.ok.inj h)
    exact hs
  | cons m members ih =>
    obtain ⟨hm, hmembers⟩ := List.forall_mem_cons.1 hmembers
    rw [Layout.decodeNamed] at h
    obtain ⟨name, -, h⟩ := exists_of_bind h
    split at h
    · obtain ⟨_, -, h⟩ := exists_of_bind h
      exact ih hmembers hs h
    · next slot hslot =>
      split at h
      · cases h
      obtain ⟨s₁, hs₁, h⟩ := exists_of_bind h
      exact ih hmembers (hslots slot (List.mem_of_find?_eq_some hslot) s _ s₁ hm hs hs₁) h

lemma decodePlain_keeps {slots : List (Slot σ)} (hslots : ∀ slot ∈ slots, Slot.Keeps Q slot)
    {items : List Tree} (hitems : ∀ t ∈ items, Ranged t) {tail : Tail} {index : Nat} {s s' : σ}
    (hs : Q s) (h : layout.decodePlain tail index s slots items = .ok s') : Q s' := by
  induction slots generalizing index s items with
  | nil =>
    cases items with
    | nil =>
      unfold Layout.decodePlain at h
      split at h
      · exact Except.ok.inj h ▸ hs
      · cases h
    | cons t items => cases h
  | cons slot slots ih =>
    obtain ⟨hslot, hslots⟩ := List.forall_mem_cons.1 hslots
    cases items with
    | nil =>
      unfold Layout.decodePlain at h
      split at h
      · cases h
      · split at h
        · exact ih hslots hitems hs h
        · cases h
    | cons t items =>
      obtain ⟨ht, hitems⟩ := List.forall_mem_cons.1 hitems
      rw [Layout.decodePlain] at h
      obtain ⟨s₁, hs₁, h⟩ := exists_of_bind h
      exact ih hslots hitems (hslot s t s₁ ht hs hs₁) h

/-- A record has the property that its fields keep. -/
lemma yields_layout (hinitial : Q layout.initial)
    (hslots : ∀ slot ∈ layout.slots, Slot.Keeps Q slot) : Yields layout.decode Q := by
  intro t s ht h
  cases ht with
  | record each =>
    obtain ⟨⟨seen, s₁⟩, hs₁, h⟩ := exists_of_bind h
    obtain ⟨_, -, h⟩ := exists_of_bind h
    split at h
    · cases h
    · obtain rfl := Except.ok.inj h
      exact decodeNamed_keeps hslots each hinitial hs₁
  | list each => exact decodePlain_keeps hslots each hinitial h
  | _ => cases h

lemma Yields.readDocument (h : Yields d P) {text : String} {a : α}
    (hread : Novella.readDocument d text = .ok a) : P a := by
  have htree : Ranged (Tree.read text.toList).1 := (ranged_read _).1 _
  have hdoc := eq_ok_of_mapError hread
  rw [decodeDocument] at hdoc
  generalize Tree.read text.toList = found at htree hdoc
  obtain ⟨b, hb, hstop⟩ := exists_of_bind hdoc
  have hfound : b = a := by
    split at hstop
    · exact Except.ok.inj hstop
    · dsimp only at hstop
      split at hstop
      · exact Except.ok.inj hstop
      · cases hstop
  exact hfound ▸ h _ b htree hb

end Decoders

end Novella.Proofs
