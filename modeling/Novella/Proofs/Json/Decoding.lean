import Novella.Proofs.Dict
import Novella.Proofs.Json.Reading

/-!
# What decoders find in a document

`Decodes d v a` says that the decoder `d` finds `a` in every tree that shows the value `v`. There
is one lemma for each decoder, and one for records that are described by a layout: a record is
decoded if each of its members fills the field of its name (`Fills`) and no field that has to be
there is missing. So a document is read back as what it was written for (`Decodes.pretty`).
-/

namespace Novella.Proofs

open Json

/-- In every tree that shows the value, the decoder finds `a`. -/
def Decodes {α : Type} (d : Decoder α) (v : Json) (a : α) : Prop := ∀ t, Shows t v → d t = .ok a

section Simple

variable {α β : Type} {d : Decoder α} {v : Json} {a : α}

lemma decodes_text (s : String) : Decodes decodeText (.text s) s := by
  intro t ht
  cases ht
  rfl

lemma decodes_bool (b : Bool) : Decodes decodeBool (.bool b) b := by
  intro t ht
  cases ht
  rfl

lemma decodes_float {x : Binary64} (h : x.isFinite = true) : Decodes decodeFloat (.float x) x := by
  intro t ht
  cases ht with
  | float => rfl
  | noFloat infinite => exact absurd h (Bool.eq_false_iff.1 infinite)

lemma decodes_nat {width n : Nat} (h : n < 2 ^ width) : Decodes (decodeNat width) (.nat n) n := by
  intro t ht
  cases ht
  have hlt : ((2 ^ width : Nat) : Int) = 2 ^ width := by push_cast; rfl
  have hin : ¬((n : Int) < 0 ∨ 2 ^ width ≤ (n : Int)) := by
    rw [← hlt]
    omega
  exact if_neg hin

/-- No tree that shows the value is `null`. -/
def Present (v : Json) : Prop := ∀ peek stop, ¬Shows (.scalar peek stop .null) v

lemma present_text (s : String) : Present (.text s) := fun _ _ h => nomatch h

lemma present_record (members : List (String × Json)) : Present (.record members) :=
  fun _ _ h => nomatch h

lemma decodes_none (d : Decoder α) : Decodes (decodeOption d) .null none := by
  intro t ht
  cases ht
  rfl

lemma Decodes.option (h : Decodes d v a) (hv : Present v) : Decodes (decodeOption d) v (some a) := by
  intro t ht
  rw [decodeOption, h t ht]
  · rfl
  · rintro peek stop rfl
    exact hv peek stop ht

lemma decodes_list {vs : List Json} {as : List α} (h : List.Forall₂ (Decodes d) vs as) :
    Decodes (decodeList d) (.list vs) as := by
  intro t ht
  cases ht with
  | @list _ _ items _ each =>
    have hitems : items.mapM d = .ok as := by
      refine mapM_of_forall₂ ?_
      induction h generalizing items with
      | nil =>
        cases each
        exact .nil
      | cons ha _ ih =>
        cases each with
        | cons ht each => exact .cons (ha _ ht) (ih each)
    rw [decodeList, hitems]
    rfl

lemma decodes_list_map {f : β → Json} {g : β → α} {l : List β} (h : ∀ b ∈ l, Decodes d (f b) (g b)) :
    Decodes (decodeList d) (.list (l.map f)) (l.map g) :=
  decodes_list (List.forall₂_map_left_iff.2 (List.forall₂_map_right_iff.2 (List.forall₂_same.2 h)))

lemma decodes_texts (items : List String) :
    Decodes (decodeList decodeText) (Json.texts items) items := by
  have hitems := decodes_list_map (d := decodeText) (l := items) fun s _ => decodes_text s
  rwa [List.map_id'] at hitems

/-- A tree that shows a record has a member for each of its members. -/
lemma members_of_shows {t : Tree} {kvs : List (String × Json)} (h : Shows t (.record kvs)) :
    ∃ start members stop, t = .record start members (.closed stop) ∧
      List.Forall₂ (fun m kv => m.1.name = .ok kv.1 ∧ Shows m.2 kv.2) members kvs := by
  cases h with
  | @record start stop members _ names values =>
    refine ⟨start, members, stop, rfl, ?_⟩
    induction names with
    | nil => exact .nil
    | cons hname _ ih =>
      cases values with
      | cons hvalue values => exact .cons ⟨hname, hvalue⟩ (ih values)

/-- A record with free names gives a dictionary. -/
lemma decodes_dict {entries : Dict String α} {f : α → Json}
    (h : ∀ e ∈ entries.entries, Decodes d (f e.2) e.2) :
    Decodes (decodeDict d) (.record (entries.entries.map fun e => (e.1, f e.2))) entries := by
  intro t ht
  obtain ⟨start, members, stop, rfl, hmembers⟩ := members_of_shows ht
  rw [List.forall₂_map_right_iff] at hmembers
  rw [decodeDict, mapM_of_forall₂ (?_ : List.Forall₂ _ members entries.entries)]
  · exact congrArg Except.ok (ofList_entries entries)
  refine List.forall₂_iff_zip.2 ⟨hmembers.length_eq, ?_⟩
  rintro ⟨key, t⟩ e hzip
  obtain ⟨hname, hshows⟩ := (List.forall₂_iff_zip.1 hmembers).2 hzip
  dsimp only at hname hshows ⊢
  rw [hname]
  change (d t >>= _) = _
  rw [h e (List.of_mem_zip hzip).2 t hshows]
  rfl

/-- One of several names is read from its text. -/
lemma decodes_variant {variants : List (String × α)} {name : String}
    (h : variants.lookup name = some a) : Decodes (decodeVariant variants) (.text name) a := by
  intro t ht
  cases ht
  rw [decodeVariant]
  dsimp only [bind, Except.bind]
  rw [h]

end Simple

/-! ## Records -/

section Records

variable {σ α : Type} {layout : Layout σ}

/-- The members fill their fields one after the other. -/
inductive Fills (layout : Layout σ) : σ → List (String × Json) → σ → Prop
  | nil {s : σ} : Fills layout s [] s
  | cons {s s' s'' : σ} {name : String} {v : Json} {rest : List (String × Json)} {slot : Slot σ}
      (found : layout.slots.find? (·.name = name) = some slot)
      (filled : ∀ t, Shows t v → slot.read s t = .ok s') (others : Fills layout s' rest s'') :
      Fills layout s ((name, v) :: rest) s''

/-- A field takes what its decoder finds. -/
lemma Decodes.fills {d : Decoder α} {v : Json} {a : α} {s s' : σ} {name : String}
    {presence : Presence} {set : σ → α → σ} {rest : List (String × Json)} (h : Decodes d v a)
    (found : layout.slots.find? (·.name = name) = some (Slot.of name presence d set))
    (others : Fills layout (set s a) rest s') : Fills layout s ((name, v) :: rest) s' :=
  .cons found (fun t ht => congrArg (Except.map (set s)) (h t ht)) others

lemma decodeNamed_of_fills {s s' : σ} {kvs : List (String × Json)} {members : List (Key × Tree)}
    (h : Fills layout s kvs s')
    (hmembers : List.Forall₂ (fun m kv => m.1.name = .ok kv.1 ∧ Shows m.2 kv.2) members kvs)
    {seen : List String} (hnodup : (kvs.map (·.1)).Nodup) (hseen : ∀ k ∈ kvs.map (·.1), k ∉ seen) :
    layout.decodeNamed seen s members = .ok ((kvs.map (·.1)).reverse ++ seen, s') := by
  induction h generalizing members seen with
  | nil =>
    cases hmembers
    rfl
  | @cons s s₁ s' name v rest slot found filled _ ih =>
    cases hmembers with
    | @cons m _ members _ hm hmembers =>
      obtain ⟨key, t⟩ := m
      obtain ⟨hname, ht⟩ := hm
      obtain ⟨hnew, hnodup⟩ := List.nodup_cons.1 hnodup
      obtain ⟨hfresh, hseen⟩ := List.forall_mem_cons.1 hseen
      have hseen' : ∀ k ∈ rest.map (·.1), k ∉ name :: seen := by
        intro k hk hmem
        rcases List.mem_cons.1 hmem with rfl | hmem
        · exact hnew hk
        · exact hseen k hk hmem
      have hrest := ih hmembers hnodup hseen'
      rw [Layout.decodeNamed, hname]
      dsimp only [bind, Except.bind]
      rw [found]
      dsimp only
      rw [if_neg hfresh, filled t ht]
      change layout.decodeNamed (name :: seen) s₁ members = _
      rw [hrest]
      simp only [List.map_cons, List.reverse_cons, List.append_assoc, List.singleton_append]

/-- A record is decoded member by member. -/
theorem decodes_record {kvs : List (String × Json)} {s : σ} (h : Fills layout layout.initial kvs s)
    (hnodup : (kvs.map (·.1)).Nodup)
    (hrequired : ∀ slot ∈ layout.slots, slot.presence = .required → slot.name ∈ kvs.map (·.1)) :
    Decodes layout.decode (.record kvs) s := by
  intro t ht
  obtain ⟨start, members, stop, rfl, hmembers⟩ := members_of_shows ht
  obtain ⟨seen, hseen⟩ : ∃ seen, seen = (kvs.map (·.1)).reverse ++ [] := ⟨_, rfl⟩
  have hnamed : layout.decodeNamed [] layout.initial members = .ok (seen, s) := by
    rw [hseen]
    exact decodeNamed_of_fills h hmembers hnodup fun _ _ => List.not_mem_nil
  have hcomplete : (layout.slots.find? fun slot =>
      slot.presence = .required && !seen.contains slot.name) = none := by
    rw [List.find?_eq_none]
    intro slot hslot hmissing
    simp only [hseen, Bool.and_eq_true, decide_eq_true_eq, List.append_nil, Bool.not_eq_true',
      List.contains_eq_mem, List.mem_reverse, decide_eq_false_iff_not] at hmissing
    exact hmissing.2 (hrequired slot hslot hmissing.1)
  rw [Layout.decode, hnamed]
  dsimp only [bind, Except.bind]
  rw [hcomplete]
  rfl

end Records

/-! ## Documents -/

/-- The text of a readable value is decoded as the value. -/
theorem Decodes.pretty {α : Type} {d : Decoder α} {v : Json} {a : α} (h : Decodes d v a)
    (hv : Readable v) : decodeDocument d (Json.pretty v) = .ok a := by
  obtain ⟨t, ht, hread⟩ := decodeDocument_pretty d hv
  rw [hread, h t ht]

theorem Decodes.compact {α : Type} {d : Decoder α} {v : Json} {a : α} (h : Decodes d v a)
    (hv : Readable v) : decodeDocument d (Json.compact v) = .ok a := by
  obtain ⟨t, ht, hread⟩ := decodeDocument_compact d hv
  rw [hread, h t ht]

end Novella.Proofs
