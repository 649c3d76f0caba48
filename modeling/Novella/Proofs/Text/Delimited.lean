import Mathlib.Data.List.Basic
import Mathlib.Tactic.Lemma
import Novella.Text.Shown

/-!
# Texts that end where they end

A text that a message shows between quotes can be told from whatever follows it, since the quote that
ends it is the first without a backslash (`shown_delimited`). A text for which this needs a condition
on what follows is said to be delimited (`Delimits`); a list of items that commas and brackets delimit
is delimited itself (`Delimits.listed`).
-/

namespace Novella.Proofs

/-! ## Code points -/

section CodePoints

lemma digitChar_injective : ∀ m < 16, ∀ n < 16, Nat.digitChar m = Nat.digitChar n → m = n := by
  decide

lemma hexDigits_of_lt {n : Nat} (h : n < 16) : Text.hexDigits n = [Nat.digitChar n] :=
  Nat.toDigits_of_lt_base h

lemma hexDigits_of_le {n : Nat} (h : 16 ≤ n) :
    Text.hexDigits n = Text.hexDigits (n / 16) ++ [Nat.digitChar (n % 16)] :=
  Nat.toDigits_of_base_le (by decide) h

lemma hexDigits_ne_nil (n : Nat) : Text.hexDigits n ≠ [] := Nat.toDigits_ne_nil

lemma hexDigits_injective {m n : Nat} (h : Text.hexDigits m = Text.hexDigits n) : m = n := by
  induction m using Nat.strongRecOn generalizing n with
  | ind m ih =>
    rcases Nat.lt_or_ge m 16 with hm | hm <;> rcases Nat.lt_or_ge n 16 with hn | hn
    · rw [hexDigits_of_lt hm, hexDigits_of_lt hn] at h
      exact digitChar_injective m hm n hn (List.singleton_inj.1 h)
    · rw [hexDigits_of_lt hm, hexDigits_of_le hn] at h
      simp [List.singleton_eq_append_iff, hexDigits_ne_nil] at h
    · rw [hexDigits_of_le hm, hexDigits_of_lt hn] at h
      simp [List.append_eq_singleton_iff, hexDigits_ne_nil] at h
    · rw [hexDigits_of_le hm, hexDigits_of_le hn] at h
      obtain ⟨hfront, hlast⟩ := List.append_inj' h rfl
      have hdiv := ih (m / 16) (by omega) hfront
      have hmod := digitChar_injective _ (Nat.mod_lt m (by decide)) _ (Nat.mod_lt n (by decide))
        (List.singleton_inj.1 hlast)
      omega

lemma brace_notMem_hexDigits (n : Nat) : '\x7d' ∉ Text.hexDigits n := by
  have hdigit : ∀ k < 16, '\x7d' ≠ Nat.digitChar k := by decide
  induction n using Nat.strongRecOn with
  | ind n ih =>
    rcases Nat.lt_or_ge n 16 with hn | hn
    · rw [hexDigits_of_lt hn, List.mem_singleton]
      exact hdigit n hn
    · rw [hexDigits_of_le hn, List.mem_append, List.mem_singleton, not_or]
      exact ⟨ih (n / 16) (by omega), hdigit _ (Nat.mod_lt n (by decide))⟩

/-- Digits end at the first brace. -/
lemma hexDigits_delimited {m n : Nat} {t u : List Char}
    (h : Text.hexDigits m ++ '\x7d' :: t = Text.hexDigits n ++ '\x7d' :: u) : m = n ∧ t = u := by
  have hfront : ∀ n t, (Text.hexDigits n ++ '\x7d' :: t).takeWhile (· ≠ '\x7d') = Text.hexDigits n := by
    intro n t
    have hdigits : ∀ c ∈ Text.hexDigits n, decide (c ≠ '\x7d') = true := fun c hc =>
      decide_eq_true fun heq => brace_notMem_hexDigits n (heq ▸ hc)
    rw [List.takeWhile_append_of_pos hdigits]
    simp
  have hdigits : Text.hexDigits m = Text.hexDigits n := by rw [← hfront m t, h, hfront n u]
  rw [hdigits] at h
  exact ⟨hexDigits_injective hdigits, List.cons_inj_right _ |>.1 (List.append_cancel_left h)⟩

end CodePoints

/-! ## Shown texts -/

section Shown

/-- The character that a backslash before a letter stands for in a shown text. -/
def unshown (c : Char) : Char :=
  match c with
  | 'n' => '\n'
  | 'r' => '\r'
  | 't' => '\t'
  | '0' => '\x00'
  | _ => c

/-- A character is shown as itself, by a letter after a backslash, or by its code point. -/
lemma showChar_cases (c : Char) :
    (Text.showChar c = [c] ∧ c ≠ '"' ∧ c ≠ '\\') ∨
    (∃ k, Text.showChar c = ['\\', k] ∧ k ≠ 'u' ∧ unshown k = c) ∨
    Text.showChar c = '\\' :: 'u' :: '\x7b' :: (Text.hexDigits c.toNat ++ ['\x7d']) := by
  unfold Text.showChar
  split
  · exact .inr (.inl ⟨'"', rfl, by decide, rfl⟩)
  · exact .inr (.inl ⟨'\\', rfl, by decide, rfl⟩)
  · exact .inr (.inl ⟨'n', rfl, by decide, rfl⟩)
  · exact .inr (.inl ⟨'r', rfl, by decide, rfl⟩)
  · exact .inr (.inl ⟨'t', rfl, by decide, rfl⟩)
  · exact .inr (.inl ⟨'0', rfl, by decide, rfl⟩)
  · next hquote hbackslash _ _ _ _ =>
    split
    · exact .inr (.inr rfl)
    · exact .inl ⟨rfl, hquote, hbackslash⟩

lemma showChar_delimited {c d : Char} {t u : List Char}
    (h : Text.showChar c ++ t = Text.showChar d ++ u) : c = d ∧ t = u := by
  rcases showChar_cases c with ⟨hc, -, hbackslash⟩ | ⟨k, hc, hk, rfl⟩ | hc <;>
    rcases showChar_cases d with ⟨hd, -, hbackslash'⟩ | ⟨l, hd, hl, rfl⟩ | hd <;>
    rw [hc, hd] at h
  · exact List.cons.inj h
  · exact absurd (List.cons.inj h).1 hbackslash
  · exact absurd (List.cons.inj h).1 hbackslash
  · exact absurd (List.cons.inj h).1.symm hbackslash'
  · obtain ⟨rfl, htail⟩ := List.cons.inj (List.cons.inj h).2
    exact ⟨rfl, htail⟩
  · exact absurd (List.cons.inj (List.cons.inj h).2).1 hk
  · exact absurd (List.cons.inj h).1.symm hbackslash'
  · exact absurd (List.cons.inj (List.cons.inj h).2).1.symm hl
  · simp only [List.cons_append, List.append_assoc, List.nil_append, List.cons.injEq, true_and] at h
    obtain ⟨hpoint, htail⟩ := hexDigits_delimited h
    exact ⟨Char.toNat_inj.1 hpoint, htail⟩

/-- No character is shown like the quote that ends a text. -/
lemma showChar_ne_quote (c : Char) (t u : List Char) : Text.showChar c ++ t ≠ '"' :: u := by
  rcases showChar_cases c with ⟨hc, hquote, -⟩ | ⟨k, hc, -, -⟩ | hc <;> rw [hc] <;> intro h
  · exact hquote (List.cons.inj h).1
  · exact absurd (List.cons.inj h).1 (by decide)
  · exact absurd (List.cons.inj h).1 (by decide)

lemma shownChars_delimited {cs ds : List Char} {t u : List Char}
    (h : cs.flatMap Text.showChar ++ '"' :: t = ds.flatMap Text.showChar ++ '"' :: u) :
    cs = ds ∧ t = u := by
  induction cs generalizing ds with
  | nil =>
    cases ds with
    | nil => exact ⟨rfl, (List.cons.inj h).2⟩
    | cons d ds =>
      rw [List.flatMap_cons, List.append_assoc] at h
      exact absurd h.symm (showChar_ne_quote d _ _)
  | cons c cs ih =>
    cases ds with
    | nil =>
      rw [List.flatMap_cons, List.append_assoc] at h
      exact absurd h (showChar_ne_quote c _ _)
    | cons d ds =>
      rw [List.flatMap_cons, List.flatMap_cons, List.append_assoc, List.append_assoc] at h
      obtain ⟨rfl, hrest⟩ := showChar_delimited h
      obtain ⟨rfl, htail⟩ := ih hrest
      exact ⟨rfl, htail⟩

/-- A shown text ends at the first quote without a backslash. -/
lemma shown_delimited {a b : String} {t u : List Char}
    (h : (Text.shown a).toList ++ t = (Text.shown b).toList ++ u) : a = b ∧ t = u := by
  simp only [Text.shown, String.toList_ofList, List.cons_append, List.append_assoc,
    List.cons.injEq, true_and] at h
  obtain ⟨htext, htail⟩ := shownChars_delimited h
  exact ⟨String.toList_inj.1 htext, htail⟩

end Shown

/-! ## Items between commas -/

section Items

/-- Where `ends` holds of what follows, the text of a `good` value tells the `key` of the value and
where the text ends. -/
def Delimits {α β : Type} (text : α → List Char) (key : α → β) (good : α → Prop)
    (ends : List Char → Prop) : Prop :=
  ∀ a b t u, good a → good b → ends t → ends u → text a ++ t = text b ++ u → key a = key b ∧ t = u

variable {α β : Type} {text : α → List Char} {key : α → β} {good : α → Prop}

/-- A comma or the bracket that ends a list is at the front. -/
def EndsItem (cs : List Char) : Prop := cs.head? = some ',' ∨ cs.head? = some ']'

/-- Items with commas between them, up to the bracket that ends the list. -/
def listed (items : List (List Char)) : List Char := ", ".toList.intercalate items ++ [']']

/-- What follows an item. -/
def listedAfter (items : List (List Char)) : List Char := items.flatMap (", ".toList ++ ·) ++ [']']

lemma listedAfter_cons (first : List Char) (items : List (List Char)) :
    listedAfter (first :: items) = ',' :: ' ' :: (first ++ listedAfter items) := by
  simp [listedAfter]

lemma endsItem_listedAfter (items : List (List Char)) (tail : List Char) :
    EndsItem (listedAfter items ++ tail) := by
  cases items with
  | nil => exact .inr rfl
  | cons first items => exact .inl rfl

lemma listed_cons (first : List Char) (items : List (List Char)) :
    listed (first :: items) = first ++ listedAfter items := by
  induction items generalizing first with
  | nil => rw [listed, List.intercalate_singleton]; rfl
  | cons second items ih =>
    rw [listed, List.intercalate_cons_cons, List.append_assoc, ← listed, ih, listedAfter_cons,
      List.append_assoc]
    rfl

/-- A list is told by its first item and the items after it. -/
lemma Delimits.cons (h : Delimits text key good EndsItem) {a b : α} {l l' : List α}
    {t u : List Char} (hl : ∀ x ∈ a :: l, good x) (hl' : ∀ x ∈ b :: l', good x)
    (hrest : Proofs.listedAfter (l.map text) ++ t = Proofs.listedAfter (l'.map text) ++ u →
      l.map key = l'.map key ∧ t = u)
    (heq : text a ++ (Proofs.listedAfter (l.map text) ++ t) =
      text b ++ (Proofs.listedAfter (l'.map text) ++ u)) :
    (a :: l).map key = (b :: l').map key ∧ t = u := by
  obtain ⟨hkey, hafter⟩ := h a b _ _ (hl a List.mem_cons_self) (hl' b List.mem_cons_self)
    (endsItem_listedAfter _ _) (endsItem_listedAfter _ _) heq
  obtain ⟨hkeys, htail⟩ := hrest hafter
  exact ⟨by rw [List.map_cons, List.map_cons, hkey, hkeys], htail⟩

lemma Delimits.listedAfter (h : Delimits text key good EndsItem) :
    Delimits (fun l => listedAfter (l.map text)) (List.map key) (fun l => ∀ a ∈ l, good a)
      fun _ => True := by
  intro l
  induction l with
  | nil =>
    intro l' t u _ _ _ _ heq
    cases l' with
    | nil => exact ⟨rfl, (List.cons.inj heq).2⟩
    | cons b l' => exact absurd (List.cons.inj heq).1 (by decide)
  | cons a l ih =>
    intro l' t u hl hl' _ _ heq
    cases l' with
    | nil => exact absurd (List.cons.inj heq).1 (by decide)
    | cons b l' =>
      simp only [List.map_cons, listedAfter_cons, List.cons_append, List.append_assoc,
        List.cons.injEq, true_and] at heq
      exact h.cons hl hl' (ih l' t u (List.forall_mem_cons.1 hl).2 (List.forall_mem_cons.1 hl').2
        trivial trivial) heq

/-- A list is told from what follows it if its items are and none of them begins with the bracket. -/
lemma Delimits.listed (h : Delimits text key good EndsItem)
    (hopen : ∀ a, good a → ∀ t u, text a ++ t ≠ ']' :: u) :
    Delimits (fun l => listed (l.map text)) (List.map key) (fun l => ∀ a ∈ l, good a)
      fun _ => True := by
  intro l l' t u hl hl' _ _ heq
  cases l with
  | nil =>
    cases l' with
    | nil => exact ⟨rfl, (List.cons.inj heq).2⟩
    | cons b l' =>
      simp only [List.map_cons, listed_cons, List.append_assoc] at heq
      exact absurd heq.symm (hopen b (List.forall_mem_cons.1 hl').1 _ _)
  | cons a l =>
    cases l' with
    | nil =>
      simp only [List.map_cons, listed_cons, List.append_assoc] at heq
      exact absurd heq (hopen a (List.forall_mem_cons.1 hl).1 _ _)
    | cons b l' =>
      simp only [List.map_cons, listed_cons, List.append_assoc] at heq
      exact h.cons hl hl' (h.listedAfter l l' t u (List.forall_mem_cons.1 hl).2
        (List.forall_mem_cons.1 hl').2 trivial trivial) heq

end Items

end Novella.Proofs
