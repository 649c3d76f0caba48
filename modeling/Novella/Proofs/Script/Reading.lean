import Mathlib.Tactic.Lemma
import Novella.Script.Parser

/-!
# What parsers do on a given text

`Reads p cs rest good` says that `p` finds a value with the property `good` where the text goes
on with `cs`, and stops where it goes on with `rest`; `Misses p cs` says that it finds nothing
there. Neither depends on the place, on the frontier or on whole numbers out of range before,
so both compose along the combinators.

`Relates p R` says of whatever `p` finds how the inputs before and after it and the value are related.
What is shown of everything that a grammar can find is shown by such a relation, with its lemmas for
the combinators drawn from the ones here.
-/

namespace Novella.Proofs

open Script Script.Parser

/-- `p` finds a `good` value at the front of `cs` and stops before `rest`. -/
def Reads {α : Type} (p : Parser α) (cs rest : List Char) (good : α → Prop) : Prop :=
  ∀ place overflow frontier, ∃ a place' frontier',
    p ⟨cs, place, overflow⟩ frontier = (some (a, ⟨rest, place', overflow⟩), frontier') ∧ good a

/-- `p` finds nothing at the front of `cs`. -/
def Misses {α : Type} (p : Parser α) (cs : List Char) : Prop :=
  ∀ place overflow frontier, ∃ frontier', p ⟨cs, place, overflow⟩ frontier = (none, frontier')

/-- A text without the spaces at its front. -/
def unspaced (cs : List Char) : List Char := cs.dropWhile isSpace

section Combinators

variable {α β : Type} {p : Parser α} {q : Parser β} {cs mid rest : List Char}
  {good : α → Prop} {good' : β → Prop}

lemma Reads.mono {weaker : α → Prop} (h : Reads p cs rest good) (hw : ∀ a, good a → weaker a) :
    Reads p cs rest weaker := by
  intro place overflow frontier
  obtain ⟨a, place', frontier', hp, ha⟩ := h place overflow frontier
  exact ⟨a, place', frontier', hp, hw a ha⟩

/-- A parser finds one value only. -/
lemma Reads.unique {a b : α} {rest' : List Char} (ha : Reads p cs rest (· = a))
    (hb : Reads p cs rest' (· = b)) : a = b := by
  obtain ⟨_, _, _, hp, rfl⟩ := ha {} none {}
  obtain ⟨_, _, _, hp', rfl⟩ := hb {} none {}
  rw [hp] at hp'
  exact congrArg Prod.fst (Option.some.inj (congrArg Prod.fst hp'))

lemma reads_pure {a : α} (ha : good a) : Reads (Pure.pure a : Parser α) cs cs good :=
  fun place _ frontier => ⟨a, place, frontier, rfl, ha⟩

lemma Reads.bind {k : α → Parser β} (hp : Reads p cs mid good)
    (hk : ∀ a, good a → Reads (k a) mid rest good') : Reads (p >>= k) cs rest good' := by
  intro place overflow frontier
  obtain ⟨a, place₁, frontier₁, hp, ha⟩ := hp place overflow frontier
  obtain ⟨b, place₂, frontier₂, hk, hb⟩ := hk a ha place₁ overflow frontier₁
  refine ⟨b, place₂, frontier₂, ?_, hb⟩
  change Parser.bind p k _ _ = _
  rw [Parser.bind, hp]
  exact hk

lemma Reads.bind_misses {k : α → Parser β} (hp : Reads p cs mid good)
    (hk : ∀ a, good a → Misses (k a) mid) : Misses (p >>= k) cs := by
  intro place overflow frontier
  obtain ⟨a, place₁, frontier₁, hp, ha⟩ := hp place overflow frontier
  obtain ⟨frontier₂, hk⟩ := hk a ha place₁ overflow frontier₁
  refine ⟨frontier₂, ?_⟩
  change Parser.bind p k _ _ = _
  rw [Parser.bind, hp]
  exact hk

lemma Misses.bind {k : α → Parser β} (hp : Misses p cs) : Misses (p >>= k) cs := by
  intro place overflow frontier
  obtain ⟨frontier₁, hp⟩ := hp place overflow frontier
  refine ⟨frontier₁, ?_⟩
  change Parser.bind p k _ _ = _
  rw [Parser.bind, hp]

lemma Reads.map {f : α → β} (hp : Reads p cs rest good) (hf : ∀ a, good a → good' (f a)) :
    Reads (p >>= fun a => Pure.pure (f a)) cs rest good' :=
  hp.bind fun a ha => reads_pure (hf a ha)

lemma misses_miss : Misses (miss : Parser α) cs := fun _ _ frontier => ⟨frontier, rfl⟩

lemma Reads.rule {r : Rule} (hp : Reads p cs rest good) : Reads (rule r p) cs rest good := by
  intro place overflow frontier
  obtain ⟨a, place', frontier', hp, ha⟩ := hp place overflow frontier
  exact ⟨a, place', frontier', by rw [Parser.rule, hp], ha⟩

lemma Misses.rule {r : Rule} (hp : Misses p cs) : Misses (rule r p) cs := by
  intro place overflow frontier
  obtain ⟨frontier', hp⟩ := hp place overflow frontier
  exact ⟨_, by rw [Parser.rule, hp]⟩

lemma Reads.orElse {p' : Parser α} (hp : Reads p cs rest good) :
    Reads (p.orElse p') cs rest good := by
  intro place overflow frontier
  obtain ⟨a, place', frontier', hp, ha⟩ := hp place overflow frontier
  exact ⟨a, place', frontier', by rw [Parser.orElse, hp], ha⟩

lemma Misses.orElse_reads {p' : Parser α} (hp : Misses p cs) (hp' : Reads p' cs rest good) :
    Reads (p.orElse p') cs rest good := by
  intro place overflow frontier
  obtain ⟨frontier₁, hp⟩ := hp place overflow frontier
  obtain ⟨a, place', frontier', hp', ha⟩ := hp' place overflow frontier₁
  exact ⟨a, place', frontier', by rw [Parser.orElse, hp]; exact hp', ha⟩

lemma Misses.orElse {p' : Parser α} (hp : Misses p cs) (hp' : Misses p' cs) :
    Misses (p.orElse p') cs := by
  intro place overflow frontier
  obtain ⟨frontier₁, hp⟩ := hp place overflow frontier
  obtain ⟨frontier', hp'⟩ := hp' place overflow frontier₁
  exact ⟨frontier', by rw [Parser.orElse, hp]; exact hp'⟩

lemma reads_first {before after : List (Parser α)} (hbefore : ∀ b ∈ before, Misses b cs)
    (hp : Reads p cs rest good) : Reads (first (before ++ p :: after)) cs rest good := by
  induction before with
  | nil => exact hp.orElse
  | cons b before ih =>
    exact (hbefore b List.mem_cons_self).orElse_reads
      (ih fun b' hb' => hbefore b' (List.mem_cons_of_mem _ hb'))

lemma misses_first {ps : List (Parser α)} (h : ∀ b ∈ ps, Misses b cs) : Misses (first ps) cs := by
  induction ps with
  | nil => exact misses_miss
  | cons b ps ih =>
    exact (h b List.mem_cons_self).orElse (ih fun b' hb' => h b' (List.mem_cons_of_mem _ hb'))

lemma Reads.optional (hp : Reads p cs rest good) :
    Reads (optional p) cs rest fun o => ∃ a, o = some a ∧ good a := by
  intro place overflow frontier
  obtain ⟨a, place', frontier', hp, ha⟩ := hp place overflow frontier
  exact ⟨some a, place', frontier', by rw [Parser.optional, hp], a, rfl, ha⟩

lemma Misses.optional (hp : Misses p cs) : Reads (optional p) cs cs (· = none) := by
  intro place overflow frontier
  obtain ⟨frontier', hp⟩ := hp place overflow frontier
  exact ⟨none, place, frontier', by rw [Parser.optional, hp], rfl⟩

lemma reads_here : Reads here cs cs fun _ => True :=
  fun place _ frontier => ⟨place, place, frontier, rfl, trivial⟩

lemma reads_spaces : Reads spaces cs (unspaced cs) fun _ => True :=
  fun _ _ frontier => ⟨(), _, frontier, rfl, trivial⟩

lemma reads_endOfText : Reads endOfText [] [] fun _ => True := by
  apply Reads.rule
  exact fun place _ frontier => ⟨(), place, frontier, rfl, trivial⟩

/-! ## Repetition -/

/-- `p`, repeated however often it may be, finds values that are `good` together. -/
def ReadsMany (p : Parser α) (cs rest : List Char) (good : List α → Prop) : Prop :=
  ∀ n, cs.length < n → Reads (upTo p n) cs rest good

lemma ReadsMany.many {goods : List α → Prop} (h : ReadsMany p cs rest goods) :
    Reads (many p) cs rest goods :=
  fun place overflow frontier => h (cs.length + 1) (Nat.lt_succ_self _) place overflow frontier

lemma ReadsMany.mono {goods weaker : List α → Prop} (h : ReadsMany p cs rest goods)
    (hw : ∀ as, goods as → weaker as) : ReadsMany p cs rest weaker :=
  fun n hn => (h n hn).mono hw

lemma Misses.readsMany (hp : Misses p cs) : ReadsMany p cs cs (· = []) := by
  intro n hn
  obtain ⟨n, rfl⟩ : ∃ m, n = m + 1 := ⟨n - 1, by omega⟩
  intro place overflow frontier
  obtain ⟨frontier', hp⟩ := hp place overflow frontier
  exact ⟨[], place, frontier', by simp only [upTo, hp], rfl⟩

lemma Reads.readsMany_cons {goods : List α → Prop} (hp : Reads p cs mid good)
    (hlt : mid.length < cs.length) (h : ReadsMany p mid rest goods) :
    ReadsMany p cs rest fun l => ∃ a as, l = a :: as ∧ good a ∧ goods as := by
  intro n hn
  obtain ⟨n, rfl⟩ : ∃ m, n = m + 1 := ⟨n - 1, by omega⟩
  intro place overflow frontier
  obtain ⟨a, place₁, frontier₁, hp, ha⟩ := hp place overflow frontier
  obtain ⟨as, place₂, frontier₂, hmany, has⟩ := h n (by omega) place₁ overflow frontier₁
  exact ⟨a :: as, place₂, frontier₂, by simp only [upTo, hp, hmany], a, as, rfl, ha, has⟩

end Combinators

/-! ## Lexemes -/

section Lexemes

variable {cs rest text : List Char} {scan : Scanner}

lemma reads_lexeme (h : scan cs = some (text, rest)) :
    Reads (lexeme scan) cs (unspaced rest) (· = text) := by
  intro place overflow frontier
  exact ⟨text, _, frontier, by rw [lexeme, h]; rfl, rfl⟩

lemma misses_lexeme (h : scan cs = none) : Misses (lexeme scan) cs :=
  fun _ _ frontier => ⟨frontier, by rw [lexeme, h]⟩

lemma scanText_append (ws rest : List Char) : scanText ws (ws ++ rest) = some (ws, rest) := by
  induction ws with
  | nil => cases rest <;> rfl
  | cons w ws ih => simp [scanText, ih]

lemma scanText_eq_none {ws cs : List Char} (h : ¬ws <+: cs) : scanText ws cs = none := by
  induction ws generalizing cs with
  | nil => exact absurd List.nil_prefix h
  | cons w ws ih =>
    cases cs with
    | nil => rfl
    | cons c cs =>
      rw [scanText]
      split
      · next hwc =>
        rw [ih fun hpre => h (by rw [hwc]; exact List.cons_prefix_cons.2 ⟨rfl, hpre⟩)]
        rfl
      · rfl

lemma reads_token (word : String) (rest : List Char) :
    Reads (token word) (word.toList ++ rest) (unspaced rest) fun _ => True :=
  (reads_lexeme (scanText_append _ _)).map fun _ _ => trivial

lemma misses_token {word : String} (h : ¬word.toList <+: cs) : Misses (token word) cs :=
  (misses_lexeme (scanText_eq_none h)).bind

end Lexemes

/-! ## Values that are found -/

/-- Whatever `p` finds, the inputs before and after it and the value are related by `R`. Unlike `Reads`
this does not say that `p` finds anything. -/
def Relates {α : Type} (p : Parser α) (R : Input → Input → α → Prop) : Prop :=
  ∀ i frontier a i' frontier', p i frontier = (some (a, i'), frontier') → R i i' a

section Relates

variable {α β : Type} {p : Parser α} {R : Input → Input → α → Prop} {S : Input → Input → β → Prop}

lemma Relates.mono {R' : Input → Input → α → Prop} (hp : Relates p R)
    (h : ∀ i i' a, R i i' a → R' i i' a) : Relates p R' :=
  fun i frontier a i' frontier' hfound => h i i' a (hp i frontier a i' frontier' hfound)

lemma relates_pure {a : α} (h : ∀ i, R i i a) : Relates (Pure.pure a) R := by
  intro i frontier b i' frontier' hp
  obtain ⟨hb, -⟩ := Prod.mk.inj hp
  obtain ⟨rfl, rfl⟩ := Prod.mk.inj (Option.some.inj hb)
  exact h i

lemma Relates.bind {k : α → Parser β} (hp : Relates p R)
    (hk : ∀ a, Relates (k a) fun j i' b => ∀ i, R i j a → S i i' b) : Relates (p >>= k) S := by
  intro i frontier b i' frontier' h
  change Parser.bind p k i frontier = _ at h
  rw [Parser.bind] at h
  split at h
  · cases h
  · next a j frontier₁ ha =>
    exact hk a j frontier₁ b i' frontier' h i (hp i frontier a j frontier₁ ha)

lemma relates_miss : Relates (miss : Parser α) R := by
  intro i frontier a i' frontier' h
  cases h

lemma Relates.orElse {q : Parser α} (hp : Relates p R) (hq : Relates q R) :
    Relates (p.orElse q) R := by
  intro i frontier a i' frontier' h
  rw [Parser.orElse] at h
  split at h
  · exact hq _ _ _ _ _ h
  · exact hp _ _ _ _ _ h

lemma relates_first {ps : List (Parser α)} (h : ∀ p ∈ ps, Relates p R) : Relates (first ps) R := by
  induction ps with
  | nil => exact relates_miss
  | cons p ps ih =>
    exact (h p List.mem_cons_self).orElse (ih fun q hq => h q (List.mem_cons_of_mem _ hq))

lemma Relates.rule {r : Rule} (hp : Relates p R) : Relates (rule r p) R := by
  intro i frontier a i' frontier' h
  rw [Parser.rule] at h
  split at h
  · cases h
  · exact hp _ _ _ _ _ h

lemma Relates.optional {S : Input → Input → Option α → Prop} (hp : Relates p R)
    (hnone : ∀ i, S i i none) (hsome : ∀ i i' a, R i i' a → S i i' (some a)) :
    Relates (optional p) S := by
  intro i frontier a i' frontier' h
  rw [Parser.optional] at h
  split at h
  · obtain ⟨ha, -⟩ := Prod.mk.inj h
    obtain ⟨rfl, rfl⟩ := Prod.mk.inj (Option.some.inj ha)
    exact hnone i
  · next b j frontier₁ hb =>
    obtain ⟨ha, -⟩ := Prod.mk.inj h
    obtain ⟨rfl, rfl⟩ := Prod.mk.inj (Option.some.inj ha)
    exact hsome _ _ _ (hp _ _ _ _ _ hb)

lemma Relates.upTo {S : Input → Input → List α → Prop} (hp : Relates p R) (hnil : ∀ i, S i i [])
    (hcons : ∀ i j i' a as, R i j a → S j i' as → S i i' (a :: as)) (n : Nat) :
    Relates (upTo p n) S := by
  induction n with
  | zero => exact relates_pure hnil
  | succ n ih =>
    intro i frontier as i' frontier' h
    rw [Parser.upTo] at h
    dsimp only at h
    split at h
    · obtain ⟨has, -⟩ := Prod.mk.inj h
      obtain ⟨rfl, rfl⟩ := Prod.mk.inj (Option.some.inj has)
      exact hnil i
    · next a j frontier₁ ha =>
      split at h
      · cases h
      · next as j' frontier₂ has =>
        obtain ⟨has', -⟩ := Prod.mk.inj h
        obtain ⟨rfl, rfl⟩ := Prod.mk.inj (Option.some.inj has')
        exact hcons _ _ _ _ _ (hp _ _ _ _ _ ha) (ih _ _ _ _ _ has)

lemma Relates.many {S : Input → Input → List α → Prop} (hp : Relates p R) (hnil : ∀ i, S i i [])
    (hcons : ∀ i j i' a as, R i j a → S j i' as → S i i' (a :: as)) : Relates (many p) S :=
  fun i => hp.upTo hnil hcons (i.rest.length + 1) i

/-- A step that always finds its value. -/
lemma relates_step {value : Input → α} {next : Input → Input} (h : ∀ i, R i (next i) (value i)) :
    Relates (fun i f => (some (value i, next i), f)) R := by
  intro i frontier a i' frontier' hfound
  obtain ⟨ha, -⟩ := Prod.mk.inj hfound
  obtain ⟨rfl, rfl⟩ := Prod.mk.inj (Option.some.inj ha)
  exact h i

lemma relates_endOfText {R : Input → Input → Unit → Prop} (h : ∀ i, i.rest = [] → R i i ()) :
    Relates endOfText R := by
  refine Relates.rule fun i frontier a i' frontier' hfound => ?_
  split at hfound
  · next hempty =>
    obtain ⟨ha, -⟩ := Prod.mk.inj hfound
    obtain ⟨-, rfl⟩ := Prod.mk.inj (Option.some.inj ha)
    exact h i (List.isEmpty_iff.1 hempty)
  · cases hfound

lemma relates_lexeme {scan : Scanner} {R : Input → Input → List Char → Prop}
    (h : ∀ i text after, scan i.rest = some (text, after) → R i
      (Input.skipSpaces { i with rest := after, place := i.place.past text }) text) :
    Relates (lexeme scan) R := by
  intro i frontier a i' frontier' hfound
  rw [lexeme] at hfound
  split at hfound
  · cases hfound
  · next text after hscan =>
    obtain ⟨ha, -⟩ := Prod.mk.inj hfound
    obtain ⟨rfl, rfl⟩ := Prod.mk.inj (Option.some.inj ha)
    exact h i text after hscan

end Relates

/-! ## Spaces -/

lemma unspaced_cons {c : Char} (h : isSpace c = false) (cs : List Char) :
    unspaced (c :: cs) = c :: cs := by
  simp [unspaced, h]

lemma unspaced_cons_of_isSpace {c : Char} (h : isSpace c = true) (cs : List Char) :
    unspaced (c :: cs) = unspaced cs := by
  simp [unspaced, h]

lemma unspaced_append_of_forall {spaces : List Char} (h : ∀ c ∈ spaces, isSpace c = true)
    (cs : List Char) : unspaced (spaces ++ cs) = unspaced cs :=
  List.dropWhile_append_of_pos h

lemma length_unspaced_le (cs : List Char) : (unspaced cs).length ≤ cs.length :=
  (List.dropWhile_sublist _).length_le

end Novella.Proofs
