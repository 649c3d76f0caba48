import Novella.Script.Reader
import Novella.Proofs.Decimal.Numerals
import Novella.Proofs.Script.Lexemes

/-!
# What parsers find in a source

`Finds source p good` says that whatever `p` finds is `good`, wherever it stands in `source`; unlike
`Reads` it does not say that `p` finds anything. A parser takes its text off the front of what is left
of the source, and never cuts a row of digits (`Remains`), so the numerals that are found stand in the
source as a whole (`StandsIn`).

Whole numbers out of range do not end the reading but are noted. So what is found is `good` only if
none has been noted at the end of the parser.
-/

namespace Novella.Proofs

/-- No row of digits goes on from the end of one text into the other. -/
def Parted (before after : List Char) : Prop :=
  (∀ c ∈ before.getLast?, c.isDigit = false) ∨ NotAhead Char.isDigit after

/-- `rest` is what is left of a source, where no row of digits has been cut. -/
def Remains (source rest : List Char) : Prop :=
  ∃ before, source = before ++ rest ∧ Parted before rest

/-- The text stands in the source, and no row of digits goes on beyond its ends. -/
def StandsIn (text source : List Char) : Prop :=
  ∃ before after, source = before ++ (text ++ after) ∧ Parted before text ∧ Parted text after

end Novella.Proofs

namespace Novella.Script

open Proofs (StandsIn)

/-- The number is the one that a numeral in the source stands for. -/
def NumberFrom (source : List Char) (x : Binary64) : Prop :=
  ∃ t : Numeral, StandsIn t.text source ∧ x = Binary64.ofLiteral t.text

/-- A whole number is the exact value of a numeral in the source that has no point, and another
number is what one with a point stands for. -/
def Literal.DrawnFrom (source : List Char) : Literal → Prop
  | .int n => ∃ t : Numeral, t.part = [] ∧ StandsIn t.text source ∧ n.toInt = t.toInt
  | .float x => ∃ t : Numeral, t.part ≠ [] ∧ StandsIn t.text source ∧ x = Binary64.ofLiteral t.text
  | _ => True

/-- All numbers of the expression are those of numerals in the source. -/
def Expression.DrawnFrom (source : List Char) : Expression → Prop
  | .literal l => l.DrawnFrom source
  | .var _ => True
  | .unary _ e => e.DrawnFrom source
  | .binary _ l r => l.DrawnFrom source ∧ r.DrawnFrom source

end Novella.Script

namespace Novella.Proofs

open Script Script.Parser

/-! ## Parts of a source -/

section Parts

variable {source before text rest : List Char}

lemma Parted.of_append (h : Parted before (text ++ rest)) : Parted before text := by
  cases text with
  | nil => exact .inr notAhead_nil
  | cons c text => exact h

lemma Parted.append (h : Parted before (text ++ rest)) (ht : Parted text rest) :
    Parted (before ++ text) rest := by
  cases text with
  | nil => rwa [List.append_nil]
  | cons c text =>
    rw [Parted, List.getLast?_append, List.getLast?_cons]
    simpa [Parted, List.getLast?_cons] using ht

lemma remains_self (source : List Char) : Remains source source :=
  ⟨[], rfl, .inl fun c hc => by cases hc⟩

lemma Remains.next (h : Remains source (text ++ rest)) (ht : Parted text rest) :
    Remains source rest := by
  obtain ⟨before, rfl, hbefore⟩ := h
  exact ⟨before ++ text, (List.append_assoc ..).symm, hbefore.append ht⟩

lemma Remains.standsIn (h : Remains source (text ++ rest)) (ht : Parted text rest) :
    StandsIn text source := by
  obtain ⟨before, rfl, hbefore⟩ := h
  exact ⟨before, rest, rfl, hbefore.of_append, ht⟩

/-- Where a class of characters with all digits ends, no row of digits is cut. -/
lemma parted_takeWhile {p : Char → Bool} (hp : ∀ c : Char, c.isDigit = true → p c = true)
    (cs : List Char) : Parted (cs.takeWhile p) (cs.dropWhile p) := by
  refine .inr fun c hc => ?_
  have hnot := List.head?_dropWhile_not p cs
  rw [Option.mem_def.1 hc] at hnot
  rw [Bool.eq_false_iff]
  intro hdigit
  simp [hp c hdigit] at hnot

lemma Remains.skipSpaces (h : Remains source rest) : Remains source (rest.dropWhile isSpace) := by
  rw [← List.takeWhile_append_dropWhile (p := isSpace) (l := rest)] at h
  refine h.next (.inl fun c hc => ?_)
  have hspace : isSpace c = true := List.mem_takeWhile_imp (List.mem_of_getLast? hc)
  have hspaces : ∀ c : Char, c = ' ' ∨ c = '\t' ∨ c = '\r' ∨ c = '\n' → c.isDigit = false := by
    rintro c (rfl | rfl | rfl | rfl) <;> decide
  exact hspaces c (by simpa [isSpace, or_assoc] using hspace)

end Parts

/-! ## Scanners -/

/-- What the scanner takes off the front of a text, it takes there, and cuts no row of digits. -/
def Splits (scan : Scanner) : Prop :=
  ∀ cs text rest, scan cs = some (text, rest) → cs = text ++ rest ∧ Parted text rest

section Scanners

variable {cs text rest : List Char}

/-- The text does not end in a digit. -/
def endsPlain (text : List Char) : Bool := !text.getLast?.any Char.isDigit

lemma parted_of_endsPlain (h : endsPlain text = true) : Parted text rest := by
  refine .inl fun c hc => ?_
  rw [endsPlain, Option.mem_def.1 hc] at h
  simpa using h

lemma eq_of_scanText {word : List Char} (h : scanText word cs = some (text, rest)) :
    text = word ∧ cs = text ++ rest := by
  induction word generalizing cs text with
  | nil =>
    cases h
    exact ⟨rfl, rfl⟩
  | cons w word ih =>
    cases cs with
    | nil => cases h
    | cons c cs =>
      rw [scanText] at h
      split at h
      · next hwc =>
        obtain ⟨⟨more, rest'⟩, hmore, heq⟩ := Option.map_eq_some_iff.1 h
        obtain ⟨rfl, rfl⟩ := Prod.mk.inj heq
        obtain ⟨rfl, rfl⟩ := ih hmore
        exact ⟨by rw [hwc], rfl⟩
      · cases h

lemma splits_scanText {word : String} (h : endsPlain word.toList = true) :
    Splits (scanText word.toList) := by
  intro cs text rest hscan
  obtain ⟨rfl, hcs⟩ := eq_of_scanText hscan
  exact ⟨hcs, parted_of_endsPlain h⟩

lemma splits_scanAny {words : List String} (h : ∀ w ∈ words, endsPlain w.toList = true) :
    Splits (scanAny words) := by
  intro cs text rest hscan
  obtain ⟨word, hword, hscan⟩ := List.exists_of_findSome?_eq_some hscan
  exact splits_scanText (h word hword) cs text rest hscan

lemma splits_nameChars (cs : List Char) :
    cs = cs.takeWhile isNameChar ++ cs.dropWhile isNameChar ∧
      Parted (cs.takeWhile isNameChar) (cs.dropWhile isNameChar) :=
  ⟨List.takeWhile_append_dropWhile.symm, parted_takeWhile (fun _ => isNameChar_of_isDigit) cs⟩

lemma splits_scanWord (words : List String) : Splits (scanWord words) := by
  intro cs text rest h
  simp only [scanWord] at h
  split at h
  · obtain ⟨rfl, rfl⟩ := Prod.mk.inj (Option.some.inj h)
    exact splits_nameChars cs
  · cases h

lemma splits_scanName : Splits scanName := by
  intro cs text rest h
  simp only [scanName] at h
  split at h
  · obtain ⟨rfl, rfl⟩ := Prod.mk.inj (Option.some.inj h)
    exact splits_nameChars cs
  · cases h

lemma splits_scanMinus : Splits scanMinus := by
  intro cs text rest h
  unfold scanMinus at h
  split at h
  · split at h
    · cases h
    · obtain ⟨rfl, rfl⟩ := Prod.mk.inj (Option.some.inj h)
      exact ⟨rfl, parted_of_endsPlain (by decide)⟩
  · cases h

lemma eq_of_spanQuoted (h : Text.spanQuoted cs = some (text, rest)) : cs = text ++ '"' :: rest := by
  induction cs using Text.spanQuoted.induct generalizing text with
  | case1 => cases h
  | case2 cs =>
    cases h
    rfl
  | case3 c cs hc ih =>
    rw [Text.spanQuoted, if_pos hc] at h
    obtain ⟨⟨inside, rest'⟩, hinside, heq⟩ := Option.map_eq_some_iff.1 h
    obtain ⟨rfl, rfl⟩ := Prod.mk.inj heq
    rw [ih hinside]
    rfl
  | case4 c cs hc =>
    rw [Text.spanQuoted, if_neg hc] at h
    cases h
  | case5 cs _ hmark =>
    rw [Text.spanQuoted, if_pos rfl] at h
    · cases h
    all_goals assumption
  | case6 c cs hquote hmark hc ih =>
    rw [Text.spanQuoted, if_neg hc] at h
    · obtain ⟨⟨inside, rest'⟩, hinside, heq⟩ := Option.map_eq_some_iff.1 h
      obtain ⟨rfl, rfl⟩ := Prod.mk.inj heq
      rw [ih hinside]
      rfl
    all_goals assumption

lemma splits_scanQuoted : Splits scanQuoted := by
  intro cs text rest h
  unfold scanQuoted at h
  split at h
  · obtain ⟨⟨inside, rest'⟩, hinside, heq⟩ := Option.map_eq_some_iff.1 h
    obtain ⟨rfl, rfl⟩ := Prod.mk.inj heq
    rw [eq_of_spanQuoted hinside]
    refine ⟨by simp, parted_of_endsPlain ?_⟩
    rw [endsPlain, List.getLast?_concat]
    rfl
  · cases h

lemma splits_scanComment : Splits scanComment := by
  intro cs text rest h
  unfold scanComment at h
  split at h
  · next cs =>
    obtain ⟨rfl, rfl⟩ := Prod.mk.inj (Option.some.inj h)
    have hline : Parted (cs.takeWhile fun c => !endsComment c)
        (cs.dropWhile fun c => !endsComment c) := by
      refine parted_takeWhile (fun c hc => ?_) cs
      have hends : ∀ c : Char, c = '\n' ∨ c = '\r' → c.isDigit = false := by
        rintro c (rfl | rfl) <;> decide
      rw [Bool.not_eq_true', Bool.eq_false_iff]
      intro hend
      rw [hends c (by simpa [endsComment] using hend)] at hc
      cases hc
    have hmark : Parted ['/', '/'] ((cs.takeWhile fun c => !endsComment c) ++
        cs.dropWhile fun c => !endsComment c) := parted_of_endsPlain (by decide)
    exact ⟨by simp, hmark.append hline⟩
  · cases h

lemma digits_of_spanDigits {ds : List Char} (h : spanDigits cs = (ds, rest)) (hne : ds ≠ []) :
    Digits ds ∧ cs = ds ++ rest ∧ NotAhead Char.isDigit rest := by
  obtain ⟨rfl, rfl⟩ := Prod.mk.inj h
  refine ⟨⟨hne, fun c hc => List.mem_takeWhile_imp hc⟩, List.takeWhile_append_dropWhile.symm,
    fun c hc => ?_⟩
  have hnot := List.head?_dropWhile_not Char.isDigit cs
  rw [Option.mem_def.1 hc] at hnot
  simpa using hnot

/-- What is scanned as a whole number is a sign and digits, and no digit follows. -/
lemma digits_of_scanInteger (h : scanInteger cs = some (text, rest)) :
    ∃ negative whole, Digits whole ∧ text = signText negative ++ whole ∧ cs = text ++ rest ∧
      NotAhead Char.isDigit rest := by
  by_cases hmark : cs.head? = some '-'
  · obtain ⟨cs, rfl⟩ : ∃ more, cs = '-' :: more := List.head?_eq_some_iff.1 hmark
    rw [scanInteger_minus] at h
    split at h
    · cases h
    · next ds rest' hne hspan =>
      obtain ⟨rfl, rfl⟩ := Prod.mk.inj (Option.some.inj h)
      obtain ⟨hds, rfl, hrest⟩ := digits_of_spanDigits hspan hne
      exact ⟨true, ds, hds, rfl, rfl, hrest⟩
  · rw [scanInteger_unsigned hmark] at h
    split at h
    · cases h
    · next ds rest' hne hspan =>
      obtain ⟨rfl, rfl⟩ := Prod.mk.inj (Option.some.inj h)
      obtain ⟨hds, rfl, hrest⟩ := digits_of_spanDigits hspan hne
      exact ⟨false, ds, hds, rfl, rfl, hrest⟩

lemma numeral_of_scanInteger (h : scanInteger cs = some (text, rest)) :
    ∃ t : Numeral, t.part = [] ∧ t.text = text ∧ cs = text ++ rest ∧ Parted text rest := by
  obtain ⟨negative, whole, hwhole, rfl, hcs, hrest⟩ := digits_of_scanInteger h
  refine ⟨⟨negative, whole, [], hwhole, by simp⟩, rfl, ?_, hcs, .inr hrest⟩
  simp [Numeral.text]

lemma numeral_of_scanFloat (h : scanFloat cs = some (text, rest)) :
    ∃ t : Numeral, t.part ≠ [] ∧ t.text = text ∧ cs = text ++ rest ∧ Parted text rest := by
  unfold scanFloat at h
  split at h
  · next whole rest' hscan =>
    obtain ⟨negative, whole, hwhole, rfl, rfl, -⟩ := digits_of_scanInteger hscan
    split at h
    · cases h
    · next ds rest' hne hspan =>
      obtain ⟨rfl, rfl⟩ := Prod.mk.inj (Option.some.inj h)
      have hnil : ds ≠ [] := hne
      obtain ⟨hds, rfl, hrest⟩ := digits_of_spanDigits hspan hnil
      refine ⟨⟨negative, whole, ds, hwhole, hds.isDigit⟩, hnil, ?_, ?_, .inr hrest⟩
      · simp [Numeral.text, hnil]
      · simp
  · cases h

end Scanners

/-! ## Combinators -/

/-- `p` reads on in the source, and whatever it finds is `good` unless a whole number out of range has
been noted. -/
def Finds {α : Type} (source : List Char) (p : Parser α) (good : α → Prop) : Prop :=
  ∀ i frontier a i' frontier', p i frontier = (some (a, i'), frontier') → Remains source i.rest →
    Remains source i'.rest ∧ (i'.overflow = none → i.overflow = none ∧ good a)

section Combinators

variable {α β : Type} {source : List Char} {p : Parser α} {good : α → Prop} {good' : β → Prop}

lemma finds_pure {a : α} (ha : good a) : Finds source (Pure.pure a : Parser α) good :=
  relates_pure fun _ hi => ⟨hi, fun hnone => ⟨hnone, ha⟩⟩

/-- What is found after a value may assume that the value is good, but the reading may not: it goes on
in the source also after a whole number out of range. -/
lemma Finds.bind {k : α → Parser β} (hp : Finds source p good)
    (hk : ∀ a, Finds source (k a) fun b => good a → good' b) : Finds source (p >>= k) good' := by
  refine Relates.bind hp fun a => Relates.mono (hk a) fun j i' b hafter i hbefore hi => ?_
  obtain ⟨hj, hgood⟩ := hbefore hi
  obtain ⟨hi', hgood'⟩ := hafter hj
  refine ⟨hi', fun hnone => ?_⟩
  obtain ⟨hnone', hb⟩ := hgood' hnone
  exact ⟨(hgood hnone').1, hb (hgood hnone').2⟩

lemma Finds.mono {weaker : α → Prop} (hp : Finds source p good) (hw : ∀ a, good a → weaker a) :
    Finds source p weaker := by
  refine Relates.mono hp fun i i' a hfound hi => ?_
  obtain ⟨hi', hgood⟩ := hfound hi
  exact ⟨hi', fun hnone => ⟨(hgood hnone).1, hw a (hgood hnone).2⟩⟩

lemma Finds.after {k : α → Parser β} (hp : Finds source p good)
    (hk : ∀ a, Finds source (k a) good') : Finds source (p >>= k) good' :=
  hp.bind fun a => (hk a).mono fun _ hb _ => hb

lemma Finds.map {f : α → β} (hp : Finds source p good) (hf : ∀ a, good a → good' (f a)) :
    Finds source (p >>= fun a => Pure.pure (f a)) good' :=
  hp.bind fun a => finds_pure (hf a)

lemma finds_miss : Finds source (miss : Parser α) good := relates_miss

lemma Finds.orElse {q : Parser α} (hp : Finds source p good) (hq : Finds source q good) :
    Finds source (p.orElse q) good :=
  Relates.orElse hp hq

lemma finds_first {ps : List (Parser α)} (h : ∀ p ∈ ps, Finds source p good) :
    Finds source (first ps) good :=
  relates_first h

lemma Finds.optional (hp : Finds source p good) :
    Finds source (optional p) fun a => ∀ b ∈ a, good b := by
  refine Relates.optional hp ?none ?some
  case none => exact fun i hi => ⟨hi, fun hnone => ⟨hnone, fun b hb => by cases hb⟩⟩
  case some =>
    intro i i' b hfound hi
    obtain ⟨hi', hgood⟩ := hfound hi
    refine ⟨hi', fun hnone => ⟨(hgood hnone).1, ?_⟩⟩
    rintro c ⟨⟩
    exact (hgood hnone).2

lemma Finds.many (hp : Finds source p good) :
    Finds source (many p) fun as => ∀ a ∈ as, good a := by
  refine Relates.many hp ?nil ?cons
  case nil => exact fun i hi => ⟨hi, fun hnone => ⟨hnone, fun a ha => absurd ha List.not_mem_nil⟩⟩
  case cons =>
    intro i j i' a as hfirst hothers hi
    obtain ⟨hj, hgood⟩ := hfirst hi
    obtain ⟨hi', hgoods⟩ := hothers hj
    refine ⟨hi', fun hnone => ?_⟩
    obtain ⟨hnone', has⟩ := hgoods hnone
    exact ⟨(hgood hnone').1, List.forall_mem_cons.2 ⟨(hgood hnone').2, has⟩⟩

lemma Finds.rule {r : Rule} (hp : Finds source p good) : Finds source (rule r p) good :=
  Relates.rule hp

lemma finds_here : Finds source here fun _ => True :=
  relates_step fun _ hi => ⟨hi, fun hnone => ⟨hnone, trivial⟩⟩

lemma finds_spaces : Finds source spaces fun _ => True :=
  relates_step fun _ hi => ⟨hi.skipSpaces, fun hnone => ⟨hnone, trivial⟩⟩

lemma finds_endOfText : Finds source endOfText fun _ => True :=
  relates_endOfText fun _ _ hi => ⟨hi, fun hnone => ⟨hnone, trivial⟩⟩

/-- After a whole number out of range has been noted, nothing has to be good. -/
lemma finds_noteOverflow (offset length : Nat) :
    Finds source (noteOverflow offset length) fun _ => False :=
  relates_step fun _ hi => ⟨hi, fun hnone => by simp at hnone⟩

lemma finds_lexeme {scan : Scanner} {good : List Char → Prop} (hscan : Splits scan)
    (h : ∀ cs text rest, scan cs = some (text, rest) → StandsIn text source → good text) :
    Finds source (lexeme scan) good := by
  refine relates_lexeme fun i text rest hfound hi => ?_
  obtain ⟨hrest, hparted⟩ := hscan _ _ _ hfound
  rw [hrest] at hi
  exact ⟨(hi.next hparted).skipSpaces,
    fun hnone => ⟨hnone, h _ _ _ hfound (hi.standsIn hparted)⟩⟩

lemma Splits.finds {scan : Scanner} (h : Splits scan) :
    Finds source (lexeme scan) fun _ => True :=
  finds_lexeme h fun _ _ _ _ _ => trivial

lemma finds_token {word : String} (h : endsPlain word.toList = true) :
    Finds source (token word) fun _ => True :=
  (splits_scanText h).finds.map fun _ _ => trivial

lemma Finds.token {word : String} {k : Unit → Parser β} (h : endsPlain word.toList = true)
    (hk : ∀ a, Finds source (k a) good') : Finds source (token word >>= k) good' :=
  (finds_token h).after hk

/-- A parser that gives a value for a whole source has found it there and has noted nothing. -/
lemma Relates.run {R : Input → Input → α → Prop} (hp : Relates p R) {source : String} {a : α}
    (h : p.run source = .ok a) : ∃ i', R ⟨source.toList, {}, none⟩ i' a ∧ i'.overflow = none := by
  unfold Parser.run at h
  dsimp only at h
  split at h
  · cases h
  · next b i' frontier hb =>
    split at h
    · cases h
    · next hnone =>
      cases h
      exact ⟨i', hp _ _ _ _ _ hb, hnone⟩

lemma Finds.run {source : String} (hp : Finds source.toList p good) {a : α}
    (h : p.run source = .ok a) : good a := by
  obtain ⟨i', hfound, hnone⟩ := Relates.run hp h
  exact ((hfound (remains_self _)).2 hnone).2

end Combinators

/-! ## Lexemes -/

section Lexemes

variable {source : List Char}

lemma isName_of_scanName {cs word rest : List Char} (h : scanName cs = some (word, rest)) :
    isName (String.ofList word) = true := by
  rw [scanName] at h
  split at h
  · next hword =>
    obtain ⟨rfl, -⟩ := Prod.mk.inj (Option.some.inj h)
    rw [isName_iff, String.toList_ofList]
    exact ⟨fun c hc => List.mem_takeWhile_imp hc, hword⟩
  · cases h

lemma finds_identifier : Finds source identifier fun name => isName name = true :=
  ((finds_lexeme splits_scanName fun _ _ _ h _ => isName_of_scanName h).map fun _ h => h).rule

lemma finds_quotedText : Finds source quotedText fun _ => True :=
  (splits_scanQuoted.finds.map fun _ _ => trivial).rule

lemma finds_boolean : Finds source boolean fun _ => True :=
  ((splits_scanWord _).finds.map fun _ _ => trivial).rule

lemma splits_scanInteger : Splits scanInteger := by
  intro cs text rest h
  obtain ⟨_, -, -, hcs, hparted⟩ := numeral_of_scanInteger h
  exact ⟨hcs, hparted⟩

lemma splits_scanFloat : Splits scanFloat := by
  intro cs text rest h
  obtain ⟨_, -, -, hcs, hparted⟩ := numeral_of_scanFloat h
  exact ⟨hcs, hparted⟩

lemma finds_floatNumber :
    Finds source floatNumber fun x => (Literal.float x).DrawnFrom source := by
  have hlexeme : Finds source (lexeme scanFloat) fun text =>
      (Literal.float (Binary64.ofLiteral text)).DrawnFrom source := by
    refine finds_lexeme splits_scanFloat fun cs text rest h hstands => ?_
    obtain ⟨t, hpart, rfl, -⟩ := numeral_of_scanFloat h
    exact ⟨t, hpart, hstands, rfl⟩
  exact .rule (hlexeme.map fun _ h => h)

lemma finds_integerText : Finds source integerText fun found =>
    ∃ t : Numeral, t.part = [] ∧ StandsIn t.text source ∧ t.text = found.2 := by
  have hlexeme : Finds source (lexeme scanInteger) fun text =>
      ∃ t : Numeral, t.part = [] ∧ StandsIn t.text source ∧ t.text = text := by
    refine finds_lexeme splits_scanInteger fun cs text rest h hstands => ?_
    obtain ⟨t, hpart, rfl, -⟩ := numeral_of_scanInteger h
    exact ⟨t, hpart, hstands, rfl⟩
  exact .rule (finds_here.after fun _ => hlexeme.map fun _ h => h)

lemma finds_number : Finds source number (NumberFrom source) := by
  have hfloat : Finds source floatNumber (NumberFrom source) :=
    finds_floatNumber.mono fun _ ⟨t, _, hstands, hx⟩ => ⟨t, hstands, hx⟩
  refine hfloat.orElse (finds_integerText.map ?_)
  rintro ⟨place, text⟩ ⟨t, -, hstands, rfl⟩
  exact ⟨t, hstands, rfl⟩

lemma finds_integer : Finds source integer fun n => (Literal.int n).DrawnFrom source := by
  refine finds_integerText.bind fun found => ?_
  dsimp only
  split
  · next n hread =>
    refine finds_pure ?_
    rintro ⟨t, hpart, hstands, htext⟩
    exact ⟨t, hpart, hstands, toInt_of_readInt64 hpart (htext ▸ hread)⟩
  · exact (finds_noteOverflow _ _).bind fun _ => finds_pure fun h => h.elim

end Lexemes

end Novella.Proofs
