import Mathlib.Data.List.Forall2
import Novella.Proofs.Json.Numbers
import Novella.Proofs.Json.Readable
import Novella.Proofs.Json.Spelling
import Novella.Proofs.Json.Texts
import Novella.Proofs.Results

/-!
# JSON documents read back

Reading the text of a value, with whatever blanks between its parts, gives a tree that shows the
value (`read_spelled`), provided that the value is `Readable`. So decoding what is written for a
value is decoding such a tree (`decodeDocument_pretty`, `decodeDocument_compact`).
-/

namespace Novella.Json

/-- The tree of a document shows a value. A number that is not finite is shown as `null`. -/
inductive Shows : Tree → Json → Prop
  | null {peek stop : Spot} : Shows (.scalar peek stop .null) .null
  | bool {peek stop : Spot} {b : Bool} : Shows (.scalar peek stop (.bool b)) (.bool b)
  | int {peek stop : Spot} {n : Int} : Shows (.scalar peek stop (.number (.ok (.int n)))) (.int n)
  | float {peek stop : Spot} {x : Binary64} :
      Shows (.scalar peek stop (.number (.ok (.float x)))) (.float x)
  | noFloat {peek stop : Spot} {x : Binary64} (infinite : x.isFinite = false) :
      Shows (.scalar peek stop .null) (.float x)
  | text {peek stop : Spot} {s : String} : Shows (.scalar peek stop (.text (.ok s))) (.text s)
  | list {start stop : Spot} {items : List Tree} {vs : List Json} (each : List.Forall₂ Shows items vs) :
      Shows (.list start items (.closed stop)) (.list vs)
  | record {start stop : Spot} {members : List (Key × Tree)} {kvs : List (String × Json)}
      (names : List.Forall₂ (fun m kv => m.1.name = .ok kv.1) members kvs)
      (values : List.Forall₂ Shows (members.map (·.2)) (kvs.map (·.2))) :
      Shows (.record start members (.closed stop)) (.record kvs)

end Novella.Json

namespace Novella.Proofs

open Json

/-! ## Values -/

section Values

variable {c : Cursor} {rest : List Char}

lemma rest_skipBlanks {gap : List Char} (hgap : ∀ a ∈ gap, isGap a = true)
    (hrest : NotAhead isGap rest) (hc : c.rest = gap ++ rest) : c.skipBlanks.rest = rest := by
  obtain ⟨cs, spot⟩ := c
  subst hc
  rw [Cursor.skipBlanks]
  induction gap generalizing spot with
  | nil =>
    cases rest with
    | nil => rfl
    | cons a rest =>
      have ha : isGap a = false := hrest a rfl
      simp only [isGap] at ha
      simp only [List.nil_append, Cursor.skipBlanksFrom, ha, Bool.false_eq_true, if_false]
  | cons a gap ih =>
    obtain ⟨ha, hmore⟩ := List.forall_mem_cons.1 hgap
    simp only [isGap] at ha
    simp only [List.cons_append, Cursor.skipBlanksFrom, ha, if_true]
    exact ih hmore _

lemma skipBlanks_of_notAhead (hrest : NotAhead isGap c.rest) : c.skipBlanks.rest = c.rest :=
  rest_skipBlanks (fun _ h => absurd h List.not_mem_nil) hrest (List.nil_append _).symm

lemma readWord_append {word : List Char} (hc : c.rest = word ++ rest) :
    ∃ c', readWord word c = .ok c' ∧ c'.rest = rest := by
  induction word generalizing c with
  | nil => exact ⟨c, rfl, hc⟩
  | cons a word ih =>
    obtain ⟨c', hread, hc'⟩ := ih (rest_step hc)
    exact ⟨c', by rw [readWord, hc]; exact (if_pos rfl).trans hread, hc'⟩

/-- A value is read, and shown by what was read, up to the rest of the text. -/
def ReadAs (fuel : Nat) (c : Cursor) (rest : List Char) (v : Json) : Prop :=
  ∃ t c', readValue fuel c = (t, some c') ∧ c'.rest = rest ∧ Shows t v

lemma readValue_null (hc : c.skipBlanks.rest = "null".toList ++ rest) (fuel : Nat) :
    ∃ peek stop c', readValue (fuel + 1) c = (.scalar peek stop .null, some c') ∧ c'.rest = rest := by
  obtain ⟨c', hread, hc'⟩ := readWord_append hc
  refine ⟨c.skipBlanks.peekSpot, c'.spot, c', ?_, hc'⟩
  rw [readValue]
  dsimp only
  rw [hc]
  simp only [hread]
  rfl

lemma readValue_bool {b : Bool} (hc : c.skipBlanks.rest = (writeBool b).toList ++ rest) (fuel : Nat) :
    ReadAs (fuel + 1) c rest (.bool b) := by
  obtain ⟨c', hread, hc'⟩ := readWord_append hc
  refine ⟨.scalar c.skipBlanks.peekSpot c'.spot (.bool b), c', ?_, hc', .bool⟩
  rw [readValue]
  dsimp only
  cases b with
  | true =>
    rw [hc]
    simp only [writeBool, if_true] at hread
    simp only [hread]
    rfl
  | false =>
    rw [hc]
    simp only [writeBool, Bool.false_eq_true, if_false] at hread
    simp only [hread]
    rfl

lemma readValue_text {s : String} (hc : c.skipBlanks.rest = (quote s).toList ++ rest) (fuel : Nat) :
    ReadAs (fuel + 1) c rest (.text s) := by
  have hquote : c.skipBlanks.rest = '"' :: (s.toList.flatMap escapeChar ++ '"' :: rest) := by
    rw [hc, quote, String.toList_ofList]
    simp
  obtain ⟨c', hc', hread⟩ := textBoth_quoted (rest_step hquote)
  refine ⟨.scalar c.skipBlanks.peekSpot c'.spot (.text (.ok s)), c', ?_, hc', .text⟩
  rw [readValue]
  dsimp only
  rw [hquote]
  simp only [hread]
  rfl

/-- A number begins with a minus or a digit. -/
lemma spelling_head {t : NumberText} (ht : Proper t) :
    ∃ a more, t.spelling = a :: more ∧ (a = '-' ∨ a.isDigit = true) := by
  obtain ⟨negative, whole, part, exponent⟩ := t
  cases negative with
  | true => exact ⟨'-', _, rfl, .inl rfl⟩
  | false =>
    obtain ⟨a, more, (rfl : whole = a :: more), ha⟩ := ht.whole.exists_cons
    exact ⟨a, _, rfl, .inr ha⟩

lemma readValue_number {t : NumberText} (ht : Proper t) (hc : c.skipBlanks.rest = t.spelling ++ rest)
    (hrest : NotAhead continuesNumber rest) (fuel : Nat) :
    ∃ peek c', readValue (fuel + 1) c =
      (.scalar peek c'.spot (numberLeaf c.skipBlanks t), some c') ∧ c'.rest = rest := by
  obtain ⟨c', hread, hc'⟩ := readNumber_spelling ht hc hrest
  refine ⟨c.skipBlanks.peekSpot, c', ?_, hc'⟩
  obtain ⟨a, more, hspelling, ha⟩ := spelling_head ht
  have hne : ∀ b : Char, b.isDigit = false → b ≠ '-' → a ≠ b := by
    rintro b hdigit hminus rfl
    rcases ha with rfl | ha
    · exact hminus rfl
    · exact ne_of_isDigit ha hdigit rfl
  have hnumber : (decide (a = '-') || a.isDigit) = true := by
    rcases ha with rfl | ha
    · rfl
    · rw [ha, Bool.or_true]
  rw [readValue]
  dsimp only
  rw [hc, hspelling, List.cons_append]
  dsimp only
  rw [if_neg (hne 'n' (by decide) (by decide)), if_neg (hne 't' (by decide) (by decide)),
    if_neg (hne 'f' (by decide) (by decide)), if_neg (hne '"' (by decide) (by decide)),
    if_neg (hne '[' (by decide) (by decide)), if_neg (hne '\x7b' (by decide) (by decide)),
    if_pos hnumber, hread]

lemma notAhead_gap_spelling {t : NumberText} (ht : Proper t) : NotAhead isGap (t.spelling ++ rest) := by
  obtain ⟨a, more, hspelling, ha⟩ := spelling_head ht
  intro b hb
  rw [hspelling] at hb
  obtain rfl : a = b := Option.some.inj hb
  rcases ha with rfl | ha
  · decide
  · simp only [isGap, Bool.or_eq_false_iff, decide_eq_false_iff_not]
    refine ⟨⟨⟨?_, ?_⟩, ?_⟩, ?_⟩ <;> rintro rfl <;> exact absurd ha (by decide)

/-- The digits that are written for a number stand for it, if it is read exactly. -/
lemma value_of_exact {x : Binary64} (hfinite : x.isFinite = true) (hx : Exact x) :
    ∃ t, Proper t ∧ (writeFloat x).toList = t.spelling ∧ t.value = .ok (.float x) := by
  obtain ⟨t, ht, hspelling⟩ := writeFloat_spelling hfinite
  refine ⟨t, ht, hspelling, ?_⟩
  obtain ⟨c, hc⟩ : ∃ c : Cursor, c = ⟨(writeFloat x).toList, {}⟩ := ⟨_, rfl⟩
  have hrest : c.skipBlanks.rest = t.spelling ++ [] := by
    rw [skipBlanks_of_notAhead, hc, hspelling, List.append_nil]
    rw [hc, hspelling, ← List.append_nil t.spelling]
    exact notAhead_gap_spelling ht
  obtain ⟨peek, c', hread, hc'⟩ := readValue_number ht hrest (by intro _ h; cases h)
    (2 * (writeFloat x).toList.length + 1)
  have htree : Tree.read (writeFloat x).toList =
      (.scalar peek c'.spot (numberLeaf c.skipBlanks t), some c') := by
    rw [Tree.read, ← hc]
    exact hread
  rw [Exact, Json.read, decodeDocument, htree] at hx
  obtain ⟨v, hv, hfinish⟩ := exists_of_bind hx
  have hend : c'.skipBlanks.rest.isEmpty = true := by
    rw [skipBlanks_of_notAhead (hc' ▸ fun _ h => by cases h), hc']
    rfl
  have hfound : v = .float x := by
    simp only [hend, if_true] at hfinish
    exact Except.ok.inj hfinish
  rw [hfound] at hv
  cases hvalue : t.value with
  | ok w =>
    rw [numberLeaf, hvalue] at hv
    exact congrArg Except.ok (Except.ok.inj hv)
  | error size =>
    rw [numberLeaf, hvalue] at hv
    cases hv

end Values

/-! ## Lists and records -/

/-- Wherever the text of a value stands, it is read as the value. -/
def ReadsBack (s : Spacing) (v : Json) : Prop :=
  ∀ depth c rest fuel, NotAhead continuesNumber rest →
    c.skipBlanks.rest = spelled s depth v ++ rest → 2 * c.skipBlanks.rest.length < fuel →
    ReadAs fuel c rest v

section Parts

variable {s : Spacing} {c : Cursor} {rest : List Char}

/-- A character with which values begin. -/
def beginsValue (c : Char) : Bool := !isGap c && c ≠ ']'

lemma ne_close_of_beginsValue {a : Char} (h : beginsValue a = true) : a ≠ ']' := by
  simp only [beginsValue, Bool.and_eq_true, decide_eq_true_eq] at h
  exact h.2

lemma beginsValue_spelling {t : NumberText} (ht : Proper t) :
    ∃ a more, t.spelling = a :: more ∧ beginsValue a = true := by
  obtain ⟨a, more, hspelling, ha⟩ := spelling_head ht
  have hgap : isGap a = false := by
    have hahead : NotAhead isGap (t.spelling ++ []) := notAhead_gap_spelling ht
    exact hahead a (by rw [hspelling]; rfl)
  have hclose : a ≠ ']' := by
    rintro rfl
    rcases ha with ha | ha <;> exact absurd ha (by decide)
  exact ⟨a, more, hspelling, by simp [beginsValue, hgap, hclose]⟩

lemma spelled_head (s : Spacing) (depth : Nat) (v : Json) :
    ∃ a more, spelled s depth v = a :: more ∧ beginsValue a = true := by
  cases v with
  | null => exact ⟨'n', _, rfl, by decide⟩
  | bool b => cases b <;> exact ⟨_, _, rfl, by decide⟩
  | int n =>
    obtain ⟨a, more, hspelling, ha⟩ := beginsValue_spelling (proper_wholeText n)
    exact ⟨a, more, by rw [spelled, ← spelling_wholeText, hspelling], ha⟩
  | float x =>
    by_cases hfinite : x.isFinite = true
    · obtain ⟨t, ht, hx⟩ := writeFloat_spelling hfinite
      obtain ⟨a, more, hspelling, ha⟩ := beginsValue_spelling ht
      exact ⟨a, more, by rw [spelled, hx, hspelling], ha⟩
    · exact ⟨'n', "ull".toList, by rw [spelled, writeFloat, if_neg hfinite]; rfl, by decide⟩
  | text s => exact ⟨'"', _, by rw [spelled, quote, String.toList_ofList], by decide⟩
  | list items => cases items <;> exact ⟨'[', _, rfl, by decide⟩
  | record members => cases members <;> exact ⟨'\x7b', _, rfl, by decide⟩

/-- A value begins where the blanks before it end. -/
lemma notAhead_gap_spelled (s : Spacing) (depth : Nat) (v : Json) :
    NotAhead isGap (spelled s depth v ++ rest) := by
  obtain ⟨a, more, hv, ha⟩ := spelled_head s depth v
  intro b hb
  rw [hv] at hb
  obtain rfl : a = b := Option.some.inj hb
  simp only [beginsValue, Bool.and_eq_true, Bool.not_eq_true'] at ha
  exact ha.1

/-- The item that comes next is read, whatever stands before it. -/
lemma ReadsBack.readAs {v : Json} {depth fuel : Nat} (hv : ReadsBack s v)
    (hc : c.rest = spelled s depth v ++ rest) (hrest : NotAhead continuesNumber rest)
    (hfuel : 2 * c.rest.length < fuel) : ReadAs fuel c rest v := by
  have hskip : c.skipBlanks.rest = c.rest :=
    skipBlanks_of_notAhead (hc ▸ notAhead_gap_spelled s depth v)
  exact hv depth c rest fuel hrest (hskip.trans hc) (hskip ▸ hfuel)

/-- The first item of a list is read, and then the items after it. -/
lemma readItems_first {v : Json} {depth fuel : Nat} (hv : ReadsBack s v)
    (hc : c.skipBlanks.rest = spelled s depth v ++ rest) (hrest : NotAhead continuesNumber rest)
    (hfuel : 2 * c.skipBlanks.rest.length < fuel) :
    ∃ t c', c'.rest = rest ∧ Shows t v ∧ readItems (fuel + 1) true c =
      (t :: (readItems fuel false c').1, (readItems fuel false c').2) := by
  obtain ⟨t, c', hread, hc', hshows⟩ := hv.readAs hc hrest hfuel
  obtain ⟨a, more, hspelled, ha⟩ := spelled_head s depth v
  have hclose : a ≠ ']' := ne_close_of_beginsValue ha
  refine ⟨t, c', hc', hshows, ?_⟩
  rw [readItems]
  dsimp only
  rw [hc, hspelled, List.cons_append]
  dsimp only
  rw [if_neg hclose, if_pos rfl, hread]

/-- A further item of a list is read, and then the items after it. -/
lemma readItems_next {v : Json} {depth fuel : Nat} (hs : Blank s) (hv : ReadsBack s v)
    (hc : c.rest = ',' :: (s.gap depth ++ (spelled s depth v ++ rest)))
    (hrest : NotAhead continuesNumber rest) (hfuel : 2 * c.rest.length ≤ fuel) :
    ∃ t c', c'.rest = rest ∧ Shows t v ∧ readItems (fuel + 1) false c =
      (t :: (readItems fuel false c').1, (readItems fuel false c').2) := by
  have hskip : c.skipBlanks.rest = ',' :: (s.gap depth ++ (spelled s depth v ++ rest)) :=
    (skipBlanks_of_notAhead (by rw [hc]; intro b hb; cases hb; decide)).trans hc
  have hitem : c.skipBlanks.step.skipBlanks.rest = spelled s depth v ++ rest :=
    rest_skipBlanks (hs.gap depth) (notAhead_gap_spelled s depth v) (rest_step hskip)
  have hlt : 2 * c.skipBlanks.step.skipBlanks.rest.length < fuel := by
    rw [hitem]
    simp only [hc, List.length_cons, List.length_append] at hfuel ⊢
    omega
  obtain ⟨t, c', hread, hc', hshows⟩ := hv.readAs hitem hrest hlt
  obtain ⟨a, more, hspelled, ha⟩ := spelled_head s depth v
  have hclose : a ≠ ']' := ne_close_of_beginsValue ha
  refine ⟨t, c', hc', hshows, ?_⟩
  rw [readItems]
  dsimp only
  rw [hskip]
  dsimp only
  rw [if_neg (by decide), if_neg (by decide), if_pos rfl, hitem, hspelled, List.cons_append]
  dsimp only
  rw [if_neg hclose, hread]

lemma readItems_close {fuel : Nat} {first : Bool} {gap : List Char} (hgap : ∀ a ∈ gap, isGap a = true)
    (hc : c.rest = gap ++ ']' :: rest) :
    ∃ stop c', c'.rest = rest ∧ readItems (fuel + 1) first c = ([], .closed stop, some c') := by
  have hskip : c.skipBlanks.rest = ']' :: rest :=
    rest_skipBlanks hgap (by intro b hb; cases hb; decide) hc
  refine ⟨c.skipBlanks.step.spot, c.skipBlanks.step, rest_step hskip, ?_⟩
  rw [readItems]
  dsimp only
  rw [hskip]
  rfl

lemma not_continuesNumber_of_isGap {a : Char} (h : isGap a = true) : continuesNumber a = false := by
  simp only [isGap, Bool.or_eq_true, decide_eq_true_eq] at h
  rcases h with ((rfl | rfl) | rfl) | rfl <;> decide

/-- No number goes on where blanks and a bracket, or a comma, follow. -/
lemma notAhead_continuesNumber {gap : List Char} {a : Char} (hgap : ∀ b ∈ gap, isGap b = true)
    (ha : continuesNumber a = false) : NotAhead continuesNumber (gap ++ a :: rest) := by
  cases gap with
  | nil =>
    intro b hb
    cases hb
    exact ha
  | cons b gap =>
    intro b' hb
    cases hb
    exact not_continuesNumber_of_isGap (hgap b List.mem_cons_self)

/-- After an opening bracket and blanks stands what is inside, which takes less room. -/
lemma rest_opened {bracket : Char} {gap inside : List Char} (hgap : ∀ a ∈ gap, isGap a = true)
    (hinside : NotAhead isGap inside) (hopen : c.skipBlanks.rest = bracket :: (gap ++ inside)) :
    c.skipBlanks.step.skipBlanks.rest = inside ∧
      inside.length < c.skipBlanks.rest.length := by
  refine ⟨rest_skipBlanks hgap hinside (rest_step hopen), ?_⟩
  rw [hopen, List.length_cons, List.length_append]
  omega

lemma notAhead_spelledItems {depth depth' : Nat} {vs : List Json} (hs : Blank s) :
    NotAhead continuesNumber (spelledItems s depth vs ++ (s.gap depth' ++ ']' :: rest)) := by
  cases vs with
  | nil => exact notAhead_continuesNumber (hs.gap depth') (by decide)
  | cons v vs =>
    intro b hb
    cases hb
    decide

/-- The items after the first and the end of a list are read. -/
lemma readItems_spelled {vs : List Json} (hs : Blank s) (h : ∀ v ∈ vs, ReadsBack s v)
    {depth depth' fuel : Nat} (hc : c.rest = spelledItems s depth vs ++ (s.gap depth' ++ ']' :: rest))
    (hfuel : 2 * c.rest.length < fuel) :
    ∃ ts stop c', c'.rest = rest ∧ List.Forall₂ Shows ts vs ∧
      readItems fuel false c = (ts, .closed stop, some c') := by
  induction vs generalizing c fuel with
  | nil =>
    obtain ⟨fuel, rfl⟩ := Nat.exists_eq_add_one_of_ne_zero (n := fuel) (by omega)
    obtain ⟨stop, c', hc', hread⟩ := readItems_close (hs.gap depth') hc
    exact ⟨[], stop, c', hc', .nil, hread⟩
  | cons v vs ih =>
    obtain ⟨hv, hvs⟩ := List.forall_mem_cons.1 h
    obtain ⟨fuel, rfl⟩ := Nat.exists_eq_add_one_of_ne_zero (n := fuel) (by omega)
    have hnext : c.rest = ',' :: (s.gap depth ++ (spelled s depth v ++
        (spelledItems s depth vs ++ (s.gap depth' ++ ']' :: rest)))) := by
      rw [hc, spelledItems]
      simp only [List.cons_append, List.append_assoc]
    obtain ⟨t, c₁, hc₁, ht, hread⟩ := readItems_next hs hv hnext (notAhead_spelledItems hs)
      (Nat.le_of_lt_succ hfuel)
    have hlt : 2 * c₁.rest.length < fuel := by
      rw [hnext] at hfuel
      simp only [hc₁, List.length_cons, List.length_append] at hfuel ⊢
      omega
    obtain ⟨ts, stop, c', hc', hts, hreads⟩ := ih hvs hc₁ hlt
    exact ⟨t :: ts, stop, c', hc', .cons ht hts, by rw [hread, hreads]⟩

lemma readValue_list {fuel : Nat} {more : List Char} (hopen : c.skipBlanks.rest = '[' :: more)
    {ts : List Tree} {stop : Spot} {c' : Cursor}
    (hread : readItems fuel true c.skipBlanks.step = (ts, .closed stop, some c')) :
    readValue (fuel + 1) c = (.list c.skipBlanks.spot ts (.closed stop), some c') := by
  rw [readValue]
  dsimp only
  rw [hopen]
  dsimp only
  rw [hread]
  rfl

lemma readsBack_list {items : List Json} (hs : Blank s) (h : ∀ v ∈ items, ReadsBack s v) :
    ReadsBack s (.list items) := by
  intro depth c rest fuel hrest hc hfuel
  obtain ⟨fuel, rfl⟩ := Nat.exists_eq_add_one_of_ne_zero (n := fuel) (by omega)
  cases items with
  | nil =>
    have hclose : c.skipBlanks.step.rest = [] ++ ']' :: rest := rest_step hc
    obtain ⟨fuel, rfl⟩ := Nat.exists_eq_add_one_of_ne_zero (n := fuel) (by
      rw [hc] at hfuel
      simp only [spelled, List.length_append, List.length_cons] at hfuel
      omega)
    obtain ⟨stop, c', hc', hread⟩ := readItems_close (fun _ h => absurd h List.not_mem_nil) hclose
    exact ⟨_, c', readValue_list hc hread, hc', .list .nil⟩
  | cons v vs =>
    obtain ⟨hv, hvs⟩ := List.forall_mem_cons.1 h
    have hopen : c.skipBlanks.rest = '[' :: (s.gap (depth + 1) ++ (spelled s (depth + 1) v ++
        (spelledItems s (depth + 1) vs ++ (s.gap depth ++ ']' :: rest)))) := by
      rw [hc]
      simp only [spelled, List.cons_append, List.append_assoc, List.nil_append]
    obtain ⟨hskip, hless⟩ :=
      rest_opened (hs.gap (depth + 1)) (notAhead_gap_spelled s (depth + 1) v) hopen
    obtain ⟨fuel, rfl⟩ := Nat.exists_eq_add_one_of_ne_zero (n := fuel) (by omega)
    have hroom : 2 * c.skipBlanks.step.skipBlanks.rest.length < fuel := by
      rw [hskip]
      omega
    obtain ⟨t, c₁, hc₁, ht, hread⟩ := readItems_first hv hskip (notAhead_spelledItems hs) hroom
    have hroom₁ : 2 * c₁.rest.length < fuel := by
      rw [hskip, List.length_append] at hroom
      rw [hc₁]
      omega
    obtain ⟨ts, stop, c', hc', hts, hreads⟩ := readItems_spelled hs hvs hc₁ hroom₁
    rw [hreads] at hread
    exact ⟨_, c', readValue_list hopen hread, hc', .list (.cons ht hts)⟩

/-- The text of a member: the quoted name, a colon and the value. -/
def spelledMember (s : Spacing) (depth : Nat) (k : String) (v : Json) : List Char :=
  (quote k).toList ++ (':' :: (s.afterColon ++ spelled s depth v))

lemma spelledMember_head (s : Spacing) (depth : Nat) (k : String) (v : Json) :
    ∃ more, spelledMember s depth k v = '"' :: more := by
  rw [spelledMember, toList_quote]
  exact ⟨_, rfl⟩

/-- The name of a member is read, and after the colon its value. -/
lemma member_parts {k : String} {v : Json} {depth fuel : Nat} (hs : Blank s) (hv : ReadsBack s v)
    (hc : c.rest = spelledMember s depth k v ++ rest) (hrest : NotAhead continuesNumber rest)
    (hfuel : 2 * c.rest.length ≤ fuel) :
    ∃ c₁ t c' more, textBoth c.step = .ok (.ok k, c₁) ∧ c₁.skipBlanks.rest = ':' :: more ∧
      readValue fuel c₁.skipBlanks.step = (t, some c') ∧ c'.rest = rest ∧ Shows t v := by
  have hquote : c.rest = '"' :: (k.toList.flatMap escapeChar ++ '"' ::
      (':' :: (s.afterColon ++ (spelled s depth v ++ rest)))) := by
    rw [hc, spelledMember, toList_quote]
    simp only [List.cons_append, List.append_assoc, List.nil_append]
  obtain ⟨c₁, hc₁, hname⟩ := textBoth_quoted (rest_step hquote)
  have hcolon : c₁.skipBlanks.rest = ':' :: (s.afterColon ++ (spelled s depth v ++ rest)) :=
    (skipBlanks_of_notAhead (by rw [hc₁]; intro b hb; cases hb; decide)).trans hc₁
  have hvalue : c₁.skipBlanks.step.skipBlanks.rest = spelled s depth v ++ rest :=
    rest_skipBlanks hs.afterColon (notAhead_gap_spelled s depth v) (rest_step hcolon)
  have hlt : 2 * c₁.skipBlanks.step.skipBlanks.rest.length < fuel := by
    rw [hvalue]
    rw [hquote] at hfuel
    simp only [List.length_cons, List.length_append] at hfuel ⊢
    omega
  obtain ⟨t, c', hread, hc', hshows⟩ := hv depth _ rest fuel hrest hvalue hlt
  exact ⟨c₁, t, c', _, hname, hcolon, hread, hc', hshows⟩

/-- The first member of a record is read, and then the members after it. -/
lemma readMembers_first {k : String} {v : Json} {depth fuel : Nat} (hs : Blank s)
    (hv : ReadsBack s v) (hc : c.skipBlanks.rest = spelledMember s depth k v ++ rest)
    (hrest : NotAhead continuesNumber rest) (hfuel : 2 * c.skipBlanks.rest.length ≤ fuel) :
    ∃ key t c', c'.rest = rest ∧ key.name = .ok k ∧ Shows t v ∧ readMembers (fuel + 1) true c =
      ((key, t) :: (readMembers fuel false c').1, (readMembers fuel false c').2) := by
  obtain ⟨c₁, t, c', more, hname, hcolon, hread, hc', hshows⟩ := member_parts hs hv hc hrest hfuel
  obtain ⟨others, hhead⟩ := spelledMember_head s depth k v
  refine ⟨⟨.ok k, c.skipBlanks.spot, c₁.spot, c₁.skipBlanks.spot⟩, t, c', hc', rfl, hshows, ?_⟩
  rw [readMembers]
  dsimp only
  rw [hc, hhead, List.cons_append]
  dsimp only
  rw [if_neg (by decide), if_pos rfl, if_pos rfl, hname]
  dsimp only
  rw [hcolon]
  rw [hread]
  rfl

/-- A further member of a record is read, and then the members after it. -/
lemma readMembers_next {k : String} {v : Json} {depth fuel : Nat} (hs : Blank s)
    (hv : ReadsBack s v) (hc : c.rest = ',' :: (s.gap depth ++ (spelledMember s depth k v ++ rest)))
    (hrest : NotAhead continuesNumber rest) (hfuel : 2 * c.rest.length ≤ fuel) :
    ∃ key t c', c'.rest = rest ∧ key.name = .ok k ∧ Shows t v ∧ readMembers (fuel + 1) false c =
      ((key, t) :: (readMembers fuel false c').1, (readMembers fuel false c').2) := by
  obtain ⟨others, hhead⟩ := spelledMember_head s depth k v
  have hskip : c.skipBlanks.rest = ',' :: (s.gap depth ++ (spelledMember s depth k v ++ rest)) :=
    (skipBlanks_of_notAhead (by rw [hc]; intro b hb; cases hb; decide)).trans hc
  have hmember : c.skipBlanks.step.skipBlanks.rest = spelledMember s depth k v ++ rest := by
    refine rest_skipBlanks (hs.gap depth) ?_ (rest_step hskip)
    rw [hhead]
    intro b hb
    cases hb
    decide
  have hle : 2 * c.skipBlanks.step.skipBlanks.rest.length ≤ fuel := by
    rw [hmember]
    simp only [hc, List.length_cons, List.length_append] at hfuel ⊢
    omega
  obtain ⟨c₁, t, c', more, hname, hcolon, hread, hc', hshows⟩ :=
    member_parts hs hv hmember hrest hle
  refine ⟨⟨.ok k, c.skipBlanks.spot, c₁.spot, c₁.skipBlanks.spot⟩, t, c', hc', rfl, hshows, ?_⟩
  rw [readMembers]
  dsimp only
  rw [hskip]
  dsimp only
  rw [if_neg (by decide), if_neg (by decide), if_pos rfl, hmember, hhead, List.cons_append]
  dsimp only
  rw [if_pos rfl, hname]
  dsimp only
  rw [hcolon]
  rw [hread]
  rfl

lemma readMembers_close {fuel : Nat} {first : Bool} {gap : List Char}
    (hgap : ∀ a ∈ gap, isGap a = true) (hc : c.rest = gap ++ '\x7d' :: rest) :
    ∃ stop c', c'.rest = rest ∧ readMembers (fuel + 1) first c = ([], .closed stop, some c') := by
  have hskip : c.skipBlanks.rest = '\x7d' :: rest :=
    rest_skipBlanks hgap (by intro b hb; cases hb; decide) hc
  refine ⟨c.skipBlanks.step.spot, c.skipBlanks.step, rest_step hskip, ?_⟩
  rw [readMembers]
  dsimp only
  rw [hskip]
  rfl

lemma spelledMembers_cons (s : Spacing) (depth : Nat) (k : String) (v : Json)
    (kvs : List (String × Json)) : spelledMembers s depth ((k, v) :: kvs) =
      ',' :: (s.gap depth ++ (spelledMember s depth k v ++ spelledMembers s depth kvs)) := by
  simp only [spelledMembers, spelledMember, List.append_assoc, List.cons_append]

lemma notAhead_spelledMembers {depth depth' : Nat} {kvs : List (String × Json)} (hs : Blank s) :
    NotAhead continuesNumber (spelledMembers s depth kvs ++ (s.gap depth' ++ '\x7d' :: rest)) := by
  cases kvs with
  | nil => exact notAhead_continuesNumber (hs.gap depth') (by decide)
  | cons v vs =>
    intro b hb
    cases hb
    decide

/-- The members that are read have the names of the members written and show their values. -/
def ShowsMembers (members : List (Key × Tree)) (kvs : List (String × Json)) : Prop :=
  List.Forall₂ (fun m kv => m.1.name = .ok kv.1) members kvs ∧
    List.Forall₂ Shows (members.map (·.2)) (kvs.map (·.2))

lemma ShowsMembers.cons {key : Key} {t : Tree} {k : String} {v : Json}
    {members : List (Key × Tree)} {kvs : List (String × Json)} (hk : key.name = .ok k)
    (ht : Shows t v) (h : ShowsMembers members kvs) :
    ShowsMembers ((key, t) :: members) ((k, v) :: kvs) :=
  ⟨.cons hk h.1, .cons ht h.2⟩

/-- The members after the first and the end of a record are read. -/
lemma readMembers_spelled {kvs : List (String × Json)} (hs : Blank s)
    (h : ∀ m ∈ kvs, ReadsBack s m.2) {depth depth' fuel : Nat}
    (hc : c.rest = spelledMembers s depth kvs ++ (s.gap depth' ++ '\x7d' :: rest))
    (hfuel : 2 * c.rest.length < fuel) :
    ∃ ms stop c', c'.rest = rest ∧ ShowsMembers ms kvs ∧
      readMembers fuel false c = (ms, .closed stop, some c') := by
  induction kvs generalizing c fuel with
  | nil =>
    obtain ⟨fuel, rfl⟩ := Nat.exists_eq_add_one_of_ne_zero (n := fuel) (by omega)
    obtain ⟨stop, c', hc', hread⟩ := readMembers_close (hs.gap depth') hc
    exact ⟨[], stop, c', hc', ⟨.nil, .nil⟩, hread⟩
  | cons kv kvs ih =>
    obtain ⟨k, v⟩ := kv
    obtain ⟨hv, hvs⟩ := List.forall_mem_cons.1 h
    obtain ⟨fuel, rfl⟩ := Nat.exists_eq_add_one_of_ne_zero (n := fuel) (by omega)
    have hnext : c.rest = ',' :: (s.gap depth ++ (spelledMember s depth k v ++
        (spelledMembers s depth kvs ++ (s.gap depth' ++ '\x7d' :: rest)))) := by
      rw [hc, spelledMembers_cons]
      simp only [List.cons_append, List.append_assoc]
    obtain ⟨key, t, c₁, hc₁, hkey, ht, hread⟩ := readMembers_next hs hv hnext
      (notAhead_spelledMembers hs) (Nat.le_of_lt_succ hfuel)
    have hlt : 2 * c₁.rest.length < fuel := by
      rw [hnext] at hfuel
      simp only [hc₁, List.length_cons, List.length_append] at hfuel ⊢
      omega
    obtain ⟨ms, stop, c', hc', hms, hreads⟩ := ih hvs hc₁ hlt
    exact ⟨(key, t) :: ms, stop, c', hc', hms.cons hkey ht, by rw [hread, hreads]⟩

lemma readValue_record {fuel : Nat} {more : List Char} (hopen : c.skipBlanks.rest = '\x7b' :: more)
    {ms : List (Key × Tree)} {stop : Spot} {c' : Cursor}
    (hread : readMembers fuel true c.skipBlanks.step = (ms, .closed stop, some c')) :
    readValue (fuel + 1) c = (.record c.skipBlanks.spot ms (.closed stop), some c') := by
  rw [readValue]
  dsimp only
  rw [hopen]
  dsimp only
  rw [hread]
  rfl

lemma readsBack_record {members : List (String × Json)} (hs : Blank s)
    (h : ∀ m ∈ members, ReadsBack s m.2) : ReadsBack s (.record members) := by
  intro depth c rest fuel hrest hc hfuel
  obtain ⟨fuel, rfl⟩ := Nat.exists_eq_add_one_of_ne_zero (n := fuel) (by omega)
  cases members with
  | nil =>
    have hclose : c.skipBlanks.step.rest = [] ++ '\x7d' :: rest := rest_step hc
    obtain ⟨fuel, rfl⟩ := Nat.exists_eq_add_one_of_ne_zero (n := fuel) (by
      rw [hc] at hfuel
      simp only [spelled, List.length_append, List.length_cons] at hfuel
      omega)
    obtain ⟨stop, c', hc', hread⟩ := readMembers_close (fun _ h => absurd h List.not_mem_nil) hclose
    exact ⟨_, c', readValue_record hc hread, hc', .record .nil .nil⟩
  | cons kv kvs =>
    obtain ⟨k, v⟩ := kv
    obtain ⟨hv, hvs⟩ := List.forall_mem_cons.1 h
    have hopen : c.skipBlanks.rest = '\x7b' :: (s.gap (depth + 1) ++
        (spelledMember s (depth + 1) k v ++
          (spelledMembers s (depth + 1) kvs ++ (s.gap depth ++ '\x7d' :: rest)))) := by
      rw [hc]
      simp only [spelled, spelledMember, List.cons_append, List.append_assoc, List.nil_append]
    obtain ⟨others, hhead⟩ := spelledMember_head s (depth + 1) k v
    obtain ⟨hskip, hless⟩ := rest_opened (hs.gap (depth + 1))
      (by rw [hhead]; intro b hb; cases hb; decide) hopen
    obtain ⟨fuel, rfl⟩ := Nat.exists_eq_add_one_of_ne_zero (n := fuel) (by omega)
    have hroom : 2 * c.skipBlanks.step.skipBlanks.rest.length < fuel := by
      rw [hskip]
      omega
    obtain ⟨key, t, c₁, hc₁, hkey, ht, hread⟩ :=
      readMembers_first hs hv hskip (notAhead_spelledMembers hs) hroom.le
    have hroom₁ : 2 * c₁.rest.length < fuel := by
      rw [hskip, List.length_append] at hroom
      rw [hc₁]
      omega
    obtain ⟨ms, stop, c', hc', hms, hreads⟩ := readMembers_spelled hs hvs hc₁ hroom₁
    rw [hreads] at hread
    have hall := hms.cons hkey ht
    exact ⟨_, c', readValue_record hopen hread, hc', .record hall.1 hall.2⟩

/-- Wherever the text of a readable value stands, it is read as the value. -/
theorem readsBack (hs : Blank s) {v : Json} (hv : Readable v) : ReadsBack s v := by
  -- The rooms of the inner readings are smaller, so no leaf ever runs out of fuel.
  have hleaf : ∀ {v : Json}, (∀ fuel c rest, NotAhead continuesNumber rest →
      c.skipBlanks.rest = spelled s 0 v ++ rest → ReadAs (fuel + 1) c rest v) →
      (∀ depth, spelled s depth v = spelled s 0 v) → ReadsBack s v := by
    intro v hread hdepth depth c rest fuel hrest hc hfuel
    obtain ⟨fuel, rfl⟩ := Nat.exists_eq_add_one_of_ne_zero (n := fuel) (by omega)
    exact hread fuel c rest hrest (hdepth depth ▸ hc)
  induction v using json_induct with
  | null =>
    refine hleaf (fun fuel c rest _ hc => ?_) fun _ => rfl
    obtain ⟨peek, stop, c', hread, hc'⟩ := readValue_null hc fuel
    exact ⟨_, c', hread, hc', .null⟩
  | bool b => exact hleaf (fun fuel c rest _ hc => readValue_bool hc fuel) fun _ => rfl
  | int n =>
    refine hleaf (fun fuel c rest hrest hc => ?_) fun _ => rfl
    cases hv with
    | int low high =>
      rw [spelled, ← spelling_wholeText] at hc
      obtain ⟨peek, c', hread, hc'⟩ := readValue_number (proper_wholeText n) hc hrest fuel
      rw [numberLeaf, value_wholeText low high] at hread
      exact ⟨_, c', hread, hc', .int⟩
  | float x =>
    refine hleaf (fun fuel c rest hrest hc => ?_) fun _ => rfl
    cases hv with
    | float exactly =>
      by_cases hfinite : x.isFinite = true
      · obtain ⟨t, ht, hx, hvalue⟩ := value_of_exact hfinite (exactly hfinite)
        rw [spelled, hx] at hc
        obtain ⟨peek, c', hread, hc'⟩ := readValue_number ht hc hrest fuel
        rw [numberLeaf, hvalue] at hread
        exact ⟨_, c', hread, hc', .float⟩
      · rw [spelled, writeFloat, if_neg hfinite] at hc
        obtain ⟨peek, stop, c', hread, hc'⟩ := readValue_null hc fuel
        exact ⟨_, c', hread, hc', .noFloat (Bool.eq_false_iff.2 hfinite)⟩
  | text t => exact hleaf (fun fuel c rest _ hc => readValue_text hc fuel) fun _ => rfl
  | list items ih =>
    cases hv with
    | list each => exact readsBack_list hs fun v hv => ih v hv (each v hv)
  | record members ih =>
    cases hv with
    | record each => exact readsBack_record hs fun m hm => ih m hm (each m hm)

/-- The tree of a document in one of its written forms shows the value, and is all there is. -/
lemma read_spelled (hs : Blank s) {v : Json} (hv : Readable v) :
    ∃ t c, Tree.read (spelled s 0 v) = (t, some c) ∧ c.skipBlanks.rest = [] ∧ Shows t v := by
  have hstart : (Cursor.mk (spelled s 0 v) {}).skipBlanks.rest = spelled s 0 v ++ [] := by
    rw [List.append_nil]
    refine skipBlanks_of_notAhead (c := ⟨spelled s 0 v, {}⟩) ?_
    rw [← List.append_nil (spelled s 0 v)]
    exact notAhead_gap_spelled s 0 v
  have hroom : 2 * (Cursor.mk (spelled s 0 v) {}).skipBlanks.rest.length <
      2 * (spelled s 0 v).length + 2 := by
    rw [hstart, List.append_nil]
    omega
  obtain ⟨t, c, hread, hc, ht⟩ :=
    readsBack hs hv 0 _ [] _ (fun _ h => by cases h) hstart hroom
  refine ⟨t, c, hread, ?_, ht⟩
  rw [skipBlanks_of_notAhead (by rw [hc]; intro _ h; cases h), hc]

end Parts

/-! ## Documents -/

lemma decodeDocument_of_read {α : Type} (d : Decoder α) {text : String} {t : Tree} {c : Cursor}
    (hread : Tree.read text.toList = (t, some c)) (hc : c.skipBlanks.rest = []) :
    decodeDocument d text = d t := by
  rw [decodeDocument, hread]
  cases hd : d t with
  | error m => simp only [hd]; rfl
  | ok a =>
    simp only [hd, hc]
    rfl

/-- Decoding the text of a value is decoding a tree that shows the value. -/
theorem decodeDocument_pretty {α : Type} (d : Decoder α) {v : Json} (hv : Readable v) :
    ∃ t, Shows t v ∧ decodeDocument d (pretty v) = d t := by
  obtain ⟨t, c, hread, hc, ht⟩ := read_spelled blank_pretty hv
  rw [← toList_prettyAt] at hread
  exact ⟨t, ht, decodeDocument_of_read d hread hc⟩

theorem decodeDocument_compact {α : Type} (d : Decoder α) {v : Json} (hv : Readable v) :
    ∃ t, Shows t v ∧ decodeDocument d (compact v) = d t := by
  obtain ⟨t, c, hread, hc, ht⟩ := read_spelled blank_compact hv
  rw [← toList_compact] at hread
  exact ⟨t, ht, decodeDocument_of_read d hread hc⟩

end Novella.Proofs
