import Novella.Proofs.Decimal.Literal
import Novella.Proofs.Script.Reading
import Novella.Script.Grammar

/-!
# Lexemes at the front of a text

What the scanners and the parsers of single lexemes do on the written form of a lexeme with more
text after it. A name, a word or a number is read whole where `WordEnds` holds of that text.
-/

namespace Novella.Proofs

open Script Script.Parser

/-! ## Names and words -/

/-- Whether a character would lengthen a name, a word or a number. -/
def lengthens (c : Char) : Bool := isNameChar c || c = '.'

/-- No name, word or number goes on into the text. -/
def WordEnds (cs : List Char) : Prop := NotAhead lengthens cs

lemma notAhead_nil {p : Char → Bool} : NotAhead p [] := by simp [NotAhead]

lemma notAhead_cons {p : Char → Bool} {c : Char} (h : p c = false) (cs : List Char) :
    NotAhead p (c :: cs) := by simpa [NotAhead] using h

lemma WordEnds.not_nameChar {cs : List Char} (h : WordEnds cs) : NotAhead isNameChar cs := by
  intro c hc
  have := h c hc
  simp only [lengthens, Bool.or_eq_false_iff] at this
  exact this.1

lemma isNameChar_of_isDigit {c : Char} (h : c.isDigit = true) : isNameChar c = true := by
  simp [isNameChar, Char.isAlphanum, h]

lemma WordEnds.not_digit {cs : List Char} (h : WordEnds cs) : NotAhead Char.isDigit cs := by
  intro c hc
  have hname := h.not_nameChar c hc
  cases hd : c.isDigit with
  | false => rfl
  | true => rw [isNameChar_of_isDigit hd] at hname; cases hname

lemma WordEnds.head?_ne_point {cs : List Char} (h : WordEnds cs) : cs.head? ≠ some '.' :=
  fun hc => absurd (h '.' hc) (by decide)

/-- A name consists of characters of names, the first no digit, and is no keyword. -/
lemma isName_iff {name : String} : isName name = true ↔
    (∀ c ∈ name.toList, isNameChar c = true) ∧ isNameWord name.toList = true := by
  have hfront : (∀ c ∈ name.toList, isNameChar c = true) →
      frontWord name.toList = name.toList := List.takeWhile_eq_self_iff.2
  constructor
  · intro h
    have hscan : scanName name.toList = some (name.toList, []) := of_decide_eq_true h
    simp only [scanName] at hscan
    split at hscan
    · next hw =>
      simp only [Option.some.injEq, Prod.mk.injEq] at hscan
      rw [hscan.1] at hw
      refine ⟨fun c hc => ?_, hw⟩
      rw [← hscan.1] at hc
      exact List.all_eq_true.1 List.all_takeWhile c hc
    · cases hscan
  · rintro ⟨hall, hw⟩
    have hdrop := List.dropWhile_eq_nil_iff.2 hall
    simp [isName, scanName, hfront hall, hw, hdrop]

lemma frontWord_append {word tail : List Char} (h : ∀ c ∈ word, isNameChar c = true)
    (ht : NotAhead isNameChar tail) : frontWord (word ++ tail) = word :=
  takeWhile_append_of_notAhead h ht

lemma reads_identifier {name : String} (h : isName name = true) {tail : List Char}
    (ht : NotAhead isNameChar tail) :
    Reads identifier (name.toList ++ tail) (unspaced tail) (· = name) := by
  obtain ⟨hall, hword⟩ := isName_iff.1 h
  have hscan : scanName (name.toList ++ tail) = some (name.toList, tail) := by
    simp [scanName, frontWord_append hall ht, hword, dropWhile_append_of_notAhead hall ht]
  exact ((reads_lexeme hscan).map fun _ ha => by rw [ha, String.ofList_toList]).rule

lemma misses_identifier {cs : List Char} (h : NotAhead isNameChar cs) : Misses identifier cs := by
  have hfront : frontWord cs = [] := takeWhile_of_notAhead h
  have hscan : scanName cs = none := by simp [scanName, hfront, isNameWord]
  exact (misses_lexeme hscan).bind.rule

lemma scanWord_append {words : List String} {word : String} (hmem : word ∈ words)
    (hall : ∀ c ∈ word.toList, isNameChar c = true) {tail : List Char}
    (ht : NotAhead isNameChar tail) :
    scanWord words (word.toList ++ tail) = some (word.toList, tail) := by
  simp only [scanWord, frontWord_append hall ht, dropWhile_append_of_notAhead hall ht]
  rw [if_pos]
  exact List.any_eq_true.2 ⟨word, hmem, by simp⟩

lemma scanWord_eq_none {words : List String} {cs : List Char}
    (h : ∀ w ∈ words, w.toList ≠ frontWord cs) : scanWord words cs = none := by
  simp only [scanWord]
  rw [if_neg]
  simpa using h

/-- A word is not at the front of a text that begins with another character. -/
lemma ne_frontWord_of_head? {w cs : List Char} (hw : w ≠ []) (h : cs.head? ≠ w.head?) :
    w ≠ frontWord cs := by
  rintro rfl
  cases cs with
  | nil => exact hw rfl
  | cons c cs =>
    simp only [frontWord, List.takeWhile_cons] at hw h
    split at hw
    · next hc => simp [hc] at h
    · exact hw rfl

/-- A name is none of the keywords. -/
lemma ne_frontWord_of_isName {name : String} (h : isName name = true) {w : String}
    (hw : w ∈ keywords) {tail : List Char} (ht : NotAhead isNameChar tail) :
    w.toList ≠ frontWord (name.toList ++ tail) := by
  obtain ⟨hall, hword⟩ := isName_iff.1 h
  rw [frontWord_append hall ht]
  intro heq
  rw [← heq] at hword
  have hkey : keywords.any (fun k => k.toList = w.toList) = true :=
    List.any_eq_true.2 ⟨w, hw, by simp⟩
  simp only [isNameWord] at hword
  split at hword
  · cases hword
  · rw [hkey] at hword
    simp at hword

lemma isName_exists_cons {name : String} (h : isName name = true) :
    ∃ c rest, name.toList = c :: rest ∧ isNameChar c = true ∧ c.isDigit = false := by
  obtain ⟨hall, hword⟩ := isName_iff.1 h
  cases hname : name.toList with
  | nil =>
    rw [hname] at hword
    cases hword
  | cons c rest =>
    rw [hname] at hall hword
    simp only [isNameWord, Bool.and_eq_true, Bool.not_eq_true'] at hword
    exact ⟨c, rest, rfl, hall c List.mem_cons_self, hword.1⟩

/-! ## Numbers -/

lemma Digits.head_ne {cs : List Char} (h : Digits cs) {c : Char} (hc : c.isDigit = false)
    (tail : List Char) : (cs ++ tail).head? ≠ some c := by
  obtain ⟨d, rest, rfl, hd⟩ := h.exists_cons
  intro heq
  exact ne_of_isDigit hd hc (Option.some.inj heq)

lemma scanInteger_minus (cs : List Char) : scanInteger ('-' :: cs) =
    match spanDigits cs with
    | ([], _) => none
    | (digits, rest) => some ('-' :: digits, rest) := rfl

lemma scanInteger_unsigned {cs : List Char} (h : cs.head? ≠ some '-') : scanInteger cs =
    match spanDigits cs with
    | ([], _) => none
    | (digits, rest) => some (digits, rest) := by
  cases cs with
  | nil => rfl
  | cons c cs =>
    have hc : c ≠ '-' := by simpa using h
    cases hspan : spanDigits (c :: cs) with
    | mk digits rest => cases digits <;> simp [scanInteger, hc, hspan]

lemma scanInteger_append (negative : Bool) {cs tail : List Char} (h : Digits cs)
    (ht : NotAhead Char.isDigit tail) :
    scanInteger (signText negative ++ (cs ++ tail)) = some (signText negative ++ cs, tail) := by
  have hspan := spanDigits_append h ht
  obtain ⟨d, rest, hd, -⟩ := h.exists_cons
  cases negative with
  | true =>
    change scanInteger ('-' :: (cs ++ tail)) = some ('-' :: cs, tail)
    rw [scanInteger_minus, hspan, hd]
  | false =>
    change scanInteger (cs ++ tail) = some (cs, tail)
    rw [scanInteger_unsigned (h.head_ne (by decide) tail), hspan, hd]

lemma scanInteger_eq_none {cs : List Char} (hd : NotAhead Char.isDigit cs)
    (hm : cs.head? ≠ some '-') : scanInteger cs = none := by
  have hspan : spanDigits cs = ([], cs) := by
    rw [spanDigits, takeWhile_of_notAhead hd, dropWhile_of_notAhead hd]
  rw [scanInteger_unsigned hm, hspan]

lemma scanFloat_append {cs tail : List Char} (t : FloatText cs)
    (ht : NotAhead Char.isDigit tail) : scanFloat (cs ++ tail) = some (cs, tail) := by
  have hpoint : NotAhead Char.isDigit ('.' :: (t.part ++ tail)) := notAhead_cons (by decide) _
  have hwhole := scanInteger_append t.negative t.whole_digits hpoint
  obtain ⟨d, rest, hd, -⟩ := t.part_digits.exists_cons
  have htext : cs ++ tail = signText t.negative ++ (t.whole ++ '.' :: (t.part ++ tail)) := by
    conv_lhs => rw [t.eq]
    simp [signText]
  have hspan := spanDigits_append t.part_digits ht
  rw [htext, scanFloat, hwhole]
  simp only [hspan]
  rw [hd]
  simp only [Option.some.injEq, Prod.mk.injEq, and_true]
  conv_rhs => rw [t.eq]
  simp [signText, hd]

lemma scanFloat_eq_none {cs : List Char} (h : scanInteger cs = none) : scanFloat cs = none := by
  rw [scanFloat, h]

/-- A whole number is no number with a point. -/
lemma scanFloat_whole (negative : Bool) {cs tail : List Char} (h : Digits cs)
    (ht : WordEnds tail) : scanFloat (signText negative ++ (cs ++ tail)) = none := by
  rw [scanFloat, scanInteger_append negative h ht.not_digit]
  have := ht.head?_ne_point
  split
  · next heq =>
    simp only [Option.some.injEq, Prod.mk.injEq] at heq
    rw [heq.2] at this
    exact absurd rfl this
  · rfl

lemma reads_floatNumber (x : Binary64) {tail : List Char} (ht : NotAhead Char.isDigit tail) :
    Reads floatNumber (x.literal.toList ++ tail) (unspaced tail) (· = x.written) := by
  obtain ⟨t, -⟩ := literal_floatText x
  exact ((reads_lexeme (scanFloat_append t ht)).map fun _ ha => by rw [ha, ofLiteral_literal]).rule

lemma reads_number (x : Binary64) {tail : List Char} (ht : NotAhead Char.isDigit tail) :
    Reads number (x.literal.toList ++ tail) (unspaced tail) (· = x.written) :=
  (reads_floatNumber x ht).orElse

lemma misses_floatNumber {cs : List Char} (h : scanFloat cs = none) : Misses floatNumber cs :=
  (misses_lexeme h).bind.rule

lemma misses_integer {cs : List Char} (h : scanInteger cs = none) : Misses integer cs := by
  have htext : Misses integerText cs :=
    (reads_here.bind_misses fun _ _ => (misses_lexeme h).bind).rule
  exact htext.bind

lemma reads_integer (n : Int64) {tail : List Char} (ht : NotAhead Char.isDigit tail) :
    Reads integer ((toString n.toInt).toList ++ tail) (unspaced tail) (· = n) := by
  have hscan : scanInteger ((toString n.toInt).toList ++ tail) =
      some ((toString n.toInt).toList, tail) := by
    rw [← signText_decimalDigits, List.append_assoc]
    exact scanInteger_append _ (digits_decimalDigits _) ht
  have htext : Reads integerText ((toString n.toInt).toList ++ tail) (unspaced tail)
      fun r => r.2 = (toString n.toInt).toList :=
    (reads_here.bind fun _ _ => (reads_lexeme hscan).map fun _ ha => ha).rule
  refine htext.bind ?_
  rintro ⟨place, text⟩ rfl
  simp only [readInt64_toString]
  exact reads_pure rfl

/-! ## Quoted texts -/

lemma spanQuoted_escapeChar (c : Char) (cs : List Char) :
    Text.spanQuoted (Text.escapeChar c ++ cs) =
      (Text.spanQuoted cs).map fun (inside, rest) => (Text.escapeChar c ++ inside, rest) := by
  unfold Text.escapeChar
  split
  · simp [Text.spanQuoted]
  · simp [Text.spanQuoted]
  · simp [Text.spanQuoted]
  · simp [Text.spanQuoted]
  · simp [Text.spanQuoted]
  · next hquote hback _ _ _ =>
    rw [List.singleton_append, Text.spanQuoted]
    · have hc : c ≠ '\\' := hback
      simp [hc]
    · exact fun h => hquote h
    · intro d rest hd
      exact absurd hd hback

lemma spanQuoted_escape (cs tail : List Char) :
    Text.spanQuoted (Text.escape cs ++ '"' :: tail) = some (Text.escape cs, tail) := by
  induction cs with
  | nil => rfl
  | cons c rest ih =>
    rw [Text.escape, List.flatMap_cons, ← Text.escape, List.append_assoc, spanQuoted_escapeChar, ih]
    rfl

lemma quote_toList (text : String) :
    (Text.quote text).toList = '"' :: (Text.escape text.toList ++ ['"']) := by
  rw [Text.quote, String.toList_ofList]

lemma reads_quotedText (text : String) (tail : List Char) :
    Reads quotedText ((Text.quote text).toList ++ tail) (unspaced tail) (· = text) := by
  have hscan : scanQuoted ((Text.quote text).toList ++ tail) =
      some ((Text.quote text).toList, tail) := by
    rw [quote_toList, List.cons_append, List.append_assoc, List.singleton_append, scanQuoted,
      spanQuoted_escape]
    rfl
  refine ((reads_lexeme hscan).map fun _ ha => ?_).rule
  rw [ha, quote_toList, List.drop_one, List.tail_cons, List.dropLast_concat, Text.unescape_escape,
    String.ofList_toList]

lemma scanQuoted_eq_none {cs : List Char} (h : cs.head? ≠ some '"') : scanQuoted cs = none := by
  unfold scanQuoted
  split
  · exact absurd rfl h
  · rfl

lemma misses_quotedText {cs : List Char} (h : cs.head? ≠ some '"') : Misses quotedText cs :=
  (misses_lexeme (scanQuoted_eq_none h)).bind.rule

/-! ## Comments -/

lemma reads_comment {line : List Char} (h : ∀ c ∈ line, endsComment c = false)
    (tail : List Char) : Reads comment ('/' :: '/' :: (line ++ '\n' :: tail)) (unspaced tail)
      (· = String.ofList (Text.trimChars line)) := by
  have hline : ∀ c ∈ line, (!endsComment c) = true := fun c hc => by rw [h c hc]; rfl
  have hend : NotAhead (fun c => !endsComment c) ('\n' :: tail) := notAhead_cons (by decide) _
  have hscan : scanComment ('/' :: '/' :: (line ++ '\n' :: tail)) =
      some ('/' :: '/' :: line, '\n' :: tail) := by
    simp only [scanComment, takeWhile_append_of_notAhead hline hend,
      dropWhile_append_of_notAhead hline hend]
  have hspace : unspaced ('\n' :: tail) = unspaced tail := unspaced_cons_of_isSpace (by decide) _
  rw [← hspace]
  exact ((reads_lexeme hscan).map fun _ ha => by rw [ha]; rfl).rule

lemma misses_comment {cs : List Char} (h : ¬['/', '/'] <+: cs) : Misses comment cs := by
  have hscan : scanComment cs = none := by
    unfold scanComment
    split
    · next rest => exact absurd (List.prefix_append ['/', '/'] rest) h
    · rfl
  exact (misses_lexeme hscan).bind.rule

end Novella.Proofs
