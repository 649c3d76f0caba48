import Mathlib.Data.String.Basic
import Mathlib.Order.Bounds.Basic
import Mathlib.Tactic.Lemma
import Novella.Text.Excerpt

/-!
# What an excerpt quotes

An excerpt is cut out of its source where characters begin and end, so there is always something to cut
out. It goes at most 160 bytes beyond the place that it is about, on either side, or on to the end of the
character that stands there, and the bytes that it marks are those at the place (`around_quotes`).
-/

namespace Novella.Text.Excerpt

/-- No more than 160 bytes, but for the rest of the character `edge` if it begins or ends within them. -/
def Near (bytes : Nat) (edge : Option Char) : Prop :=
  bytes ≤ 160 ∨ ∃ c ∈ edge, bytes < 160 + c.utf8Size

/-- The excerpt is a piece of the source, in whole characters, and marks `length` bytes of it from byte
`place` on, or those up to the end of the source if there are fewer. -/
structure Quotes (source : String) (place length : Nat) (e : Excerpt) : Prop where
  piece : ∃ before after, source = before ++ e.text ++ after ∧ before.utf8ByteSize + e.offset = place
  near_before : Near e.offset e.text.toList.head?
  near_after : Near (e.text.utf8ByteSize - (e.offset + e.length)) e.text.toList.getLast?
  marked_le : e.offset + e.length ≤ e.text.utf8ByteSize
  length_eq : e.length = min length (source.utf8ByteSize - place)
  bytes_eq : e.text.toUTF8.extract e.offset (e.offset + e.length) =
    source.toUTF8.extract place (place + e.length)

end Novella.Text.Excerpt

namespace Novella.Proofs

open Text Text.Excerpt
open String (utf8Len)

/-! ## Bytes of characters -/

section Bytes

variable (before after : List Char)

lemma byteCount_eq (cs : List Char) : byteCount cs = utf8Len cs := by
  have hfold : ∀ n, cs.foldl (fun size c => size + c.utf8Size) n = n + utf8Len cs := by
    induction cs with
    | nil => simp
    | cons c rest ih =>
      intro n
      rw [List.foldl_cons, ih, String.utf8Len_cons]
      omega
  rw [byteCount, hfold, Nat.zero_add]

lemma dropBytes_append : dropBytes (utf8Len before) (before ++ after) = after := by
  induction before with
  | nil =>
    cases after with
    | nil => rfl
    | cons c after =>
      have hpos := c.utf8Size_pos
      simp only [List.nil_append, dropBytes, String.utf8Len_nil]
      rw [if_neg (by omega)]
  | cons c before ih =>
    rw [List.cons_append, dropBytes, String.utf8Len_cons, if_pos (by omega), Nat.add_sub_cancel, ih]

lemma takeBytes_append : takeBytes (utf8Len before) (before ++ after) = before := by
  induction before with
  | nil => cases after <;> simp [takeBytes]
  | cons c before ih =>
    have hpos := c.utf8Size_pos
    rw [List.cons_append, takeBytes, String.utf8Len_cons, if_neg (by omega), Nat.add_sub_cancel, ih]

end Bytes

/-! ## Boundaries -/

section Boundaries

variable {cs : List Char}

/-- A boundary is where some of the first characters end. -/
lemma isBoundary_iff {n : Nat} :
    isBoundary n cs = true ↔ ∃ before, before <+: cs ∧ utf8Len before = n := by
  fun_induction isBoundary n cs with
  | case1 cs => simp
  | case2 n =>
    refine iff_of_false (by simp) ?_
    rintro ⟨before, hbefore, hn⟩
    rw [List.prefix_nil.1 hbefore, String.utf8Len_nil] at hn
    omega
  | case3 n c rest ih =>
    rw [Bool.and_eq_true, decide_eq_true_iff, ih]
    constructor
    · rintro ⟨hc, before, hbefore, hn⟩
      refine ⟨c :: before, List.cons_prefix_cons.2 ⟨rfl, hbefore⟩, ?_⟩
      rw [String.utf8Len_cons]
      omega
    · rintro ⟨before, hbefore, hn⟩
      cases before with
      | nil => simp at hn
      | cons d before =>
        obtain ⟨rfl, hrest⟩ := List.cons_prefix_cons.1 hbefore
        rw [String.utf8Len_cons] at hn
        exact ⟨by omega, before, hrest, by omega⟩

lemma isBoundary_utf8Len (before after : List Char) :
    isBoundary (utf8Len before) (before ++ after) = true :=
  isBoundary_iff.2 ⟨before, List.prefix_append before after, rfl⟩

/-- Of two pieces at the front of a text, the one with fewer bytes is at the front of the other. -/
lemma prefix_of_utf8Len_le {front front' : List Char} (h : front <+: cs) (h' : front' <+: cs)
    (hle : utf8Len front ≤ utf8Len front') : front <+: front' := by
  rcases List.prefix_or_prefix_of_prefix h h' with hfront | ⟨rest, rfl⟩
  · exact hfront
  · rw [String.utf8Len_append] at hle
    have hrest : rest = [] := String.utf8Len_eq_zero.1 (by omega)
    exact ⟨[], by rw [hrest, List.append_nil, List.append_nil]⟩

/-- A slice is what stands between the boundaries. -/
lemma slice?_eq_some_iff {start stop : Nat} {text : List Char} : slice? start stop cs = some text ↔
    ∃ before after, cs = before ++ text ++ after ∧ utf8Len before = start ∧
      utf8Len (before ++ text) = stop := by
  have hcut : ∀ before text after : List Char, takeBytes (utf8Len (before ++ text) - utf8Len before)
      (dropBytes (utf8Len before) (before ++ text ++ after)) = text := by
    intro before text after
    rw [List.append_assoc, dropBytes_append, String.utf8Len_append, Nat.add_sub_cancel_left,
      takeBytes_append]
  unfold slice?
  constructor
  · intro h
    split at h
    · next hcond =>
      simp only [Bool.and_eq_true, decide_eq_true_eq, isBoundary_iff] at hcond
      obtain ⟨⟨hle, before, hbefore, rfl⟩, front, hfront, rfl⟩ := hcond
      obtain ⟨middle, rfl⟩ := prefix_of_utf8Len_le hbefore hfront hle
      obtain ⟨after, rfl⟩ := hfront
      rw [hcut] at h
      cases h
      exact ⟨before, after, rfl, rfl, rfl⟩
    · cases h
  · rintro ⟨before, after, rfl, rfl, rfl⟩
    have hle : utf8Len before ≤ utf8Len (before ++ text) :=
      String.utf8Len_le_of_prefix (List.prefix_append before text)
    have hstart : isBoundary (utf8Len before) (before ++ text ++ after) = true := by
      rw [List.append_assoc]
      exact isBoundary_utf8Len before (text ++ after)
    have hstop := isBoundary_utf8Len (before ++ text) after
    rw [if_pos (by simp only [hle, hstart, hstop, decide_true, Bool.and_self]), hcut]

def boundariesUpTo (cs : List Char) (n : Nat) : Set Nat := {k | isBoundary k cs = true ∧ k ≤ n}

def boundariesFrom (cs : List Char) (n : Nat) : Set Nat := {k | isBoundary k cs = true ∧ n ≤ k}

lemma boundaryBefore_isGreatest (cs : List Char) (n : Nat) :
    IsGreatest (boundariesUpTo cs n) (boundaryBefore cs n) := by
  induction n with
  | zero => exact ⟨⟨isBoundary_utf8Len [] cs, le_rfl⟩, fun k hk => hk.2⟩
  | succ n ih =>
    rw [boundaryBefore]
    split
    · next h => exact ⟨⟨h, le_rfl⟩, fun k hk => hk.2⟩
    · next h =>
      refine ⟨⟨ih.1.1, ih.1.2.trans n.le_succ⟩, fun k hk => ih.2 ⟨hk.1, ?_⟩⟩
      have hne : k ≠ n + 1 := by
        rintro rfl
        exact h hk.1
      have hle := hk.2
      omega

lemma boundaryAfter_isLeast {n room : Nat} (h : isBoundary (n + room) cs = true) :
    IsLeast (boundariesFrom cs n) (boundaryAfter cs n room) := by
  induction room generalizing n with
  | zero => exact ⟨⟨h, le_rfl⟩, fun k hk => hk.2⟩
  | succ room ih =>
    rw [boundaryAfter]
    split
    · next hn => exact ⟨⟨hn, le_rfl⟩, fun k hk => hk.2⟩
    · next hn =>
      have hleast := ih (n := n + 1) (by rwa [Nat.add_right_comm, Nat.add_assoc])
      refine ⟨⟨hleast.1.1, (Nat.le_succ n).trans hleast.1.2⟩, fun k hk => hleast.2 ⟨hk.1, ?_⟩⟩
      have hne : k ≠ n := by
        rintro rfl
        exact hn hk.1
      have hle := hk.2
      omega

/-- The character after the last boundary up to byte `n` goes on beyond that byte. -/
lemma lt_of_isGreatest {before rest : List Char} {c : Char} {n : Nat}
    (h : IsGreatest (boundariesUpTo (before ++ c :: rest) n) (utf8Len before)) :
    n < utf8Len before + c.utf8Size := by
  by_contra! hle
  have hnext := isBoundary_utf8Len (before ++ [c]) rest
  rw [List.append_assoc, List.singleton_append, String.utf8Len_append] at hnext
  simp only [String.utf8Len_cons, String.utf8Len_nil, Nat.zero_add] at hnext
  have hmax := h.2 ⟨hnext, hle⟩
  have hpos := c.utf8Size_pos
  omega

/-- The character before the first boundary from byte `n` on begins before that byte. -/
lemma lt_of_isLeast {before rest : List Char} {c : Char} {n : Nat}
    (h : IsLeast (boundariesFrom (before ++ c :: rest) n) (utf8Len before + c.utf8Size)) :
    utf8Len before < n := by
  by_contra! hle
  have hmin := h.2 ⟨isBoundary_utf8Len before (c :: rest), hle⟩
  have hpos := c.utf8Size_pos
  omega

end Boundaries

/-! ## The excerpt around a place -/

section Around

variable (cs : List Char) (place length : Nat)

lemma start_isGreatest : IsGreatest (boundariesUpTo cs (place - 160)) (start cs place) :=
  boundaryBefore_isGreatest cs (place - 160)

lemma stop_isLeast :
    IsLeast (boundariesFrom cs (min (place + length + 160) (utf8Len cs))) (stop cs place length) := by
  have hend : isBoundary (utf8Len cs) cs = true := isBoundary_iff.2 ⟨cs, List.prefix_rfl, rfl⟩
  have hreach : min (place + length + 160) (utf8Len cs) ≤ utf8Len cs := Nat.min_le_right _ _
  rw [← Nat.add_sub_cancel' hreach] at hend
  unfold stop
  rw [byteCount_eq]
  exact boundaryAfter_isLeast hend

/-- There is an excerpt to cut out, wherever the place is. -/
lemma exists_slice? (hplace : place ≤ utf8Len cs) :
    ∃ text, slice? (start cs place) (stop cs place length) cs = some text := by
  have hstart := (start_isGreatest cs place).1
  have hstop := (stop_isLeast cs place length).1
  have hle : start cs place ≤ stop cs place length := by
    have hbefore := hstart.2
    have hafter := hstop.2
    omega
  unfold slice?
  rw [if_pos (by simp only [hle, hstart.1, hstop.1, decide_true, Bool.and_self])]
  exact ⟨_, rfl⟩

end Around

section Quoting

variable {before text after : List Char} {place length : Nat}

lemma near_before
    (h : IsGreatest (boundariesUpTo (before ++ text ++ after) (place - 160)) (utf8Len before))
    (hplace : place ≤ utf8Len (before ++ text)) : Near (place - utf8Len before) text.head? := by
  by_cases hnear : place - utf8Len before ≤ 160
  · exact .inl hnear
  · cases text with
    | nil =>
      rw [List.append_nil] at hplace
      omega
    | cons c rest =>
      rw [List.append_assoc] at h
      have hacross := lt_of_isGreatest h
      exact .inr ⟨c, rfl, by omega⟩

lemma near_after
    (h : IsLeast (boundariesFrom (before ++ text ++ after)
      (min (place + length + 160) (utf8Len (before ++ text ++ after)))) (utf8Len (before ++ text)))
    (hplace : utf8Len before ≤ place) :
    Near (utf8Len (before ++ text) - (place + length)) text.getLast? := by
  by_cases hnear : utf8Len (before ++ text) - (place + length) ≤ 160
  · exact .inl hnear
  · rcases List.eq_nil_or_concat' text with rfl | ⟨front, c, rfl⟩
    · rw [List.append_nil] at hnear
      omega
    · have hsize : utf8Len (before ++ (front ++ [c])) = utf8Len (before ++ front) + c.utf8Size := by
        simp [Nat.add_assoc]
      have hcut : before ++ (front ++ [c]) ++ after = before ++ front ++ c :: after := by simp
      rw [hsize, hcut] at h
      have hacross := lt_of_isLeast h
      exact .inr ⟨c, by simp, by omega⟩

/-- The bytes of a piece are those of the whole at the place of the piece. -/
lemma extract_piece (before text after : String) {i j : Nat} (hj : j ≤ text.utf8ByteSize) :
    (before ++ text ++ after).toUTF8.extract (before.utf8ByteSize + i) (before.utf8ByteSize + j) =
      text.toUTF8.extract i j := by
  rw [← String.size_toByteArray] at hj
  have hnone : after.toByteArray.extract (i - text.toByteArray.size) (j - text.toByteArray.size) =
      ByteArray.empty := by
    rw [ByteArray.extract_eq_empty_iff]
    omega
  simp only [String.toUTF8_eq_toByteArray, String.toByteArray_append, ← String.size_toByteArray]
  rw [ByteArray.append_assoc, ByteArray.extract_append_size_add, ByteArray.extract_append, hnone,
    ByteArray.append_empty]

lemma quotes_of_slice? {cs : List Char} (hplace : place ≤ utf8Len cs)
    (h : slice? (start cs place) (stop cs place length) cs = some text) :
    Quotes (String.ofList cs) place length ⟨String.ofList text, place - start cs place,
      min length (utf8Len text - (place - start cs place))⟩ := by
  have hstart := start_isGreatest cs place
  have hstop := stop_isLeast cs place length
  obtain ⟨before, after, rfl, hbefore, hend⟩ := slice?_eq_some_iff.1 h
  rw [← hbefore] at hstart
  rw [← hend] at hstop
  rw [← hbefore]
  have hle : utf8Len before ≤ place := hstart.1.2.trans (Nat.sub_le _ _)
  have hreach := hstop.1.2
  simp only [String.utf8Len_append] at hplace hreach
  constructor
  case piece =>
    refine ⟨String.ofList before, String.ofList after, by simp only [String.ofList_append], ?_⟩
    rw [String.utf8ByteSize_ofList]
    exact Nat.add_sub_cancel' hle
  case near_before =>
    rw [String.toList_ofList]
    apply near_before hstart
    rw [String.utf8Len_append]
    omega
  case near_after =>
    have hnear := near_after hstop hle
    have hleft : utf8Len before + utf8Len text - (place + length) = utf8Len text -
        (place - utf8Len before + min length (utf8Len text - (place - utf8Len before))) := by omega
    rw [String.utf8Len_append, hleft] at hnear
    rwa [String.toList_ofList, String.utf8ByteSize_ofList]
  case marked_le =>
    rw [String.utf8ByteSize_ofList]
    dsimp only
    omega
  case length_eq =>
    simp only [String.utf8ByteSize_ofList, String.utf8Len_append]
    omega
  case bytes_eq =>
    have hmarked : place - utf8Len before + min length (utf8Len text - (place - utf8Len before)) ≤
        (String.ofList text).utf8ByteSize := by
      rw [String.utf8ByteSize_ofList]
      omega
    have hpiece := extract_piece (String.ofList before) (String.ofList text) (String.ofList after)
      (i := place - utf8Len before) hmarked
    rw [String.utf8ByteSize_ofList, ← Nat.add_assoc, Nat.add_sub_cancel' hle] at hpiece
    simp only [String.ofList_append]
    exact hpiece.symm

end Quoting

/-- The excerpt around a place is cut out where characters begin and end, and quotes the bytes at the
place, or at the end of the source if the place is beyond that. -/
theorem around_quotes (source : String) (offset length : Nat) :
    let place := min offset source.utf8ByteSize
    let e := around source.toList offset length
    slice? (start source.toList place) (stop source.toList place length) source.toList =
      some e.text.toList ∧
    Quotes source place length e := by
  have hbytes : utf8Len source.toList = source.utf8ByteSize := String.utf8Len_toList source
  intro place e
  have hplace : place ≤ utf8Len source.toList := hbytes ▸ Nat.min_le_right _ _
  obtain ⟨text, htext⟩ := exists_slice? source.toList place length hplace
  have he : e = ⟨String.ofList text, place - start source.toList place,
      min length (utf8Len text - (place - start source.toList place))⟩ := by
    simp only [e, around, byteCount_eq, hbytes]
    rw [htext]
    rfl
  have hquotes := quotes_of_slice? hplace htext
  rw [String.ofList_toList] at hquotes
  rw [he, String.toList_ofList]
  exact ⟨htext, hquotes⟩

-- A place may lie within a character, of which the excerpt then marks a part.
example : around "añb".toList 2 1 = ⟨"añb", 2, 1⟩ := by decide +kernel

end Novella.Proofs
