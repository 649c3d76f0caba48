import Novella.Flow.Document
import Novella.Proofs.Script.Layout
import Novella.Proofs.Text.Excerpt

/-!
# The byte at a spot

The column of a spot counts bytes, and a mishap is placed at the character of the line that has the
column for its number. So the place of a mishap is on the line of its spot and not before the byte there,
and it is that byte exactly if every character before it on the line takes one byte
(`place_eq_offset_iff`).
-/

namespace Novella.Json.Spot

/-- The bytes of the lines before a line, with their line feeds. -/
def lineStart (source : List Char) (line : Nat) : Nat :=
  (((source.splitOn '\n').take (line - 1)).map fun cs => Text.byteCount cs + 1).sum

/-- The byte that a spot names, counted from the front of the document. -/
def offset (source : List Char) (spot : Spot) : Nat := lineStart source spot.line + (spot.column - 1)

/-- The spot names a byte of the document, and `line` is what stands on its line. -/
structure Within (source : List Char) (spot : Spot) (line : List Char) : Prop where
  line_pos : 1 ≤ spot.line
  column_pos : 1 ≤ spot.column
  line_eq : (source.splitOn '\n')[spot.line - 1]? = some line
  column_le : spot.column ≤ Text.byteCount line + 1
  offset_lt : spot.offset source < Text.byteCount source

end Novella.Json.Spot

namespace Novella.Proofs

open Json
open Novella.Flow (FlowGraph)
open String (utf8Len)

/-! ## Characters and bytes -/

section Bytes

variable {cs : List Char} {n : Nat}

lemma length_le_utf8Len (cs : List Char) : cs.length ≤ utf8Len cs := by
  induction cs with
  | nil => exact Nat.le_refl 0
  | cons c cs ih =>
    have hpos := c.utf8Size_pos
    rw [List.length_cons, String.utf8Len_cons]
    omega

lemma utf8Len_eq_length_iff : utf8Len cs = cs.length ↔ ∀ c ∈ cs, c.utf8Size = 1 := by
  induction cs with
  | nil => simp
  | cons c cs ih =>
    have hpos := c.utf8Size_pos
    have hle := length_le_utf8Len cs
    rw [List.forall_mem_cons, ← ih, String.utf8Len_cons, List.length_cons]
    omega

lemma utf8Len_take_of_lt (h : n < utf8Len cs) : n ≤ utf8Len (cs.take n) := by
  have hle := length_le_utf8Len (cs.take n)
  rw [List.length_take] at hle
  by_cases hn : n ≤ cs.length
  · omega
  · rw [List.take_of_length_le (by omega)]
    omega

/-- The first `n` characters take `n` bytes if each of them takes one. -/
lemma utf8Len_take_eq_iff (h : n < utf8Len cs) :
    utf8Len (cs.take n) = n ↔ ∀ c ∈ cs.take n, c.utf8Size = 1 := by
  rw [← utf8Len_eq_length_iff]
  by_cases hn : n ≤ cs.length
  · rw [List.length_take_of_le hn]
  · rw [List.take_of_length_le (by omega)]
    omega

lemma utf8Len_take_le (cs : List Char) (n : Nat) : utf8Len (cs.take n) ≤ utf8Len cs :=
  String.utf8Len_le_of_prefix (List.take_prefix n cs)

end Bytes

/-! ## Lines -/

section Lines

variable {source line : List Char}

lemma chunks_append (h : '\n' ∉ line) (rest : List Char) :
    Text.chunks (line ++ '\n' :: rest) = (line ++ ['\n']) :: Text.chunks rest := by
  induction line with
  | nil => rw [List.nil_append, Text.chunks, if_pos rfl, List.nil_append]
  | cons c line ih =>
    obtain ⟨hc, hline⟩ := not_or.1 (List.mem_cons.not.1 h)
    rw [List.cons_append, Text.chunks, if_neg (Ne.symm hc), ih hline]
    rfl

lemma lineStart_one (source : List Char) : Spot.lineStart source 1 = 0 := by
  simp [Spot.lineStart]

lemma lineStart_append (h : '\n' ∉ line) (rest : List Char) (i : Nat) :
    Spot.lineStart (line ++ '\n' :: rest) (i + 2) = utf8Len line + 1 + Spot.lineStart rest (i + 1) := by
  simp only [Spot.lineStart, List.splitOn_append_cons_self_of_not_mem h, Nat.add_sub_cancel,
    Nat.add_succ_sub_one, List.take_succ_cons, List.map_cons, List.sum_cons, byteCount_eq]

/-- The search for a line comes to the line with the number, and goes on to the character of it that has
the column for its number. A line feed at the end of the line is a character of it. -/
lemma span_eq {i : Nat} (start column : Nat) (hline : (source.splitOn '\n')[i]? = some line)
    (hbefore : Spot.lineStart source (i + 1) < utf8Len source) :
    ∃ feed, (feed = [] ∨ feed = ['\n']) ∧
      (feed = [] → utf8Len source = Spot.lineStart source (i + 1) + utf8Len line) ∧
      Mishap.span (i + 1) column start (Text.chunks source) =
        (start + Spot.lineStart source (i + 1) + utf8Len ((line ++ feed).take (column - 1)), 1) := by
  induction i generalizing source start with
  | zero =>
    rw [lineStart_one] at hbefore ⊢
    by_cases hfeed : '\n' ∈ source
    · obtain ⟨first, rest, rfl, hfirst⟩ := List.eq_append_cons_of_mem hfeed
      rw [List.splitOn_append_cons_self_of_not_mem hfirst] at hline
      cases hline
      refine ⟨['\n'], .inr rfl, by simp, ?_⟩
      rw [chunks_append hfirst, Mishap.span, if_pos rfl, byteCount_eq, Nat.add_zero]
    · have hne : source ≠ [] := by
        rintro rfl
        exact absurd hbefore (by simp)
      have hchunks := chunks_eq_of_no_lineEnd hfeed hne
      rw [List.splitOn_eq_singleton hfeed] at hline
      cases hline
      refine ⟨[], .inl rfl, by simp, ?_⟩
      rw [hchunks, Mishap.span, if_pos rfl, byteCount_eq, Nat.add_zero, List.append_nil]
  | succ i ih =>
    by_cases hfeed : '\n' ∈ source
    · obtain ⟨first, rest, rfl, hfirst⟩ := List.eq_append_cons_of_mem hfeed
      rw [List.splitOn_append_cons_self_of_not_mem hfirst] at hline
      have hfront : utf8Len (first ++ ['\n']) = utf8Len first + 1 := by
        rw [String.utf8Len_append]
        rfl
      have hsize : utf8Len (first ++ '\n' :: rest) = utf8Len first + 1 + utf8Len rest := by
        rw [← hfront, ← String.utf8Len_append, List.append_assoc, List.singleton_append]
      rw [lineStart_append hfirst, hsize] at hbefore
      obtain ⟨feed, hend, hlast, hspan⟩ := ih (start + (utf8Len first + 1)) hline (by omega)
      refine ⟨feed, hend, fun h => ?_, ?_⟩
      · rw [hsize, lineStart_append hfirst, hlast h]
        simp only [Nat.add_assoc]
      · rw [chunks_append hfirst, Mishap.span, if_neg (by omega), Nat.add_sub_cancel, byteCount_eq,
          hfront, hspan, lineStart_append hfirst]
        simp only [Nat.add_assoc]
    · rw [List.splitOn_eq_singleton hfeed] at hline
      cases hline

end Lines

/-! ## Mishaps -/

section Mishaps

variable {source line : List Char} {m : Mishap}

lemma place_of_pos (hline : 1 ≤ m.spot.line) (hcolumn : 1 ≤ m.spot.column) :
    m.place source = Mishap.span m.spot.line m.spot.column 0 (Text.chunks source) := by
  have hpos : ¬(m.spot.line = 0 || m.spot.column = 0) = true := by
    simp only [Bool.or_eq_true, decide_eq_true_eq]
    omega
  rw [Mishap.place, if_neg hpos]

/-- The place of a mishap with a spot in the document is that of the character of the line that has the
column for its number. -/
lemma place_of_within (h : m.spot.Within source line) : ∃ feed, (feed = [] ∨ feed = ['\n']) ∧
    m.spot.column - 1 < utf8Len (line ++ feed) ∧
    m.place source = (Spot.lineStart source m.spot.line +
      utf8Len ((line ++ feed).take (m.spot.column - 1)), 1) := by
  have hcolumn := h.column_le
  have hoffset := h.offset_lt
  rw [byteCount_eq] at hcolumn hoffset
  have hnumber : m.spot.line - 1 + 1 = m.spot.line := Nat.sub_add_cancel h.line_pos
  have hstart : Spot.lineStart source (m.spot.line - 1 + 1) < utf8Len source := by
    rw [hnumber]
    exact (Nat.le_add_right _ _).trans_lt hoffset
  obtain ⟨feed, hfeed, hlast, hspan⟩ := span_eq 0 m.spot.column h.line_eq hstart
  rw [hnumber] at hlast hspan
  refine ⟨feed, hfeed, ?_, ?_⟩
  · rcases hfeed with rfl | rfl
    · rw [hlast rfl] at hoffset
      rw [List.append_nil]
      exact Nat.lt_of_add_lt_add_left hoffset
    · have hpos := h.column_pos
      rw [String.utf8Len_append]
      exact (by omega : m.spot.column - 1 < utf8Len line + 1)
  · rw [place_of_pos h.line_pos h.column_pos, hspan, Nat.zero_add]

/-- The place of a mishap is on the line of its spot and not before the byte that the spot names. It is
that byte exactly if the characters before it on the line, as many as there are columns before it, take
one byte each. -/
theorem place_eq_offset_iff (h : m.spot.Within source line) :
    (m.place source = (m.spot.offset source, 1) ↔
      ∀ c ∈ line.take (m.spot.column - 1), c.utf8Size = 1) ∧
    (m.place source).2 = 1 ∧ m.spot.offset source ≤ (m.place source).1 ∧
    (m.place source).1 ≤ Spot.lineStart source m.spot.line + (Text.byteCount line + 1) := by
  obtain ⟨feed, hfeed, hcolumn, hplace⟩ := place_of_within h
  have hnarrow : (∀ c ∈ (line ++ feed).take (m.spot.column - 1), c.utf8Size = 1) ↔
      ∀ c ∈ line.take (m.spot.column - 1), c.utf8Size = 1 := by
    have hlast : ∀ c ∈ feed.take (m.spot.column - 1 - line.length), c.utf8Size = 1 := by
      intro c hc
      have hmem := List.mem_of_mem_take hc
      rcases hfeed with rfl | rfl
      · cases hmem
      · rw [List.mem_singleton.1 hmem]
        rfl
    rw [List.take_append, List.forall_mem_append, and_iff_left hlast]
  have hsize : utf8Len (line ++ feed) ≤ utf8Len line + 1 := by
    rw [String.utf8Len_append]
    rcases hfeed with rfl | rfl
    · exact Nat.le_succ _
    · exact Nat.le_refl _
  have hafter := utf8Len_take_of_lt hcolumn
  have hbefore := utf8Len_take_le (line ++ feed) (m.spot.column - 1)
  rw [hplace, byteCount_eq, Spot.offset]
  refine ⟨?_, rfl, Nat.add_le_add_left hafter _, Nat.add_le_add_left (hbefore.trans hsize) _⟩
  rw [← hnarrow, ← utf8Len_take_eq_iff hcolumn, Prod.mk.injEq, and_iff_left rfl,
    Nat.add_left_cancel_iff]

/-- A document with a character of two bytes, but not on the line where it breaks off. -/
def namedThenBroken : String := "\x7b\n\"name\": \"Café\",\n\"nodes\": ?\x7d"

/-- The same with all of it on one line. -/
def brokenInLine : String := "\x7b\"name\": \"Café\", \"nodes\": ?\x7d"

theorem place_eq_offset_namedThenBroken : ∃ m : Mishap,
    FlowGraph.ofJson namedThenBroken = .error (.badJson m ⟨namedThenBroken, 28, 1⟩) ∧
    m.spot.Within namedThenBroken.toList "\"nodes\": ?\x7d".toList ∧
    m.place namedThenBroken.toList = (28, 1) := by
  have hwithin : (⟨3, 10⟩ : Spot).Within namedThenBroken.toList "\"nodes\": ?\x7d".toList :=
    ⟨by decide, by decide, by decide +kernel, by decide +kernel, by decide +kernel⟩
  have hnarrow : ∀ c ∈ "\"nodes\": ?\x7d".toList.take 9, c.utf8Size = 1 :=
    utf8Len_eq_length_iff.1 (by decide)
  refine ⟨⟨.expectedValue, ⟨3, 10⟩⟩, rfl, hwithin, ?_⟩
  exact (place_eq_offset_iff (m := ⟨.expectedValue, ⟨3, 10⟩⟩) hwithin).1.2 hnarrow

/-- The question mark is byte 27 of the document, and the mishap is placed at the brace after it. -/
theorem brokenInLine_misplaced : ∃ m : Mishap,
    FlowGraph.ofJson brokenInLine = .error (.badJson m ⟨brokenInLine, 28, 1⟩) ∧
    m.spot.Within brokenInLine.toList brokenInLine.toList ∧
    m.spot.offset brokenInLine.toList = 27 ∧ m.place brokenInLine.toList = (28, 1) := by
  refine ⟨⟨.expectedValue, ⟨1, 28⟩⟩, rfl, ?_, by decide +kernel, by decide +kernel⟩
  exact ⟨by decide, by decide, by decide +kernel, by decide +kernel, by decide +kernel⟩

end Mishaps

end Novella.Proofs
