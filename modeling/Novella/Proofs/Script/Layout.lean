import Novella.Proofs.Script.Rebuild
import Novella.Proofs.Script.ExpressionReading

/-!
# The text of laid out lines

What the printer writes and what is left of a script in its text: places are gone
(`Program.unplaced`), and so are the numbers without a literal and the blanks and line ends
of comments (`Program.reread`). A script without such numbers and comments is `Plain`, and
loses only the places.
-/

namespace Novella.Script

/-! ## What a text keeps of a script -/

/-- Forgets where a statement stands. -/
def unplaceAct (_ : Location) (act : Act Statement) : List Statement := [.bare act]

/-- The statements that the text of a statement stands for. -/
def rereadAct (_ : Location) : Act Statement → List Statement
  | .comment text => (commentLines text).map fun line => .bare (.comment (Text.trim line))
  | act => [.bare act.written]

/-- A declaration that stands nowhere. -/
def CharacterDecl.unplaced (c : CharacterDecl) : CharacterDecl := { c with loc := {} }

/-- A script with every body rebuilt and no places. -/
def Program.rebuilt (f : Location → Act Statement → List Statement) (p : Program) : Program where
  characters := p.characters.map CharacterDecl.unplaced
  scenes := p.scenes.map fun s => ⟨s.name, rebuildBody f s.body, {}⟩

def Program.unplaced (p : Program) : Program := p.rebuilt unplaceAct

/-- The script that the text of a script stands for, without places. -/
def Program.reread (p : Program) : Program := p.rebuilt rereadAct

/-- The comment is on one line and has no blanks at its ends. -/
def Act.PlainComment {σ : Type} : Act σ → Prop
  | .comment text => Text.trim text = text ∧ ∀ c ∈ text.toList, endsComment c = false
  | _ => True

/-- Whatever stands for a name in a script is a name. -/
structure Program.Named (p : Program) : Prop where
  characters : ∀ c ∈ p.characters, isName c.id = true
  scenes : ∀ s ∈ p.scenes, isName s.name = true
  statements : ∀ s ∈ p.scenes, ∀ t ∈ s.body, t.All Act.Named

/-- All numbers of a script are finite and all its comments plain. -/
structure Program.Plain (p : Program) : Prop where
  expressions : ∀ s ∈ p.scenes, ∀ t ∈ s.body, t.All Act.FiniteExpressions
  durations : ∀ s ∈ p.scenes, ∀ t ∈ s.body, t.All Act.FiniteDurations
  comments : ∀ s ∈ p.scenes, ∀ t ∈ s.body, t.All Act.PlainComment

end Novella.Script

namespace Novella.Proofs

open Script

/-! ## Comments -/

lemma chunks_eq_of_no_lineEnd {cs : List Char} (h : '\n' ∉ cs) (hne : cs ≠ []) :
    Text.chunks cs = [cs] := by
  induction cs with
  | nil => exact absurd rfl hne
  | cons c rest ih =>
    have hc : c ≠ '\n' := fun hc => h (hc ▸ List.mem_cons_self)
    rw [Text.chunks, if_neg hc]
    cases rest with
    | nil => rfl
    | cons d rest => rw [ih (fun hd => h (List.mem_cons_of_mem _ hd)) (by simp)]

/-- A line feed stands at the end of a piece only. -/
lemma lineEnd_notMem_dropLast {cs piece : List Char} (h : piece ∈ Text.chunks cs) :
    '\n' ∉ piece.dropLast := by
  induction cs generalizing piece with
  | nil => cases h
  | cons c rest ih =>
    rw [Text.chunks] at h
    split at h
    · rcases List.mem_cons.1 h with rfl | h
      · simp
      · exact ih h
    · next hc =>
      split at h
      · obtain rfl := List.mem_singleton.1 h
        simp
      · next first others hchunks =>
        rcases List.mem_cons.1 h with rfl | h
        · have hfirst := ih (hchunks ▸ List.mem_cons_self)
          cases first with
          | nil => simp
          | cons d first =>
            rw [List.dropLast_cons_of_ne_nil (by simp)]
            exact List.not_mem_cons_of_ne_of_not_mem (Ne.symm hc) hfirst
        · exact ih (hchunks ▸ List.mem_cons_of_mem _ h)

lemma lineEnd_notMem_of_mem_lines {cs line : List Char} (h : line ∈ Text.lines cs) :
    '\n' ∉ line := by
  obtain ⟨piece, hpiece, rfl⟩ := List.mem_map.1 h
  have hlast := lineEnd_notMem_dropLast hpiece
  rw [Text.dropLineEnd]
  split
  · dsimp only
    split
    · exact fun hmem => hlast (List.dropLast_subset _ hmem)
    · exact hlast
  · next hend =>
    intro hmem
    have hne := List.ne_nil_of_mem hmem
    rw [← List.dropLast_concat_getLast hne, List.mem_append, List.mem_singleton] at hmem
    rcases hmem with hmem | hmem
    · exact hlast hmem
    · exact hend (by rw [List.getLast?_eq_some_getLast hne, ← hmem])

/-- The lines of a comment do not end it early. -/
lemma endsComment_of_mem_commentLines {text line : String} (h : line ∈ commentLines text) :
    ∀ c ∈ line.toList, endsComment c = false := by
  simp only [commentLines] at h
  split at h
  · obtain rfl := List.mem_singleton.1 h
    simp
  · obtain ⟨cs, hcs, rfl⟩ := List.mem_map.1 h
    rw [String.toList_ofList]
    intro c hc
    obtain ⟨d, hd, rfl⟩ := List.mem_map.1 hc
    have hfeed : d ≠ '\n' := fun heq => lineEnd_notMem_of_mem_lines hcs (heq ▸ hd)
    split
    · decide
    · next hreturn => simp [endsComment, hfeed, hreturn]

lemma commentLines_ne_nil (text : String) : commentLines text ≠ [] := by
  simp only [commentLines]
  split
  · simp
  · next h => simpa using h

lemma commentLines_of_plain {text : String} (h : ∀ c ∈ text.toList, endsComment c = false) :
    commentLines text = [text] := by
  have hne : ∀ c ∈ text.toList, c ≠ '\n' ∧ c ≠ '\r' := fun c hc => by
    simpa [endsComment] using h c hc
  by_cases htext : text.toList = []
  · obtain rfl := String.toList_eq_nil_iff.1 htext
    rfl
  · have hfeed : '\n' ∉ text.toList := fun hmem => (hne _ hmem).1 rfl
    have hlast : text.toList.getLast? ≠ some '\n' :=
      fun hlast => hfeed (List.mem_of_getLast? hlast)
    have hlines : Text.lines text.toList = [text.toList] := by
      simp [Text.lines, chunks_eq_of_no_lineEnd hfeed htext, Text.dropLineEnd, hlast]
    have hmap : text.toList.map (fun c => if c = '\r' then ' ' else c) = text.toList := by
      conv_rhs => rw [← List.map_id text.toList]
      exact List.map_congr_left fun c hc => by rw [if_neg (hne c hc).2]; rfl
    simp [commentLines, hlines, hmap]

/-- Of an act whose comment is plain, a text keeps all but the numbers without a literal. -/
lemma rereadAct_of_plain (loc : Location) {act : Act Statement} (h : act.PlainComment) :
    rereadAct loc act = [.bare act.written] := by
  cases act with
  | comment text =>
    rw [rereadAct, commentLines_of_plain h.2, List.map_singleton, h.1]
    rfl
  | _ => rfl

lemma plainComment_mapBodies {act : Act Statement} (f : List Statement → List Statement) :
    (act.mapBodies f).PlainComment ↔ act.PlainComment := by
  cases act <;> rfl

/-- Without infinite numbers and with plain comments only, a text keeps all but the places. -/
theorem reread_of_plain {p : Program} (h : p.Plain) : p.reread = p.unplaced := by
  have hacts : ∀ s ∈ p.scenes, rebuildBody rereadAct s.body = rebuildBody unplaceAct s.body := by
    intro s hs
    refine rebuildBody_congr fun t ht => ?_
    have hall : t.All fun act =>
        (act.FiniteExpressions ∧ act.FiniteDurations) ∧ act.PlainComment :=
      all_and (all_and (h.expressions s hs t ht) (h.durations s hs t ht)) (h.comments s hs t ht)
    refine rebuild_congr ?_ hall
    rintro loc act g ⟨⟨he, hd⟩, hc⟩
    rw [rereadAct_of_plain loc ((plainComment_mapBodies g).2 hc), written_mapBodies,
      written_of_finite_act he hd]
    rfl
  rw [Program.reread, Program.unplaced, Program.rebuilt, Program.rebuilt, Program.mk.injEq]
  exact ⟨rfl, List.map_congr_left fun s hs => by rw [hacts s hs]⟩

/-! ## Lines -/

/-- The characters of lines with `width` spaces for each depth. -/
def layout (width : Nat) (lines : List Line) : List Char :=
  lines.flatMap fun line => (line.render width).toList

section Layout

variable {width depth : Nat}

lemma render_toList (p : Program) : (p.render width).toList = layout width p.lines := by
  rw [Program.render, String.toList_join, layout, List.flatMap_map]

@[simp]
lemma layout_nil : layout width [] = [] := rfl

lemma layout_cons (text : String) (lines : List Line) :
    layout width (⟨depth, text⟩ :: lines) =
      List.replicate (depth * width) ' ' ++ (text.toList ++ '\n' :: layout width lines) := by
  simp [layout, Line.render]

lemma layout_append (a b : List Line) : layout width (a ++ b) = layout width a ++ layout width b :=
  List.flatMap_append

/-- Where a line begins, its indentation is skipped. -/
lemma unspaced_layout_cons (text : String) (lines : List Line) (tail : List Char) :
    unspaced (layout width (⟨depth, text⟩ :: lines) ++ tail) =
      unspaced (text.toList ++ '\n' :: (layout width lines ++ tail)) := by
  rw [layout_cons, List.append_assoc, List.append_assoc, List.cons_append]
  exact unspaced_append_of_forall (fun c hc => by rw [(List.mem_replicate.1 hc).2]; rfl) _

end Layout

end Novella.Proofs
