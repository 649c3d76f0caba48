import Novella.Proofs.Script.Exactness
import Novella.Proofs.Script.ProgramReading

/-!
# What of a script its text keeps

A script that is read has names and comments that its text keeps, but its numbers may be too large:
then they are read as infinite, and infinite numbers have no literal. So a script reads back from its
text exactly if its numbers are finite (`reads_back_iff`), and they are if all numerals in its source
are in range.
-/

namespace Novella.Proofs

open Script

/-! ## Acts that are written as they are -/

section Acts

variable {σ : Type}

lemma isFinite_of_written {x : Binary64} (h : x.written = x) : x.isFinite = true := by
  by_contra hx
  rw [Binary64.written, if_neg hx] at h
  exact hx (h ▸ rfl)

lemma finite_of_expression_written {e : Expression} (h : e.written = e) : e.Finite := by
  induction e with
  | literal l =>
    cases l with
    | float x => exact isFinite_of_written (Literal.float.inj (Expression.literal.inj h))
    | _ => trivial
  | var name => trivial
  | unary op e ih => exact ih (Expression.unary.inj h).2
  | binary op l r ihl ihr => exact ⟨ihl (Expression.binary.inj h).2.1, ihr (Expression.binary.inj h).2.2⟩

lemma expressions_written (act : Act σ) :
    act.written.expressions = act.expressions.map Expression.written := by
  cases act with
  | choice options =>
    simp [Act.written, Act.mapExpressions, Act.mapDurations, Act.expressions, List.filterMap_map,
      List.map_filterMap]
  | _ => simp [Act.written, Act.mapExpressions, Act.mapDurations, Act.expressions, Function.comp_def]

lemma durations_written (act : Act σ) :
    act.written.durations = act.durations.map Binary64.written := by
  cases act <;> rfl

end Acts

/-! ## Statements that are written as they are -/

section Statements

lemma length_rebuild_unplaceAct (s : Statement) : (s.rebuild unplaceAct).length = 1 := by
  obtain ⟨loc, act⟩ := s
  rw [rebuild_mk]
  rfl

lemma length_rebuild_rereadAct {s : Statement} (h : s.All Act.PlainComment) :
    (s.rebuild rereadAct).length = 1 := by
  obtain ⟨loc, act⟩ := s
  have hact : act.PlainComment := here_of_all h
  rw [rebuild_mk, rereadAct_of_plain loc ((plainComment_mapBodies _).2 hact)]
  rfl

/-- Every statement of a body is written on its own, so bodies that are written as they are consist of
such statements. -/
lemma rebuild_eq_of_rebuildBody_eq {body : List Statement}
    (hplain : ∀ s ∈ body, s.All Act.PlainComment)
    (h : rebuildBody rereadAct body = rebuildBody unplaceAct body) :
    ∀ s ∈ body, s.rebuild rereadAct = s.rebuild unplaceAct := by
  induction body with
  | nil => exact fun s hs => absurd hs List.not_mem_nil
  | cons s rest ih =>
    obtain ⟨hs, hrest⟩ := List.forall_mem_cons.1 hplain
    obtain ⟨hhead, htail⟩ := List.append_inj h
      ((length_rebuild_rereadAct hs).trans (length_rebuild_unplaceAct s).symm)
    exact List.forall_mem_cons.2 ⟨hhead, ih hrest htail⟩

lemma finite_of_rebuild_eq {s : Statement} (hplain : s.All Act.PlainComment)
    (h : s.rebuild rereadAct = s.rebuild unplaceAct) : s.All Act.Finite := by
  induction hplain with
  | @mk loc act here inside ih =>
    rw [rebuild_mk, rebuild_mk, rereadAct_of_plain loc ((plainComment_mapBodies _).2 here)] at h
    have hact : (act.mapBodies (rebuildBody rereadAct)).written =
        act.mapBodies (rebuildBody unplaceAct) :=
      (Statement.mk.inj (List.singleton_inj.1 h)).2
    have hexpressions : act.expressions.map Expression.written = act.expressions.map id := by
      have := congrArg Act.expressions hact
      rwa [expressions_written, expressions_mapBodies, expressions_mapBodies,
        ← List.map_id act.expressions, List.map_map] at this
    have hdurations : act.durations.map Binary64.written = act.durations.map id := by
      have := congrArg Act.durations hact
      rwa [durations_written, durations_mapBodies, durations_mapBodies,
        ← List.map_id act.durations, List.map_map] at this
    have hbodies : act.bodies.map (rebuildBody rereadAct) =
        act.bodies.map (rebuildBody unplaceAct) := by
      have := congrArg Act.bodies hact
      rwa [bodies_written, bodies_mapBodies, bodies_mapBodies] at this
    refine .mk ⟨fun e he => ?_, fun x hx => ?_⟩ fun body hbody s hs => ?_
    · exact finite_of_expression_written (List.map_inj_left.1 hexpressions e he)
    · exact isFinite_of_written (List.map_inj_left.1 hdurations x hx)
    · exact ih body hbody s hs (rebuild_eq_of_rebuildBody_eq (inside body hbody)
        (List.map_inj_left.1 hbodies body hbody) s hs)

end Statements

/-! ## Scripts that read back -/

section Programs

variable {source : String} {p : Program}

/-- Of a script with plain comments, the text keeps all but the places if all numbers are finite, and
only then. -/
lemma reread_eq_unplaced_iff (hplain : ∀ s ∈ p.scenes, ∀ t ∈ s.body, t.All Act.PlainComment) :
    p.reread = p.unplaced ↔ p.Finite := by
  constructor
  · intro h s hs t ht
    have hbody : rebuildBody rereadAct s.body = rebuildBody unplaceAct s.body :=
      (SceneDecl.mk.inj (List.map_inj_left.1 (congrArg Program.scenes h) s hs)).2.1
    exact finite_of_rebuild_eq (hplain s hs t ht)
      (rebuild_eq_of_rebuildBody_eq (hplain s hs) hbody t ht)
  · exact fun h => reread_of_plain
      ⟨fun s hs t ht => all_mono (fun _ hact => hact.1) (h s hs t ht),
        fun s hs t ht => all_mono (fun _ hact => hact.2) (h s hs t ht), hplain⟩

/-- A script that was read reads back from its text if all its numbers are finite, and only then. -/
theorem reads_back_iff (h : parse source = .ok p) (w : Nat) :
    (∃ q, parse (p.render w) = .ok q ∧ q.unplaced = p.unplaced) ↔ p.Finite := by
  obtain ⟨q, hq, hunplaced⟩ := parse_render (named_of_parse h) w
  rw [← reread_eq_unplaced_iff (plainComments_of_parse h), ← hunplaced]
  constructor
  · rintro ⟨r, hr, hsame⟩
    obtain rfl := Except.ok.inj (hq.symm.trans hr)
    exact hsame
  · exact fun hsame => ⟨q, hq, hsame⟩

/-! ### Numbers in range -/

/-- All numerals in the source are below the limit from which on numbers are infinite. -/
def AllInRange (source : List Char) : Prop := ∀ t : Numeral, StandsIn t.text source → t.InRange

variable {cs : List Char}

lemma allInRange_of_length (h : cs.length ≤ 308) : AllInRange cs := by
  rintro t ⟨before, after, rfl, -⟩
  refine inRange_of_whole (le_trans ?_ h)
  simp only [Numeral.text, List.length_append]
  omega

lemma isFinite_of_numberFrom (hcs : AllInRange cs) {x : Binary64} (h : NumberFrom cs x) :
    x.isFinite = true := by
  obtain ⟨t, hstands, rfl⟩ := h
  exact (isFinite_ofLiteral_iff t).2 (hcs t hstands)

lemma finite_of_expression_drawnFrom (hcs : AllInRange cs) {e : Expression} (h : e.DrawnFrom cs) :
    e.Finite := by
  induction e with
  | literal l =>
    cases l with
    | float x =>
      obtain ⟨t, -, hstands, hx⟩ := h
      exact isFinite_of_numberFrom hcs ⟨t, hstands, hx⟩
    | _ => trivial
  | var name => trivial
  | unary op e ih => exact ih h
  | binary op l r ihl ihr => exact ⟨ihl h.1, ihr h.2⟩

lemma finite_of_drawnFrom (hcs : AllInRange cs) (h : p.DrawnFrom cs) : p.Finite := by
  refine fun s hs t ht => all_mono (fun act hact => ⟨fun e he => ?_, fun x hx => ?_⟩) (h s hs t ht)
  · exact finite_of_expression_drawnFrom hcs (hact.1 e he)
  · exact isFinite_of_numberFrom hcs (hact.2 x hx)

end Programs

lemma badScript_of_run {α : Type} {p : Parser α} {source : String} {fault : Fault}
    (h : p.run source = .error fault) : ∃ issue excerpt, fault = .badScript issue excerpt := by
  unfold Parser.run at h
  dsimp only at h
  split at h
  · cases h
    exact ⟨_, _, rfl⟩
  · split at h
    · cases h
      exact ⟨_, _, rfl⟩
    · cases h

/-- What is read has names where names belong, plain comments, and the numbers of the numerals in the
source: whole numbers exactly, others as the nearest number there is. It reads back from its text if
all numbers are finite, and only then; they are if the numerals are in range. What is not read is
refused as a bad script. -/
theorem parse_expressible (source : String) :
    (∀ p, parse source = .ok p →
      p.Named ∧ (∀ s ∈ p.scenes, ∀ t ∈ s.body, t.All Act.PlainComment) ∧
      p.DrawnFrom source.toList ∧
      (∀ w, (∃ q, parse (p.render w) = .ok q ∧ q.unplaced = p.unplaced) ↔ p.Finite) ∧
      (AllInRange source.toList → p.Finite)) ∧
    ∀ fault, parse source = .error fault → ∃ issue excerpt, fault = .badScript issue excerpt :=
  ⟨fun _ h => ⟨named_of_parse h, plainComments_of_parse h, drawnFrom_of_parse h, reads_back_iff h,
    fun hsource => finite_of_drawnFrom hsource (drawnFrom_of_parse h)⟩, fun _ h => badScript_of_run h⟩

/-- A comment, a whole number and a duration. -/
def plainly : String := "scene s \x7b // Once.\n set x = -3 wait 2.50 \x7d"

theorem plainly_expressible :
    (∃ p, parse plainly = .ok p ∧ AllInRange plainly.toList ∧ p.Finite ∧
      ∃ q, parse (p.render 4) = .ok q ∧ q.unplaced = p.unplaced) ∧
    ∃ fault, parse "scene" = .error fault ∧ ∃ issue excerpt, fault = .badScript issue excerpt := by
  obtain ⟨p, hp⟩ : ∃ p, parse plainly = .ok p := by decide +kernel
  have hnone : ¬∃ q, parse "scene" = .ok q := by decide +kernel
  obtain ⟨-, -, -, hback, hfinite⟩ := (parse_expressible plainly).1 p hp
  have hrange : AllInRange plainly.toList := allInRange_of_length (by decide)
  refine ⟨⟨p, hp, hrange, hfinite hrange, (hback 4).2 (hfinite hrange)⟩, ?_⟩
  cases hscene : parse "scene" with
  | ok q => exact absurd ⟨q, hscene⟩ hnone
  | error fault => exact ⟨fault, rfl, (parse_expressible "scene").2 fault hscene⟩

/-- A script with a duration past the largest number. -/
def endless : List Char :=
  "scene s \x7b wait 1".toList ++ List.replicate 309 '0' ++ " \x7d".toList

lemma infinite_of_endless {source : String} (h : source.toList = endless) :
    (∃ p, parse source = .ok p) ∧ ∀ p, parse source = .ok p → ¬p.Finite := by
  unfold parse Parser.run
  rw [h]
  decide +kernel

/-- A numeral that is out of range is not refused, and what it is read as does not read back. -/
theorem endless_infinite : ∃ p, parse (String.ofList endless) = .ok p ∧ ¬p.Finite ∧
    ¬∃ q, parse (p.render 4) = .ok q ∧ q.unplaced = p.unplaced := by
  obtain ⟨⟨p, hp⟩, hinfinite⟩ := infinite_of_endless (String.toList_ofList : _ = endless)
  exact ⟨p, hp, hinfinite p hp, (reads_back_iff hp 4).not.2 (hinfinite p hp)⟩

end Novella.Proofs
