import Novella.Proofs.Script.BlockReading
import Novella.Proofs.Script.Differences

/-!
# The text of what a text stands for

A statement and the one that its text stands for have one text (`sameText`), wherever they stand,
and so do a script and the one in which all numbers are those that can be written
(`render_rebuilt_writtenAct`).
-/

namespace Novella.Script

/-- The statement that a text stands for, with the comments as they are. -/
def writtenAct (_ : Location) (act : Act Statement) : List Statement := [.bare act.written]

end Novella.Script

namespace Novella.Proofs

open Script

section Lines

variable {f : List Statement → List Statement} {depth : Nat}

lemma bodyLines_append (depth : Nat) (a b : List Statement) :
    bodyLines depth (a ++ b) = bodyLines depth a ++ bodyLines depth b := by
  induction a with
  | nil => rfl
  | cons s a ih => rw [List.cons_append, bodyLines, bodyLines, ih, List.append_assoc]

lemma bodyLines_singleton (depth : Nat) (s : Statement) : bodyLines depth [s] = s.lines depth := by
  rw [bodyLines, bodyLines, List.append_nil]

lemma optionLines_map {options : List (ChoiceOption Statement)}
    (h : ∀ o ∈ options, bodyLines (depth + 1) (f o.body) = bodyLines (depth + 1) o.body) :
    optionLines depth (options.map fun o => ⟨o.text, o.condition.map Expression.written, f o.body⟩) =
      optionLines depth options := by
  induction options with
  | nil => rfl
  | cons o rest ih =>
    obtain ⟨hbody, hrest⟩ := List.forall_mem_cons.1 h
    obtain ⟨text, condition, body⟩ := o
    simp only [List.map_cons, optionLines, ih hrest, hbody]
    cases condition with
    | none => rfl
    | some condition => simp only [Option.map_some, render_written]

lemma caseLines_map {cases : List (SwitchCase Statement)}
    (h : ∀ c ∈ cases, bodyLines (depth + 1) (f c.body) = bodyLines (depth + 1) c.body) :
    caseLines depth (cases.map fun c => ⟨c.value.written, f c.body⟩) = caseLines depth cases := by
  induction cases with
  | nil => rfl
  | cons c rest ih =>
    obtain ⟨hbody, hrest⟩ := List.forall_mem_cons.1 h
    rw [List.map_cons, caseLines, caseLines, ih hrest, hbody, render_written]

lemma defaultLines_map {default : Option (List Statement)}
    (h : ∀ body ∈ default, bodyLines (depth + 1) (f body) = bodyLines (depth + 1) body) :
    defaultLines depth (default.map f) = defaultLines depth default := by
  cases default with
  | none => rfl
  | some body => rw [Option.map_some, defaultLines, defaultLines, h body rfl]

end Lines

/-! ## Statements -/

/-- The text of a statement does not tell it from the one that the text stands for. -/
def SameText (s : Statement) : Prop :=
  ∀ depth, bodyLines depth (s.rebuild writtenAct) = s.lines depth

lemma bodyLines_of_sameText {body : List Statement} (h : ∀ s ∈ body, SameText s) (depth : Nat) :
    bodyLines depth (rebuildBody writtenAct body) = bodyLines depth body := by
  induction body with
  | nil => rfl
  | cons s rest ih =>
    rw [rebuildBody_cons, bodyLines_append, h s List.mem_cons_self,
      ih fun t ht => h t (List.mem_cons_of_mem _ ht), bodyLines]

lemma rebuild_writtenAct (loc : Location) (act : Act Statement) :
    (Statement.mk loc act).rebuild writtenAct =
      [.bare (act.written.mapBodies (rebuildBody writtenAct))] := by
  rw [rebuild_mk, writtenAct, written_mapBodies]

/-- Only an `if` is rebuilt to an `if`. -/
lemma rebuildBody_ne_branch {body : List Statement}
    (h : ∀ loc condition thenBody elseBody, body ≠ [.mk loc (.branch condition thenBody elseBody)])
    (loc : Location) (condition : Expression) (thenBody : List Statement)
    (elseBody : Option (List Statement)) :
    rebuildBody writtenAct body ≠ [.mk loc (.branch condition thenBody elseBody)] := by
  intro heq
  match body with
  | [] => cases heq
  | [.mk loc' act] =>
    rw [rebuildBody_singleton, rebuild_writtenAct] at heq
    cases act with
    | branch condition' thenBody' elseBody' => exact h _ _ _ _ rfl
    | _ => cases heq
  | .mk _ _ :: .mk _ _ :: _ =>
    rw [rebuildBody_cons, rebuildBody_cons, rebuild_writtenAct, rebuild_writtenAct] at heq
    have hlength := congrArg List.length heq
    simp at hlength

/-- An `if` after an `else` has the text of an `if`, but for the words before it. -/
lemma elseLines_of_sameText {elseBody : Option (List Statement)}
    (h : ∀ body ∈ elseBody, ∀ s ∈ body, SameText s) (depth : Nat) :
    elseLines depth (elseBody.map (rebuildBody writtenAct)) = elseLines depth elseBody := by
  cases elseBody with
  | none => rfl
  | some body =>
    rw [Option.map_some]
    by_cases hbranch : ∃ loc condition thenBody elseBody,
        body = [.mk loc (.branch condition thenBody elseBody)]
    · obtain ⟨loc, condition, thenBody, elseBody, rfl⟩ := hbranch
      have hlines := h _ rfl _ (List.mem_singleton_self _) depth
      rw [rebuild_writtenAct, bodyLines_singleton] at hlines
      rw [rebuildBody_singleton, rebuild_writtenAct]
      simp only [Act.written, Act.mapExpressions, Act.mapDurations, Act.mapBodies, Statement.bare,
        Statement.lines, elseLines, List.cons_append, List.cons.injEq] at hlines ⊢
      exact ⟨by rw [render_written], hlines.2⟩
    · have hnot : ∀ loc condition thenBody elseBody,
          body ≠ [.mk loc (.branch condition thenBody elseBody)] :=
        fun loc condition thenBody elseBody heq => hbranch ⟨loc, condition, thenBody, elseBody, heq⟩
      rw [elseLines_block depth hnot, elseLines_block depth (rebuildBody_ne_branch hnot),
        bodyLines_of_sameText (h body rfl)]

/-- A statement and the one that its text stands for have one text. -/
theorem sameText (s : Statement) : SameText s := by
  refine statement_induct (P := SameText) (fun loc act ih depth => ?_) s
  have hbodies : ∀ body ∈ act.bodies, ∀ depth,
      bodyLines depth (rebuildBody writtenAct body) = bodyLines depth body :=
    fun body hbody => bodyLines_of_sameText (ih body hbody)
  rw [rebuild_writtenAct, bodyLines_singleton]
  cases act with
  | choice options =>
    have hoptions : optionLines (depth + 1) (options.map fun o =>
        ⟨o.text, o.condition.map Expression.written, rebuildBody writtenAct o.body⟩) =
        optionLines (depth + 1) options :=
      optionLines_map fun o ho => hbodies _ (List.mem_map_of_mem ho) _
    simp [Act.written, Act.mapExpressions, Act.mapDurations, Act.mapBodies, Statement.bare,
      Statement.lines, Function.comp_def, hoptions]
  | branch condition thenBody elseBody =>
    have helse := elseLines_of_sameText
      (fun body hbody => ih body (List.mem_cons_of_mem _ (Option.mem_toList.2 hbody))) depth
    simp [Act.written, Act.mapExpressions, Act.mapDurations, Act.mapBodies, Statement.bare,
      Statement.lines, render_written, helse, hbodies thenBody List.mem_cons_self]
  | switch subject cases default =>
    have hcases : caseLines (depth + 1)
        (cases.map fun c => ⟨c.value.written, rebuildBody writtenAct c.body⟩) =
        caseLines (depth + 1) cases :=
      caseLines_map fun c hc => hbodies _ (List.mem_append_left _ (List.mem_map_of_mem hc)) _
    have hdefault : defaultLines (depth + 1) (default.map (rebuildBody writtenAct)) =
        defaultLines (depth + 1) default :=
      defaultLines_map fun body hbody =>
        hbodies body (List.mem_append_right _ (Option.mem_toList.2 hbody)) _
    simp [Act.written, Act.mapExpressions, Act.mapDurations, Act.mapBodies, Statement.bare,
      Statement.lines, Function.comp_def, render_written, hcases, hdefault]
  | loop condition body =>
    simp [Act.written, Act.mapExpressions, Act.mapDurations, Act.mapBodies, Statement.bare,
      Statement.lines, render_written, hbodies body List.mem_cons_self]
  | block body =>
    simp [Act.written, Act.mapExpressions, Act.mapDurations, Act.mapBodies, Statement.bare,
      Statement.lines, hbodies body List.mem_cons_self]
  | say speaker text => cases speaker <;> rfl
  | showCharacter character position => cases position <;> rfl
  | _ =>
    simp [Act.written, Act.mapExpressions, Act.mapDurations, Act.mapBodies, Statement.bare,
      Statement.lines, Act.simpleText, render_written, literal_written]

/-! ## Scripts -/

lemma sceneLines_map (separated : Bool) (scenes : List SceneDecl) :
    sceneLines separated (scenes.map fun s => ⟨s.name, rebuildBody writtenAct s.body, {}⟩) =
      sceneLines separated scenes := by
  induction scenes generalizing separated with
  | nil => rfl
  | cons s scenes ih =>
    rw [List.map_cons, sceneLines, sceneLines, ih, SceneDecl.lines, SceneDecl.lines,
      bodyLines_of_sameText fun t _ => sameText t]

/-- A script has the text of the script that it stands for in writing. -/
theorem render_rebuilt_writtenAct (p : Program) (w : Nat) :
    (p.rebuilt writtenAct).render w = p.render w := by
  have hcharacters : (p.rebuilt writtenAct).characters.map CharacterDecl.line =
      p.characters.map CharacterDecl.line := by
    rw [Program.rebuilt, List.map_map]
    rfl
  have hempty : (p.rebuilt writtenAct).characters.isEmpty = p.characters.isEmpty :=
    List.isEmpty_map
  rw [Program.render, Program.render, Program.lines, Program.lines, hcharacters, hempty,
    Program.rebuilt, sceneLines_map]

end Novella.Proofs
