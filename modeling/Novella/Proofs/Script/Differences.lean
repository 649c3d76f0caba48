import Mathlib.Data.List.Forall2
import Novella.Script.Difference
import Novella.Proofs.Script.Layout

/-!
# Scripts without differences

`Program.core` keeps of a script what a comparison of scripts looks at: comments and places are
gone, nested blocks opened up and numbers without a literal replaced. Scripts with one core have
no differences (`differences_of_core`), and neither forgetting places nor printing changes the
core of a script.
-/

namespace Novella.Script

/-- What of a statement counts in a comparison of scripts. -/
def coreAct (_ : Location) : Act Statement → List Statement
  | .comment _ => []
  | .block body => body
  | act => [.bare act.written]

/-- What of a script counts in a comparison of scripts. -/
def Program.core (p : Program) : Program := p.rebuilt coreAct

/-- What of a statement that counts is compared. -/
def Statement.core (s : Statement) : Statement :=
  .bare (s.act.mapBodies (rebuildBody coreAct)).written

end Novella.Script

namespace Novella.Proofs

open Script

section Heads

variable {σ : Type} {f : List σ → List σ}

lemma head_mapBodies (act : Act σ) : (act.mapBodies f).head = act.head := by
  cases act with
  | say speaker text => cases speaker <;> rfl
  | showCharacter character position => cases position <;> rfl
  | choice options => simp [Act.mapBodies, Act.head, List.map_map, Function.comp_def]
  | branch condition thenBody elseBody => cases elseBody <;> rfl
  | switch subject cases default =>
    simp [Act.mapBodies, Act.head, List.map_map, Function.comp_def]
  | _ => rfl

/-- The head of an act is in words, which do not tell an act from the one that its text stands
for. -/
lemma head_written (act : Act σ) : act.written.head = act.head := by
  cases act with
  | say speaker text => cases speaker <;> rfl
  | showCharacter character position => cases position <;> rfl
  | choice options =>
    simp only [Act.written, Act.mapExpressions, Act.mapDurations, Act.head, List.map_map]
    refine congrArg (fun heads => "choice [" ++ ", ".intercalate heads ++ "]")
      (List.map_congr_left fun o _ => ?_)
    cases o with
    | mk text condition body =>
      cases condition with
      | none => rfl
      | some condition => simp [render_written]
  | branch condition thenBody elseBody =>
    simp [Act.written, Act.mapExpressions, Act.mapDurations, Act.head, render_written]
  | switch subject cases default =>
    simp [Act.written, Act.mapExpressions, Act.mapDurations, Act.head, render_written,
      List.map_map, Function.comp_def]
  | loop condition body =>
    simp [Act.written, Act.mapExpressions, Act.mapDurations, Act.head, render_written]
  | set target value =>
    simp [Act.written, Act.mapExpressions, Act.mapDurations, Act.head, Act.simpleText, render_written]
  | wait seconds =>
    simp [Act.written, Act.mapExpressions, Act.mapDurations, Act.head, Act.simpleText, literal_written]
  | transition kind duration =>
    simp [Act.written, Act.mapExpressions, Act.mapDurations, Act.head, Act.simpleText, literal_written]
  | _ => rfl

lemma numberedArms_map {α β : Type} (word : String) (body : α → List σ) (body' : β → List σ)
    (h : α → β) (hh : ∀ a, body' (h a) = f (body a)) (n : Nat) (l : List α) :
    numberedArms word body' n (l.map h) =
      (numberedArms word body n l).map fun a => (a.1, f a.2) := by
  induction l generalizing n with
  | nil => rfl
  | cons a l ih => rw [List.map_cons, numberedArms, numberedArms, List.map_cons, ih, hh]

/-- The arms of an act hold its bodies. -/
lemma arms_mapBodies (act : Act σ) :
    (act.mapBodies f).arms = act.arms.map fun a => (a.1, f a.2) := by
  cases act with
  | choice options =>
    exact numberedArms_map "option" ChoiceOption.body ChoiceOption.body _ (fun _ => rfl) 1 options
  | branch condition thenBody elseBody => cases elseBody <;> rfl
  | switch subject cases default =>
    rw [Act.mapBodies, Act.arms, Act.arms, List.map_append]
    congr 1
    · exact numberedArms_map "case" SwitchCase.body SwitchCase.body _ (fun _ => rfl) 1 cases
    · cases default <;> rfl
  | _ => rfl

lemma arms_written (act : Act σ) : act.written.arms = act.arms := by
  cases act with
  | choice options =>
    have harms := numberedArms_map (f := fun b => b) "option" ChoiceOption.body ChoiceOption.body
      (fun o => { o with condition := o.condition.map Expression.written }) (fun _ => rfl) 1 options
    exact harms.trans (List.map_id _)
  | switch subject cases default =>
    have harms := numberedArms_map (f := fun b => b) "case" SwitchCase.body SwitchCase.body
      (fun c => { c with value := c.value.written }) (fun _ => rfl) 1 cases
    exact congrArg (· ++ default.toList.map fun body => ("default", body))
      (harms.trans (List.map_id _))
  | _ => rfl

end Heads

/-! ## Bodies with one core -/

/-- The core of a body is that of the statements that count. -/
lemma core_eq_map_significant (body : List Statement) :
    rebuildBody coreAct body = (significant body).map Statement.core := by
  have hbody : ∀ body : List Statement,
      (∀ s ∈ body, s.rebuild coreAct = (significantIn s).map Statement.core) →
      rebuildBody coreAct body = (significant body).map Statement.core := by
    intro body hs
    induction body with
    | nil => simp [significant]
    | cons s rest ih =>
      rw [rebuildBody_cons, significant, List.map_append, hs s List.mem_cons_self,
        ih fun t ht => hs t (List.mem_cons_of_mem _ ht)]
  refine hbody body fun s _ => ?_
  refine statement_induct (P := fun s => s.rebuild coreAct = (significantIn s).map Statement.core)
    (fun loc act ih => ?_) s
  rw [rebuild_mk]
  cases act with
  | comment text => simp [Act.mapBodies, coreAct, significantIn]
  | block body =>
    rw [significantIn]
    exact hbody body (ih body List.mem_cons_self)
  | _ =>
    rw [significantIn]
    · rfl
    all_goals simp

/-- Items in the same place of lists with one image have one image. -/
lemma zip_of_map_eq {α β : Type} {h : α → β} {l l' : List α} (hl : l.map h = l'.map h) {a b : α}
    (hmem : (a, b) ∈ l.zip l') : h a = h b := by
  induction l generalizing l' with
  | nil => cases hmem
  | cons c l ih =>
    cases l' with
    | nil => cases hmem
    | cons d l' =>
      obtain ⟨hhead, htail⟩ := List.cons.inj hl
      rcases List.mem_cons.1 hmem with heq | hmem
      · obtain ⟨rfl, rfl⟩ := Prod.mk.inj heq
        exact hhead
      · exact ih htail hmem

/-- Lists of one length whose items in the same place have one image have one image. -/
lemma map_eq_of_zip {α β : Type} {h : α → β} {l l' : List α} (hlength : l.length = l'.length)
    (hzip : ∀ a b, (a, b) ∈ l.zip l' → h a = h b) : l.map h = l'.map h := by
  rw [← List.forall₂_eq_eq_eq, List.forall₂_map_left_iff, List.forall₂_map_right_iff,
    List.forall₂_iff_zip]
  exact ⟨hlength, fun hmem => hzip _ _ hmem⟩

/-- Bodies with one core have no differences. -/
lemma bodyDifferences_of_core (depth : Nat) (path : String) {a b : List Statement}
    (h : rebuildBody coreAct a = rebuildBody coreAct b) : bodyDifferences depth path a b = [] := by
  induction depth generalizing path a b with
  | zero => rfl
  | succ depth ih =>
    rw [core_eq_map_significant, core_eq_map_significant] at h
    have hlength : (significant a).length = (significant b).length := by
      simpa using congrArg List.length h
    rw [bodyDifferences]
    dsimp only
    rw [countDifference, if_pos hlength, List.nil_append, List.flatMap_eq_nil_iff]
    rintro ⟨⟨want, got⟩, index⟩ hmem
    have hzip : (want, got) ∈ (significant a).zip (significant b) := List.fst_mem_of_mem_zipIdx hmem
    have hcore : want.core = got.core := zip_of_map_eq h hzip
    have hhead : want.act.head = got.act.head := by
      have hheads := congrArg (fun s : Statement => s.act.head) hcore
      simpa only [Statement.core, Statement.bare, Statement.act, head_written, head_mapBodies]
        using hheads
    have harms : want.act.arms.map (fun a => (a.1, rebuildBody coreAct a.2)) =
        got.act.arms.map fun a => (a.1, rebuildBody coreAct a.2) := by
      have harms := congrArg (fun s : Statement => s.act.arms) hcore
      simpa only [Statement.core, Statement.bare, Statement.act, arms_written, arms_mapBodies]
        using harms
    dsimp only
    rw [if_neg (not_not_intro hhead), List.flatMap_eq_nil_iff]
    rintro ⟨⟨label, x⟩, ⟨label', y⟩⟩ hmem
    exact ih _ (Prod.mk.inj (zip_of_map_eq harms hmem)).2

/-! ## Scripts with one core -/

lemma characterDifferences_of_unplaced {a b : List CharacterDecl}
    (h : a.map CharacterDecl.unplaced = b.map CharacterDecl.unplaced) :
    (a.zip b).flatMap (fun (c, d) => characterDifference c d) = [] := by
  rw [List.flatMap_eq_nil_iff]
  rintro ⟨c, d⟩ hmem
  have hsame := zip_of_map_eq h hmem
  simp only [CharacterDecl.unplaced, CharacterDecl.mk.injEq, and_true] at hsame
  exact if_pos hsame

/-- Where the scenes have one core, only the characters can differ. -/
lemma differences_of_scenes {p q : Program} (h : p.core.scenes = q.core.scenes) :
    p.differences q = countDifference "character" p.characters.length q.characters.length ++
      (p.characters.zip q.characters).flatMap fun (a, b) => characterDifference a b := by
  have hlength : p.scenes.length = q.scenes.length := by
    simpa [Program.core, Program.rebuilt] using congrArg List.length h
  have hscenes : ∀ x ∈ p.scenes.zip q.scenes, sceneDifferences x.1 x.2 = [] := by
    rintro ⟨s, t⟩ hmem
    have hsame := zip_of_map_eq h hmem
    simp only [SceneDecl.mk.injEq, and_true] at hsame
    dsimp only
    rw [sceneDifferences, if_pos hsame.1, List.nil_append]
    exact bodyDifferences_of_core _ _ hsame.2
  rw [Program.differences, List.flatMap_eq_nil_iff.2 hscenes, countDifference, countDifference,
    if_pos hlength, List.append_nil, List.append_nil]

/-- Scripts with one core have no differences. -/
theorem differences_of_core {p q : Program} (h : p.core = q.core) : p.differences q = [] := by
  have hcharacters : p.characters.map CharacterDecl.unplaced =
      q.characters.map CharacterDecl.unplaced := congrArg Program.characters h
  have hlength : p.characters.length = q.characters.length := by
    simpa using congrArg List.length hcharacters
  rw [differences_of_scenes (congrArg Program.scenes h), countDifference, if_pos hlength,
    characterDifferences_of_unplaced hcharacters]
  rfl

/-! ## Passes that keep the core -/

section Passes

variable {f f₁ f₂ f₃ : Location → Act Statement → List Statement}

lemma written_written_act {σ : Type} (act : Act σ) : act.written.written = act.written := by
  cases act <;> simp [Act.written, Act.mapExpressions, Act.mapDurations, expression_written_written,
    written_written, Function.comp_def, Option.map_map]

lemma written_mapExpressions {σ : Type} (act : Act σ) :
    (act.mapExpressions Expression.written).written = act.written := by
  cases act <;> simp [Act.written, Act.mapExpressions, Act.mapDurations, expression_written_written,
    Function.comp_def, Option.map_map]

/-- The pass changes nothing that counts. -/
def KeepsCore (f : Location → Act Statement → List Statement) : Prop :=
  ∀ loc act, rebuildBody coreAct (f loc act) = coreAct loc (act.mapBodies (rebuildBody coreAct))

lemma KeepsCore.core_eq (h : KeepsCore f) (body : List Statement) :
    rebuildBody coreAct (rebuildBody f body) = rebuildBody coreAct body :=
  rebuildBody_rebuildBody h body

lemma KeepsCore.core_rebuilt (h : KeepsCore f) (p : Program) : (p.rebuilt f).core = p.core := by
  simp only [Program.core, Program.rebuilt, List.map_map, Function.comp_def, h.core_eq]
  rfl

lemma keepsCore_unplaceAct : KeepsCore unplaceAct := by
  intro loc act
  rw [unplaceAct, Statement.bare, rebuildBody_singleton, rebuild_mk]
  cases act <;> rfl

lemma keepsCore_rereadAct : KeepsCore rereadAct := by
  intro loc act
  have hwritten : rebuildBody coreAct [.bare act.written] =
      coreAct {} (act.mapBodies (rebuildBody coreAct)).written := by
    rw [Statement.bare, rebuildBody_singleton, rebuild_mk, written_mapBodies]
  cases act with
  | comment text =>
    have hcomments : ∀ lines : List String,
        rebuildBody coreAct (lines.map fun line => .bare (.comment (Text.trim line))) = [] := by
      intro lines
      induction lines with
      | nil => rfl
      | cons line lines ih => exact ih
    exact hcomments (commentLines text)
  | block body => exact hwritten
  | _ =>
    exact hwritten.trans (congrArg (fun act => [Statement.bare act]) (written_written_act _))

end Passes

end Novella.Proofs
