import Novella.Proofs.Conversion
import Novella.Proofs.Script.CanonicalText

/-!
# Texts that settle

One pass through its graph brings a script into its canonical form, and a second pass changes
nothing any more (`roundTrip_settles`). What the text of a raised script stands for is itself a
pass over the script (`settledAct`). Made again, after the text was read back, it changes nothing
(`settled_reread_raised`), provided that comments stand on one line and have no blanks at their
ends, as those of a script that was read do.
-/

namespace Novella.Flow

open Script

/-- What is read back of a statement, after a pass over it. -/
def raisedThen (f : Location → Act Statement → List Statement) (policy : CommentPolicy)
    (loc : Location) : Act Statement → List Statement
  | .block body => body
  | act => (kept policy act).toList.flatMap (f loc)

/-- What the text of a statement that is read back stands for. -/
def settledAct (policy : CommentPolicy) : Location → Act Statement → List Statement :=
  raisedThen writtenAct policy

end Novella.Flow

namespace Novella.Proofs

open Script Novella.Flow

section Passes

variable {policy : CommentPolicy}

/-- A pass over what is read back of statements is one pass over the statements. -/
lemma rebuildBody_raisedAct (f : Location → Act Statement → List Statement)
    (policy : CommentPolicy) (body : List Statement) :
    rebuildBody f (rebuildBody (raisedAct policy) body) = rebuildBody (raisedThen f policy) body := by
  refine rebuildBody_rebuildBody (fun loc act => ?_) body
  have hkept : rebuildBody f [.mk loc (act.mapExpressions Expression.written)] =
      f loc ((act.mapBodies (rebuildBody f)).mapExpressions Expression.written) := by
    rw [rebuildBody_singleton, rebuild_mk, ← mapExpressions_mapBodies]
  cases act with
  | block body => rfl
  | comment text =>
    cases policy <;> simp [raisedAct, raisedThen, kept, Act.mapBodies, rebuildBody_singleton,
      rebuild_mk]
  | _ => exact hkept.trans (List.append_nil _).symm

lemma settledAct_written (loc : Location) {act : Act Statement} :
    settledAct policy loc act.written = settledAct policy loc act := by
  have hboth : ((act.written).mapExpressions Expression.written).written =
      (act.mapExpressions Expression.written).written := by
    rw [written_mapExpressions, written_mapExpressions, written_written_act]
  cases act with
  | block body => rfl
  | comment text => rfl
  | _ => exact congrArg (fun act => [Statement.bare act]) hboth

/-- Settled statements stay as they are. -/
lemma settled_settled (body : List Statement) :
    rebuildBody (settledAct policy) (rebuildBody (settledAct policy) body) =
      rebuildBody (settledAct policy) body := by
  refine rebuildBody_rebuildBody (fun loc act => ?_) body
  have hkept : rebuildBody (settledAct policy)
      [.bare (act.mapExpressions Expression.written).written] =
      settledAct policy loc (act.mapBodies (rebuildBody (settledAct policy))) := by
    rw [written_mapExpressions, rebuildBody_singleton, Statement.bare, rebuild_mk,
      ← written_mapBodies, settledAct_written]
    cases act <;> rfl
  cases act with
  | block body => rfl
  | comment text => cases policy <;> rfl
  | _ => exact hkept

/-- Where the statements stood does not matter. -/
lemma settled_unplaced (body : List Statement) :
    rebuildBody (settledAct policy) (rebuildBody unplaceAct body) =
      rebuildBody (settledAct policy) body := by
  refine rebuildBody_rebuildBody (fun loc act => ?_) body
  rw [unplaceAct, rebuildBody_singleton, Statement.bare, rebuild_mk]
  cases act <;> rfl

/-- Statements with plain comments that were raised, written and read back settle to what they
would have settled to at once. -/
lemma settled_reread_raised {body : List Statement}
    (h : ∀ t ∈ body, t.All Act.PlainComment) :
    rebuildBody (settledAct policy) (rebuildBody rereadAct (rebuildBody (raisedAct policy) body)) =
      rebuildBody (settledAct policy) body := by
  have hplain : rebuildBody (raisedThen rereadAct policy) body =
      rebuildBody (settledAct policy) body := by
    refine rebuildBody_congr fun t ht => rebuild_congr (fun loc act g hact => ?_) (h t ht)
    cases act with
    | comment text =>
      cases policy with
      | preserve =>
        obtain ⟨htrim, hline⟩ := hact
        have hone : rereadAct loc (.comment text) = [.bare (.comment text)] := by
          rw [rereadAct, commentLines_of_plain hline, List.map_singleton, htrim]
        exact congrArg (· ++ []) hone
      | drop => rfl
    | _ => rfl
  rw [rebuildBody_raisedAct, hplain, settled_settled]

end Passes

/-! ## Scripts -/

section Scripts

variable {policy : CommentPolicy} {p q : Program}

/-- The text of a raised script is settled. -/
lemma rebuilt_merged (policy : CommentPolicy) (p : Program) :
    (p.merged (raisedAct policy)).rebuilt writtenAct =
      ⟨mergedCharacters p.characters,
        p.scenes.map fun s => ⟨s.name, rebuildBody (settledAct policy) s.body, {}⟩⟩ := by
  simp only [Program.rebuilt, Program.merged, unplaced_mergedCharacters, List.map_map,
    Function.comp_def, rebuildBody_raisedAct, settledAct]

/-- Characters that were merged, written and read back are merged. -/
lemma mergedCharacters_reread
    (h : q.characters.map CharacterDecl.unplaced = mergedCharacters p.characters) :
    mergedCharacters q.characters = mergedCharacters p.characters := by
  have hids : q.characters.map (·.id) = (mergedCharacters p.characters).map (·.id) := by
    rw [← h, List.map_map]
    rfl
  rw [mergedCharacters_of_nodup (hids ▸ nodup_mergedCharacters p.characters), h]

/-- A script that was read from the text of a raised script has the same text once it is raised. -/
lemma rebuilt_merged_reread (h : q.unplaced = (p.merged (raisedAct policy)).reread)
    (hplain : ∀ s ∈ p.scenes, ∀ t ∈ s.body, t.All Act.PlainComment) :
    (q.merged (raisedAct policy)).rebuilt writtenAct =
      (p.merged (raisedAct policy)).rebuilt writtenAct := by
  have hcharacters : q.characters.map CharacterDecl.unplaced = mergedCharacters p.characters :=
    (congrArg Program.characters h).trans (unplaced_mergedCharacters p.characters)
  have hscenes : q.scenes.map (fun s => (⟨s.name, rebuildBody unplaceAct s.body, {}⟩ : SceneDecl)) =
      p.scenes.map fun s =>
        ⟨s.name, rebuildBody rereadAct (rebuildBody (raisedAct policy) s.body), {}⟩ := by
    have hboth := congrArg Program.scenes h
    rwa [Program.unplaced, Program.reread, Program.rebuilt, Program.rebuilt, Program.merged,
      List.map_map] at hboth
  rw [rebuilt_merged, rebuilt_merged, mergedCharacters_reread hcharacters, Program.mk.injEq]
  refine ⟨rfl, ?_⟩
  calc q.scenes.map (fun s => (⟨s.name, rebuildBody (settledAct policy) s.body, {}⟩ : SceneDecl))
      = (q.scenes.map fun s => (⟨s.name, rebuildBody unplaceAct s.body, {}⟩ : SceneDecl)).map
          fun s => ⟨s.name, rebuildBody (settledAct policy) s.body, {}⟩ := by
        simp only [List.map_map, Function.comp_def, settled_unplaced]
    _ = p.scenes.map fun s => ⟨s.name, rebuildBody (settledAct policy) s.body, {}⟩ := by
        rw [hscenes, List.map_map]
        exact List.map_congr_left fun s hs => by
          simp only [Function.comp_apply, settled_reread_raised (hplain s hs)]

end Scripts

/-- The text that a script comes back as comes back as itself. -/
theorem roundTrip_settles (s : Settings) {source : String} {p : Program}
    (h : parse source = .ok p) :
    ∃ text, Conversion.roundTrip s source = .ok text ∧ Conversion.roundTrip s text = .ok text := by
  obtain ⟨hnamed, htext⟩ := roundTrip_eq s h
  obtain ⟨q, hq, hsame⟩ := parse_render hnamed s.indentWidth
  refine ⟨_, htext, (roundTrip_eq s hq).2.trans (congrArg Except.ok ?_)⟩
  rw [← render_rebuilt_writtenAct, rebuilt_merged_reread hsame (plainComments_of_parse h),
    render_rebuilt_writtenAct]

/-- A script with a nested block and a comment with blanks around it. -/
def unsettled : String := "scene s \x7b \x7b //  a \n \x7d \x7d"

theorem unsettled_settles :
    parse unsettled = .ok ⟨[], [⟨"s", [.mk ⟨1, 11⟩ (.block [.mk ⟨1, 13⟩ (.comment "a")])], ⟨1, 1⟩⟩]⟩ ∧
      ∃ text, Conversion.roundTrip {} unsettled = .ok text ∧
        Conversion.roundTrip {} text = .ok text := by
  have hparse : parse unsettled =
      .ok ⟨[], [⟨"s", [.mk ⟨1, 11⟩ (.block [.mk ⟨1, 13⟩ (.comment "a")])], ⟨1, 1⟩⟩]⟩ := by cbv
  exact ⟨hparse, roundTrip_settles {} hparse⟩

end Novella.Proofs
