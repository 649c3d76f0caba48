import Mathlib.Algebra.Order.BigOperators.Group.List
import Novella.Proofs.Results
import Novella.Proofs.Script.Heads
import Novella.Proofs.Script.Naming

/-!
# Scripts without differences are the same

A comparison of two scripts finds nothing only if the scripts are the same but for places, comments
and the bounds of nested blocks (`differences_exact`). Bodies without differences have as many
statements that count, one by one with the same heads, and heads tell how many arms there are; so the
bodies have one core (`core_of_bodyDifferences`). The core of a script whose numbers are finite is all
of the script but what is not compared.
-/

namespace Novella.Script

/-- What is left of a statement without places, comments and the bounds of nested blocks. -/
def strippedAct (_ : Location) : Act Statement → List Statement
  | .comment _ => []
  | .block body => body
  | act => [.bare act]

/-- The script without places, comments and the bounds of nested blocks. -/
def Program.stripped (p : Program) : Program := p.rebuilt strippedAct

/-- All numbers of the act are finite. -/
def Act.Finite {σ : Type} (act : Act σ) : Prop := act.FiniteExpressions ∧ act.FiniteDurations

/-- All numbers of the script are finite. -/
def Program.Finite (p : Program) : Prop := ∀ s ∈ p.scenes, ∀ t ∈ s.body, t.All Act.Finite

instance {σ : Type} (act : Act σ) : Decidable act.Finite :=
  inferInstanceAs (Decidable ((∀ e ∈ act.expressions, _) ∧ ∀ x ∈ act.durations, x.isFinite = true))

end Novella.Script

namespace Novella.Proofs

open Script

/-- The numbers of a script can be looked through. -/
instance (p : Program) : Decidable p.Finite :=
  decidable_of_iff (∀ s ∈ p.scenes, ∀ t ∈ s.body, t.offences Act.Finite = []) <|
    forall₂_congr fun _ _ => forall₂_congr fun t _ => offences_eq_nil_iff (fun act f => by
      rw [Act.Finite, Act.Finite, Act.FiniteExpressions, Act.FiniteExpressions, Act.FiniteDurations,
        Act.FiniteDurations, expressions_mapBodies, durations_mapBodies]) t

/-! ## Statements that count -/

section Significant

lemma bodySize_eq (body : List Statement) : bodySize body = (body.map Statement.size).sum := by
  induction body with
  | nil => rfl
  | cons s body ih => rw [bodySize, ih, List.map_cons, List.sum_cons]

lemma optionsSize_eq (options : List (ChoiceOption Statement)) :
    optionsSize options = (options.map fun o => bodySize o.body).sum := by
  induction options with
  | nil => rfl
  | cons o options ih => rw [optionsSize, ih, List.map_cons, List.sum_cons]

lemma casesSize_eq (cases : List (SwitchCase Statement)) :
    casesSize cases = (cases.map fun c => bodySize c.body).sum := by
  induction cases with
  | nil => rfl
  | cons c cases ih => rw [casesSize, ih, List.map_cons, List.sum_cons]

lemma size_mk (loc : Location) (act : Act Statement) :
    (Statement.mk loc act).size = (act.bodies.map bodySize).sum + 1 := by
  cases act with
  | choice options => simp [Statement.size, optionsSize_eq, Act.bodies, Function.comp_def]
  | branch condition thenBody elseBody =>
    cases elseBody <;> simp [Statement.size, optionalSize, Act.bodies]
  | switch subject cases default =>
    cases default <;>
      simp [Statement.size, casesSize_eq, optionalSize, Act.bodies, Function.comp_def]
  | _ => simp [Statement.size, Act.bodies]

lemma bodySize_lt_size {s : Statement} {body : List Statement} (h : body ∈ s.act.bodies) :
    bodySize body < s.size := by
  obtain ⟨loc, act⟩ := s
  rw [size_mk]
  exact Nat.lt_succ_of_le (List.le_sum_of_mem (List.mem_map_of_mem h))

lemma size_le_bodySize {s : Statement} {body : List Statement} (h : s ∈ body) :
    s.size ≤ bodySize body := by
  rw [bodySize_eq]
  exact List.le_sum_of_mem (List.mem_map_of_mem h)

/-- What holds of the statements of a body, and with a block of all statements in the block, holds of
the statements that count. -/
lemma significant_induct {P : Statement → Prop}
    (hblock : ∀ loc body, P (.mk loc (.block body)) → ∀ s ∈ body, P s) {body : List Statement}
    (h : ∀ s ∈ body, P s) : ∀ s ∈ significant body, P s ∧ s.act.Counts := by
  have hbody : ∀ body : List Statement,
      (∀ t ∈ body, P t → ∀ s ∈ significantIn t, P s ∧ s.act.Counts) → (∀ t ∈ body, P t) →
      ∀ s ∈ significant body, P s ∧ s.act.Counts := by
    intro body hs hP
    induction body with
    | nil => simp [significant]
    | cons t rest ih =>
      intro s hs'
      rw [significant, List.mem_append] at hs'
      rcases hs' with hs' | hs'
      · exact hs t List.mem_cons_self (hP t List.mem_cons_self) s hs'
      · exact ih (fun u hu => hs u (List.mem_cons_of_mem _ hu))
          (fun u hu => hP u (List.mem_cons_of_mem _ hu)) s hs'
  refine hbody body (fun t _ => ?_) h
  refine statement_induct (P := fun t => P t → ∀ s ∈ significantIn t, P s ∧ s.act.Counts)
    (fun loc act ih hP => ?_) t
  cases act with
  | comment text => simp [significantIn]
  | block body =>
    rw [significantIn]
    exact hbody body (ih body List.mem_cons_self) (hblock loc body hP)
  | _ =>
    rw [significantIn]
    · exact List.forall_mem_singleton.2 ⟨hP, trivial⟩
    all_goals simp

lemma named_significant {body : List Statement} (h : ∀ s ∈ body, s.All Act.Named) :
    ∀ s ∈ significant body, s.All Act.Named ∧ s.act.Counts :=
  significant_induct (fun _ _ hs => (all_mk_iff.1 hs).2 _ List.mem_cons_self) h

lemma size_significant (body : List Statement) : ∀ s ∈ significant body, s.size ≤ bodySize body := by
  refine fun s hs => (significant_induct (P := fun s => s.size ≤ bodySize body) ?_
    (fun t ht => size_le_bodySize ht) s hs).1
  exact fun loc inner hle t ht =>
    (size_le_bodySize ht).trans ((bodySize_lt_size List.mem_cons_self).le.trans hle)

end Significant

/-! ## Bodies without differences -/

section Bodies

lemma eq_of_countDifference {what : String} {m n : Nat} (h : countDifference what m n = []) :
    m = n := by
  rw [countDifference] at h
  split at h
  · assumption
  · cases h

lemma length_arms {act : Act Statement} (h : act.Counts) : act.arms.length = act.bodies.length := by
  rw [← map_snd_arms h, List.length_map]

lemma mem_bodies_of_mem_arms {act : Act Statement} (h : act.Counts) {arm : String × List Statement}
    (harm : arm ∈ act.arms) : arm.2 ∈ act.bodies :=
  map_snd_arms h ▸ List.mem_map_of_mem harm

/-- Bodies without differences have one core. The induction is on the depth, which exceeds the size of
the first body and so is not used up where bodies are left to compare. -/
lemma core_of_bodyDifferences {depth : Nat} {path : String} {a b : List Statement}
    (hdepth : bodySize a < depth) (ha : ∀ s ∈ a, s.All Act.Named) (hb : ∀ s ∈ b, s.All Act.Named)
    (h : bodyDifferences depth path a b = []) : rebuildBody coreAct a = rebuildBody coreAct b := by
  induction depth generalizing path a b with
  | zero => omega
  | succ depth ih =>
    rw [bodyDifferences] at h
    obtain ⟨hcount, hpairs⟩ := List.append_eq_nil_iff.1 h
    rw [core_eq_map_significant, core_eq_map_significant]
    refine map_eq_of_zip (eq_of_countDifference hcount) fun want got hmem => ?_
    obtain ⟨hwant, hgot⟩ := List.of_mem_zip hmem
    obtain ⟨hwantNamed, hwantCounts⟩ := named_significant ha want hwant
    obtain ⟨hgotNamed, hgotCounts⟩ := named_significant hb got hgot
    have hsize : want.size ≤ bodySize a := size_significant a want hwant
    obtain ⟨index, hindex⟩ :
        ∃ index, ((want, got), index) ∈ ((significant a).zip (significant b)).zipIdx 1 := by
      rw [← List.zipIdx_map_fst 1 ((significant a).zip (significant b))] at hmem
      obtain ⟨⟨_, index⟩, hindex, rfl⟩ := List.mem_map.1 hmem
      exact ⟨index, hindex⟩
    have hpair := List.flatMap_eq_nil_iff.1 hpairs _ hindex
    dsimp only at hpair
    split at hpair
    · cases hpair
    next hhead =>
    have hshell : want.act.shell = got.act.shell :=
      (head_eq_iff (here_of_all hwantNamed) (here_of_all hgotNamed) hwantCounts hgotCounts).1
        (not_not.1 hhead)
    have harms : want.act.arms.map (fun arm => rebuildBody coreAct arm.2) =
        got.act.arms.map fun arm => rebuildBody coreAct arm.2 := by
      refine map_eq_of_zip ?_ fun x y hxy => ?_
      · rw [length_arms hwantCounts, length_arms hgotCounts, length_bodies_of_shell hshell]
      · obtain ⟨hx, hy⟩ := List.of_mem_zip hxy
        have hx := mem_bodies_of_mem_arms hwantCounts hx
        have hy := mem_bodies_of_mem_arms hgotCounts hy
        exact ih (((bodySize_lt_size hx).trans_le hsize).trans_le (Nat.le_of_lt_succ hdepth))
          (inside_of_all hwantNamed _ hx) (inside_of_all hgotNamed _ hy)
          (List.flatMap_eq_nil_iff.1 hpair _ hxy)
    have hbodies : want.act.bodies.map (rebuildBody coreAct) =
        got.act.bodies.map (rebuildBody coreAct) := by
      rw [← map_snd_arms hwantCounts, ← map_snd_arms hgotCounts, List.map_map, List.map_map]
      exact harms
    exact congrArg Statement.bare (mapBodies_eq_of_shell hshell hbodies)

end Bodies

/-! ## Scripts without differences -/

section Programs

variable {p q : Program}

lemma unplaced_of_characterDifference {c d : CharacterDecl} (h : characterDifference c d = []) :
    c.unplaced = d.unplaced := by
  rw [characterDifference] at h
  split at h
  · next hsame =>
    obtain ⟨hid, hname, hcolor⟩ := hsame
    rw [CharacterDecl.unplaced, CharacterDecl.unplaced, hid, hname, hcolor]
  · cases h

lemma core_of_sceneDifferences {s t : SceneDecl} (hs : ∀ u ∈ s.body, u.All Act.Named)
    (ht : ∀ u ∈ t.body, u.All Act.Named) (h : sceneDifferences s t = []) :
    (⟨s.name, rebuildBody coreAct s.body, {}⟩ : SceneDecl) =
      ⟨t.name, rebuildBody coreAct t.body, {}⟩ := by
  obtain ⟨hname, hbody⟩ := List.append_eq_nil_iff.1 h
  split at hname
  · next hsame => rw [hsame, core_of_bodyDifferences (Nat.lt_succ_self _) hs ht hbody]
  · cases hname

/-- A comparison finds nothing if the scripts have one core, and only then. -/
lemma differences_eq_nil_iff_core (hp : p.Named) (hq : q.Named) :
    p.differences q = [] ↔ p.core = q.core := by
  refine ⟨fun h => ?_, differences_of_core⟩
  simp only [Program.differences, List.append_eq_nil_iff, List.flatMap_eq_nil_iff] at h
  obtain ⟨⟨⟨hcharacterCount, hcharacters⟩, hsceneCount⟩, hscenes⟩ := h
  have hcast : p.characters.map CharacterDecl.unplaced = q.characters.map CharacterDecl.unplaced :=
    map_eq_of_zip (eq_of_countDifference hcharacterCount) fun c d hmem =>
      unplaced_of_characterDifference (hcharacters _ hmem)
  have hbodies : p.scenes.map (fun s => (⟨s.name, rebuildBody coreAct s.body, {}⟩ : SceneDecl)) =
      q.scenes.map fun s => ⟨s.name, rebuildBody coreAct s.body, {}⟩ :=
    map_eq_of_zip (eq_of_countDifference hsceneCount) fun s t hmem =>
      core_of_sceneDifferences (hp.statements s (List.of_mem_zip hmem).1)
        (hq.statements t (List.of_mem_zip hmem).2) (hscenes _ hmem)
  rw [Program.core, Program.core, Program.rebuilt, Program.rebuilt, hcast, hbodies]

/-- Without infinite numbers the core is all that is left of the script. -/
lemma core_of_finite (h : p.Finite) : p.core = p.stripped := by
  have hbodies : ∀ s ∈ p.scenes, rebuildBody coreAct s.body = rebuildBody strippedAct s.body := by
    intro s hs
    refine rebuildBody_congr fun t ht => rebuild_congr ?_ (h s hs t ht)
    rintro loc act g ⟨hexpressions, hdurations⟩
    have hwritten : (act.mapBodies g).written = act.mapBodies g := by
      rw [written_mapBodies, written_of_finite_act hexpressions hdurations]
    cases act with
    | comment text => rfl
    | block body => rfl
    | _ => exact congrArg (fun act => [Statement.bare act]) hwritten
  rw [Program.core, Program.stripped, Program.rebuilt, Program.rebuilt, Program.mk.injEq]
  exact ⟨rfl, List.map_congr_left fun s hs => by rw [hbodies s hs]⟩

lemma differences_eq_nil_iff (hp : p.Named) (hq : q.Named) (hpfinite : p.Finite)
    (hqfinite : q.Finite) : p.differences q = [] ↔ p.stripped = q.stripped := by
  rw [differences_eq_nil_iff_core hp hq, core_of_finite hpfinite, core_of_finite hqfinite]

lemma textDifferences_eq_nil_iff {source converted : String}
    (hsource : ∀ p, parse source = .ok p → p.Finite)
    (hconverted : ∀ p, parse converted = .ok p → p.Finite) : textDifferences source converted = [] ↔
      ∃ p q, parse source = .ok p ∧ parse converted = .ok q ∧ p.stripped = q.stripped := by
  unfold textDifferences
  generalize hp : parse source = expected at *
  generalize hq : parse converted = found at *
  cases expected with
  | error fault => simp
  | ok p =>
    cases found with
    | error fault => simp
    | ok q =>
      have hiff := differences_eq_nil_iff (named_of_parse hp) (named_of_parse hq) (hsource p rfl)
        (hconverted q rfl)
      simpa using hiff

end Programs

/-- Scripts in which names stand for names and numbers are finite have no differences exactly if they
are the same but for places, comments and the bounds of nested blocks, and so have texts exactly if
both are read as such scripts. -/
theorem differences_exact :
    (∀ p q : Program, p.Named → q.Named → p.Finite → q.Finite →
      (p.differences q = [] ↔ p.stripped = q.stripped)) ∧
    ∀ source converted, (∀ p, parse source = .ok p → p.Finite) →
      (∀ p, parse converted = .ok p → p.Finite) →
      (textDifferences source converted = [] ↔
        ∃ p q, parse source = .ok p ∧ parse converted = .ok q ∧ p.stripped = q.stripped) :=
  ⟨fun _ _ => differences_eq_nil_iff, fun _ _ => textDifferences_eq_nil_iff⟩

/-- A comment, a block, and a zero that is compared. -/
def nested : String := "scene s \x7b // Once.\n \x7b wait 0.0 \x7d \x7d"

def flat : String := "scene s \x7b wait 0.0 \x7d"

def negative : String := "scene s \x7b wait -0.0 \x7d"

theorem zeros_differ :
    (∀ s ∈ [nested, flat, negative], ∀ p, parse s = .ok p → p.Finite) ∧
    (∃ p q : Program, p.Named ∧ q.Named ∧ p.Finite ∧ q.Finite ∧
      (p.differences q = [] ↔ p.stripped = q.stripped)) ∧
    (∃ p q, parse nested = .ok p ∧ parse flat = .ok q ∧ p.stripped = q.stripped) ∧
    ¬∃ p q, parse flat = .ok p ∧ parse negative = .ok q ∧ p.stripped = q.stripped := by
  have hfinite : ∀ s ∈ [nested, flat, negative], ∀ p, parse s = .ok p → p.Finite := by
    decide +kernel
  have hnested := hfinite nested (by simp)
  have hflat := hfinite flat (by simp)
  have hnegative := hfinite negative (by simp)
  have hnone : textDifferences nested flat = [] := by decide +kernel
  have hsome : textDifferences flat negative ≠ [] := by decide +kernel
  have hsame := (differences_exact.2 nested flat hnested hflat).1 hnone
  have hother := (differences_exact.2 flat negative hflat hnegative).not.1 hsome
  refine ⟨hfinite, ?_, hsame, hother⟩
  obtain ⟨p, q, hp, hq, -⟩ := hsame
  have hpnamed := named_of_parse hp
  have hqnamed := named_of_parse hq
  exact ⟨p, q, hpnamed, hqnamed, hnested p hp, hflat q hq,
    differences_exact.1 p q hpnamed hqnamed (hnested p hp) (hflat q hq)⟩

end Novella.Proofs
