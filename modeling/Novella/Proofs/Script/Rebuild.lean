import Mathlib.Tactic.Lemma
import Novella.Proofs.Script.Expressions

/-!
# Statements rebuilt from the inside out

The passes over scripts that the theorems speak of (forgetting places, splicing nested blocks,
dropping comments, replacing what has no literal) all rebuild every statement from the rebuilt
statements nested in it. `Statement.rebuild` is this traversal, and a pass is given by what it
makes of one act. Two passes after each other are again a pass (`rebuildBody_rebuildBody`), and
two passes agree on statements on whose acts they agree (`Statement.All.rebuild_congr`).
-/

namespace Novella.Script

variable {σ : Type}

/-! ## Parts of an act -/

namespace Act

/-- The bodies nested in an act. -/
def bodies : Act σ → List (List σ)
  | .choice options => options.map (·.body)
  | .branch _ thenBody elseBody => thenBody :: elseBody.toList
  | .switch _ cases default => cases.map (·.body) ++ default.toList
  | .loop _ body => [body]
  | .block body => [body]
  | _ => []

/-- The act with every body replaced by its image. -/
def mapBodies (f : List σ → List σ) : Act σ → Act σ
  | .choice options => .choice (options.map fun o => { o with body := f o.body })
  | .branch condition thenBody elseBody => .branch condition (f thenBody) (elseBody.map f)
  | .switch subject cases default =>
    .switch subject (cases.map fun c => { c with body := f c.body }) (default.map f)
  | .loop condition body => .loop condition (f body)
  | .block body => .block (f body)
  | act => act

/-- The names that stand in an act. -/
def names : Act σ → List String
  | .say speaker _ => speaker.toList
  | .showCharacter character position => character :: position.toList
  | .hide character => [character]
  | .set target _ => [target]
  | .goto target => [target]
  | .transition kind _ => [kind]
  | _ => []

/-- The expressions that stand in an act. -/
def expressions : Act σ → List Expression
  | .choice options => options.filterMap (·.condition)
  | .branch condition _ _ => [condition]
  | .switch subject cases _ => subject :: cases.map (·.value)
  | .loop condition _ => [condition]
  | .set _ value => [value]
  | _ => []

/-- The durations that stand in an act. -/
def durations : Act σ → List Binary64
  | .wait seconds => [seconds]
  | .transition _ duration => [duration]
  | _ => []

/-- The act with every expression replaced by its image. -/
def mapExpressions (f : Expression → Expression) : Act σ → Act σ
  | .choice options => .choice (options.map fun o => { o with condition := o.condition.map f })
  | .branch condition thenBody elseBody => .branch (f condition) thenBody elseBody
  | .switch subject cases default =>
    .switch (f subject) (cases.map fun c => { c with value := f c.value }) default
  | .loop condition body => .loop (f condition) body
  | .set target value => .set target (f value)
  | act => act

/-- The act with every duration replaced by its image. -/
def mapDurations (f : Binary64 → Binary64) : Act σ → Act σ
  | .wait seconds => .wait (f seconds)
  | .transition kind duration => .transition kind (f duration)
  | act => act

/-- The act that the text of an act stands for. -/
def written (act : Act σ) : Act σ :=
  (act.mapExpressions Expression.written).mapDurations Binary64.written

def Named (act : Act σ) : Prop :=
  (∀ name ∈ act.names, isName name = true) ∧ ∀ e ∈ act.expressions, e.Named

def FiniteExpressions (act : Act σ) : Prop := ∀ e ∈ act.expressions, e.Finite

def FiniteDurations (act : Act σ) : Prop := ∀ x ∈ act.durations, x.isFinite = true

end Act

/-- The act of every statement, the nested ones included, satisfies `P`. -/
inductive Statement.All (P : Act Statement → Prop) : Statement → Prop
  | mk {loc : Location} {act : Act Statement} (here : P act)
      (inside : ∀ body ∈ act.bodies, ∀ s ∈ body, Statement.All P s) : Statement.All P (.mk loc act)

/-! ## The traversal -/

mutual

/-- What `f` makes of a statement whose bodies have been rebuilt. -/
def Statement.rebuild (f : Location → Act Statement → List Statement) :
    Statement → List Statement
  | .mk loc (.choice options) => f loc (.choice (rebuildOptions f options))
  | .mk loc (.branch condition thenBody elseBody) =>
    f loc (.branch condition (rebuildBody f thenBody) (rebuildOptional f elseBody))
  | .mk loc (.switch subject cases default) =>
    f loc (.switch subject (rebuildCases f cases) (rebuildOptional f default))
  | .mk loc (.loop condition body) => f loc (.loop condition (rebuildBody f body))
  | .mk loc (.block body) => f loc (.block (rebuildBody f body))
  | .mk loc act => f loc act

/-- The rebuilt statements of a body. -/
def rebuildBody (f : Location → Act Statement → List Statement) :
    List Statement → List Statement
  | [] => []
  | s :: rest => s.rebuild f ++ rebuildBody f rest

def rebuildOptional (f : Location → Act Statement → List Statement) :
    Option (List Statement) → Option (List Statement)
  | none => none
  | some body => some (rebuildBody f body)

def rebuildOptions (f : Location → Act Statement → List Statement) :
    List (ChoiceOption Statement) → List (ChoiceOption Statement)
  | [] => []
  | ⟨text, condition, body⟩ :: rest =>
    ⟨text, condition, rebuildBody f body⟩ :: rebuildOptions f rest

def rebuildCases (f : Location → Act Statement → List Statement) :
    List (SwitchCase Statement) → List (SwitchCase Statement)
  | [] => []
  | ⟨value, body⟩ :: rest => ⟨value, rebuildBody f body⟩ :: rebuildCases f rest

end

/-- The statements, the nested ones included, whose acts have not the property. -/
def Statement.offences (P : Act Statement → Prop) [DecidablePred P] : Statement → List Statement :=
  Statement.rebuild fun loc act => if P act then act.bodies.flatten else [.mk loc act]

end Novella.Script

namespace Novella.Proofs

open Script

section Acts

variable {σ : Type} {f g : List σ → List σ}

lemma mapBodies_mapBodies (act : Act σ) :
    (act.mapBodies f).mapBodies g = act.mapBodies fun body => g (f body) := by
  cases act with
  | branch condition thenBody elseBody => cases elseBody <;> rfl
  | switch subject cases default => cases default <;> simp [Act.mapBodies]
  | choice options => simp [Act.mapBodies]
  | _ => rfl

lemma mapBodies_congr {act : Act σ} (h : ∀ body ∈ act.bodies, f body = g body) :
    act.mapBodies f = act.mapBodies g := by
  cases act with
  | choice options =>
    have hbody : ∀ o ∈ options, f o.body = g o.body :=
      fun o ho => h _ (List.mem_map_of_mem ho)
    simp only [Act.mapBodies, Act.choice.injEq]
    exact List.map_congr_left fun o ho => by rw [hbody o ho]
  | branch condition thenBody elseBody =>
    have hthen : f thenBody = g thenBody := h _ List.mem_cons_self
    have helse : elseBody.map f = elseBody.map g :=
      Option.map_congr fun body hbody => h _ (by simp [Act.bodies, hbody])
    rw [Act.mapBodies, Act.mapBodies, hthen, helse]
  | switch subject cases default =>
    have hcases : cases.map (fun c => { c with body := f c.body }) =
        cases.map fun c => { c with body := g c.body } :=
      List.map_congr_left fun c hc => by
        rw [h _ (List.mem_append_left _ (List.mem_map_of_mem hc))]
    have hdefault : default.map f = default.map g :=
      Option.map_congr fun body hbody => h _ (by simp [Act.bodies, hbody])
    rw [Act.mapBodies, Act.mapBodies, hcases, hdefault]
  | loop condition body =>
    rw [Act.mapBodies, Act.mapBodies, h body (by simp [Act.bodies])]
  | block body => rw [Act.mapBodies, Act.mapBodies, h body (by simp [Act.bodies])]
  | _ => rfl

lemma bodies_mapBodies (act : Act σ) : (act.mapBodies f).bodies = act.bodies.map f := by
  cases act with
  | choice options => simp [Act.mapBodies, Act.bodies, Function.comp_def]
  | branch condition thenBody elseBody => cases elseBody <;> rfl
  | switch subject cases default => cases default <;> simp [Act.mapBodies, Act.bodies, Function.comp_def]
  | _ => rfl

lemma expressions_mapBodies (act : Act σ) : (act.mapBodies f).expressions = act.expressions := by
  cases act with
  | choice options =>
    rw [Act.mapBodies, Act.expressions, Act.expressions, List.filterMap_map]
    rfl
  | switch subject cases default => simp [Act.mapBodies, Act.expressions, Function.comp_def]
  | _ => rfl

lemma durations_mapBodies (act : Act σ) : (act.mapBodies f).durations = act.durations := by
  cases act <;> rfl

lemma mapExpressions_mapBodies (act : Act σ) (h : Expression → Expression) :
    (act.mapBodies f).mapExpressions h = (act.mapExpressions h).mapBodies f := by
  cases act with
  | choice options => simp [Act.mapBodies, Act.mapExpressions]
  | switch subject cases default => simp [Act.mapBodies, Act.mapExpressions]
  | _ => rfl

lemma mapDurations_mapBodies (act : Act σ) (h : Binary64 → Binary64) :
    (act.mapBodies f).mapDurations h = (act.mapDurations h).mapBodies f := by
  cases act <;> rfl

lemma written_mapBodies (act : Act σ) : (act.mapBodies f).written = act.written.mapBodies f := by
  rw [Act.written, mapExpressions_mapBodies, mapDurations_mapBodies, Act.written]

lemma mapExpressions_eq_self {act : Act σ} {h : Expression → Expression}
    (hh : ∀ e ∈ act.expressions, h e = e) : act.mapExpressions h = act := by
  cases act with
  | choice options =>
    have hmap : ∀ o ∈ options, { o with condition := o.condition.map h } = o := by
      rintro ⟨text, condition, body⟩ ho
      cases condition with
      | none => rfl
      | some e => simp [hh e (List.mem_filterMap.2 ⟨_, ho, rfl⟩)]
    rw [Act.mapExpressions, List.map_congr_left hmap, List.map_id']
  | branch condition thenBody elseBody => rw [Act.mapExpressions, hh _ List.mem_cons_self]
  | switch subject cases default =>
    have hmap : ∀ c ∈ cases, { c with value := h c.value } = c := by
      rintro ⟨value, body⟩ hc
      simp [hh value (List.mem_cons_of_mem _ (List.mem_map.2 ⟨_, hc, rfl⟩))]
    rw [Act.mapExpressions, hh _ List.mem_cons_self, List.map_congr_left hmap, List.map_id']
  | loop condition body => rw [Act.mapExpressions, hh _ List.mem_cons_self]
  | set target value => rw [Act.mapExpressions, hh _ List.mem_cons_self]
  | _ => rfl

lemma mapDurations_eq_self {act : Act σ} {h : Binary64 → Binary64}
    (hh : ∀ x ∈ act.durations, h x = x) : act.mapDurations h = act := by
  cases act with
  | wait seconds => rw [Act.mapDurations, hh _ List.mem_cons_self]
  | transition kind duration => rw [Act.mapDurations, hh _ List.mem_cons_self]
  | _ => rfl

lemma mapExpressions_written_of_finite {act : Act σ} (h : act.FiniteExpressions) :
    act.mapExpressions Expression.written = act :=
  mapExpressions_eq_self fun e he => expression_written_of_finite (h e he)

lemma written_of_finite_act {act : Act σ} (he : act.FiniteExpressions)
    (hd : act.FiniteDurations) : act.written = act := by
  rw [Act.written, mapExpressions_written_of_finite he]
  exact mapDurations_eq_self fun x hx => written_of_finite (hd x hx)

end Acts

/-! ## Induction -/

lemma sizeOf_lt_of_mem_bodies {act : Act Statement} {body : List Statement}
    (h : body ∈ act.bodies) : sizeOf body < sizeOf act := by
  cases act with
  | choice options =>
    obtain ⟨o, ho, rfl⟩ := List.mem_map.1 h
    have hoption := List.sizeOf_lt_of_mem ho
    have hbody : sizeOf o.body < sizeOf o := by
      cases o
      simp only [ChoiceOption.mk.sizeOf_spec]
      omega
    simp only [Act.choice.sizeOf_spec]
    omega
  | branch condition thenBody elseBody =>
    simp only [Act.bodies, List.mem_cons, Option.mem_toList] at h
    simp only [Act.branch.sizeOf_spec]
    rcases h with rfl | h
    · omega
    · rw [h, Option.some.sizeOf_spec]
      omega
  | switch subject cases default =>
    simp only [Act.bodies, List.mem_append, List.mem_map, Option.mem_toList] at h
    simp only [Act.switch.sizeOf_spec]
    rcases h with ⟨c, hc, rfl⟩ | h
    · have hcase := List.sizeOf_lt_of_mem hc
      have hbody : sizeOf c.body < sizeOf c := by
        cases c
        simp only [SwitchCase.mk.sizeOf_spec]
        omega
      omega
    · rw [h, Option.some.sizeOf_spec]
      omega
  | loop condition body =>
    obtain rfl := List.mem_singleton.1 h
    simp only [Act.loop.sizeOf_spec]
    omega
  | block body =>
    obtain rfl := List.mem_singleton.1 h
    simp only [Act.block.sizeOf_spec]
    omega
  | _ => cases h

/-- What holds of a statement as soon as it holds of all statements nested in it holds of every
statement. -/
theorem statement_induct {P : Statement → Prop}
    (step : ∀ loc act, (∀ body ∈ act.bodies, ∀ s ∈ body, P s) → P (.mk loc act)) :
    ∀ s, P s
  | .mk loc act => step loc act fun body hbody s hs =>
    have hsize : sizeOf s < sizeOf (Statement.mk loc act) := by
      have h₁ := List.sizeOf_lt_of_mem hs
      have h₂ := sizeOf_lt_of_mem_bodies hbody
      simp only [Statement.mk.sizeOf_spec]
      omega
    statement_induct step s
termination_by s => sizeOf s
decreasing_by exact hsize

/-! ## Equations of the traversal -/

section Traversal

variable {f f₁ f₂ f₃ : Location → Act Statement → List Statement}

lemma rebuildOptional_eq (body : Option (List Statement)) :
    rebuildOptional f body = body.map (rebuildBody f) := by
  cases body <;> rfl

lemma rebuildOptions_eq (options : List (ChoiceOption Statement)) :
    rebuildOptions f options = options.map fun o => { o with body := rebuildBody f o.body } := by
  induction options with
  | nil => rfl
  | cons o rest ih => rw [rebuildOptions, ih, List.map_cons]

lemma rebuildCases_eq (cases : List (SwitchCase Statement)) :
    rebuildCases f cases = cases.map fun c => { c with body := rebuildBody f c.body } := by
  induction cases with
  | nil => rfl
  | cons c rest ih => rw [rebuildCases, ih, List.map_cons]

/-- The bodies of an act are rebuilt before the act. -/
lemma rebuild_mk (loc : Location) (act : Act Statement) :
    (Statement.mk loc act).rebuild f = f loc (act.mapBodies (rebuildBody f)) := by
  cases act with
  | choice options => rw [Statement.rebuild, rebuildOptions_eq, Act.mapBodies]
  | branch condition thenBody elseBody =>
    rw [Statement.rebuild, rebuildOptional_eq, Act.mapBodies]
  | switch subject cases default =>
    rw [Statement.rebuild, rebuildOptional_eq, rebuildCases_eq, Act.mapBodies]
  | _ => simp only [Statement.rebuild, Act.mapBodies]

@[simp]
lemma rebuildBody_nil : rebuildBody f [] = [] := rfl

lemma rebuildBody_cons (s : Statement) (rest : List Statement) :
    rebuildBody f (s :: rest) = s.rebuild f ++ rebuildBody f rest := rfl

lemma rebuildBody_singleton (s : Statement) : rebuildBody f [s] = s.rebuild f := by
  rw [rebuildBody_cons, rebuildBody_nil, List.append_nil]

lemma rebuildBody_append (a b : List Statement) :
    rebuildBody f (a ++ b) = rebuildBody f a ++ rebuildBody f b := by
  induction a with
  | nil => rfl
  | cons s a ih => rw [List.cons_append, rebuildBody_cons, rebuildBody_cons, ih, List.append_assoc]

/-- Bodies whose statements two passes rebuild alike are rebuilt alike. -/
lemma rebuildBody_congr {body : List Statement}
    (h : ∀ s ∈ body, s.rebuild f₁ = s.rebuild f₂) : rebuildBody f₁ body = rebuildBody f₂ body := by
  induction body with
  | nil => rfl
  | cons s rest ih =>
    rw [rebuildBody_cons, rebuildBody_cons, h s List.mem_cons_self,
      ih fun t ht => h t (List.mem_cons_of_mem _ ht)]

/-- Passes after each other make one pass, if they do so on every act. -/
theorem rebuildBody_rebuildBody
    (h : ∀ loc act, rebuildBody f₂ (f₁ loc act) = f₃ loc (act.mapBodies (rebuildBody f₂)))
    (body : List Statement) : rebuildBody f₂ (rebuildBody f₁ body) = rebuildBody f₃ body := by
  have hbody : ∀ body : List Statement,
      (∀ s ∈ body, rebuildBody f₂ (s.rebuild f₁) = s.rebuild f₃) →
      rebuildBody f₂ (rebuildBody f₁ body) = rebuildBody f₃ body := by
    intro body hs
    induction body with
    | nil => rfl
    | cons s rest ih =>
      rw [rebuildBody_cons, rebuildBody_append, hs s List.mem_cons_self,
        ih fun t ht => hs t (List.mem_cons_of_mem _ ht), ← rebuildBody_cons]
  have hstatement : ∀ s : Statement, rebuildBody f₂ (s.rebuild f₁) = s.rebuild f₃ := by
    refine statement_induct fun loc act ih => ?_
    rw [rebuild_mk, rebuild_mk, h, mapBodies_mapBodies]
    exact congrArg (f₃ loc) (mapBodies_congr fun b hb => hbody b (ih b hb))
  exact hbody body fun s _ => hstatement s

end Traversal

/-! ## Properties of all acts -/

section All

variable {P Q : Act Statement → Prop} {f₁ f₂ : Location → Act Statement → List Statement}

lemma all_mk_iff {loc : Location} {act : Act Statement} :
    (Statement.mk loc act).All P ↔ P act ∧ ∀ body ∈ act.bodies, ∀ s ∈ body, s.All P := by
  constructor
  · rintro ⟨here, inside⟩
    exact ⟨here, inside⟩
  · rintro ⟨here, inside⟩
    exact .mk here inside

/-- A property that does not look at bodies is checked by looking for offences. -/
lemma offences_eq_nil_iff [DecidablePred P] (hP : ∀ act f, P (act.mapBodies f) ↔ P act)
    (s : Statement) : s.offences P = [] ↔ s.All P := by
  have hbody : ∀ body : List Statement, (∀ t ∈ body, t.offences P = [] ↔ t.All P) →
      (rebuildBody (fun loc act => if P act then act.bodies.flatten else [.mk loc act]) body = [] ↔
        ∀ t ∈ body, t.All P) := by
    intro body h
    induction body with
    | nil => simp
    | cons t body ih =>
      rw [rebuildBody_cons, List.append_eq_nil_iff, List.forall_mem_cons,
        ih fun u hu => h u (List.mem_cons_of_mem _ hu)]
      exact and_congr_left fun _ => h t List.mem_cons_self
  refine statement_induct (P := fun s => s.offences P = [] ↔ s.All P) (fun loc act ih => ?_) s
  rw [Statement.offences, rebuild_mk, all_mk_iff]
  by_cases hact : P act
  · rw [if_pos ((hP act _).2 hact), bodies_mapBodies, List.flatten_eq_nil_iff]
    simp only [hact, true_and, List.forall_mem_map]
    exact forall₂_congr fun body hmem => hbody body (ih body hmem)
  · rw [if_neg ((hP act _).not.2 hact)]
    simp [hact]

lemma here_of_all {s : Statement} (h : s.All P) : P s.act := by
  cases h with
  | mk here inside => exact here

lemma inside_of_all {s : Statement} (h : s.All P) :
    ∀ body ∈ s.act.bodies, ∀ t ∈ body, t.All P := by
  cases h with
  | mk here inside => exact inside

lemma all_and {s : Statement} (hP : s.All P) (hQ : s.All Q) : s.All fun act => P act ∧ Q act := by
  induction hP with
  | mk here _ ih =>
    cases hQ with
    | mk here' inside => exact .mk ⟨here, here'⟩ fun body hb t ht => ih body hb t ht (inside body hb t ht)

lemma all_mono (h : ∀ act, P act → Q act) {s : Statement} (hs : s.All P) : s.All Q := by
  induction hs with
  | mk here _ ih => exact .mk (h _ here) ih

/-- Passes agree on a statement if they agree on its acts, whatever has become of the bodies. -/
theorem rebuild_congr (h : ∀ loc act g, P act → f₁ loc (act.mapBodies g) = f₂ loc (act.mapBodies g))
    {s : Statement} (hs : s.All P) : s.rebuild f₁ = s.rebuild f₂ := by
  induction hs with
  | @mk loc act here _ ih =>
    rw [rebuild_mk, rebuild_mk, h loc act _ here]
    exact congrArg (f₂ loc) (mapBodies_congr fun body hbody => rebuildBody_congr (ih body hbody))

end All

end Novella.Proofs
