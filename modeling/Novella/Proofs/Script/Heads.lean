import Novella.Proofs.Script.Differences
import Novella.Proofs.Script.StatementReading
import Novella.Proofs.Text.Delimited

/-!
# What the head of a statement tells

The head of an act tells all of the act but the statements nested in it (`head_eq_iff`), if the act
is neither a comment nor a block: the word at its front tells the sort of the act, and what stands
behind the word is read in one way only. The rest of the act are its arms, and together the two tell
the act (`mapBodies_eq_of_shell`).
-/

namespace Novella.Script

variable {σ : Type}

/-- All that the text of an option says but its statements. -/
def ChoiceOption.shell (o : ChoiceOption σ) : ChoiceOption σ :=
  ⟨o.text, o.condition.map Expression.written, []⟩

/-- An option in the head of a choice. -/
def ChoiceOption.head (o : ChoiceOption σ) : String :=
  match o.condition with
  | some condition => Text.shown o.text ++ " if " ++ condition.render
  | none => Text.shown o.text

/-- All that the text of a case says but its statements. -/
def SwitchCase.shell (c : SwitchCase σ) : SwitchCase σ := ⟨c.value.written, []⟩

namespace Act

/-- The act is compared with others: it is no comment and no block. -/
def Counts : Act σ → Prop
  | .comment _ => False
  | .block _ => False
  | _ => True

/-- The word at the front of the head of an act that counts. -/
def word : Act σ → String
  | .say _ _ => "say"
  | .showBackground _ => "show"
  | .showCharacter _ _ => "show"
  | .hide _ => "hide"
  | .choice _ => "choice"
  | .branch _ _ _ => "if"
  | .switch _ _ _ => "switch"
  | .loop _ _ => "while"
  | .set _ _ => "set"
  | .goto _ => "goto"
  | .wait _ => "wait"
  | .playMusic _ => "play"
  | .playSound _ => "play"
  | .stopMusic => "stop"
  | .transition _ _ => "transition"
  | .comment _ => ""
  | .block _ => ""

/-- All that the text of an act says but the statements nested in it. -/
def shell (act : Act σ) : Act σ := (act.mapBodies fun _ => []).written

/-- The act with other bodies, taken from a list. -/
def refill (bodies : List (List σ)) : Act σ → Act σ
  | .choice options => .choice (List.zipWith (fun o body => { o with body }) options bodies)
  | .branch condition _ elseBody =>
    .branch condition (bodies.headD []) (elseBody.map fun _ => bodies.tail.headD [])
  | .switch subject cases default =>
    .switch subject (List.zipWith (fun c body => { c with body }) cases bodies)
      (default.map fun _ => (bodies.drop cases.length).headD [])
  | .loop condition _ => .loop condition (bodies.headD [])
  | .block _ => .block (bodies.headD [])
  | act => act

end Act

end Novella.Script

namespace Novella.Proofs

open Script

/-! ## Shells and arms -/

section Shells

variable {σ : Type} {f : List σ → List σ}

lemma refill_shell (act : Act σ) : act.shell.refill (act.bodies.map f) = (act.mapBodies f).written := by
  cases act with
  | choice options =>
    simp [Act.shell, Act.mapBodies, Act.written, Act.mapExpressions, Act.mapDurations, Act.bodies,
      Act.refill, List.zipWith_map, List.zipWith_self]
  | branch condition thenBody elseBody => cases elseBody <;> rfl
  | switch subject cases default =>
    have hcases : ∀ g : SwitchCase σ → List σ → SwitchCase σ, ∀ rest,
        List.zipWith g cases (cases.map (fun c => f c.body) ++ rest) =
          cases.map fun c => g c (f c.body) := by
      intro g rest
      induction cases with
      | nil => simp
      | cons c cases ih => simp [ih]
    have hbodies : ∀ g : SwitchCase σ → List σ → SwitchCase σ,
        List.zipWith g cases (cases.map fun c => f c.body) = cases.map fun c => g c (f c.body) := by
      intro g
      simpa using hcases g []
    cases default <;>
      simp [Act.shell, Act.mapBodies, Act.written, Act.mapExpressions, Act.mapDurations, Act.bodies,
        Act.refill, List.zipWith_map_left, hcases, hbodies, Function.comp_def]
  | _ => rfl

lemma bodies_written (act : Act σ) : act.written.bodies = act.bodies := by
  cases act with
  | choice options =>
    simp [Act.written, Act.mapExpressions, Act.mapDurations, Act.bodies, Function.comp_def]
  | switch subject cases default =>
    simp [Act.written, Act.mapExpressions, Act.mapDurations, Act.bodies, Function.comp_def]
  | _ => rfl

lemma length_bodies_of_shell {a b : Act σ} (h : a.shell = b.shell) :
    a.bodies.length = b.bodies.length := by
  have hbodies := congrArg (fun act => act.bodies.length) h
  simpa only [Act.shell, bodies_written, bodies_mapBodies, List.length_map] using hbodies

/-- Acts with one shell whose bodies have the same images are the same up to these. -/
lemma mapBodies_eq_of_shell {a b : Act σ} (h : a.shell = b.shell)
    (hbodies : a.bodies.map f = b.bodies.map f) :
    (a.mapBodies f).written = (b.mapBodies f).written := by
  rw [← refill_shell, ← refill_shell, h, hbodies]

lemma map_snd_numberedArms {α : Type} (label : String) (body : α → List σ) (n : Nat) (l : List α) :
    (numberedArms label body n l).map (·.2) = l.map body := by
  induction l generalizing n with
  | nil => rfl
  | cons a l ih => rw [numberedArms, List.map_cons, List.map_cons, ih]

/-- The bodies of an act that counts are all compared. -/
lemma map_snd_arms {act : Act σ} (h : act.Counts) : act.arms.map (·.2) = act.bodies := by
  cases act with
  | choice options => exact map_snd_numberedArms "option" ChoiceOption.body 1 options
  | branch condition thenBody elseBody => cases elseBody <;> rfl
  | switch subject cases default =>
    rw [Act.arms, Act.bodies, List.map_append, map_snd_numberedArms]
    cases default <;> rfl
  | block body => cases h
  | _ => rfl

end Shells

/-! ## Heads -/

section Heads

variable {σ : Type}

/-- The head of an act begins with its word. -/
lemma frontWord_head {act : Act σ} (h : act.Counts) :
    frontWord act.head.toList = act.word.toList := by
  obtain ⟨rest, hrest⟩ : ∃ rest, act.head.toList = act.word.toList ++ ' ' :: rest := by
    cases act with
    | say speaker text => cases speaker <;> exact ⟨_, by simp [Act.head, Act.simpleText, Act.word]; rfl⟩
    | showCharacter character position =>
      cases position <;> exact ⟨_, by simp [Act.head, Act.simpleText, Act.word]; rfl⟩
    | comment text => cases h
    | block body => cases h
    | stopMusic => exact ⟨"music".toList, by simp [Act.head, Act.simpleText, Act.word]⟩
    | _ => exact ⟨_, by simp [Act.head, Act.simpleText, Act.word]; rfl⟩
  have hword : act.word.toList.all isNameChar = true := by
    cases act <;> simp only [Act.word] <;> decide
  rw [hrest, frontWord_append (List.all_eq_true.1 hword) (notAhead_cons (by decide) _)]

lemma head_of_simpleText {act : Act σ} {text : String} (h : act.simpleText = some text) :
    act.head = text := by
  have hhead : act.head = act.simpleText.getD "" := by
    cases act with
    | choice options => cases h
    | branch condition thenBody elseBody => cases h
    | switch subject cases default => cases h
    | loop condition body => cases h
    | _ => rfl
  rw [hhead, h, Option.getD_some]

lemma mapBodies_of_simpleText {act : Act σ} {text : String} (h : act.simpleText = some text)
    (f : List σ → List σ) : act.mapBodies f = act := by
  cases act with
  | choice options => cases h
  | branch condition thenBody elseBody => cases h
  | switch subject cases default => cases h
  | loop condition body => cases h
  | block body => cases h
  | _ => rfl

/-- The word tells whether an act has arms. -/
lemma isSome_simpleText_iff {act : Act σ} (h : act.Counts) :
    act.simpleText.isSome = true ↔ act.word ∉ ["choice", "if", "switch", "while"] := by
  cases act with
  | say speaker text => cases speaker <;> simp [Act.simpleText, Act.word]
  | showCharacter character position => cases position <;> simp [Act.simpleText, Act.word]
  | comment text => cases h
  | block body => cases h
  | _ => simp [Act.simpleText, Act.word]

end Heads

/-! ## What stands behind the word -/

section Parts

lemma delimits_expression :
    Delimits (fun e : Expression => e.render.toList) Expression.written Expression.Named
      EndsExpression := by
  intro a b t u ha hb ht hu h
  dsimp only at h
  have hread := reads_expression ha ht
  rw [h] at hread
  have hwritten : a.written = b.written := hread.unique (reads_expression hb hu)
  have hrender : a.render = b.render := by rw [← render_written a, hwritten, render_written]
  rw [hrender] at h
  exact ⟨hwritten, List.append_cancel_left h⟩

lemma EndsItem.endsExpression {cs : List Char} (h : EndsItem cs) : EndsExpression cs := by
  cases cs with
  | nil => simp [EndsItem] at h
  | cons c cs =>
    have hc : c = ',' ∨ c = ']' := by simpa [EndsItem] using h
    rcases hc with rfl | rfl <;>
      exact ⟨notAhead_cons (by decide) cs, by
        rw [unspaced_cons (by decide)]; exact stops_cons (by decide) le_rfl cs⟩

variable {σ : Type}

lemma optionHead_toList (o : ChoiceOption σ) : o.head.toList = (Text.shown o.text).toList ++
    o.condition.elim [] fun e => " if ".toList ++ e.render.toList := by
  obtain ⟨text, condition, body⟩ := o
  cases condition <;> simp [ChoiceOption.head]

lemma delimits_option : Delimits (fun o : ChoiceOption σ => o.head.toList) ChoiceOption.shell
    (fun o => ∀ e ∈ o.condition, e.Named) EndsItem := by
  have hblank : ∀ {rest t : List Char}, EndsItem t → ' ' :: rest ≠ t := by
    rintro rest _ (h | h) rfl <;> cases h
  rintro ⟨text, condition, body⟩ ⟨text', condition', body'⟩ t u ha hb ht hu h
  simp only [optionHead_toList, List.append_assoc] at h
  obtain ⟨rfl, hguard⟩ := shown_delimited h
  cases condition with
  | none =>
    cases condition' with
    | none => exact ⟨rfl, hguard⟩
    | some e' => exact absurd hguard.symm (hblank ht)
  | some e =>
    cases condition' with
    | none => exact absurd hguard (hblank hu)
    | some e' =>
      simp only [Option.elim_some, List.append_assoc] at hguard
      obtain ⟨he, htail⟩ := delimits_expression e e' t u (ha e rfl) (hb e' rfl) ht.endsExpression
        hu.endsExpression (List.append_cancel_left hguard)
      exact ⟨by rw [ChoiceOption.shell, ChoiceOption.shell, Option.map_some, Option.map_some, he], htail⟩

lemma delimits_case : Delimits (fun c : SwitchCase σ => c.value.render.toList) SwitchCase.shell
    (fun c => c.value.Named) EndsItem := by
  intro a b t u ha hb ht hu h
  obtain ⟨hvalue, htail⟩ :=
    delimits_expression a.value b.value t u ha hb ht.endsExpression hu.endsExpression h
  exact ⟨by rw [SwitchCase.shell, SwitchCase.shell, hvalue], htail⟩

end Parts

/-! ## Heads tell shells -/

section Acts

variable {a b : Act Statement}

lemma shell_of_simpleText {text : String} (ha : a.Named) (hb : b.Named)
    (hacomment : ∀ text, a ≠ .comment text) (hbcomment : ∀ text, b ≠ .comment text)
    (h : a.simpleText = some text) (h' : b.simpleText = some text) : a.shell = b.shell := by
  have hend : FollowsStatement (unspaced []) :=
    ⟨endsExpression_nil.2, by simp [unspaced], by simp [unspaced]⟩
  have hwritten : a.written = b.written := Reads.unique (p := actWithin 0)
    (reads_simple ha hacomment h hend) (reads_simple hb hbcomment h' hend)
  rw [Act.shell, Act.shell, mapBodies_of_simpleText h, mapBodies_of_simpleText h', hwritten]

lemma endsExpression_blank (c : Char) (more : String) (hc : ∀ k < 6, c ∉ tierHeads k)
    (hspace : isSpace c = false) (cs : List Char) :
    EndsExpression ((" " ++ c.toString ++ more).toList ++ cs) := by
  have hcons : (" " ++ c.toString ++ more).toList ++ cs = ' ' :: c :: (more.toList ++ cs) := by simp
  rw [hcons]
  exact ⟨notAhead_cons (by decide) _, by
    rw [unspaced_blank, unspaced_cons hspace]; exact stops_cons hc le_rfl _⟩

lemma endsExpression_else (cs : List Char) : EndsExpression (" (else: ".toList ++ cs) :=
  endsExpression_blank '(' "else: " (by decide) (by decide) cs

lemma endsExpression_cases (cs : List Char) : EndsExpression (" [".toList ++ cs) :=
  endsExpression_blank '[' "" (by decide) (by decide) cs

/-- What a head says of a body that may be missing. -/
lemma flag_delimited {body body' : Option (List Statement)}
    (h : (if body.isSome then "true" else "false").toList ++ ")".toList =
      (if body'.isSome then "true" else "false").toList ++ ")".toList) :
    body.map (fun _ => ([] : List Statement)) = body'.map fun _ => [] := by
  cases body with
  | none =>
    cases body' with
    | none => rfl
    | some body' => exact absurd h (by simp)
  | some body =>
    cases body' with
    | none => exact absurd h (by simp)
    | some body' => rfl

lemma shell_of_choice {options options' : List (ChoiceOption Statement)}
    (ha : (Act.choice options).Named) (hb : (Act.choice options').Named)
    (h : (Act.choice options).head = (Act.choice options').head) :
    (Act.choice options).shell = (Act.choice options').shell := by
  have hhead : ∀ options : List (ChoiceOption Statement), (Act.choice options).head.toList =
      "choice [".toList ++ listed (options.map fun o => o.head.toList) := by
    intro options
    simp [Act.head, listed, String.toList_intercalate, Function.comp_def]
    rfl
  have hshell : ∀ options : List (ChoiceOption Statement),
      (Act.choice options).shell = .choice (options.map ChoiceOption.shell) := by
    intro options
    simp [Act.shell, Act.mapBodies, Act.written, Act.mapExpressions, Act.mapDurations,
      ChoiceOption.shell]
  have hnamed : ∀ {options : List (ChoiceOption Statement)}, (Act.choice options).Named →
      ∀ o ∈ options, ∀ e ∈ o.condition, e.Named := fun hnamed o ho e he =>
    hnamed.2 e (List.mem_filterMap.2 ⟨o, ho, he⟩)
  have hopen : ∀ o : ChoiceOption Statement, (∀ e ∈ o.condition, e.Named) →
      ∀ t u, o.head.toList ++ t ≠ ']' :: u := by
    intro o _ t u heq
    simp only [optionHead_toList, Text.shown, String.toList_ofList, List.cons_append] at heq
    exact absurd (List.cons.inj heq).1 (by decide)
  have hlisted := congrArg String.toList h
  rw [hhead, hhead, List.append_cancel_left_eq] at hlisted
  obtain ⟨hoptions, -⟩ := delimits_option.listed hopen options options' [] [] (hnamed ha) (hnamed hb)
    trivial trivial (congrArg (· ++ []) hlisted)
  rw [hshell, hshell, hoptions]

lemma shell_of_branch {condition condition' : Expression} {thenBody thenBody' : List Statement}
    {elseBody elseBody' : Option (List Statement)}
    (ha : (Act.branch condition thenBody elseBody).Named)
    (hb : (Act.branch condition' thenBody' elseBody').Named)
    (h : (Act.branch condition thenBody elseBody).head =
      (Act.branch condition' thenBody' elseBody').head) :
    (Act.branch condition thenBody elseBody).shell =
      (Act.branch condition' thenBody' elseBody').shell := by
  have hheads := congrArg String.toList h
  simp only [Act.head, String.toList_append, List.append_assoc] at hheads
  obtain ⟨hcondition, helse⟩ := delimits_expression condition condition' _ _
    (ha.2 _ List.mem_cons_self) (hb.2 _ List.mem_cons_self) (endsExpression_else _)
    (endsExpression_else _) (List.append_cancel_left hheads)
  have hbody := flag_delimited (List.append_cancel_left helse)
  simp only [Act.shell, Act.mapBodies, Act.written, Act.mapExpressions, Act.mapDurations, hcondition,
    hbody]

lemma shell_of_switch {subject subject' : Expression} {cases cases' : List (SwitchCase Statement)}
    {default default' : Option (List Statement)}
    (ha : (Act.switch subject cases default).Named)
    (hb : (Act.switch subject' cases' default').Named)
    (h : (Act.switch subject cases default).head = (Act.switch subject' cases' default').head) :
    (Act.switch subject cases default).shell = (Act.switch subject' cases' default').shell := by
  have hhead : ∀ (subject : Expression) (cases : List (SwitchCase Statement))
      (default : Option (List Statement)), (Act.switch subject cases default).head.toList =
        "switch ".toList ++ (subject.render.toList ++ (" [".toList ++
          (listed (cases.map fun c => c.value.render.toList) ++ (" (default: ".toList ++
            ((if default.isSome then "true" else "false").toList ++ ")".toList))))) := by
    intro subject cases default
    simp [Act.head, listed, String.toList_intercalate, Function.comp_def]
  have hshell : ∀ (subject : Expression) (cases : List (SwitchCase Statement))
      (default : Option (List Statement)), (Act.switch subject cases default).shell =
        .switch subject.written (cases.map SwitchCase.shell) (default.map fun _ => []) := by
    intro subject cases default
    simp [Act.shell, Act.mapBodies, Act.written, Act.mapExpressions, Act.mapDurations,
      SwitchCase.shell]
  have hnamed : ∀ {subject : Expression} {cases : List (SwitchCase Statement)}
      {default : Option (List Statement)}, (Act.switch subject cases default).Named →
      ∀ c ∈ cases, c.value.Named := fun hnamed c hc =>
    hnamed.2 _ (List.mem_cons_of_mem _ (List.mem_map_of_mem hc))
  have hopen : ∀ c : SwitchCase Statement, c.value.Named →
      ∀ t u, c.value.render.toList ++ t ≠ ']' :: u := by
    intro c hc t u heq
    obtain ⟨first, rest, hrender, hfirst⟩ := render_head hc
    rw [hrender] at heq
    exact absurd hfirst (by rw [(List.cons.inj heq).1]; decide)
  have hheads := congrArg String.toList h
  rw [hhead, hhead] at hheads
  obtain ⟨hsubject, hrest⟩ := delimits_expression subject subject' _ _
    (ha.2 _ List.mem_cons_self) (hb.2 _ List.mem_cons_self) (endsExpression_cases _)
    (endsExpression_cases _) (List.append_cancel_left hheads)
  obtain ⟨hcases, hdefault⟩ := delimits_case.listed hopen cases cases' _ _ (hnamed ha) (hnamed hb)
    trivial trivial (List.append_cancel_left hrest)
  rw [hshell, hshell, hsubject, hcases, flag_delimited (List.append_cancel_left hdefault)]

lemma shell_of_loop {condition condition' : Expression} {body body' : List Statement}
    (ha : (Act.loop condition body).Named) (hb : (Act.loop condition' body').Named)
    (h : (Act.loop condition body).head = (Act.loop condition' body').head) :
    (Act.loop condition body).shell = (Act.loop condition' body').shell := by
  have hheads := congrArg String.toList h
  simp only [Act.head, String.toList_append] at hheads
  obtain ⟨hcondition, -⟩ := delimits_expression condition condition' [] []
    (ha.2 _ List.mem_cons_self) (hb.2 _ List.mem_cons_self) endsExpression_nil endsExpression_nil
    (congrArg (· ++ []) (List.append_cancel_left hheads))
  simp only [Act.shell, Act.mapBodies, Act.written, Act.mapExpressions, Act.mapDurations, hcondition]

/-- The head of an act that counts tells its shell. -/
theorem head_eq_iff (ha : a.Named) (hb : b.Named) (hacounts : a.Counts) (hbcounts : b.Counts) :
    a.head = b.head ↔ a.shell = b.shell := by
  constructor
  · intro h
    have hword : a.word = b.word :=
      String.toList_inj.1 (by rw [← frontWord_head hacounts, ← frontWord_head hbcounts, h])
    cases htext : a.simpleText with
    | some text =>
      have hsimple : b.simpleText.isSome = true := by
        rw [isSome_simpleText_iff hbcounts, ← hword, ← isSome_simpleText_iff hacounts, htext]
        rfl
      obtain ⟨text', htext'⟩ := Option.isSome_iff_exists.1 hsimple
      have hsame : text' = text := by
        rw [← head_of_simpleText htext', ← head_of_simpleText htext, h]
      refine shell_of_simpleText ha hb ?_ ?_ htext (hsame ▸ htext')
      · rintro _ rfl
        exact hacounts
      · rintro _ rfl
        exact hbcounts
    | none =>
      cases a with
      | choice options =>
        cases b with
        | choice options' => exact shell_of_choice ha hb h
        | _ => simp [Act.word] at hword
      | branch condition thenBody elseBody =>
        cases b with
        | branch condition' thenBody' elseBody' => exact shell_of_branch ha hb h
        | _ => simp [Act.word] at hword
      | switch subject cases default =>
        cases b with
        | switch subject' cases' default' => exact shell_of_switch ha hb h
        | _ => simp [Act.word] at hword
      | loop condition body =>
        cases b with
        | loop condition' body' => exact shell_of_loop ha hb h
        | _ => simp [Act.word] at hword
      | block body => exact hacounts.elim
      | say speaker text => cases speaker <;> cases htext
      | showCharacter character position => cases position <;> cases htext
      | _ => cases htext
  · intro h
    have hheads := congrArg Act.head h
    simpa only [Act.shell, head_written, head_mapBodies] using hheads

end Acts

end Novella.Proofs
