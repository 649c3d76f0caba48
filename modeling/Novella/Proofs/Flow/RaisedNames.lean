import Novella.Flow.Raising
import Novella.Proofs.Results
import Novella.Proofs.Script.Naming

/-!
# Names in raised scripts

A graph may hold any text under any property, in any number of tangled connections. What is
raised from it nevertheless has names where names belong: each text that stands for a name or an
expression is checked before it goes into the script. `Returns r good` says of a reader of the
graph that whatever it returns is `good`.
-/

namespace Novella.Proofs

open Script Novella.Flow

/-! ## Readers of a graph -/

/-- Whatever the reader returns is `good`. -/
def Returns {α : Type} (r : Reading α) (good : α → Prop) : Prop :=
  ∀ visited a visited', r visited = .ok (a, visited') → good a

section Returns

variable {α β : Type} {r : Reading α} {good : α → Prop} {good' : β → Prop}

lemma returns_pure {a : α} (ha : good a) : Returns (pure a) good := by
  intro visited b visited' h
  cases h
  exact ha

lemma Returns.bind {k : α → Reading β} (hr : Returns r good) (hk : ∀ a, good a → Returns (k a) good') :
    Returns (r >>= k) good' := by
  intro visited b visited' h
  obtain ⟨s, hread, h⟩ := exists_of_bind (x := r visited) h
  exact hk s.1 (hr visited s.1 s.2 hread) s.2 b visited' h

lemma returns_any (r : Reading α) : Returns r fun _ => True := fun _ _ _ _ => trivial

lemma Returns.after {k : α → Reading β} (hk : ∀ a, Returns (k a) good') : Returns (r >>= k) good' :=
  (returns_any r).bind fun a _ => hk a

lemma Returns.map {f : α → β} (hr : Returns r good) (hf : ∀ a, good a → good' (f a)) :
    Returns (r >>= fun a => pure (f a)) good' :=
  hr.bind fun a ha => returns_pure (hf a ha)

lemma returns_throw (fault : Fault) : Returns (throw fault) good := by
  intro visited a visited' h
  cases h

lemma returns_lift {x : Except Fault α} (h : ∀ a, x = .ok a → good a) :
    Returns (liftM x : Reading α) good := by
  intro visited a visited' hread
  cases x with
  | error fault => cases hread
  | ok b =>
    cases hread
    exact h a rfl

end Returns

/-! ## Checked properties -/

section Properties

variable {n : Node} {property : String}

lemma isName_of_nameOf {name : String} (h : nameOf n property = .ok name) : isName name = true := by
  rw [nameOf] at h
  split at h
  · next hname =>
    cases h
    exact hname
  · cases h

lemma isName_of_nameOf? {name : Option String} (h : nameOf? n property = .ok name) :
    ∀ m ∈ name, isName m = true := by
  rw [nameOf?] at h
  split at h
  · cases h
    exact fun m hm => by cases hm
  · obtain ⟨m, hname, rfl⟩ := exists_of_map h
    rintro _ ⟨⟩
    exact isName_of_nameOf hname

lemma named_of_expressionIn {text : String} {e : Expression}
    (h : expressionIn n property text = .ok e) : e.Named := by
  unfold expressionIn at h
  split at h
  · next hparse =>
    cases h
    exact named_of_parseExpression hparse
  · cases h
  · cases h

lemma named_of_conditionOf {index : Nat} {condition : Option Expression}
    (h : conditionOf n index = .ok condition) : ∀ e ∈ condition, e.Named := by
  unfold conditionOf at h
  split at h
  · cases h
    exact fun e he => by cases he
  · next text _ =>
    split at h
    · cases h
      exact fun e he => by cases he
    · obtain ⟨e, he, rfl⟩ := exists_of_map h
      rintro _ ⟨⟩
      exact named_of_expressionIn he

end Properties

/-! ## Nodes and chains -/

section Chains

variable {policy : CommentPolicy} {g : FlowGraph} {n : Node}
  {arm : String → Reading (List Statement)}

lemma returns_readOptions (h : ∀ port, Returns (arm port) (EveryIn Act.Named)) (index : Nat)
    (texts : List String) : Returns (readOptions n arm index texts) fun options =>
      ∀ o ∈ options, (∀ e ∈ o.condition, e.Named) ∧ EveryIn Act.Named o.body := by
  induction texts generalizing index with
  | nil => exact returns_pure fun o ho => absurd ho List.not_mem_nil
  | cons text texts ih =>
    refine (returns_lift fun _ => named_of_conditionOf).bind fun condition hcondition => ?_
    refine (h _).bind fun body hbody => (ih (index + 1)).map fun options hoptions => ?_
    exact List.forall_mem_cons.2 ⟨⟨hcondition, hbody⟩, hoptions⟩

lemma returns_readCases (h : ∀ port, Returns (arm port) (EveryIn Act.Named)) (index : Nat)
    (texts : List String) : Returns (readCases n arm index texts) fun cases =>
      ∀ c ∈ cases, c.value.Named ∧ EveryIn Act.Named c.body := by
  induction texts generalizing index with
  | nil => exact returns_pure fun c hc => absurd hc List.not_mem_nil
  | cons text texts ih =>
    refine (returns_lift fun _ => named_of_expressionIn).bind fun value hvalue => ?_
    refine (h _).bind fun body hbody => (ih (index + 1)).map fun cases hcases => ?_
    exact List.forall_mem_cons.2 ⟨⟨hvalue, hbody⟩, hcases⟩

lemma returns_readOptional (h : ∀ port, Returns (arm port) (EveryIn Act.Named)) (flag port : String) :
    Returns (readOptional g n arm flag port) fun body => ∀ b ∈ body, EveryIn Act.Named b := by
  rw [readOptional]
  split
  · refine (h port).map fun body hbody => ?_
    rintro _ ⟨⟩
    exact hbody
  · exact returns_pure fun b hb => by cases hb

/-- What is read of a node has names where names belong, if what is read of its arms has. -/
lemma returns_readNode (h : ∀ port, Returns (arm port) (EveryIn Act.Named)) :
    Returns (readNode policy g arm n) fun act => ∀ a ∈ act, EveryAct Act.Named a := by
  have hsome : ∀ {act : Act Statement}, EveryAct Act.Named act →
      ∀ a ∈ some act, EveryAct Act.Named a := by
    rintro act hact _ ⟨⟩
    exact hact
  have hexpression : ∀ property, Returns (liftM (expressionOf n property) : Reading Expression)
      Expression.Named := fun _ => returns_lift fun _ => named_of_expressionIn
  have hname : ∀ property, Returns (liftM (nameOf n property) : Reading String)
      fun name => isName name = true := fun _ => returns_lift fun _ => isName_of_nameOf
  have hname? : ∀ property, Returns (liftM (nameOf? n property) : Reading (Option String))
      fun name => ∀ m ∈ name, isName m = true := fun _ => returns_lift fun _ => isName_of_nameOf?
  have hnamed : Modest Expression.Named (fun _ => True) Act.Named := modest_named fun _ h => h
  rw [readNode]
  cases n.kind with
  | sceneStart | sceneEnd => exact returns_pure fun a ha => by cases ha
  | comment =>
    dsimp only
    split
    · refine returns_pure (hsome (everyAct_of (P := Act.Named) ⟨?_, ?_⟩ ?_))
      all_goals exact fun _ h => absurd h List.not_mem_nil
    · exact returns_pure fun a ha => by cases ha
  | dialogue => exact (hname? _).map fun _ h => hsome (everyAct_say hnamed _ h)
  | showCharacter =>
    exact (hname _).bind fun _ hc => (hname? _).map fun _ h => hsome (everyAct_showCharacter hnamed hc h)
  | hideCharacter | goto => exact (hname _).map fun _ h => hsome (everyAct_of_name hnamed h rfl trivial rfl rfl rfl)
  | transition => exact (hname _).map fun _ h => hsome (everyAct_transition hnamed h trivial)
  | choice => exact (returns_readOptions h _ _).map fun _ ho => hsome (everyAct_choice hnamed ho)
  | branch =>
    exact (hexpression _).bind fun _ he => (h _).bind fun _ hthen =>
      (returns_readOptional h _ _).map fun _ helse => hsome (everyAct_branch hnamed he hthen helse)
  | switch =>
    exact (hexpression _).bind fun _ he => (returns_readCases h _ _).bind fun _ hcases =>
      (returns_readOptional h _ _).map fun _ hdefault => hsome (everyAct_switch hnamed he hcases hdefault)
  | loop => exact (hexpression _).bind fun _ he => (h _).map fun _ hbody => hsome (everyAct_loop hnamed he hbody)
  | setVariable =>
    exact (hname _).bind fun _ ht => (hexpression _).map fun _ he => hsome (everyAct_set hnamed ht he)
  | wait => exact returns_pure (hsome (everyAct_wait hnamed trivial))
  | playMusic | playSound | stopMusic | showBackground =>
    exact returns_pure (hsome (everyAct_of_nameless hnamed rfl trivial rfl rfl rfl))

/-- What is read of a chain has names where names belong. -/
theorem returns_readChain (steps : Nat) (top : Bool) (node : Nat) (port : String) :
    Returns (readChain policy g steps top node port) (EveryIn Act.Named) := by
  have hnil : EveryIn Act.Named [] := fun s hs => absurd hs List.not_mem_nil
  induction steps generalizing top node port with
  | zero => exact returns_pure hnil
  | succ steps ih =>
    rw [readChain]
    split
    · split
      · exact returns_throw _
      · exact returns_pure hnil
    · split
      · exact returns_throw _
      · next n _ =>
        split
        · exact returns_pure hnil
        · refine .after fun visited => ?_
          split
          · exact returns_pure hnil
          · refine .after fun _ => (returns_readNode (ih false _)).bind fun act hact => ?_
            have hjoin : ∀ rest, EveryIn Act.Named rest →
                EveryIn Act.Named ((act.map (Statement.mk n.loc)).toList ++ rest) := by
              intro rest hrest s hs
              rcases List.mem_append.1 hs with hs | hs
              · obtain ⟨a, ha, rfl⟩ := Option.map_eq_some_iff.1 (Option.mem_toList.1 hs)
                exact hact a ha n.loc
              · exact hrest s hs
            dsimp only
            split
            · exact (ih top _ _).map hjoin
            · exact returns_pure (hjoin [] hnil)

end Chains

/-! ## Scripts -/

lemma isName_of_declare {c : Character} {d : CharacterDecl} (h : declare c = .ok d) :
    isName d.id = true := by
  rw [declare] at h
  split at h
  · next hname =>
    cases h
    exact hname
  · cases h

lemma named_of_readScene {policy : CommentPolicy} {g : FlowGraph} {start : Nat} {s : SceneDecl}
    (h : readScene policy g start = .ok s) : isName s.name = true ∧ EveryIn Act.Named s.body := by
  rw [readScene] at h
  split at h
  · cases h
  · next n _ =>
    dsimp only at h
    split at h
    · cases h
    · next hname =>
      obtain ⟨⟨body, visited⟩, hread, h⟩ := exists_of_bind h
      cases h
      refine ⟨by simpa using hname, ?_⟩
      exact returns_readChain _ _ _ _ [start] body visited hread

/-- A script that was raised from a graph has names where names belong. -/
theorem named_of_raise {policy : CommentPolicy} {g : FlowGraph} {p : Program}
    (h : raise policy g = .ok p) : p.Named := by
  rw [raise] at h
  obtain ⟨characters, hcharacters, h⟩ := exists_of_bind h
  obtain ⟨scenes, hscenes, h⟩ := exists_of_bind h
  cases h
  refine ⟨fun c hc => ?_, fun s hs => ?_, fun s hs => ?_⟩
  · obtain ⟨d, -, hd⟩ := mem_of_mapM hcharacters hc
    exact isName_of_declare hd
  · obtain ⟨start, -, hstart⟩ := mem_of_mapM hscenes hs
    exact (named_of_readScene hstart).1
  · obtain ⟨start, -, hstart⟩ := mem_of_mapM hscenes hs
    exact (named_of_readScene hstart).2

end Novella.Proofs
