import Novella.Proofs.Flow.RaisedNames
import Novella.Proofs.Script.Rebuild

/-!
# What a node says for itself

Without the statements of its arms, what is read of a node comes from the node alone: it is what
would be read if all arms were empty (`returns_readNode_shell`). The statements of a script are
compared in this form, each without the bodies in it and before the statements in them (`shells`).
-/

namespace Novella.Script

/-- The statement without the bodies in it, before the statements in them. -/
def shellAct (loc : Location) (act : Act Statement) : List Statement :=
  .mk loc (act.mapBodies fun _ => []) :: act.bodies.flatten

/-- All statements of a body, the nested ones included, each without the bodies in it. -/
def shells (body : List Statement) : List Statement := rebuildBody shellAct body

end Novella.Script

namespace Novella.Flow

open Script

/-- The arms of a node on which nothing stands. -/
def emptyArm (_ : String) : Reading (List Statement) := return []

/-- The statement that a node stands for, if any, with nothing on its arms. -/
def ownStatement? (policy : CommentPolicy) (g : FlowGraph) (id : Nat) : Option Statement :=
  match g.node? id with
  | none => none
  | some n =>
    match (readNode policy g emptyArm n).run [] with
    | .ok (act, _) => act.map (Statement.mk n.loc)
    | .error _ => none

end Novella.Flow

namespace Novella.Proofs

open Script Novella.Flow

/-! ## Statements without bodies -/

lemma shells_append (a b : List Statement) : shells (a ++ b) = shells a ++ shells b :=
  rebuildBody_append a b

lemma shells_singleton (loc : Location) (act : Act Statement) :
    shells [.mk loc act] = .mk loc (act.mapBodies fun _ => []) :: act.bodies.flatMap shells := by
  rw [shells, rebuildBody_singleton, rebuild_mk, shellAct, mapBodies_mapBodies, bodies_mapBodies,
    List.flatMap_def]
  rfl

/-! ## Nodes with empty arms -/

section Nodes

variable {policy : CommentPolicy} {g : FlowGraph} {n : Node}
  {arm : String → Reading (List Statement)}

lemma returns_self {α : Type} (x : Except Fault α) :
    Returns (liftM x : Reading α) fun a => (liftM x : Reading α) = return a :=
  returns_lift fun _ h => by rw [h]; rfl

lemma returns_readOptions_shell (index : Nat) (texts : List String) :
    Returns (readOptions n arm index texts) fun options =>
      readOptions n emptyArm index texts = return options.map fun o => { o with body := [] } := by
  induction texts generalizing index with
  | nil => exact returns_pure rfl
  | cons text texts ih =>
    refine (returns_self _).bind fun condition hcondition => (returns_any _).bind fun body _ => ?_
    refine (ih (index + 1)).map fun options hoptions => ?_
    simp [readOptions, hcondition, hoptions, emptyArm]

lemma returns_readCases_shell (index : Nat) (texts : List String) :
    Returns (readCases n arm index texts) fun cases =>
      readCases n emptyArm index texts = return cases.map fun c => { c with body := [] } := by
  induction texts generalizing index with
  | nil => exact returns_pure rfl
  | cons text texts ih =>
    refine (returns_self _).bind fun value hvalue => (returns_any _).bind fun body _ => ?_
    refine (ih (index + 1)).map fun cases hcases => ?_
    simp [readCases, hvalue, hcases, emptyArm]

lemma returns_readOptional_shell (flag port : String) :
    Returns (readOptional g n arm flag port) fun body =>
      readOptional g n emptyArm flag port = return body.map fun _ => [] := by
  rw [readOptional, readOptional]
  split
  · exact (returns_any _).map fun _ _ => rfl
  · exact returns_pure rfl

/-- What is read of a node is, without its bodies, what is read of it with nothing on its arms. -/
theorem returns_readNode_shell : Returns (readNode policy g arm n) fun act =>
    readNode policy g emptyArm n = return act.map (Act.mapBodies fun _ => []) := by
  unfold readNode
  cases n.kind with
  | sceneStart | sceneEnd => exact returns_pure rfl
  | comment => exact returns_pure (by cases policy <;> rfl)
  | dialogue => exact (returns_self _).map fun _ h => by simp [h, Act.mapBodies]
  | showCharacter =>
    exact (returns_self _).bind fun _ hc => (returns_self _).map fun _ hp => by
      simp [hc, hp, Act.mapBodies]
  | hideCharacter | goto | transition =>
    exact (returns_self _).map fun _ h => by simp [h, Act.mapBodies]
  | choice =>
    exact (returns_readOptions_shell _ _).map fun _ h => by simp [h, Act.mapBodies]
  | branch =>
    exact (returns_self _).bind fun _ he => (returns_any _).bind fun _ _ =>
      (returns_readOptional_shell _ _).map fun _ h => by simp [he, h, emptyArm, Act.mapBodies]
  | switch =>
    exact (returns_self _).bind fun _ he => (returns_readCases_shell _ _).bind fun _ hcases =>
      (returns_readOptional_shell _ _).map fun _ h => by simp [he, hcases, h, Act.mapBodies]
  | loop =>
    exact (returns_self _).bind fun _ he => (returns_any _).map fun _ _ => by
      simp [he, emptyArm, Act.mapBodies]
  | setVariable =>
    exact (returns_self _).bind fun _ ht => (returns_self _).map fun _ he => by
      simp [ht, he, Act.mapBodies]
  | wait | playMusic | playSound | stopMusic | showBackground => exact returns_pure rfl

lemma ownStatement?_of_shell {id : Nat} (hn : g.node? id = some n) {act : Option (Act Statement)}
    (h : readNode policy g emptyArm n = return act) :
    ownStatement? policy g id = act.map (Statement.mk n.loc) := by
  rw [ownStatement?, hn]
  dsimp only
  rw [h]
  rfl

end Nodes

end Novella.Proofs
