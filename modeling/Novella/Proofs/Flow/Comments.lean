import Novella.Proofs.Flow.Passes

/-!
# Comments left out

A graph is read with its comments or without. Its nodes are visited in the same order both ways: the
node of a comment counts as visited and leads on, whether or not it says something. So the script
without comments is the one with them, with the comments taken out of all bodies (`raise_drop`), and
there is the one exactly if there is the other. In what they are taken out of, none is left, however
deep.
-/

namespace Novella.Script

/-- The act, unless it is a comment. -/
def spoken : Act Statement → Option (Act Statement)
  | .comment _ => none
  | act => some act

/-- The statement, unless it is a comment. -/
def uncommentedAct (loc : Location) (act : Act Statement) : List Statement :=
  ((spoken act).map (Statement.mk loc)).toList

def SceneDecl.uncommented (s : SceneDecl) : SceneDecl :=
  { s with body := rebuildBody uncommentedAct s.body }

/-- The script without the comments in it, the nested ones included. -/
def Program.uncommented (p : Program) : Program :=
  { p with scenes := p.scenes.map SceneDecl.uncommented }

/-- Every act of the script, the nested ones included, is one that is spoken. -/
def Program.Uncommented (p : Program) : Prop :=
  ∀ s ∈ p.scenes, ∀ t ∈ s.body, t.All fun act => spoken act = some act

end Novella.Script

namespace Novella.Proofs

open Script Novella.Flow

/-! ## Acts -/

lemma spoken_mapBodies (act : Act Statement) (f : List Statement → List Statement) :
    spoken (act.mapBodies f) = (spoken act).map (Act.mapBodies f) := by
  cases act <;> rfl

/-- Without comments, every act that is left is one that is spoken, however deep it is nested. -/
lemma all_uncommented (body : List Statement) :
    ∀ t ∈ rebuildBody uncommentedAct body, t.All fun act => spoken act = some act := by
  have hbody : ∀ body : List Statement,
      (∀ s ∈ body, ∀ t ∈ s.rebuild uncommentedAct, t.All fun act => spoken act = some act) →
      ∀ t ∈ rebuildBody uncommentedAct body, t.All fun act => spoken act = some act := by
    intro body h
    induction body with
    | nil => exact fun t ht => absurd ht List.not_mem_nil
    | cons s body ih =>
      obtain ⟨hs, hrest⟩ := List.forall_mem_cons.1 h
      intro t ht
      rw [rebuildBody_cons, List.mem_append] at ht
      exact ht.elim (hs t) (ih hrest t)
  have hstatement : ∀ s : Statement, ∀ t ∈ s.rebuild uncommentedAct,
      t.All fun act => spoken act = some act := by
    refine statement_induct fun loc act ih t ht => ?_
    rw [rebuild_mk, uncommentedAct, spoken_mapBodies, Option.mem_toList] at ht
    obtain ⟨_, hact, rfl⟩ := Option.map_eq_some_iff.1 ht
    obtain ⟨a, ha, rfl⟩ := Option.map_eq_some_iff.1 hact
    have hself : a = act := by
      cases act <;> cases ha <;> rfl
    subst hself
    refine .mk (by rw [spoken_mapBodies, ha]; rfl) ?_
    rw [bodies_mapBodies]
    exact List.forall_mem_map.2 fun body hmem => hbody body (ih body hmem)
  exact hbody body fun s _ => hstatement s

/-! ## Reading -/

section Reading

variable {g : FlowGraph} {n : Node} {arm arm' : String → Reading (List Statement)}

/-- Without comments a node says what it says with them, unless this is a comment. -/
lemma readNode_drop (g : FlowGraph) (arm : String → Reading (List Statement)) (n : Node) :
    readNode .drop g arm n = (·.bind spoken) <$> readNode .preserve g arm n := by
  unfold readNode
  cases n.kind <;> simp [spoken, map_bind]

/-- What a node says without comments, if its arms are read without them, too. -/
lemma readNode_uncommented (harm : ∀ port, arm' port = rebuildBody uncommentedAct <$> arm port) :
    readNode .drop g arm' n =
      (fun act => (act.bind spoken).map (Act.mapBodies (rebuildBody uncommentedAct))) <$>
        readNode .preserve g arm n := by
  rw [readNode_map harm, readNode_drop, Functor.map_map]

/-- The chain of a port is read without comments as it is read with them, with the comments taken out
afterwards: from the same nodes visited, the same nodes are visited. -/
theorem readChain_drop (g : FlowGraph) (steps : Nat) (topLevel : Bool) (id : Nat) (port : String) :
    readChain .drop g steps topLevel id port =
      rebuildBody uncommentedAct <$> readChain .preserve g steps topLevel id port := by
  have hsame : ∀ id, g.node? id = (g.node? id).map fun n => n := fun _ => Option.map_id'.symm
  refine readChain_map (fun _ _ => rfl) hsame (fun _ => rfl) (fun _ => rfl) (fun _ => rfl)
    (fun n _ _ harm => readNode_uncommented harm) ?_ steps topLevel id port
  intro loc act
  cases act with
  | none => rfl
  | some act =>
    rw [Option.map_some, Option.toList_some, rebuildBody_singleton, rebuild_mk, uncommentedAct,
      spoken_mapBodies, Option.bind_some]

end Reading

lemma readScene_drop (g : FlowGraph) (start : Nat) :
    readScene .drop g start = SceneDecl.uncommented <$> readScene .preserve g start := by
  rw [readScene, readScene]
  cases g.node? start with
  | none => rfl
  | some n =>
    dsimp only
    rw [readChain_drop]
    split
    · rfl
    · simp only [StateT.run_map, map_bind, bind_map_left]
      rfl

/-- The script of a graph without comments is the one with them, with the comments taken out of all
bodies, so that none is left. Both fail alike. -/
theorem raise_drop (g : FlowGraph) :
    raise .drop g = (raise .preserve g).map Program.uncommented ∧
    ∀ p : Program, p.uncommented.Uncommented := by
  refine ⟨?_, fun p => List.forall_mem_map.2 fun s _ => all_uncommented s.body⟩
  rw [raise, raise, mapM_eq_map (readScene_drop g)]
  cases g.characters.mapM declare with
  | error _ => rfl
  | ok characters =>
    cases g.entries.mapM (readScene .preserve g) with
    | error _ => rfl
    | ok scenes => rfl

end Novella.Proofs
