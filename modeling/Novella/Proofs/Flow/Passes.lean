import Novella.Flow.Raising
import Novella.Proofs.Results
import Novella.Proofs.Script.Rebuild

/-!
# Reading up to a pass over statements

What a node says holds what is read of its arms, and nothing else that is read of the node looks at
it. So where the arms are read as before but for a change of their statements, what the node says is
as before but for this change of its bodies (`readNode_map`). Where every node so says what another
graph has it say, up to what a pass over statements makes of one act, whole chains are read alike up
to the pass (`readChain_map`).
-/

namespace Novella.Proofs

open Script Novella.Flow

/-! ## Nodes -/

section Nodes

variable {policy : CommentPolicy} {g : FlowGraph} {n : Node}
  {arm arm' : String → Reading (List Statement)} {f : List Statement → List Statement}

lemma readOptions_map (harm : ∀ port, arm' port = f <$> arm port) (index : Nat)
    (texts : List String) : readOptions n arm' index texts =
      List.map (fun o => { o with body := f o.body }) <$> readOptions n arm index texts := by
  induction texts generalizing index with
  | nil => simp [readOptions]
  | cons text texts ih => simp [readOptions, harm _, ih, map_bind, bind_map_left]

lemma readCases_map (harm : ∀ port, arm' port = f <$> arm port) (index : Nat)
    (texts : List String) : readCases n arm' index texts =
      List.map (fun c => { c with body := f c.body }) <$> readCases n arm index texts := by
  induction texts generalizing index with
  | nil => simp [readCases]
  | cons text texts ih => simp [readCases, harm _, ih, map_bind, bind_map_left]

lemma readOptional_map (harm : ∀ port, arm' port = f <$> arm port) (flag port : String) :
    readOptional g n arm' flag port = Option.map f <$> readOptional g n arm flag port := by
  rw [readOptional, readOptional]
  split
  · simp [harm port]
  · simp

theorem readNode_map (harm : ∀ port, arm' port = f <$> arm port) :
    readNode policy g arm' n = Option.map (Act.mapBodies f) <$> readNode policy g arm n := by
  unfold readNode
  cases n.kind with
  | comment => cases policy <;> simp [Act.mapBodies]
  | _ =>
    simp [readOptions_map harm, readCases_map harm, readOptional_map harm, harm _, map_bind,
      bind_map_left, Act.mapBodies]

end Nodes

/-! ## Chains -/

section Chains

variable {policy policy' : CommentPolicy} {g g' : FlowGraph} {φ : Node → Node}
  {pass : Location → Act Statement → List Statement}
  {image : Option (Act Statement) → Option (Act Statement)}

/-- If the flow of `g'` leads as that of `g` does, and its nodes say the images of what those of `g`
say, its chains are read as those of `g`, up to the pass that makes of an act its image. -/
theorem readChain_map (htarget : ∀ id port, g'.targetOf? id port = g.targetOf? id port)
    (hnode : ∀ id, g'.node? id = (g.node? id).map φ)
    (hid : ∀ n, (φ n).id = n.id) (hkind : ∀ n, (φ n).kind = n.kind)
    (hloc : ∀ n, (φ n).loc = n.loc)
    (hread : ∀ n arm arm', (∀ port, arm' port = rebuildBody pass <$> arm port) →
      readNode policy' g' arm' (φ n) = image <$> readNode policy g arm n)
    (himage : ∀ loc act, rebuildBody pass (act.map (Statement.mk loc)).toList =
      ((image act).map (Statement.mk loc)).toList)
    (steps : Nat) (topLevel : Bool) (id : Nat) (port : String) :
    readChain policy' g' steps topLevel id port =
      rebuildBody pass <$> readChain policy g steps topLevel id port := by
  induction steps generalizing topLevel id port with
  | zero => simp [readChain]
  | succ steps ih =>
    rw [readChain, readChain, htarget]
    cases g.targetOf? id port with
    | none =>
      cases topLevel with
      | true => rfl
      | false => simp
    | some next =>
      dsimp only
      rw [hnode]
      cases g.node? next with
      | none => rfl
      | some n =>
        dsimp only [Option.map_some]
        rw [hkind, hloc]
        by_cases hend : n.kind = .sceneEnd
        · simp [hend]
        · simp only [hend, if_false, map_bind]
          refine bind_congr fun visited => ?_
          by_cases hseen : visited.contains next = true
          · simp only [hseen, if_true, map_pure, rebuildBody_nil]
          · simp only [hseen, Bool.false_eq_true, if_false, map_bind]
            refine bind_congr fun _ => ?_
            rw [hid, hread n _ _ (ih false n.id), bind_map_left]
            refine bind_congr fun act => ?_
            cases n.kind.continuation? with
            | none => simp only [pure_bind, map_pure, rebuildBody_append, himage, rebuildBody_nil]
            | some onward => simp [ih, rebuildBody_append, himage]

end Chains

end Novella.Proofs
