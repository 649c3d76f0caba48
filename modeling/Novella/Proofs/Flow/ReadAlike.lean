import Novella.Conversion
import Novella.Proofs.Flow.Passes
import Novella.Proofs.Graph.Store
import Novella.Proofs.Script.CanonicalText

/-!
# Graphs that read alike

What raising reads of a node are its id, kind and place, some texts and truth values, and a duration.
If all nodes of a graph are replaced by nodes that read alike, with durations as their texts have
them, the script of the graph stays the same but for its durations (`raise_alike`), and its text
stays the same (`textOfFlow_alike`).
-/

namespace Novella.Script

/-- The statement with a duration that has a literal. -/
def timedAct (loc : Location) (act : Act Statement) : List Statement :=
  [.mk loc (act.mapDurations Binary64.written)]

def SceneDecl.timed (s : SceneDecl) : SceneDecl := { s with body := rebuildBody timedAct s.body }

def Program.timed (p : Program) : Program := { p with scenes := p.scenes.map SceneDecl.timed }

end Novella.Script

namespace Novella.Flow

/-- The node `n'` reads as `n` does, with durations that have a literal. -/
structure Node.Alike (n n' : Node) : Prop where
  id : n'.id = n.id
  kind : n'.kind = n.kind
  loc : n'.loc = n.loc
  text? : ∀ name, n'.text? name = n.text? name
  bool : ∀ name, n'.bool name = n.bool name
  texts : ∀ name, n'.texts name = n.texts name
  float : ∀ name, n'.float name = (n.float name).written

/-- The graph `g'` is `g` with every node replaced by what `f` makes of it. -/
structure FlowGraph.Over (f : Node → Node) (g g' : FlowGraph) : Prop where
  nodes : g'.graph.nodes = (Proofs.overNodes f g.graph).nodes
  edges : g'.graph.edges = g.graph.edges
  scenes : g'.scenes = g.scenes
  characters : g'.characters = g.characters

end Novella.Flow

namespace Novella.Proofs

open Script Novella.Flow

/-! ## The text of durations -/

lemma mapDurations_written (act : Act Statement) :
    (act.mapDurations Binary64.written).written = act.written := by
  cases act <;> simp [Act.written, Act.mapDurations, Act.mapExpressions, written_written]

/-- Durations are written as their literals have them. -/
theorem render_timed (p : Program) (w : Nat) : p.timed.render w = p.render w := by
  have hbody : ∀ body, rebuildBody writtenAct (rebuildBody timedAct body) =
      rebuildBody writtenAct body := by
    refine rebuildBody_rebuildBody fun loc act => ?_
    rw [timedAct, rebuildBody_singleton, rebuild_writtenAct, mapDurations_written, writtenAct,
      written_mapBodies]
  have hsame : p.timed.rebuilt writtenAct = p.rebuilt writtenAct := by
    simp only [Program.rebuilt, Program.timed, SceneDecl.timed, List.map_map, Function.comp_def, hbody]
  rw [← render_rebuilt_writtenAct, hsame, render_rebuilt_writtenAct]

/-! ## Reading nodes -/

section Nodes

variable {n n' : Node}

lemma text_alike (h : n.Alike n') (name : String) : n'.text name = n.text name := by
  rw [Node.text, h.text?, Node.text]

lemma nameOf_alike (h : n.Alike n') (property : String) : nameOf n' property = nameOf n property := by
  rw [nameOf, nameOf, text_alike h, h.id]

lemma nameOf?_alike (h : n.Alike n') (property : String) :
    nameOf? n' property = nameOf? n property := by
  rw [nameOf?, nameOf?, text_alike h, nameOf_alike h]

lemma expressionIn_alike (h : n.Alike n') (property text : String) :
    expressionIn n' property text = expressionIn n property text := by
  unfold expressionIn
  rw [h.id]

lemma expressionOf_alike (h : n.Alike n') (property : String) :
    expressionOf n' property = expressionOf n property := by
  rw [expressionOf, expressionOf, expressionIn_alike h, text_alike h]

lemma conditionOf_alike (h : n.Alike n') (index : Nat) :
    conditionOf n' index = conditionOf n index := by
  unfold conditionOf
  rw [h.texts]
  simp only [expressionIn_alike h]

variable {arm arm' : String → Reading (List Statement)}

/-- The arms are read alike, with durations that have literals. -/
def ArmsAlike (arm arm' : String → Reading (List Statement)) : Prop :=
  ∀ port, arm' port = rebuildBody timedAct <$> arm port

lemma readOptions_alike (h : n.Alike n') (index : Nat) (texts : List String) :
    readOptions n' arm index texts = readOptions n arm index texts := by
  induction texts generalizing index with
  | nil => rfl
  | cons text texts ih => rw [readOptions, readOptions, conditionOf_alike h, ih]

lemma readCases_alike (h : n.Alike n') (index : Nat) (texts : List String) :
    readCases n' arm index texts = readCases n arm index texts := by
  induction texts generalizing index with
  | nil => rfl
  | cons text texts ih => rw [readCases, readCases, expressionIn_alike h, ih]

variable {g g' : FlowGraph}

lemma readOptional_alike (h : n.Alike n')
    (htarget : ∀ id port, g'.targetOf? id port = g.targetOf? id port) (flag port : String) :
    readOptional g' n' arm flag port = readOptional g n arm flag port := by
  rw [readOptional, readOptional, h.bool, h.id, htarget]

/-- What a node says, with the statements of its arms and durations that have literals. -/
def timedBodies (act : Act Statement) : Act Statement :=
  (act.mapBodies (rebuildBody timedAct)).mapDurations Binary64.written

lemma readNode_alike (policy : CommentPolicy) (h : n.Alike n') (harm : ArmsAlike arm arm')
    (htarget : ∀ id port, g'.targetOf? id port = g.targetOf? id port) :
    readNode policy g' arm' n' = Option.map timedBodies <$> readNode policy g arm n := by
  have htimed : readNode policy g' arm' n' =
      Option.map (Act.mapDurations Binary64.written) <$> readNode policy g arm' n := by
    unfold readNode
    rw [h.kind]
    cases n.kind with
    | comment => cases policy <;> simp [text_alike h, Act.mapDurations]
    | _ =>
      simp [text_alike h, nameOf_alike h, nameOf?_alike h, expressionOf_alike h, h.texts, h.float,
        readOptions_alike h, readCases_alike h, readOptional_alike h htarget, map_bind,
        Act.mapDurations]
  rw [htimed, readNode_map harm, Functor.map_map]
  simp only [Option.map_map]
  rfl

end Nodes

/-! ## Reading graphs -/

section Graphs

variable {policy : CommentPolicy} {f : Node → Node} {g g' : FlowGraph}

lemma targetOf?_over (h : g.Over f g') (id : Nat) (port : String) :
    g'.targetOf? id port = g.targetOf? id port := by
  unfold FlowGraph.targetOf? PortGraph.outgoingFrom PortGraph.outgoing
  rw [h.edges]

lemma node?_over (h : g.Over f g') (id : Nat) : g'.node? id = (g.node? id).map f := by
  have hnode := node?_overNodes f g.graph id
  rw [PortGraph.node?, ← h.nodes] at hnode
  exact hnode

lemma readChain_alike (h : g.Over f g') (hf : ∀ n : Node, n.Alike (f n)) (steps : Nat) (topLevel : Bool)
    (id : Nat) (port : String) : readChain policy g' steps topLevel id port =
      rebuildBody timedAct <$> readChain policy g steps topLevel id port := by
  refine readChain_map (targetOf?_over h) (node?_over h) (fun n => (hf n).id) (fun n => (hf n).kind)
    (fun n => (hf n).loc) (fun n _ _ harm => readNode_alike policy (hf n) harm (targetOf?_over h)) ?_
    steps topLevel id port
  intro loc act
  cases act with
  | none => rfl
  | some act =>
    rw [Option.map_some, Option.toList_some, rebuildBody_singleton, rebuild_mk]
    rfl

lemma sceneName_alike (h : g.Over f g') {n n' : Node} (hn : n.Alike n') :
    sceneName g' n' = sceneName g n := by
  rw [sceneName, sceneName, h.scenes, hn.id, hn.text?]

lemma readScene_alike (h : g.Over f g') (hf : ∀ n : Node, n.Alike (f n)) (start : Nat) :
    readScene policy g' start = SceneDecl.timed <$> readScene policy g start := by
  have hsize : g'.graph.size = g.graph.size := by
    rw [PortGraph.size, h.nodes, PortGraph.size]
    exact List.length_map _
  rw [readScene, readScene, node?_over h]
  cases g.node? start with
  | none => rfl
  | some n =>
    dsimp only [Option.map_some]
    rw [sceneName_alike h (hf n), (hf n).id, (hf n).loc, hsize, readChain_alike h hf]
    split
    · rfl
    · simp only [StateT.run_map, map_bind, bind_map_left]
      rfl

lemma entries_over (h : g.Over f g') (hf : ∀ n : Node, n.Alike (f n)) : g'.entries = g.entries := by
  have hnodes : g'.nodes = g.nodes.map f := by
    rw [FlowGraph.nodes, h.nodes, values_overNodes, FlowGraph.nodes]
  have hcontains : g'.graph.contains = g.graph.contains := by
    funext id
    rw [PortGraph.contains, h.nodes]
    exact contains_overNodes f g.graph id
  rw [FlowGraph.entries, hnodes, h.scenes, hcontains, FlowGraph.entries, List.filter_map,
    List.map_map]
  simp [Function.comp_def, (hf _).kind, (hf _).id]

/-- The script of a graph whose nodes read alike is the same but for its durations. -/
theorem raise_alike (policy : CommentPolicy) (h : g.Over f g') (hf : ∀ n : Node, n.Alike (f n)) :
    raise policy g' = (raise policy g).map Program.timed := by
  rw [raise, raise, h.characters, entries_over h hf, mapM_eq_map (readScene_alike h hf)]
  cases g.characters.mapM declare with
  | error _ => rfl
  | ok characters =>
    cases g.entries.mapM (readScene policy g) with
    | error _ => rfl
    | ok scenes => rfl

/-- The text of a graph whose nodes read alike is the same. -/
theorem textOfFlow_alike (s : Settings) (h : g.Over f g') (hf : ∀ n : Node, n.Alike (f n)) :
    Conversion.textOfFlow s g' = Conversion.textOfFlow s g := by
  rw [Conversion.textOfFlow, Conversion.textOfFlow, raise_alike s.comments h hf]
  cases raise s.comments g with
  | error fault => rfl
  | ok p => exact congrArg Except.ok (render_timed p s.indentWidth)

end Graphs

end Novella.Proofs
