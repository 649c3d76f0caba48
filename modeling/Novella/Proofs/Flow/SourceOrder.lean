import Novella.Proofs.Flow.LoweredScenes

/-!
# Nodes in the order of the source

The constructs of a script in the order in which they begin in its text (`Program.outline`) are a
scene's start, its statements, each before those that are nested in it, and its end. The nodes of a
lowered script are made for its constructs in this order (`Lowered.outline`).
-/

namespace Novella.Script

/-- A statement is followed by the statements nested in it. A nested block gives way to those. -/
def unfoldedAct (loc : Location) : Act Statement → List Statement
  | .block body => body
  | act => .mk loc act :: act.bodies.flatten

end Novella.Script

namespace Novella.Flow

open Script

/-- What a node is made for. -/
structure Construct where
  kind : NodeKind
  loc : Location
  properties : List (String × PropertyValue)

def constructOf? (s : Statement) : Option Construct :=
  (nodeOf? s.act).map fun (kind, properties) => ⟨kind, s.loc, properties⟩

/-- The constructs of a body in the order in which they begin. -/
def outlineOf (body : List Statement) : List Construct :=
  (rebuildBody unfoldedAct body).filterMap constructOf?

end Novella.Flow

namespace Novella.Script

open Novella.Flow

def SceneDecl.outline (s : SceneDecl) : List Construct :=
  ⟨.sceneStart, s.loc, [("scene", .text s.name)]⟩ ::
    (outlineOf s.body ++ [⟨.sceneEnd, s.loc, [("scene", .text s.name)]⟩])

def Program.outline (p : Program) : List Construct := p.scenes.flatMap SceneDecl.outline

end Novella.Script

namespace Novella.Proofs

open Script Novella.Flow

/-- The node with the id is made for the construct. -/
def StandsFor (g : FlowGraph) (id : Nat) (c : Construct) : Prop :=
  ∃ n, g.node? id = some n ∧ MadeFor id c.kind c.loc c.properties n

/-- The nodes with the ids from `lo` up to `hi` are made for the constructs in their order. -/
def StandFor (g : FlowGraph) (cs : List Construct) (lo hi : Nat) : Prop :=
  Consecutive (fun c lo hi => hi = lo + 1 ∧ StandsFor g lo c) cs lo hi

/-! ## Outlines -/

section Outlines

lemma nodeOf?_mapBodies (act : Act Statement) (f : List Statement → List Statement) :
    nodeOf? (act.mapBodies f) = nodeOf? act := by
  cases act with
  | choice options => simp [nodeOf?, Act.mapBodies, Function.comp_def]
  | branch condition thenBody elseBody => simp [nodeOf?, Act.mapBodies]
  | switch subject cases default => simp [nodeOf?, Act.mapBodies, Function.comp_def]
  | _ => rfl

/-- The bodies of a statement that has a node are those of its arms. -/
lemma bodies_eq_arms {act : Act Statement} {node : NodeKind × List (String × PropertyValue)}
    (h : nodeOf? act = some node) : act.bodies = act.armPorts.map (·.2) := by
  have hnumbered : ∀ {α : Type} (l : List α) (f : α → List Statement),
      (l.zipIdx.map fun x => f x.1) = l.map f := by
    intro α l f
    rw [show (fun x : α × Nat => f x.1) = f ∘ Prod.fst from rfl, ← List.map_map, List.zipIdx_map_fst]
  cases act with
  | block body => cases h
  | choice options => simp [Act.bodies, Act.armPorts, Function.comp_def, hnumbered]
  | branch condition thenBody elseBody => simp [Act.bodies, Act.armPorts, Function.comp_def]
  | switch subject cases default => simp [Act.bodies, Act.armPorts, Function.comp_def, hnumbered]
  | _ => rfl

lemma outlineOf_block (loc : Location) (body rest : List Statement) :
    outlineOf (.mk loc (.block body) :: rest) = outlineOf (body ++ rest) := by
  rw [outlineOf, rebuildBody_cons, rebuild_mk, outlineOf, rebuildBody_append]
  rfl

lemma outlineOf_node {loc : Location} {act : Act Statement} {kind : NodeKind}
    {properties : List (String × PropertyValue)} (h : nodeOf? act = some (kind, properties))
    (rest : List Statement) : outlineOf (.mk loc act :: rest) =
      ⟨kind, loc, properties⟩ :: (act.armPorts.flatMap (fun a => outlineOf a.2) ++ outlineOf rest) := by
  obtain ⟨act', hact⟩ : ∃ act', act' = act.mapBodies (rebuildBody unfoldedAct) := ⟨_, rfl⟩
  have hnode : nodeOf? act' = some (kind, properties) := hact ▸ (nodeOf?_mapBodies act _).trans h
  have hunfolded : unfoldedAct loc act' = .mk loc act' :: act'.bodies.flatten := by
    cases act' with
    | block body => cases hnode
    | _ => rfl
  have hfirst : constructOf? (.mk loc act') = some ⟨kind, loc, properties⟩ := by
    rw [constructOf?, Statement.act, hnode]
    rfl
  rw [outlineOf, rebuildBody_cons, rebuild_mk, ← hact, hunfolded, List.cons_append,
    List.filterMap_cons_some hfirst, List.filterMap_append, hact, bodies_mapBodies, bodies_eq_arms h,
    List.map_map, List.filterMap_flatten, List.map_map, List.flatMap_def]
  rfl

end Outlines

/-! ## Nodes of a graph -/

section Graphs

variable {g : FlowGraph}

/-- Where the flow leads along statements, the nodes stand for the constructs of the statements. -/
lemma leads_outline {top : Bool} {q : Port} {stmts : List Statement} {lo hi : Nat}
    (h : Leads g top q stmts lo hi) : StandFor g (outlineOf stmts) lo hi := by
  refine leads_induct (P := fun _ _ stmts lo hi => StandFor g (outlineOf stmts) lo hi) ?_ ?_ ?_ h
  · exact fun _ _ _ _ => rfl
  · intro top q loc body rest lo hi ih
    rwa [outlineOf_block]
  · intro top q loc act kind properties rest id mid hi n stands _ found made _ arms next
    rw [outlineOf_node stands]
    refine ⟨id + 1, ⟨rfl, n, found, made⟩, (consecutive_append _ _ _ _).2 ⟨mid, ?_, next⟩⟩
    exact (consecutive_flatMap _ _ _ _).2 arms

lemma SceneAt.outline {s : SceneDecl} {lo hi : Nat} (h : SceneAt g s lo hi) :
    StandFor g s.outline lo hi := by
  obtain ⟨stop, n, rfl, hn, hmade, hleads⟩ := h.body
  refine ⟨lo + 1, ⟨rfl, h.first⟩, (consecutive_append _ _ _ _).2 ⟨stop, leads_outline hleads, ?_⟩⟩
  exact ⟨stop + 1, ⟨rfl, n, hn, hmade⟩, rfl⟩

lemma ScenesAt.scenes {starts : List Nat} {scenes : List SceneDecl} {lo hi : Nat}
    (h : ScenesAt g starts scenes lo hi) (hlength : starts.length = scenes.length) :
    Consecutive (SceneAt g) scenes lo hi := by
  have hscenes : (starts.zip scenes).map (·.2) = scenes := List.map_snd_zip hlength.ge
  rw [← hscenes, consecutive_map]
  exact consecutive_mono (fun _ _ _ hx => hx.2) h

/-- The nodes of a lowered script stand for its constructs. -/
theorem Lowered.outline {program : Program} {starts : List Nat} (h : Lowered program starts g) :
    List.Forall₂ (StandsFor g) (List.range' 1 g.graph.size) program.outline := by
  have hall : StandFor g program.outline 1 g.graph.nextId :=
    (consecutive_flatMap _ _ _ _).2
      (consecutive_mono (fun _ _ _ hs => hs.outline) (h.found.scenes h.length))
  obtain ⟨hnext, hstand⟩ := forall₂_of_consecutive hall
  have hsize : g.graph.size = program.outline.length := by
    have := h.tidy.size
    omega
  rwa [hsize]

end Graphs

end Novella.Proofs
