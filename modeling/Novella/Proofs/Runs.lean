import Novella.Canvas.Arrangement
import Novella.Proofs.Canvas.Document
import Novella.Proofs.Flow.Reachable
import Novella.Proofs.Graph.Runs

/-!
# Runs of operations on flow graphs and canvases

The operations of flow graphs and of canvases are lawful, and they keep the tables of scenes and
characters in order. So every run from an empty graph keeps its store in order, as every run of
operations on a port graph does (`stores_upheld`). Where no edit overwrites an id, the nodes have their
own ids at the end of the run, too.
-/

namespace Novella.Flow.FlowGraph

/-- An operation on a flow graph. -/
inductive Operation where
  | rename (name : String)
  | create (kind : NodeKind)
  | insert (node : Node)
  | remove (id : Nat)
  | edit (id : Nat) (f : Node → Node)
  | connect (source target : Port) (label : String)
  | disconnect (source target : Port)
  | addScene (scene : String) (id : Nat)
  | addCharacter (c : Character)

def Operation.perform (g : FlowGraph) : Operation → Option FlowGraph
  | rename name => some { g with name }
  | create kind => some (g.create kind).2
  | insert node => g.insert? node
  | remove id => some (g.remove id)
  | edit id f => some (g.modify id f)
  | connect source target label => (g.connect source target label).toOption
  | disconnect source target => some (g.disconnect source target)
  | addScene scene id => (g.addScene scene id).toOption
  | addCharacter c => some (g.addCharacter c)

def Operation.issued (g : FlowGraph) : Operation → Option Nat
  | create kind => some (g.create kind).1
  | _ => none

/-- The operation overwrites no id of a node. -/
def Operation.KeepsIds : Operation → Prop
  | edit _ f => ∀ n, (f n).id = n.id
  | _ => True

end Novella.Flow.FlowGraph

namespace Novella.Canvas.CanvasGraph

open Novella.Flow (Character)

/-- An operation on a canvas. -/
inductive Operation where
  | rename (name : String)
  | add (tag : String) (x y : Binary64)
  | insert (node : Node)
  | remove (id : Nat)
  | edit (id : Nat) (f : Node → Node)
  | moveTo (id : Nat) (x y : Binary64)
  | setProperty (id : Nat) (name text : String)
  | arrange (p : Placement)
  | connect (source target : Port) (label : String)
  | disconnect (source target : Port)
  | addScene (scene : String) (id : Nat)
  | addCharacter (c : Character)

def Operation.perform (g : CanvasGraph) : Operation → Option CanvasGraph
  | rename name => some { g with name }
  | add tag x y => some (g.add tag x y).2
  | insert node => g.insert? node
  | remove id => some (g.remove id)
  | edit id f => (g.modify id f).toOption
  | moveTo id x y => (g.moveTo id x y).toOption
  | setProperty id name text => (g.setProperty id name text).toOption
  | arrange p => some (g.arrange p)
  | connect source target label => (g.connect source target label).toOption
  | disconnect source target => some (g.disconnect source target)
  | addScene scene id => (g.addScene scene id).toOption
  | addCharacter c => some (g.addCharacter c)

def Operation.issued (g : CanvasGraph) : Operation → Option Nat
  | add tag x y => some (g.add tag x y).1
  | _ => none

/-- The operation overwrites no id of a node. -/
def Operation.KeepsIds : Operation → Prop
  | edit _ f => ∀ n, (f n).id = n.id
  | _ => True

end Novella.Canvas.CanvasGraph

namespace Novella.Proofs

open Novella.Flow Canvas

/-! ## Flow graphs -/

section Flow

def flowEditor : Editor FlowGraph FlowGraph.Operation Flow.Node String where
  graph := FlowGraph.graph
  perform := FlowGraph.Operation.perform
  issued := FlowGraph.Operation.issued
  removal := .remove
  disconnection := .disconnect

/-- Removing a node that is not there does nothing, as for port graphs. -/
lemma graph_remove (g : FlowGraph) (id : Nat) (h : Wired g.graph) :
    (g.remove id).graph = g.graph.remove id := by
  rw [FlowGraph.remove]
  split
  · rfl
  · next hid => exact (remove_of_not_contains h (Bool.eq_false_iff.2 hid)).symm

lemma lawful_flow : flowEditor.Lawful where
  evolves g op g' h := by
    cases op with
    | rename name => exact Option.some.inj h ▸ Evolves.refl g.graph
    | create kind => exact Option.some.inj h ▸ evolves_add g.graph fun id => { id, kind }
    | insert node =>
      obtain ⟨graph, hgraph, rfl⟩ := flow_insert?_eq_some.1 h
      exact evolves_insert? hgraph
    | remove id =>
      obtain rfl := Option.some.inj h
      change Evolves g.graph (g.remove id).graph
      rw [FlowGraph.remove]
      split
      · exact evolves_remove g.graph id
      · exact Evolves.refl g.graph
    | edit id f => exact Option.some.inj h ▸ evolves_modify g.graph id f
    | connect source target label =>
      obtain ⟨graph, hgraph, rfl⟩ := flow_connect_eq_ok.1 (eq_ok_of_toOption h)
      exact evolves_connect hgraph
    | disconnect source target => exact Option.some.inj h ▸ evolves_disconnect g.graph source target
    | addScene scene id =>
      obtain ⟨-, rfl⟩ := flow_addScene_eq_ok.1 (eq_ok_of_toOption h)
      exact Evolves.refl g.graph
    | addCharacter c => exact Option.some.inj h ▸ Evolves.refl g.graph
  issued g op id h := by
    cases op with
    | create kind =>
      obtain rfl := Option.some.inj h
      exact ⟨rfl, (contains_add g.graph (fun id => { id, kind }) _).2 (.inl rfl)⟩
    | _ => cases h
  disconnection _ _ _ := rfl
  removal := graph_remove

/-- The operations of flow graphs lead from graphs within reach to such graphs. -/
lemma reachable_run (name : String) (ops : List FlowGraph.Operation) :
    (flowEditor.run { name } ops).Reachable := by
  refine run_induct (P := FlowGraph.Reachable) (fun g op _ g' h hg => ?_) (.empty name)
  cases op with
  | rename name => exact Option.some.inj h ▸ .renamed name hg
  | create kind => exact Option.some.inj h ▸ .created kind hg
  | insert node => exact .inserted hg h
  | remove id => exact Option.some.inj h ▸ .removed id hg
  | edit id f => exact Option.some.inj h ▸ .edited id f hg
  | connect source target label => exact .connected hg (eq_ok_of_toOption h)
  | disconnect source target => exact Option.some.inj h ▸ .disconnected source target hg
  | addScene scene id => exact .sceneAdded hg (eq_ok_of_toOption h)
  | addCharacter c => exact Option.some.inj h ▸ .characterAdded c hg

lemma ownIds_run (name : String) {ops : List FlowGraph.Operation} (hkeeps : ∀ op ∈ ops, op.KeepsIds) :
    (flowEditor.run { name } ops).OwnIds := by
  refine run_induct (P := FlowGraph.OwnIds) (fun g op hop g' h hg => ?_)
    (ownIds_empty Flow.Node.id)
  cases op with
  | rename name => exact Option.some.inj h ▸ hg
  | create kind => exact Option.some.inj h ▸ ownIds_create hg kind
  | insert node => exact ownIds_insert? hg h
  | remove id => exact Option.some.inj h ▸ ownIds_remove hg id
  | edit id f => exact Option.some.inj h ▸ OwnIds.modify hg id (hkeeps _ hop)
  | connect source target label => exact ownIds_connect hg (eq_ok_of_toOption h)
  | disconnect source target => exact Option.some.inj h ▸ hg
  | addScene scene id => exact ownIds_addScene hg (eq_ok_of_toOption h)
  | addCharacter c => exact Option.some.inj h ▸ hg

end Flow

/-! ## Canvases -/

section Canvas

variable {g g' : CanvasGraph}

def canvasEditor : Editor CanvasGraph CanvasGraph.Operation Canvas.Node String where
  graph := CanvasGraph.graph
  perform := CanvasGraph.Operation.perform
  issued := CanvasGraph.Operation.issued
  removal := .remove
  disconnection := .disconnect

/-- What an operation does to the graph of a canvas and to its tables. It keeps own ids where it
overwrites none of them. -/
structure KeptCanvas (keepsIds : Prop) (g g' : CanvasGraph) : Prop where
  evolves : Evolves g.graph g'.graph
  housed : g.Housed → g'.Housed
  own : keepsIds → g.OwnIds → g'.OwnIds

lemma kept_refl (keepsIds : Prop) (g : CanvasGraph) : KeptCanvas keepsIds g g :=
  ⟨Evolves.refl g.graph, id, fun _ => id⟩

lemma kept_modify {id : Nat} {f : Canvas.Node → Canvas.Node} (h : g.modify id f = .ok g') :
    KeptCanvas (∀ n, (f n).id = n.id) g g' := by
  rw [CanvasGraph.modify] at h
  split at h
  · obtain rfl := Except.ok.inj h
    exact ⟨evolves_modify g.graph id f, fun hg => Housed.modify hg id f,
      fun hid hg => OwnIds.modify hg id hid⟩
  · cases h

lemma KeptCanvas.of_keeps {keepsIds keepsIds' : Prop} (h : KeptCanvas keepsIds g g') (hid : keepsIds) :
    KeptCanvas keepsIds' g g' :=
  ⟨h.evolves, h.housed, fun _ => h.own hid⟩

lemma kept_arrange (keepsIds : Prop) (p : Placement) (g : CanvasGraph) :
    KeptCanvas keepsIds g (g.arrange p) := by
  obtain ⟨f, harrange, hf⟩ : ∃ f : Nat → Canvas.Node → Canvas.Node,
      g.arrange p = { g with graph := g.graph.mapNodes f } ∧ ∀ id n, (f id n).id = n.id :=
    ⟨_, rfl, fun _ _ => rfl⟩
  rw [harrange]
  exact ⟨evolves_mapNodes g.graph f, fun hg => Housed.mapNodes hg f, fun _ hg => OwnIds.mapNodes hg hf⟩

lemma kept_perform {op : CanvasGraph.Operation} (h : op.perform g = some g') :
    KeptCanvas op.KeepsIds g g' := by
  cases op with
  | rename name => exact Option.some.inj h ▸ ⟨Evolves.refl g.graph, id, fun _ => id⟩
  | add tag x y =>
    obtain rfl := Option.some.inj h
    let build : Nat → Canvas.Node := fun id => { id, tag, title := tag, x, y }
    have hown : g.OwnIds → OwnIds Canvas.Node.id (g.graph.add build).2 := fun hg => OwnIds.add hg build rfl
    exact ⟨evolves_add g.graph build, fun hg => Housed.add hg build, fun _ => hown⟩
  | insert node =>
    obtain ⟨graph, hgraph, rfl⟩ := Option.map_eq_some_iff.1 h
    exact ⟨evolves_insert? hgraph, fun hg => Housed.insert? hg hgraph,
      fun _ hg => OwnIds.insert? hg rfl hgraph⟩
  | remove id =>
    obtain rfl := Option.some.inj h
    rw [CanvasGraph.remove]
    split
    · exact ⟨evolves_remove g.graph id, fun hg => Housed.remove hg id, fun _ hg => OwnIds.remove hg id⟩
    · exact kept_refl _ g
  | edit id f => exact kept_modify (eq_ok_of_toOption h)
  | moveTo id x y =>
    refine (kept_modify (eq_ok_of_toOption h : g.moveTo id x y = .ok g')).of_keeps fun n => ?_
    rfl
  | setProperty id name text =>
    refine (kept_modify (eq_ok_of_toOption h : g.setProperty id name text = .ok g')).of_keeps
      fun n => ?_
    rfl
  | arrange p => exact Option.some.inj h ▸ kept_arrange _ p g
  | connect source target label =>
    obtain ⟨graph, hgraph, rfl⟩ := exists_of_map (eq_ok_of_toOption h)
    exact ⟨evolves_connect hgraph, fun hg => Housed.connect hg hgraph,
      fun _ hg => OwnIds.connect hg hgraph⟩
  | disconnect source target =>
    exact Option.some.inj h ▸ ⟨evolves_disconnect g.graph source target,
      fun hg => Housed.disconnect hg source target, fun _ hg => hg⟩
  | addScene scene id =>
    have hscene := eq_ok_of_toOption h
    rw [CanvasGraph.addScene] at hscene
    split at hscene
    · next hid =>
      obtain rfl := Except.ok.inj hscene
      exact ⟨Evolves.refl g.graph, fun hg => Housed.addScene hg scene hid, fun _ hg => hg⟩
    · cases hscene
  | addCharacter c =>
    exact Option.some.inj h ▸
      ⟨Evolves.refl g.graph, fun hg => Housed.addCharacter hg c, fun _ hg => hg⟩

lemma lawful_canvas : canvasEditor.Lawful where
  evolves _ _ _ h := (kept_perform h).evolves
  issued g op id h := by
    cases op with
    | add tag x y =>
      obtain rfl := Option.some.inj h
      exact ⟨rfl, (contains_add g.graph (fun id => { id, tag, title := tag, x, y }) _).2 (.inl rfl)⟩
    | _ => cases h
  disconnection _ _ _ := rfl
  removal g id h := by
    change (g.remove id).graph = g.graph.remove id
    rw [CanvasGraph.remove]
    split
    · rfl
    · next hid => exact (remove_of_not_contains h (Bool.eq_false_iff.2 hid)).symm

lemma housed_canvas_run (name : String) (ops : List CanvasGraph.Operation) :
    (canvasEditor.run { name } ops).Housed :=
  run_induct (P := CanvasGraph.Housed) (fun _ _ _ _ h => (kept_perform h).housed) (s := { name })
    housed_empty

lemma ownIds_canvas_run (name : String) {ops : List CanvasGraph.Operation}
    (hkeeps : ∀ op ∈ ops, op.KeepsIds) : (canvasEditor.run { name } ops).OwnIds :=
  run_induct (P := CanvasGraph.OwnIds) (fun _ op hop _ h => (kept_perform h).own (hkeeps op hop))
    (s := { name }) (ownIds_empty Canvas.Node.id)

end Canvas

/-! ## All stores -/

/-- Every run of operations keeps the store in order: the edges lead from output ports to input
ports of live nodes and no two join the same ports, live ids are positive and below the counter,
the counter does not go back and a new id is greater than every id seen before, and what is refused
changes nothing. In flow graphs and canvases the scenes begin at live nodes, and no two characters
have one id. If no operation overwrites an id, the nodes have their own ids. -/
theorem stores_upheld :
    (∀ (ν ε : Type) (ops : List (PortGraph.Operation ν ε)), (graphEditor ν ε).Within {} ops →
      (graphEditor ν ε).Upheld {} ops) ∧
    (∀ (name : String) (ops : List FlowGraph.Operation), flowEditor.Within { name } ops →
      flowEditor.Upheld { name } ops ∧ (flowEditor.run { name } ops).Housed ∧
        ((∀ op ∈ ops, op.KeepsIds) → (flowEditor.run { name } ops).Sound)) ∧
    (∀ (name : String) (ops : List CanvasGraph.Operation), canvasEditor.Within { name } ops →
      canvasEditor.Upheld { name } ops ∧ (canvasEditor.run { name } ops).Housed ∧
        ((∀ op ∈ ops, op.KeepsIds) → (canvasEditor.run { name } ops).Sound)) :=
  ⟨fun ν ε _ h => upheld_of_lawful (lawful_portGraph ν ε) wired_empty counted_empty h,
    fun name ops h => ⟨upheld_of_lawful lawful_flow wired_empty counted_empty h,
      housed_of_reachable (reachable_run name ops),
      fun hkeeps => sound_of_reachable (reachable_run name ops) (ownIds_run name hkeeps)⟩,
    fun name ops h => ⟨upheld_of_lawful lawful_canvas wired_empty counted_empty h,
      housed_canvas_run name ops,
      fun hkeeps => ⟨housed_canvas_run name ops, ownIds_canvas_run name hkeeps⟩⟩⟩

/-- Ids above and below the counter, a removed end, and a counter that outlives its graph. -/
def portSteps : List (PortGraph.Operation String Nat) :=
  [.add toString, .insert 7 "seven", .connect (.output 1 "next") (.input 7 "in") 0,
    .connect (.output 1 "next") (.input 7 "in") 1, .remove 7, .insert 7 "again", .clear,
    .insert 3 "three", .add toString]

/-- A scene that loses its start, a connection that is made twice, and an edited node. -/
def flowSteps : List FlowGraph.Operation :=
  [.create .sceneStart, .insert { id := 5, kind := .sceneEnd }, .addScene "s" 1, .addScene "t" 5,
    .connect (.output 1 "next") (.input 5 "in") "", .connect (.output 1 "next") (.input 5 "in") "",
    .edit 5 (fun n => n.set "scene" (.text "t")), .remove 1, .create .dialogue,
    .addCharacter ⟨"a", "A", none⟩, .addCharacter ⟨"a", "B", none⟩, .addScene "u" 9]

def canvasSteps : List CanvasGraph.Operation :=
  [.add "SceneStart" .zero .zero, .insert { id := 5, tag := "Wait" }, .moveTo 5 200 80,
    .setProperty 5 "duration" "1", .connect (.output 1 "next") (.input 5 "in") "", .arrange {},
    .addScene "s" 5, .remove 5, .add "Dialogue" .zero .zero]

theorem stores_upheld_steps :
    (graphEditor String Nat).Within {} portSteps ∧ flowEditor.Within {} flowSteps ∧
      canvasEditor.Within {} canvasSteps ∧ (∀ op ∈ flowSteps, op.KeepsIds) ∧
      (∀ op ∈ canvasSteps, op.KeepsIds) ∧ (graphEditor String Nat).Upheld {} portSteps ∧
      (flowEditor.Upheld {} flowSteps ∧ (flowEditor.run {} flowSteps).Sound) ∧
      (canvasEditor.Upheld {} canvasSteps ∧ (canvasEditor.run {} canvasSteps).Sound) := by
  have hport : (graphEditor String Nat).Within {} portSteps := by decide +kernel
  have hflow : flowEditor.Within {} flowSteps := by decide +kernel
  have hcanvas : canvasEditor.Within {} canvasSteps := by decide +kernel
  have hflowIds : ∀ op ∈ flowSteps, op.KeepsIds := by
    simp [flowSteps, FlowGraph.Operation.KeepsIds, Flow.Node.set]
  have hcanvasIds : ∀ op ∈ canvasSteps, op.KeepsIds := by
    simp [canvasSteps, CanvasGraph.Operation.KeepsIds]
  obtain ⟨hupheld, -, hsound⟩ := stores_upheld.2.1 "" flowSteps hflow
  obtain ⟨hupheld', -, hsound'⟩ := stores_upheld.2.2 "" canvasSteps hcanvas
  exact ⟨hport, hflow, hcanvas, hflowIds, hcanvasIds, stores_upheld.1 String Nat portSteps hport,
    ⟨hupheld, hsound hflowIds⟩, ⟨hupheld', hsound' hcanvasIds⟩⟩

end Novella.Proofs
