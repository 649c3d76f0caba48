import Novella.Flow.Document
import Novella.Proofs.Flow.LoweredChains
import Novella.Proofs.Graph.Store

/-!
# Flow graphs within reach

A flow graph is `Reachable` if the operations on flow graphs make it, in any order, from an empty
one. Lowering a script and reading a document are such runs, and what all operations keep up holds of
every graph (`housed_of_reachable`). An edit may put any node in the place of another one, and then a
node stands under the id of another (`overwritten`). Where no edit does so, the nodes have their own
ids, and the graph is sound (`sound_of_reachable`).
-/

namespace Novella.Flow

/-- The graphs that the operations of flow graphs make. -/
inductive FlowGraph.Reachable : FlowGraph → Prop
  | empty (name : String) : Reachable { name }
  | renamed {g : FlowGraph} (name : String) (h : Reachable g) : Reachable { g with name }
  | created {g : FlowGraph} (kind : NodeKind) (h : Reachable g) : Reachable (g.create kind).2
  | inserted {g g' : FlowGraph} {n : Node} (h : Reachable g) (hg : g.insert? n = some g') : Reachable g'
  | removed {g : FlowGraph} (id : Nat) (h : Reachable g) : Reachable (g.remove id)
  | edited {g : FlowGraph} (id : Nat) (f : Node → Node) (h : Reachable g) :
      Reachable (g.modify id f)
  | connected {g g' : FlowGraph} {source target : Port} {label : String} (h : Reachable g)
      (hg : g.connect source target label = .ok g') : Reachable g'
  | disconnected {g : FlowGraph} (source target : Port) (h : Reachable g) :
      Reachable (g.disconnect source target)
  | sceneAdded {g g' : FlowGraph} {scene : String} {id : Nat} (h : Reachable g)
      (hg : g.addScene scene id = .ok g') : Reachable g'
  | characterAdded {g : FlowGraph} (c : Character) (h : Reachable g) : Reachable (g.addCharacter c)

/-- Connections and scenes have their nodes, and no two connections or characters are for the same
ports or id. -/
def FlowGraph.Housed (g : FlowGraph) : Prop := Proofs.Housed g.graph g.scenes g.characters

/-- No node stands under the id of another. -/
def FlowGraph.OwnIds (g : FlowGraph) : Prop := Proofs.OwnIds Node.id g.graph

instance (g : FlowGraph) : Decidable g.OwnIds :=
  inferInstanceAs (Decidable (Proofs.OwnIds Node.id g.graph))

/-- The graph is housed, and its nodes have their own ids. -/
def FlowGraph.Sound (g : FlowGraph) : Prop :=
  Proofs.Sound Node.id g.graph g.scenes g.characters

/-- Every property is declared for the kind of node, with the kind of its value. -/
def Declares (kind : NodeKind) (properties : List (String × PropertyValue)) : Prop :=
  ∀ v ∈ properties, kind.propertyKind? v.1 = some v.2.kind

def Node.Declared (n : Node) : Prop := Declares n.kind n.properties.entries

end Novella.Flow

namespace Novella.Proofs

open Script Novella.Flow Novella.Flow.FlowGraph

variable {g g' : FlowGraph}

/-! ## What all operations keep up -/

lemma flow_insert?_eq_some {n : Node} : g.insert? n = some g' ↔
    ∃ graph, g.graph.insert? n.id n = some graph ∧ g' = { g with graph } := by
  rw [FlowGraph.insert?, Option.map_eq_some_iff]
  exact exists_congr fun graph => and_congr_right fun _ => eq_comm

lemma flow_connect_eq_ok {source target : Port} {label : String} :
    g.connect source target label = .ok g' ↔
      ∃ graph, g.graph.connect source target label = .ok graph ∧ g' = { g with graph } := by
  rw [FlowGraph.connect]
  cases g.graph.connect source target label with
  | error fault => simp [Except.map]
  | ok graph => simp [Except.map, eq_comm]

lemma flow_addScene_eq_ok {scene : String} {id : Nat} : g.addScene scene id = .ok g' ↔
    g.graph.contains id = true ∧ g' = { g with scenes := g.scenes.insert scene id } := by
  rw [FlowGraph.addScene]
  by_cases h : g.graph.contains id = true <;> simp [h, eq_comm]

/-- What holds of every graph that the operations make, whatever its edits do. -/
theorem housed_of_reachable (h : g.Reachable) : g.Housed := by
  induction h with
  | empty name => exact housed_empty
  | renamed name _ ih => exact ih
  | @created g kind _ ih => exact Housed.add ih fun id => ({ id, kind } : Node)
  | inserted _ hg ih =>
    obtain ⟨graph, hgraph, rfl⟩ := flow_insert?_eq_some.1 hg
    exact Housed.insert? ih hgraph
  | removed id _ ih =>
    rw [FlowGraph.remove]
    split
    · exact Housed.remove ih id
    · exact ih
  | edited id f _ ih => exact Housed.modify ih id f
  | connected _ hg ih =>
    obtain ⟨graph, hgraph, rfl⟩ := flow_connect_eq_ok.1 hg
    exact Housed.connect ih hgraph
  | disconnected source target _ ih => exact Housed.disconnect ih source target
  | @sceneAdded g g' scene id _ hg ih =>
    obtain ⟨hid, rfl⟩ := flow_addScene_eq_ok.1 hg
    exact Housed.addScene ih scene hid
  | characterAdded c _ ih => exact Housed.addCharacter ih c

theorem sound_of_reachable (h : g.Reachable) (hown : g.OwnIds) : g.Sound :=
  ⟨housed_of_reachable h, hown⟩

/-! ## Own ids -/

section OwnIds

variable {n : Node} {source target : Port} {label scene : String} {id : Nat}

lemma ownIds_create (h : g.OwnIds) (kind : NodeKind) : FlowGraph.OwnIds (g.create kind).2 :=
  OwnIds.add h (fun id => ({ id, kind } : Node)) rfl

lemma ownIds_insert? (h : g.OwnIds) (hg : g.insert? n = some g') : g'.OwnIds := by
  obtain ⟨graph, hgraph, rfl⟩ := flow_insert?_eq_some.1 hg
  exact OwnIds.insert? h rfl hgraph

lemma ownIds_remove (h : g.OwnIds) (id : Nat) : FlowGraph.OwnIds (g.remove id) := by
  rw [FlowGraph.remove]
  split
  · exact OwnIds.remove h id
  · exact h

lemma ownIds_connect (h : g.OwnIds) (hg : g.connect source target label = .ok g') : g'.OwnIds := by
  obtain ⟨graph, hgraph, rfl⟩ := flow_connect_eq_ok.1 hg
  exact OwnIds.connect h hgraph

lemma ownIds_addScene (h : g.OwnIds) (hg : g.addScene scene id = .ok g') : g'.OwnIds := by
  obtain ⟨-, rfl⟩ := flow_addScene_eq_ok.1 hg
  exact h

end OwnIds

/-- Node 1, from which the flow leads to node 2, was overwritten by a node with another id. -/
def overwritten : FlowGraph where
  graph :=
    { nodes := Dict.ofList [(1, { id := 7, kind := .sceneStart }), (2, { id := 2, kind := .sceneEnd })]
      edges := [⟨.output 1 "out", .input 2 "in", ""⟩]
      nextId := 3 }

lemma reachable_overwritten : overwritten.Reachable := by
  have hcreated := Reachable.created .sceneEnd (.created .sceneStart (.empty ""))
  have hconnected := @Reachable.connected _ _ (.output 1 "out") (.input 2 "in") "" hcreated rfl
  exact .edited 1 (fun _ => { id := 7, kind := .sceneStart }) hconnected

/-! ## Reading a document -/

/-- What holds of empty graphs, and is kept up where the nodes of an entry are inserted, connected and
given scenes and characters, holds of the graph that the entry stands for. -/
lemma loaded_induct {P : FlowGraph → Prop} {entry : GraphEntry} (empty : ∀ name, P { name })
    (insert : ∀ e ∈ entry.nodes, ∀ n, e.node = .ok n → ∀ g g', g.insert? n = some g' → P g → P g')
    (connect : ∀ g source target label g', g.connect source target label = .ok g' → P g → P g')
    (addScene : ∀ g scene id g', g.addScene scene id = .ok g' → P g → P g')
    (addCharacter : ∀ g c, P g → P (g.addCharacter c)) (h : entry.graph = .ok g) : P g := by
  obtain ⟨_, -, h⟩ := exists_of_bind h
  obtain ⟨g₁, hnodes, h⟩ := exists_of_bind h
  obtain ⟨g₂, hedges, h⟩ := exists_of_bind h
  obtain ⟨g₃, hscenes, h⟩ := exists_of_bind h
  obtain rfl := Except.ok.inj h
  have h₁ : P g₁ := by
    refine foldlM_induct_mem (fun g e he g' hstep hg => ?_) hnodes (empty entry.name)
    obtain ⟨n, hn, hstep⟩ := exists_of_bind hstep
    split at hstep
    · next hinsert => exact Except.ok.inj hstep ▸ insert e he n hn g _ hinsert hg
    · cases hstep
  have h₂ : P g₂ :=
    foldlM_induct (fun g l g' hstep => connect g _ _ _ g' (eq_ok_of_mapError hstep)) hedges h₁
  have h₃ : P g₃ :=
    foldlM_induct (fun g e g' hstep => addScene g _ _ g' (eq_ok_of_mapError hstep)) hscenes h₂
  exact List.foldlRecOn _ _ h₃ fun g hg c _ => addCharacter g c hg

theorem reachable_ofJson {text : String} (h : FlowGraph.ofJson text = .ok g) : g.Reachable := by
  obtain ⟨entry, -, h⟩ := exists_of_bind h
  exact loaded_induct .empty (fun _ _ _ _ _ _ hg' hg => .inserted hg hg')
    (fun _ _ _ _ _ hg' hg => .connected hg hg') (fun _ _ _ _ hg' hg => .sceneAdded hg hg')
    (fun _ c hg => .characterAdded c hg) h

theorem ownIds_ofJson {text : String} (h : FlowGraph.ofJson text = .ok g) : g.OwnIds := by
  obtain ⟨entry, -, h⟩ := exists_of_bind h
  exact loaded_induct (fun _ => ownIds_empty Node.id) (fun _ _ _ _ _ _ hg' hg => ownIds_insert? hg hg')
    (fun _ _ _ _ _ hg' hg => ownIds_connect hg hg') (fun _ _ _ _ hg' hg => ownIds_addScene hg hg')
    (fun _ _ hg => hg) h

/-! ## Lowering a script -/

section Lowering

variable {p : Placement} {P : FlowGraph → Prop}

/-- The node of a statement has the properties that its kind declares. -/
lemma declares_nodeOf? {σ : Type} {act : Act σ} {kind : NodeKind}
    {properties : List (String × PropertyValue)} (h : nodeOf? act = some (kind, properties)) :
    Declares kind properties := by
  cases act with
  | block body => cases h
  | _ =>
    obtain ⟨rfl, rfl⟩ := Prod.mk.inj (Option.some.inj h)
    simp [Declares, NodeKind.propertyKind?, NodeKind.schema, List.lookup_cons, PropertyValue.kind]

lemma declares_scene (name : String) {kind : NodeKind} (h : kind = .sceneStart ∨ kind = .sceneEnd) :
    Declares kind [("scene", .text name)] := by
  intro v hv
  obtain rfl := List.mem_singleton.1 hv
  rcases h with rfl | rfl <;> rfl

/-- Every operation that lowering uses keeps up the property: a character is added, a node is made
with declared properties, a connection is made, a scene is entered. -/
structure KeptUp (p : Placement) (P : FlowGraph → Prop) : Prop where
  addCharacter : ∀ {g : FlowGraph} (c : Character), P g → P (g.addCharacter c)
  place : ∀ {d : Draft} {kind : NodeKind} (loc : Location) {properties : List (String × PropertyValue)},
    Declares kind properties → P d.graph → P (d.place p kind loc properties).2.graph
  connect : ∀ {g g' : FlowGraph} {source : Port} {id : Nat} {label : String}, P g →
    g.connect source (.input id "in") label = .ok g' → P g'
  addScene : ∀ {g g' : FlowGraph} {scene : String} {id : Nat}, P g →
    g.addScene scene id = .ok g' → P g'

/-- Lowering a statement keeps up the property. -/
def Keeps (p : Placement) (P : FlowGraph → Prop) (s : Statement) : Prop :=
  ∀ x c c', P c.draft.graph → lowerStatement p x s c = .ok c' → P c'.draft.graph

lemma keeps_body {body : List Statement} (hbody : ∀ s ∈ body, Keeps p P s) {x : Binary64}
    {c c' : Chain} (h : P c.draft.graph) (hc : lowerBody p x body c = .ok c') :
    P c'.draft.graph := by
  induction body generalizing c with
  | nil => exact Except.ok.inj hc ▸ h
  | cons s body ih =>
    obtain ⟨hs, hbody⟩ := List.forall_mem_cons.1 hbody
    rw [lowerBody] at hc
    obtain ⟨c₁, hc₁, hc⟩ := exists_of_bind hc
    exact ih hbody (hs x c c₁ h hc₁) hc

lemma keeps_arms {arms : List LoweredArm} (harms : ∀ a ∈ arms, ∀ s ∈ a.body, Keeps p P s)
    {owner : Nat} {d d' : Draft} (h : P d.graph) (hd : lowerEach p owner arms d = .ok d') :
    P d'.graph := by
  induction arms generalizing d with
  | nil => exact Except.ok.inj hd ▸ h
  | cons a arms ih =>
    obtain ⟨ha, harms⟩ := List.forall_mem_cons.1 harms
    rw [lowerEach] at hd
    obtain ⟨c, hc, hd⟩ := exists_of_bind hd
    exact ih harms (keeps_body ha (by exact h) hc) hd

lemma KeptUp.statement (hP : KeptUp p P) (s : Statement) : Keeps p P s := by
  revert s
  refine statement_induct fun loc act ih => ?_
  intro x c c' h hc
  cases hnode : nodeOf? act with
  | some node =>
    obtain ⟨kind, properties⟩ := node
    rw [lowerStatement_eq hnode] at hc
    obtain ⟨d, hd, hc⟩ := exists_of_bind hc
    obtain ⟨graph, hgraph, hc⟩ := exists_of_bind hc
    obtain rfl := Except.ok.inj hc
    have hplaced := hP.place (d := ⟨c.draft.graph, x, c.draft.y⟩) loc (declares_nodeOf? hnode) h
    exact hP.connect (keeps_arms (fun a ha => ih _ (body_mem_bodies ha)) hplaced hd) hgraph
  | none =>
    cases act with
    | block body =>
      rw [lowerStatement] at hc
      exact keeps_body (ih body List.mem_cons_self) h hc
    | _ => cases hnode

lemma KeptUp.scene (hP : KeptUp p P) {index : Nat} {s : SceneDecl} (h : P g)
    (hg : lowerScene p index s g = .ok g') : P g' := by
  obtain ⟨x, hx⟩ : ∃ x, x = p.startX + .ofNat index * p.sceneSpacing := ⟨_, rfl⟩
  rw [lowerScene, ← hx] at hg
  have hstart := hP.place (d := ⟨g, x, p.startY⟩) s.loc (declares_scene s.name (.inl rfl)) h
  generalize Draft.place p ⟨g, x, p.startY⟩ .sceneStart s.loc [("scene", .text s.name)] = placed
    at hg hstart
  obtain ⟨graph, hgraph, hg⟩ := exists_of_bind hg
  obtain ⟨c, hc, hg⟩ := exists_of_bind hg
  have hbody : P c.draft.graph :=
    keeps_body (fun s _ => hP.statement s) (by exact hP.addScene hstart hgraph) hc
  exact hP.connect (hP.place s.loc (declares_scene s.name (.inr rfl)) hbody) hg

/-- What lowering keeps up holds of the graph of a script if it holds of empty graphs. -/
theorem KeptUp.lower (hP : KeptUp p P) (hempty : ∀ name, P { name }) {program : Program}
    (h : lower p program = .ok g) : P g := by
  have hscenes : ∀ (scenes : List SceneDecl) (index : Nat) (g₀ : FlowGraph), P g₀ →
      lowerScenes p index scenes g₀ = .ok g → P g := by
    intro scenes
    induction scenes with
    | nil => exact fun _ _ hg₀ h => Except.ok.inj h ▸ hg₀
    | cons s scenes ih =>
      intro index g₀ hg₀ h
      rw [lowerScenes] at h
      obtain ⟨g₁, hg₁, h⟩ := exists_of_bind h
      exact ih _ g₁ (hP.scene hg₀ hg₁) h
  refine hscenes _ 0 _ ?_ h
  exact List.foldlRecOn _ _ (hempty _) fun g hg c _ => hP.addCharacter _ hg

theorem reachable_lower {program : Program} (h : lower p program = .ok g) : g.Reachable := by
  have hkept : KeptUp p FlowGraph.Reachable :=
    { addCharacter := fun c hg => .characterAdded c hg
      place := fun _ _ _ hg => .edited _ _ (.created _ hg)
      connect := fun hg hconnect => .connected hg hconnect
      addScene := fun hg hscene => .sceneAdded hg hscene }
  exact hkept.lower .empty h

theorem ownIds_lower {program : Program} (h : lower p program = .ok g) : g.OwnIds := by
  have hkept : KeptUp p FlowGraph.OwnIds :=
    { addCharacter := fun _ hg => hg
      place := fun _ _ _ hg => OwnIds.modify (ownIds_create hg _) _ fun _ => setAll_id _ _
      connect := ownIds_connect
      addScene := ownIds_addScene }
  exact hkept.lower (fun _ => ownIds_empty Node.id) h

lemma mem_setAll {n : Node} {vs : List (String × PropertyValue)} {e : String × PropertyValue}
    (he : e ∈ (n.setAll vs).properties.entries) : e ∈ vs ∨ e ∈ n.properties.entries := by
  induction vs generalizing n with
  | nil => exact .inr he
  | cons v vs ih =>
    rcases ih (n := n.set v.1 v.2) he with he | he
    · exact .inl (List.mem_cons_of_mem _ he)
    · rcases Dict.mem_insertEntry he with rfl | he
      · exact .inl List.mem_cons_self
      · exact .inr he

/-- The nodes of a lowered graph have the properties that their kinds declare. -/
theorem declared_lower {program : Program} (h : lower p program = .ok g) :
    ∀ id n, g.node? id = some n → n.Declared := by
  have hkept : KeptUp p fun g => ∀ id n, g.node? id = some n → n.Declared :=
    { addCharacter := fun _ hg => hg
      place := fun {d kind} loc {properties} hdeclares hg id n hn => by
        rw [node?_place] at hn
        split at hn
        · obtain rfl := Option.some.inj hn
          intro v hv
          rw [setAll_kind]
          rcases mem_setAll hv with hv | hv
          · exact hdeclares v hv
          · cases hv
        · exact hg id n hn
      connect := fun hg hconnect => by
        obtain ⟨graph, hgraph, rfl⟩ := flow_connect_eq_ok.1 hconnect
        obtain ⟨-, -, rfl⟩ := connect_eq_ok.1 hgraph
        exact hg
      addScene := fun hg hscene => by
        obtain ⟨-, rfl⟩ := flow_addScene_eq_ok.1 hscene
        exact hg }
  exact hkept.lower (fun name id n hn => by cases hn) h

end Lowering

end Novella.Proofs
