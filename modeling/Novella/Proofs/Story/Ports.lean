import Novella.Proofs.Graph.Runs
import Novella.Story.Document
import Novella.Story.Validation

/-!
# Connections and the ports of story nodes

A connection of a story is `Plugged`: it joins an output that its source declares to an input that
its target declares, and both are of one kind. Ports come and go with edits and documents, and
connections are kept elsewhere, but every operation keeps all connections plugged, and the start
where it is declared is a node of the graph (`Disciplined`). So validation never finds a connection
or an id at fault (`ports_upheld`).
-/

namespace Novella.Story

/-- An operation on a story. Loading replaces the story by that of a document. -/
inductive StoryGraph.Operation where
  | create (kind : NodeKind) (x y : Binary64)
  | load (text : String)
  | remove (id : Nat)
  | setStart (id : Nat)
  | addOutput (id : Nat) (port : PortDecl)
  | removeOutput (id : Nat) (name : String)
  | addOption (id : Nat) (text : String)
  | connect (source target : Port)
  | disconnect (source target : Port)
  | select (source target : Port) (selected : Bool)

namespace StoryGraph

def Operation.perform (g : StoryGraph) : Operation → Option StoryGraph
  | create kind x y => some (g.create kind x y).2
  | load text => (ofJson text).toOption
  | remove id => some (g.remove id)
  | setStart id => (g.setStart id).toOption
  | addOutput id port => ((g.addOutput id port).map (·.2)).toOption
  | removeOutput id name => ((g.removeOutput id name).map (·.2)).toOption
  | addOption id text => ((g.addOption id text).map (·.2)).toOption
  | connect source target => (g.connect source target).toOption
  | disconnect source target => some (g.disconnect source target)
  | select source target selected => some (g.select source target selected)

def Operation.issued (g : StoryGraph) : Operation → Option Nat
  | create kind x y => some (g.create kind x y).1
  | _ => none

/-- The source declares the output and the target the input, and they are of one kind. -/
def Plugged (g : StoryGraph) (source target : Port) : Prop :=
  ∃ fromNode toNode output input, g.node? source.node = some fromNode ∧
    g.node? target.node = some toNode ∧ fromNode.output? source.name = some output ∧
    toNode.input? target.name = some input ∧ output.kind = input.kind

end StoryGraph

end Novella.Story

namespace Novella.Proofs

open Story Story.StoryGraph

/-! ## Connections -/

section Plugs

variable {g g' : StoryGraph} {source target : Port}

/-- A connection stays plugged if its two nodes still declare its ports. -/
lemma plugged_of_nodes (h : g.Plugged source target)
    (hsource : ∀ n, g.node? source.node = some n → ∃ n', g'.node? source.node = some n' ∧
      ∀ p, n.output? source.name = some p → n'.output? source.name = some p)
    (htarget : ∀ n, g.node? target.node = some n → ∃ n', g'.node? target.node = some n' ∧
      ∀ p, n.input? target.name = some p → n'.input? target.name = some p) :
    g'.Plugged source target := by
  obtain ⟨fromNode, toNode, output, input, hfrom, hto, houtput, hinput, hkinds⟩ := h
  obtain ⟨fromNode', hfrom', houtputs⟩ := hsource fromNode hfrom
  obtain ⟨toNode', hto', hinputs⟩ := htarget toNode hto
  exact ⟨fromNode', toNode', output, input, hfrom', hto', houtputs output houtput,
    hinputs input hinput, hkinds⟩

lemma checkPorts_eq_ok {fromNode toNode : Story.Node}
    (h : checkPorts fromNode toNode source target = .ok ()) : ∃ output input,
      fromNode.output? source.name = some output ∧ toNode.input? target.name = some input ∧
        output.kind = input.kind := by
  rw [checkPorts] at h
  split at h
  · cases h
  · cases h
  · next output input houtput hinput =>
    split at h
    · next hkinds => exact ⟨output, input, houtput, hinput, hkinds⟩
    · cases h

/-- What is connected is plugged. -/
lemma story_connect_eq_ok (h : g.connect source target = .ok g') :
    ∃ graph, g.graph.connect source target false = .ok graph ∧ g' = { g with graph } ∧
      g.Plugged source target := by
  have hconnected : (do return { g with graph := ← g.graph.connect source target false }) = Except.ok g' →
      ∃ graph, g.graph.connect source target false = .ok graph ∧ g' = { g with graph } := by
    intro h
    obtain ⟨graph, hgraph, h⟩ := exists_of_bind h
    exact ⟨graph, hgraph, (Except.ok.inj h).symm⟩
  rw [StoryGraph.connect] at h
  split at h
  · split at h
    · next fromNode toNode hfrom hto =>
      obtain ⟨_, hcheck, h⟩ := exists_of_bind h
      obtain ⟨graph, hgraph, hg'⟩ := hconnected h
      obtain ⟨output, input, hports⟩ := checkPorts_eq_ok hcheck
      exact ⟨graph, hgraph, hg', fromNode, toNode, output, input, hfrom, hto, hports⟩
    · next hmissing =>
      obtain ⟨graph, hgraph, -⟩ := hconnected h
      have hjoined := (connect_eq_ok.1 hgraph).1
      obtain ⟨fromNode, hfrom⟩ := (contains_iff_node? _).1 hjoined.source
      obtain ⟨toNode, hto⟩ := (contains_iff_node? _).1 hjoined.target
      exact (hmissing fromNode toNode hfrom hto).elim
  · next hdirections =>
    obtain ⟨graph, hgraph, -⟩ := hconnected h
    have hjoined := (connect_eq_ok.1 hgraph).1
    have houtput : source.isOutput = true := hjoined.output
    have hinput : target.isOutput = false := hjoined.input
    exact absurd (by rw [houtput, hinput]; rfl) hdirections

end Plugs

/-! ## Removing connections -/

section Removing

variable {ν ε : Type} {g : PortGraph ν ε}

/-- Removes the given connections. -/
def disconnectAll (edges : List (Edge ε)) (g : PortGraph ν ε) : PortGraph ν ε :=
  edges.foldl (fun g e => g.disconnect e.source e.target) g

lemma edges_disconnectAll (h : Wired g) (edges : List (Edge ε)) :
    (disconnectAll edges g).edges = g.edges.filter fun e => portsOf e ∉ edges.map portsOf := by
  induction edges generalizing g with
  | nil => exact (List.filter_eq_self.2 fun _ _ => by simp).symm
  | cons e edges ih =>
    rw [disconnectAll, List.foldl_cons, ← disconnectAll, ih (h.disconnect _ _), edges_disconnect h,
      List.filter_filter]
    refine List.filter_congr fun e' _ => ?_
    rw [← Bool.decide_and, decide_eq_decide, List.map_cons, List.mem_cons, not_or, and_comm]
    rfl

/-- The graph without the connections that leave an output port is the rest of it. -/
lemma edges_disconnectAll_outgoingFrom (h : Wired g) (id : Nat) (port : String) :
    (disconnectAll (g.outgoingFrom id port) g).edges =
      g.edges.filter fun e => e.source ≠ .output id port := by
  rw [edges_disconnectAll h]
  refine List.filter_congr fun e he => decide_eq_decide.2 (not_congr ?_)
  constructor
  · intro hmem
    obtain ⟨e', he', heq⟩ := List.mem_map.1 hmem
    obtain ⟨hmem', hnode, hname⟩ := mem_outgoingFrom.1 he'
    rw [← (Prod.mk.inj heq).1, Port.output, ← hnode, ← hname, ← (h.joined e' hmem').output]
  · intro hsource
    exact List.mem_map_of_mem (mem_outgoingFrom.2 ⟨he, by rw [hsource]; rfl, by rw [hsource]; rfl⟩)

end Removing

/-! ## What is done to outputs -/

section Outputs

variable {g g' : StoryGraph} {id : Nat} {name : String}

lemma addOutput_eq_ok {port : PortDecl} {added : Bool}
    (h : g.addOutput id port = .ok (added, g')) : g' = g ∨
      g' = g.modify id fun n => { n with outputs := n.outputs ++ [port] } := by
  rw [StoryGraph.addOutput] at h
  split at h
  · cases h
  · split at h
    · exact .inl (Prod.mk.inj (Except.ok.inj h)).2.symm
    · exact .inr (Prod.mk.inj (Except.ok.inj h)).2.symm

lemma addOption_eq_ok {text : String} (h : g.addOption id text = .ok (name, g')) :
    ∃ port added, g.addOutput id port = .ok (added, g') := by
  rw [StoryGraph.addOption] at h
  split at h
  · cases h
  · split at h
    · cases h
    · obtain ⟨⟨added, g₁⟩, hadded, h⟩ := exists_of_bind h
      cases added with
      | true =>
        obtain ⟨-, rfl⟩ := Prod.mk.inj (Except.ok.inj h)
        exact ⟨_, true, hadded⟩
      | false => cases h

/-- Nothing is removed only where there is no output of the name. -/
lemma removeOutput_eq_ok {removed : Bool} (h : g.removeOutput id name = .ok (removed, g')) :
    (g' = g ∧ ∀ n, g.node? id = some n → n.output? name = none) ∨
      g' = { g with graph := disconnectAll (g.graph.outgoingFrom id name) g.graph }.modify id
        fun n => { n with outputs := n.outputs.filter (·.name ≠ name) } := by
  rw [StoryGraph.removeOutput] at h
  split at h
  · cases h
  next n hn =>
  split at h
  · next hnone =>
    obtain ⟨-, rfl⟩ := Prod.mk.inj (Except.ok.inj h)
    refine .inl ⟨rfl, fun n' hn' => ?_⟩
    obtain rfl := Option.some.inj (hn.symm.trans hn')
    exact Option.isNone_iff_eq_none.1 hnone
  · exact .inr (Prod.mk.inj (Except.ok.inj h)).2.symm

end Outputs

/-! ## What all operations keep up -/

structure Disciplined (g : StoryGraph) : Prop where
  wired : Wired g.graph
  own : OwnIds Story.Node.id g.graph
  counted : Counted g.graph
  plugged : ∀ e ∈ g.graph.edges, g.Plugged e.source e.target
  start : ∀ id, g.start? = some id → g.graph.contains id = true

section Operations

variable {g g' : StoryGraph}

lemma disciplined_empty (name : String) : Disciplined { name } :=
  ⟨wired_empty, ownIds_empty _, counted_empty, nofun, nofun⟩

/-- Everything that `n` declares is found with `n'`, too. -/
structure Extends (n n' : Story.Node) : Prop where
  output : ∀ name p, n.output? name = some p → n'.output? name = some p
  input : ∀ name p, n.input? name = some p → n'.input? name = some p

lemma Extends.refl (n : Story.Node) : Extends n n := ⟨fun _ _ h => h, fun _ _ h => h⟩

/-- New nodes and edits that declare more leave the connections plugged. -/
lemma Disciplined.of_extends {graph : PortGraph Story.Node Bool} (h : Disciplined g)
    (hwired : Wired graph) (hown : OwnIds Story.Node.id graph) (hcounted : Counted graph)
    (hedges : graph.edges = g.graph.edges)
    (hnodes : ∀ id n, g.graph.node? id = some n → ∃ n', graph.node? id = some n' ∧ Extends n n') :
    Disciplined { g with graph } where
  wired := hwired
  own := hown
  counted := hcounted
  plugged e he := by
    rw [hedges] at he
    refine plugged_of_nodes (h.plugged e he) (fun n hn => ?_) fun n hn => ?_ <;>
      obtain ⟨n', hn', hextends⟩ := hnodes _ n hn
    · exact ⟨n', hn', hextends.output _⟩
    · exact ⟨n', hn', hextends.input _⟩
  start id hid := by
    obtain ⟨n, hn⟩ := (contains_iff_node? id).1 (h.start id hid)
    obtain ⟨n', hn', -⟩ := hnodes id n hn
    exact (contains_iff_node? id).2 ⟨n', hn'⟩

lemma Disciplined.create (h : Disciplined g) (hnew : g.graph.contains g.graph.nextId = false)
    (kind : NodeKind) (x y : Binary64) : Disciplined (g.create kind x y).2 := by
  let build : Nat → Story.Node := fun id => .ofKind id kind x y
  have hown : OwnIds Story.Node.id (g.graph.add build).2 := h.own.add build rfl
  have hnodes : ∀ id n, g.graph.node? id = some n →
      ∃ n', (g.graph.add build).2.node? id = some n' ∧ Extends n n' := by
    intro id n hn
    have hne : id ≠ g.graph.nextId := by
      rintro rfl
      exact absurd ((contains_iff_node? _).2 ⟨n, hn⟩) (Bool.eq_false_iff.1 hnew)
    refine ⟨n, ?_, .refl n⟩
    rw [node?_add, if_neg hne, hn]
  exact h.of_extends (h.wired.add build) hown (h.counted.add build) rfl hnodes

lemma Disciplined.insert? (h : Disciplined g) {n : Story.Node} (hg : g.insert? n = some g') :
    Disciplined g' := by
  obtain ⟨graph, hgraph, rfl⟩ := Option.map_eq_some_iff.1 hg
  refine h.of_extends (h.wired.insert? hgraph) (h.own.insert? rfl hgraph) (h.counted.insert? hgraph)
    (by obtain ⟨-, -, rfl⟩ := insert?_eq_some.1 hgraph; rfl) fun id n' hn' => ⟨n', ?_, .refl n'⟩
  have hfree : g.graph.contains n.id = false := (insert?_eq_some.1 hgraph).2.1
  have hne : id ≠ n.id := by
    rintro rfl
    rw [(contains_iff_node? _).2 ⟨n', hn'⟩] at hfree
    cases hfree
  rw [node?_insert? hgraph, if_neg hne, hn']

lemma Disciplined.modify (h : Disciplined g) (id : Nat) {f : Story.Node → Story.Node}
    (hself : ∀ n, (f n).id = n.id) (hextends : ∀ n, Extends n (f n)) :
    Disciplined (g.modify id f) := by
  refine h.of_extends (h.wired.modify id f) (h.own.modify id hself)
    ((evolves_modify g.graph id f).counted h.counted) rfl fun id' n hn =>
      ⟨_, node?_modify_of_some f hn, ?_⟩
  split
  · exact hextends n
  · exact .refl n

lemma Disciplined.remove (h : Disciplined g) (id : Nat) : Disciplined (g.remove id) := by
  rw [StoryGraph.remove]
  split
  · refine ⟨h.wired.remove id, h.own.remove id, (evolves_remove g.graph id).counted h.counted,
      fun e he => ?_, fun start hstart => ?_⟩
    · have hjoined := (h.wired.remove id).joined e he
      refine plugged_of_nodes (h.plugged e (List.mem_filter.1 he).1)
        (fun n hn => ⟨n, (node?_remove_iff g.graph id _ n).2 ⟨hn, ?_⟩, fun _ hp => hp⟩)
        fun n hn => ⟨n, (node?_remove_iff g.graph id _ n).2 ⟨hn, ?_⟩, fun _ hp => hp⟩
      · exact ((contains_remove g.graph id _).1 hjoined.source).2
      · exact ((contains_remove g.graph id _).1 hjoined.target).2
    · obtain ⟨hlive, hne⟩ := Option.filter_eq_some_iff.1 hstart
      exact (contains_remove g.graph id start).2 ⟨h.start start hlive, of_decide_eq_true hne⟩
  · exact h

lemma Disciplined.setStart (h : Disciplined g) {id : Nat} (hg : g.setStart id = .ok g') :
    Disciplined g' := by
  rw [StoryGraph.setStart] at hg
  split at hg
  · next hlive =>
    obtain rfl := Except.ok.inj hg
    exact ⟨h.wired, h.own, h.counted, h.plugged, fun id' hid' => Option.some.inj hid' ▸ hlive⟩
  · cases hg

lemma Disciplined.connect (h : Disciplined g) {source target : Port}
    (hg : g.connect source target = .ok g') : Disciplined g' := by
  obtain ⟨graph, hgraph, rfl, hplugged⟩ := story_connect_eq_ok hg
  refine ⟨h.wired.connect hgraph, h.own.connect hgraph, (evolves_connect hgraph).counted h.counted,
    ?_, ?_⟩ <;>
    obtain ⟨-, -, rfl⟩ := connect_eq_ok.1 hgraph
  · intro e he
    rcases List.mem_append.1 he with he | he
    · exact h.plugged e he
    · obtain rfl := List.mem_singleton.1 he
      exact hplugged
  · exact h.start

lemma Disciplined.disconnect (h : Disciplined g) (source target : Port) :
    Disciplined (g.disconnect source target) where
  wired := h.wired.disconnect source target
  own := h.own
  counted := (evolves_disconnect g.graph source target).counted h.counted
  plugged e he := h.plugged e (List.eraseP_sublist.subset he)
  start := h.start

lemma Disciplined.select (h : Disciplined g) (source target : Port) (selected : Bool) :
    Disciplined (g.select source target selected) where
  wired := (evolves_setEdge g.graph source target selected).wired h.wired
  own := h.own
  counted := (evolves_setEdge g.graph source target selected).counted h.counted
  plugged e he := by
    have hports : portsOf e ∈ g.graph.edges.map portsOf :=
      portsOf_setEdge g.graph source target selected ▸ List.mem_map_of_mem he
    obtain ⟨e', he', heq⟩ := List.mem_map.1 hports
    obtain ⟨hsource, htarget⟩ := Prod.mk.inj heq
    exact hsource ▸ htarget ▸ h.plugged e' he'
  start := h.start

lemma Disciplined.addOutput (h : Disciplined g) {id : Nat} {port : PortDecl} {added : Bool}
    (hg : g.addOutput id port = .ok (added, g')) : Disciplined g' := by
  obtain rfl | rfl := addOutput_eq_ok hg
  · exact h
  · refine h.modify id (fun _ => rfl) fun n => ⟨fun name p hp => ?_, fun _ _ hp => hp⟩
    rw [Story.Node.output?, List.find?_append]
    exact Option.or_eq_some_iff.2 (.inl hp)

lemma Disciplined.addOption (h : Disciplined g) {id : Nat} {text name : String}
    (hg : g.addOption id text = .ok (name, g')) : Disciplined g' := by
  obtain ⟨_, _, hadded⟩ := addOption_eq_ok hg
  exact h.addOutput hadded

lemma Disciplined.disconnectAll (h : Disciplined g) (edges : List (Edge Bool)) :
    Disciplined { g with graph := Proofs.disconnectAll edges g.graph } := by
  induction edges generalizing g with
  | nil => exact h
  | cons e edges ih => exact ih (h.disconnect e.source e.target)

/-- No connection leaves an output that is not declared. -/
lemma Disciplined.not_output (h : Disciplined g) {id : Nat} {name : String}
    (hnone : ∀ n, g.node? id = some n → n.output? name = none) :
    g.graph.edges = g.graph.edges.filter fun e => e.source ≠ .output id name := by
  have hne : ∀ e ∈ g.graph.edges, e.source ≠ .output id name := by
    intro e he hsource
    obtain ⟨fromNode, _, output, _, hfrom, -, houtput, -⟩ := h.plugged e he
    rw [hsource] at hfrom houtput
    cases (hnone fromNode hfrom).symm.trans houtput
  exact (List.filter_eq_self.2 fun e he => decide_eq_true (hne e he)).symm

/-- The outputs that are not of the name are found as before. -/
lemma output?_filter (n : Story.Node) {name name' : String} (h : name' ≠ name) :
    ({ n with outputs := n.outputs.filter (·.name ≠ name) } : Story.Node).output? name' =
      n.output? name' := by
  rw [Story.Node.output?, Story.Node.output?, List.find?_filter]
  congr 1
  funext p
  by_cases hp : p.name = name'
  · simp [hp, h]
  · simp [hp]

/-- With an output exactly the connections go that leave it. -/
lemma Disciplined.removeOutput (h : Disciplined g) {id : Nat} {name : String} {removed : Bool}
    (hg : g.removeOutput id name = .ok (removed, g')) : Disciplined g' ∧
      g'.graph.edges = g.graph.edges.filter fun e => e.source ≠ .output id name := by
  obtain ⟨rfl, hnone⟩ | rfl := removeOutput_eq_ok hg
  · exact ⟨h, h.not_output hnone⟩
  · have hedges := edges_disconnectAll_outgoingFrom h.wired id name
    have hcut := h.disconnectAll (g.graph.outgoingFrom id name)
    refine ⟨⟨hcut.wired.modify id _, hcut.own.modify id fun _ => rfl,
      (evolves_modify _ id _).counted hcut.counted, fun e he => ?_, fun start hstart => ?_⟩, hedges⟩
    · have hleft : e ∈ g.graph.edges.filter fun e => e.source ≠ .output id name := hedges ▸ he
      have hne : e.source.node = id → e.source.name ≠ name := by
        rintro rfl rfl
        refine of_decide_eq_true (List.mem_filter.1 hleft).2 ?_
        rw [Port.output, ← (hcut.wired.joined e he).output]
      refine plugged_of_nodes (hcut.plugged e he) (fun n hn => ?_) fun n hn => ?_
      · refine ⟨_, node?_modify_of_some _ hn, fun p hp => ?_⟩
        split
        · next hid => exact (output?_filter n (hne hid)).trans hp
        · exact hp
      · refine ⟨_, node?_modify_of_some _ hn, fun p hp => ?_⟩
        split <;> exact hp
    · exact (contains_modify _ id _ start).trans (hcut.start start hstart)

/-- What holds of empty stories, and is kept up where the nodes of an entry are inserted and connected
and one is made the start, holds of the story that the entry stands for. -/
lemma story_loaded_induct {P : StoryGraph → Prop} {entry : StoryEntry} (empty : ∀ name, P { name })
    (insert : ∀ n ∈ entry.nodes, ∀ g g', g.insert? n = some g' → P g → P g')
    (connect : ∀ g source target g', g.connect source target = .ok g' → P g → P g')
    (setStart : ∀ g id g', g.setStart id = .ok g' → P g → P g') (hg : entry.graph = .ok g) : P g := by
  obtain ⟨_, -, hg⟩ := exists_of_bind hg
  obtain ⟨g₁, hnodes, hg⟩ := exists_of_bind hg
  obtain ⟨g₂, hlinks, hg⟩ := exists_of_bind hg
  have h₁ : P g₁ := by
    refine foldlM_induct_mem (fun g n hn g' hstep h => ?_) hnodes (empty entry.name)
    split at hstep
    · next hinsert => exact Except.ok.inj hstep ▸ insert n hn g _ hinsert h
    · cases hstep
  have h₂ : P g₂ :=
    foldlM_induct (fun g l g' hstep => connect g _ _ g' (eq_ok_of_mapError hstep)) hlinks h₁
  split at hg
  · exact Except.ok.inj hg ▸ h₂
  · exact setStart _ _ _ (eq_ok_of_mapError hg) h₂

lemma disciplined_ofJson {text : String} (hg : StoryGraph.ofJson text = .ok g) : Disciplined g := by
  obtain ⟨entry, -, hg⟩ := exists_of_bind hg
  exact story_loaded_induct disciplined_empty (fun _ _ _ _ hinsert h => h.insert? hinsert)
    (fun _ _ _ _ hconnect h => h.connect hconnect) (fun _ _ _ hstart h => h.setStart hstart) hg

lemma issued_eq {op : StoryGraph.Operation} {id : Nat} (h : op.issued g = some id) :
    id = g.graph.nextId := by
  cases op <;> cases h
  rfl

/-- Every operation that is performed and hands out no id that is taken keeps the discipline. -/
lemma Disciplined.perform (h : Disciplined g) {op : StoryGraph.Operation}
    (hnew : ∀ id, op.issued g = some id → g.graph.contains id = false)
    (hg : op.perform g = some g') : Disciplined g' := by
  cases op with
  | create kind x y => exact Option.some.inj hg ▸ h.create (hnew _ rfl) kind x y
  | load text => exact disciplined_ofJson (eq_ok_of_toOption hg)
  | remove id => exact Option.some.inj hg ▸ h.remove id
  | setStart id => exact h.setStart (eq_ok_of_toOption hg)
  | addOutput id port =>
    obtain ⟨_, hadded, rfl⟩ := exists_of_map (eq_ok_of_toOption hg)
    exact h.addOutput hadded
  | removeOutput id name =>
    obtain ⟨_, hremoved, rfl⟩ := exists_of_map (eq_ok_of_toOption hg)
    exact (h.removeOutput hremoved).1
  | addOption id text =>
    obtain ⟨_, hadded, rfl⟩ := exists_of_map (eq_ok_of_toOption hg)
    exact h.addOption hadded
  | connect source target => exact h.connect (eq_ok_of_toOption hg)
  | disconnect source target => exact Option.some.inj hg ▸ h.disconnect source target
  | select source target selected => exact Option.some.inj hg ▸ h.select source target selected

end Operations

/-! ## Runs and validation -/

section Runs

variable {g : StoryGraph}

def storyEditor : Editor StoryGraph StoryGraph.Operation Story.Node Bool where
  graph := StoryGraph.graph
  perform := StoryGraph.Operation.perform
  issued := StoryGraph.Operation.issued
  removal := .remove
  disconnection := .disconnect

lemma disciplined_run {name : String} {ops : List StoryGraph.Operation}
    (h : storyEditor.Within { name } ops) : Disciplined (storyEditor.run { name } ops) := by
  refine run_induct_within (P := Disciplined) (fun g op g' hg hbound hperform => ?_)
    (disciplined_empty name) h
  refine hg.perform (fun id hid => ?_) hperform
  rw [Bool.eq_false_iff]
  exact fun hlive => Nat.ne_of_lt (hg.counted.lt_nextId hlive (hbound id hlive)) (issued_eq hid)

/-- Removing an output that cannot be removed changes nothing, and nothing leaves it. -/
lemma Disciplined.edges_after_removeOutput (h : Disciplined g) (id : Nat) (port : String) :
    (storyEditor.after g (.removeOutput id port)).graph.edges =
      g.graph.edges.filter fun e => e.source ≠ .output id port := by
  cases hremove : g.removeOutput id port with
  | ok removed =>
    have hafter : storyEditor.after g (.removeOutput id port) = removed.2 := by
      simp [Editor.after, storyEditor, StoryGraph.Operation.perform, hremove, Except.map,
        Except.toOption]
    rw [hafter]
    exact (h.removeOutput hremove).2
  | error fault =>
    have hafter : storyEditor.after g (.removeOutput id port) = g := by
      simp [Editor.after, storyEditor, StoryGraph.Operation.perform, hremove, Except.map,
        Except.toOption]
    rw [hafter]
    refine h.not_output fun n hn => ?_
    simp only [StoryGraph.removeOutput, hn] at hremove
    split at hremove <;> cases hremove

lemma idIssues_eq_nil (h : Disciplined g) : g.idIssues = [] := by
  refine List.map_eq_nil_iff.2 (List.filter_eq_nil_iff.2 fun e he => ?_)
  have hown := h.own e.1 e.2 ((mem_entries_iff g.graph.nodes e.1 e.2).1 he)
  simp [hown]

lemma connectionIssues_eq_nil {e : Edge Bool} (h : g.Plugged e.source e.target) :
    g.connectionIssues e = [] := by
  obtain ⟨fromNode, toNode, output, input, hfrom, hto, houtput, hinput, hkinds⟩ := h
  simp only [StoryGraph.connectionIssues, hfrom, hto, houtput, hinput, hkinds, if_true]

lemma code_startIssues {issue : Issue} (h : issue ∈ g.startIssues) :
    issue.code = "VAL_START_MISSING" ∨ issue.code = "VAL_START_MULTIPLE" := by
  rcases List.mem_append.1 h with h | h
  · split at h
    · obtain rfl := List.mem_singleton.1 h
      exact .inl rfl
    · cases h
  · split at h
    · obtain rfl := List.mem_singleton.1 h
      exact .inr rfl
    · cases h

lemma code_propertyIssues {n : Story.Node} {issue : Issue} (h : issue ∈ propertyIssues n) :
    issue.code = "VAL_PROPERTY_MISSING" := by
  rw [propertyIssues] at h
  split at h
  · cases h
  · split at h
    · cases h
    · obtain rfl := List.mem_singleton.1 h
      rfl

/-- The codes of what validation finds in a disciplined story. -/
lemma code_validate (h : Disciplined g) {issue : Issue} (hissue : issue ∈ g.validate.issues) :
    issue.code ∈ ["VAL_START_MISSING", "VAL_START_MULTIPLE", "VAL_CYCLE", "VAL_UNREACHABLE",
      "VAL_PROPERTY_MISSING"] := by
  have hconnections : g.graph.edges.flatMap g.connectionIssues = [] :=
    List.flatMap_eq_nil_iff.2 fun e he => connectionIssues_eq_nil (h.plugged e he)
  simp only [StoryGraph.validate, idIssues_eq_nil h, hconnections, List.nil_append,
    List.append_nil, List.mem_append, List.mem_map, List.mem_flatMap] at hissue
  rcases hissue with ((hissue | ⟨_, -, rfl⟩) | ⟨_, -, rfl⟩) | ⟨n, -, hissue⟩
  · rcases code_startIssues hissue with hcode | hcode <;> simp [hcode]
  · simp [Issue.code]
  · simp [Issue.code]
  · simp [code_propertyIssues hissue]

/-- After any run of operations the connections join declared ports of one kind on live nodes, the
declared start is live, removing an output removes exactly the connections that leave it, and
validation finds no connection and no id at fault. -/
theorem ports_upheld (name : String) (ops : List StoryGraph.Operation)
    (h : storyEditor.Within { name } ops) :
    (∀ e ∈ (storyEditor.run { name } ops).graph.edges, e.source.isOutput = true ∧
      e.target.isOutput = false ∧ (storyEditor.run { name } ops).Plugged e.source e.target) ∧
    (∀ id, (storyEditor.run { name } ops).start? = some id →
      (storyEditor.run { name } ops).graph.contains id = true) ∧
    (∀ id port, (storyEditor.run { name } (ops ++ [.removeOutput id port])).graph.edges =
      (storyEditor.run { name } ops).graph.edges.filter fun e => e.source ≠ .output id port) ∧
    ∀ issue ∈ (storyEditor.run { name } ops).validate.issues,
      issue.code ≠ "VAL_CONNECTION" ∧ issue.code ≠ "VAL_DUPLICATE_ID" := by
  have hrun := disciplined_run h
  refine ⟨fun e he => ?_, hrun.start, fun id port => ?_, fun issue hissue => ?_⟩
  · have hjoined := hrun.wired.joined e he
    exact ⟨hjoined.output, hjoined.input, hrun.plugged e he⟩
  · rw [run_snoc]
    exact hrun.edges_after_removeOutput id port
  · have hcode := code_validate hrun hissue
    constructor <;> intro heq <;> rw [heq] at hcode <;> revert hcode <;> decide

/-- A document with a node that declares two outputs of one name. -/
def doubled : String :=
  "\x7b\"nodes\":[\x7b\"id\":1,\"type\":\"Choice\",\"outputs\":[" ++
    "\x7b\"name\":\"a\",\"kind\":\"flow\"\x7d,\x7b\"name\":\"a\",\"kind\":\"data\"\x7d]\x7d," ++
  "\x7b\"id\":4,\"type\":\"End\",\"inputs\":[\x7b\"name\":\"in\",\"kind\":\"flow\"\x7d]\x7d]," ++
  "\"connections\":[\x7b\"sourceNode\":1,\"sourcePort\":\"a\"," ++
    "\"targetNode\":4,\"targetPort\":\"in\"\x7d],\"startNode\":1\x7d"

/-- Ports that come and go, kinds that differ, a start that is removed, and a document. -/
def storySteps : List StoryGraph.Operation :=
  [.create .dialogue .zero .zero, .addOutput 1 (.data "more"), .setStart 1,
    .connect (.output 1 "out") (.input 1 "in"), .connect (.output 1 "more") (.input 1 "in"),
    .select (.output 1 "out") (.input 1 "in") true, .remove 1, .setStart 1, .load doubled,
    .removeOutput 1 "a"]

theorem ports_upheld_steps : storyEditor.Within { name := "s" } storySteps ∧
    ∀ issue ∈ (storyEditor.run { name := "s" } storySteps).validate.issues,
      issue.code ≠ "VAL_CONNECTION" ∧ issue.code ≠ "VAL_DUPLICATE_ID" := by
  have hwithin : storyEditor.Within { name := "s" } storySteps := by decide +kernel
  exact ⟨hwithin, (ports_upheld "s" storySteps hwithin).2.2.2⟩

end Runs

end Novella.Proofs
