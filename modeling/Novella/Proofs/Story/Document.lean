import Novella.Proofs.Graph.Document
import Novella.Proofs.Story.Ports

/-!
# A story comes back from its document

A document of a story leaves out what is selected. So a story with the discipline of `Disciplined`
is made again as it was, with nothing selected and with the counter that its ids ask for
(`story_ofJson_toJson`). The reader plugs the connections in one by one, and refuses none since all
nodes with their ports are there before.
-/

namespace Novella.Story

/-- The place and the size of the node are finite. -/
structure Node.Placed (n : Node) : Prop where
  x : n.x.isFinite = true
  y : n.y.isFinite = true
  width : n.width.isFinite = true
  height : n.height.isFinite = true

def Node.deselected (n : Node) : Node := { n with selected := false }

/-- The story with no node and no connection selected. -/
def StoryGraph.deselected (g : StoryGraph) : StoryGraph :=
  { g with graph :=
    { nodes := g.graph.nodes.map fun _ n => n.deselected
      edges := g.graph.edges.map fun e => { e with data := false }
      nextId := g.graph.nextId } }

end Novella.Story

namespace Novella.Proofs

open Json Story Story.StoryGraph

section Documents

variable {n : Story.Node} {g : StoryGraph}

/-! ## Decoding -/

lemma decodes_port (p : PortDecl) : Decodes PortDecl.layout.decode p.toJson p := by
  have hkind : Decodes decodePortKind (.text p.kind.tag) p.kind := by
    refine decodes_variant ?_
    cases p.kind <;> rfl
  refine decodes_record ?_ (by simp) (by simp [PortDecl.layout, Slot.of])
  exact (decodes_text _).fills rfl <| hkind.fills rfl <| (decodes_text _).fills rfl .nil

lemma decodes_ports (ports : List PortDecl) :
    Decodes (decodeList PortDecl.layout.decode) (.list (ports.map PortDecl.toJson)) ports := by
  have hports := decodes_list_map (g := id) (l := ports) fun p _ => decodes_port p
  rwa [List.map_id] at hports

lemma decodes_story_node (hid : n.id < 2 ^ 64) (h : n.Placed) :
    Decodes Story.Node.layout.decode n.toJson n.deselected := by
  have hkind : Decodes decodeNodeKind (.text n.kind.tag) n.kind := by
    refine decodes_variant ?_
    cases n.kind <;> rfl
  have hproperties : Decodes (decodeDict decodeText)
      (.record (n.properties.entries.map fun e => (e.1, .text e.2))) n.properties :=
    decodes_dict fun _ _ => decodes_text _
  refine decodes_record ?_ (by simp) (by simp [Story.Node.layout, Slot.of])
  exact (decodes_nat hid).fills rfl <| hkind.fills rfl <| (decodes_text _).fills rfl <|
    (decodes_text _).fills rfl <| (decodes_float h.x).fills rfl <|
    (decodes_float h.y).fills rfl <| (decodes_float h.width).fills rfl <|
    (decodes_float h.height).fills rfl <| (decodes_ports _).fills rfl <|
    (decodes_ports _).fills rfl <| hproperties.fills rfl <| (decodes_bool _).fills rfl .nil

/-- What a document has for a story. -/
def entryOfStory (g : StoryGraph) : StoryEntry :=
  { version := some schemaVersion, name := g.name, start? := g.start?,
    nodes := g.nodes.map Node.deselected, links := g.graph.edges.map (Link.ofEdge fun _ => "") }

lemma decodes_start {start? : Option Nat} (h : Json.Readable (start?.elim .null .nat)) :
    Decodes (decodeOption (decodeNat 64)) (start?.elim .null .nat) start? := by
  cases start? with
  | none => exact decodes_none _
  | some id => exact (decodes_nat h.nat_lt).option fun _ _ h => nomatch h

lemma decodes_story (hread : Json.Readable g.document) (hplaced : ∀ n ∈ g.nodes, n.Placed) :
    Decodes StoryEntry.layout.decode g.document (entryOfStory g) := by
  have hnodes : Json.Readable (.list (g.nodes.map Story.Node.toJson)) := hread.member? "nodes" rfl
  have hnode : ∀ n ∈ g.nodes, Decodes Story.Node.layout.decode n.toJson n.deselected := by
    intro n hn
    have hn' : Json.Readable n.toJson := hnodes.of_list_map hn
    exact decodes_story_node ((hn'.member? "id" rfl).nat_lt) (hplaced n hn)
  have hlinks : Json.Readable (.list (g.graph.edges.map fun e => (Link.ofEdge (fun _ => "") e).toJson)) :=
    hread.member? "connections" rfl
  have hlink : ∀ e ∈ g.graph.edges, Decodes Link.layout.decode
      (Link.ofEdge (fun _ => "") e).toJson (Link.ofEdge (fun _ => "") e) := fun e he =>
    decodes_link (hlinks.of_list_map he)
  have hstart : Json.Readable (g.start?.elim .null .nat) := hread.member? "startNode" rfl
  refine decodes_record ?_ (by simp) (by simp [StoryEntry.layout, Slot.of])
  exact ((decodes_text _).option (present_text _)).fills rfl <| (decodes_text _).fills rfl <|
    (decodes_start hstart).fills rfl <| (decodes_list_map hnode).fills rfl <|
    (decodes_list_map hlink).fills rfl .nil

/-! ## Nothing selected -/

lemma nodes_deselected (g : StoryGraph) : g.deselected.nodes = g.nodes.map Node.deselected := by
  rw [StoryGraph.nodes, StoryGraph.nodes, Dict.values, Dict.values, List.map_map]
  exact List.map_map

lemma node?_deselected (g : StoryGraph) (id : Nat) :
    g.deselected.graph.node? id = (g.graph.node? id).map Node.deselected :=
  get?_map g.graph.nodes _ id

lemma contains_deselected (g : StoryGraph) (id : Nat) :
    g.deselected.graph.contains id = true ↔ g.graph.contains id = true := by
  rw [contains_iff_node?, contains_iff_node?, node?_deselected]
  simp

lemma ids_deselected (g : StoryGraph) : g.deselected.graph.ids = g.graph.ids := by
  rw [PortGraph.ids, PortGraph.ids, Dict.keys, Dict.keys]
  exact List.map_map

lemma portsOf_deselected (g : StoryGraph) :
    g.deselected.graph.edges.map portsOf = g.graph.edges.map portsOf :=
  List.map_map

lemma mem_edges_deselected {e : Edge Bool} (he : e ∈ g.deselected.graph.edges) :
    ∃ e' ∈ g.graph.edges, { e' with data := false } = e :=
  List.mem_map.1 he

lemma Disciplined.deselected (h : Disciplined g) : Disciplined g.deselected where
  wired := h.wired.of_sublist (portsOf_deselected g ▸ .refl _) fun id hid =>
    (contains_deselected g id).2 hid
  own id n hn := by
    rw [node?_deselected] at hn
    obtain ⟨m, hm, rfl⟩ := Option.map_eq_some_iff.1 hn
    exact h.own id m hm
  counted := ⟨h.counted.nextId, fun id hid => h.counted.ids id ((contains_deselected g id).1 hid)⟩
  plugged e he := by
    obtain ⟨e, hmem, rfl⟩ := mem_edges_deselected he
    refine plugged_of_nodes (h.plugged e hmem) (fun n hn => ⟨n.deselected, ?_, fun _ hp => hp⟩)
      fun n hn => ⟨n.deselected, ?_, fun _ hp => hp⟩
    · exact (node?_deselected g _).trans (congrArg _ hn)
    · exact (node?_deselected g _).trans (congrArg _ hn)
  start id hid := (contains_deselected g id).2 (h.start id hid)

/-! ## Making a story again -/

/-- What is plugged and free is connected. -/
lemma connect_of_plugged {source target : Port} {graph : PortGraph Story.Node Bool}
    (h : g.Plugged source target) (hgraph : g.graph.connect source target false = .ok graph) :
    g.connect source target = .ok { g with graph } := by
  obtain ⟨fromNode, toNode, output, input, hfrom, hto, houtput, hinput, hkinds⟩ := h
  have hcheck : checkPorts fromNode toNode source target = .ok () := by
    simp only [checkPorts, houtput, hinput, if_pos hkinds]
  simp only [StoryGraph.connect, hfrom, hto, hcheck, hgraph]
  split <;> rfl

/-- The reader connects the ports of a graph whose nodes are those of the story. -/
lemma connect_link (h : Disciplined g) {e : Edge Bool} (he : e ∈ g.graph.edges)
    {c c' : PortGraph Story.Node Bool} (hnodes : c.nodes = g.deselected.graph.nodes)
    (hc : c.connect e.source e.target false = .ok c') :
    StoryGraph.connect { name := g.name, graph := c } (Link.ofEdge (fun _ => "") e).source
      (Link.ofEdge (fun _ => "") e).target = .ok { name := g.name, graph := c' } := by
  have hjoined := h.wired.joined e he
  have hsame : ∀ id n, g.deselected.node? id = some n →
      StoryGraph.node? { name := g.name, graph := c } id = some n := by
    intro id n hn
    rw [← hn]
    exact congrArg (·.get? id) hnodes
  rw [source_ofEdge hjoined.output, target_ofEdge hjoined.input]
  refine connect_of_plugged (g := { name := g.name, graph := c }) ?_ hc
  exact plugged_of_nodes (h.deselected.plugged { e with data := false } (List.mem_map_of_mem he))
    (fun n hn => ⟨n, hsame _ n hn, fun _ hp => hp⟩) fun n hn => ⟨n, hsame _ n hn, fun _ hp => hp⟩

lemma graph_entryOfStory (h : Disciplined g) : (entryOfStory g).graph =
    .ok { g.deselected with graph := recounted g.deselected.graph } := by
  have hd := h.deselected
  have hstored := hd.counted.stored hd.wired
  let stage : PortGraph Story.Node Bool → StoryGraph := fun graph => { name := g.name, graph }
  let loaded : PortGraph Story.Node Bool :=
    { nodes := g.deselected.graph.nodes, nextId := idAfter g.deselected.graph.ids }
  rw [StoryEntry.graph]
  refine (bind_of_eq_ok checkVersion_current _).trans ?_
  refine (bind_of_eq_ok (a := stage loaded) ?_ _).trans
    ((bind_of_eq_ok (a := stage (recounted g.deselected.graph)) ?_ _).trans ?_)
  · change List.foldlM _ (stage {}) _ = Except.ok (stage loaded)
    refine foldlM_follows ?_ (run_nodes hstored)
    rw [entries_eq_values hd.own, show (entryOfStory g).nodes = g.deselected.nodes from
      (nodes_deselected g).symm]
    refine List.forall₂_map_right_iff.2 (List.forall₂_same.2 fun n _ c c' hc => ?_)
    rw [StoryGraph.insert?, hc]
    rfl
  · refine foldlM_follows_of (I := fun c => c.nodes = g.deselected.graph.nodes)
      (fun c e c' hc hsame => ?_) ?_ (by rfl) (run_edges hstored)
    · obtain ⟨-, -, rfl⟩ := connect_eq_ok.1 (eq_ok_of_toOption hc)
      exact hsame
    refine List.forall₂_map_left_iff.2 (List.forall₂_map_right_iff.2
      (List.forall₂_same.2 fun e he c c' hsame hc => ?_))
    rw [connect_link h he hsame (eq_ok_of_toOption hc)]
    rfl
  · change _ = Except.ok (StoryGraph.mk g.name (recounted g.deselected.graph) g.start?)
    dsimp only [entryOfStory, stage]
    cases hstart : g.start? with
    | none => rfl
    | some id =>
      have hlive : (recounted g.deselected.graph).contains id = true := hd.start id hstart
      dsimp only [StoryGraph.setStart]
      rw [if_pos hlive]
      rfl

/-- A disciplined story comes back from its document, with nothing selected. -/
theorem story_ofJson_toJson (h : Disciplined g) (hplaced : ∀ n ∈ g.nodes, n.Placed)
    (hread : Json.Readable g.document) : StoryGraph.ofJson g.toJson =
      .ok { g.deselected with graph := recounted g.deselected.graph } := by
  rw [StoryGraph.ofJson, StoryGraph.toJson, readDocument_pretty (decodes_story hread hplaced) hread]
  exact graph_entryOfStory h

end Documents

end Novella.Proofs
