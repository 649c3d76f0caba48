import Novella.Proofs.Flow.Reachable
import Novella.Proofs.Graph.Document

/-!
# A flow graph comes back from its document

A document has no kinds for the values of properties. Where no declared property has a value of
another kind, the declared kinds recover the values (`ofJson_toJson_value`), except that a number
that is not finite has become none. With the rest of the document a sound graph is made again
(`ofJson_toJson`).
-/

namespace Novella.Flow

/-- The value that a document keeps of a value: nothing of a number that is not finite. -/
def PropertyValue.plain : PropertyValue → PropertyValue
  | .float x => if x.isFinite then .float x else .null
  | v => v

def Node.plain (n : Node) : Node := { n with properties := n.properties.map fun _ v => v.plain }

/-- Nothing, a value of a property that is not declared, or one of the kind that is declared. -/
def PropertyValue.Fits (v : PropertyValue) (expected : Option PropertyKind) : Prop :=
  v = .null ∨ expected = none ∨ expected = some v.kind

instance (v : PropertyValue) (expected : Option PropertyKind) : Decidable (v.Fits expected) :=
  inferInstanceAs (Decidable (_ ∨ _))

/-- Every declared property has a value of its kind, or nothing. -/
def Node.Fitting (n : Node) : Prop :=
  ∀ e ∈ n.properties.entries, e.2.Fits (n.kind.propertyKind? e.1)

instance (n : Node) : Decidable n.Fitting := inferInstanceAs (Decidable (∀ e ∈ _, _))

end Novella.Flow

namespace Novella.Proofs

open Json Novella.Flow

/-! ## Values -/

section Values

lemma textsOf?_map (items : List String) :
    PropertyValue.textsOf? (items.map .text) = some items := by
  rw [PropertyValue.textsOf?]
  induction items with
  | nil => rfl
  | cons s items ih =>
    rw [List.map_cons, List.mapM_cons, ih]
    rfl

/-- A value that fits is recovered from a document. -/
lemma ofJson_toJson_value {v : PropertyValue} {expected : Option PropertyKind}
    (h : v.Fits expected) : PropertyValue.ofJson expected v.toJson = .ok v.plain := by
  rcases h with rfl | h
  · rfl
  cases v with
  | int n =>
    have hsmall : n.toInt < 9223372036854775808 := n.toInt_lt
    rcases h with rfl | rfl <;>
      simp [PropertyValue.ofJson, PropertyValue.toJson, PropertyValue.kind, PropertyValue.plain, hsmall]
  | float x =>
    by_cases hx : x.isFinite = true <;> rcases h with rfl | rfl <;>
      simp [PropertyValue.ofJson, PropertyValue.toJson, PropertyValue.kind, PropertyValue.plain, hx]
  | texts items =>
    rcases h with rfl | rfl <;>
      simp [PropertyValue.ofJson, PropertyValue.toJson, PropertyValue.kind, PropertyValue.plain,
        Json.texts, textsOf?_map]
  | _ => rcases h with rfl | rfl <;> rfl

lemma decodeItems_of_forall₂ {room : Nat} {items : List Tree} {vs : List Json}
    (h : List.Forall₂ (fun t v => decodeAny room t = .ok v) items vs) :
    decodeItems room items = .ok vs := by
  induction h with
  | nil => rfl
  | cons hitem _ ih =>
    rw [decodeItems, hitem]
    change (decodeItems room _ >>= _) = _
    rw [ih]
    rfl

/-- A value is read without its kind. It opens one bracket at most. -/
lemma decodes_value (v : PropertyValue) {room : Nat} (h : 2 ≤ room) :
    Decodes (decodeAny room) v.toJson v.toJson := by
  intro t ht
  cases v with
  | null =>
    cases ht
    rfl
  | bool b =>
    cases ht
    rfl
  | int n =>
    cases ht
    rfl
  | text s =>
    cases ht
    rfl
  | float x =>
    rw [PropertyValue.toJson] at ht ⊢
    by_cases hx : x.isFinite = true
    · rw [if_pos hx] at ht ⊢
      cases ht with
      | float => rfl
      | noFloat infinite => exact absurd hx (Bool.eq_false_iff.1 infinite)
    · rw [if_neg hx] at ht ⊢
      cases ht
      rfl
  | texts items =>
    cases ht with
    | @list _ _ trees _ each =>
      have hitems : decodeItems (room - 1) trees = .ok (items.map .text) := by
        refine decodeItems_of_forall₂ ?_
        rw [List.forall₂_map_right_iff] at each ⊢
        refine each.imp fun t s ht => ?_
        cases ht
        rfl
      rw [decodeAny, if_neg (by omega), hitems]
      rfl

end Values

/-! ## Nodes -/

section Nodes

variable {n : Node}

/-- What a document has for a node. -/
def entryOf (n : Node) : NodeEntry :=
  { id := n.id, tag := n.kind.tag, properties := n.properties.map fun _ v => v.toJson,
    x := n.x, y := n.y, loc := if n.loc = {} then none else some n.loc }

lemma decodes_properties (properties : Dict String PropertyValue) :
    Decodes (decodeDict (decodeAny propertyRoom))
      (.record (properties.entries.map fun e => (e.1, e.2.toJson)))
      (properties.map fun _ v => v.toJson) := by
  have hvalues : Decodes (decodeDict (decodeAny propertyRoom))
      (.record ((properties.map fun _ v => v.toJson).entries.map fun e => (e.1, id e.2)))
      (properties.map fun _ v => v.toJson) := by
    refine decodes_dict fun e he => ?_
    obtain ⟨e, -, rfl⟩ := List.mem_map.1 he
    exact decodes_value e.2 (by decide)
  rwa [Dict.map, List.map_map] at hvalues

/-- A node is written with or without its place. -/
lemma decodes_node (hid : n.id < 2 ^ 64) (hx : n.x.isFinite = true) (hy : n.y.isFinite = true) :
    Decodes NodeEntry.layout.decode n.toJson (entryOf n) := by
  rw [Node.toJson, entryOf]
  by_cases hloc : n.loc = {}
  · rw [if_pos hloc, if_pos hloc]
    refine decodes_record ?_ (by simp) (by simp [NodeEntry.layout, Slot.of])
    exact (decodes_nat hid).fills rfl <| (decodes_text _).fills rfl <|
      (decodes_properties _).fills rfl <| (decodes_float hx).fills rfl <|
      (decodes_float hy).fills rfl .nil
  · rw [if_neg hloc, if_neg hloc]
    refine decodes_record ?_ (by simp) (by simp [NodeEntry.layout, Slot.of])
    exact (decodes_nat hid).fills rfl <| (decodes_text _).fills rfl <|
      (decodes_properties _).fills rfl <| (decodes_float hx).fills rfl <|
      (decodes_float hy).fills rfl <|
      ((decodes_location n.loc).option (present_record _)).fills rfl .nil

lemma propertiesOf_entries (id : Nat) {kind : NodeKind} {es : List (String × PropertyValue)}
    (h : ∀ e ∈ es, e.2.Fits (kind.propertyKind? e.1)) :
    propertiesOf id kind (es.map fun e => (e.1, e.2.toJson)) =
      .ok (es.map fun e => (e.1, e.2.plain)) := by
  induction es with
  | nil => rfl
  | cons e es ih =>
    obtain ⟨he, hes⟩ := List.forall_mem_cons.1 h
    rw [List.map_cons, propertiesOf, ofJson_toJson_value he]
    change (propertiesOf id kind (es.map _) >>= _) = _
    rw [ih hes]
    rfl

lemma fitting_of_declared (h : n.Declared) : n.Fitting := fun e he => .inr (.inr (h e he))

lemma node_entryOf (h : n.Fitting) : (entryOf n).node = .ok n.plain := by
  have hkind : NodeKind.ofTag? (entryOf n).tag = some n.kind := NodeKind.ofTag?_tag n.kind
  have hvalues : propertiesOf n.id n.kind (entryOf n).properties.entries =
      .ok (n.properties.map fun _ v => v.plain).entries := propertiesOf_entries n.id h
  have hloc : (entryOf n).loc.getD {} = n.loc := by
    rw [entryOf]
    by_cases hloc : n.loc = {} <;> simp [hloc]
  rw [NodeEntry.node, hkind, hloc]
  change (propertiesOf n.id n.kind _ >>= _) = _
  rw [hvalues]
  exact congrArg (fun properties => Except.ok { n with properties }) (ofList_entries _)

end Nodes

/-! ## Graphs -/

section Graphs

variable {g : FlowGraph}

/-- What a document has for a graph. -/
def entryOfGraph (g : FlowGraph) : GraphEntry :=
  { version := some schemaVersion, name := g.name, nodes := g.nodes.map entryOf,
    links := g.graph.edges.map (Link.ofEdge id), scenes := g.scenes, characters := g.characters }

lemma decodes_graph (hread : Readable g.document)
    (hfinite : ∀ n ∈ g.nodes, n.x.isFinite = true ∧ n.y.isFinite = true) :
    Decodes GraphEntry.layout.decode g.document (entryOfGraph g) := by
  have hnode : ∀ n ∈ g.nodes, Decodes NodeEntry.layout.decode n.toJson (entryOf n) := by
    intro n hn
    have hnodes : Readable (.list (g.nodes.map Node.toJson)) :=
      hread.member? "nodes" rfl
    have hn' : Readable n.toJson := hnodes.of_list_map hn
    refine decodes_node ((hn'.member? "id" rfl).nat_lt) ?_ ?_
    · exact (hfinite n hn).1
    · exact (hfinite n hn).2
  have hlinks : Readable (.list (g.graph.edges.map fun e => (Link.ofEdge id e).toJson)) :=
    hread.member? "connections" rfl
  have hlink : ∀ e ∈ g.graph.edges,
      Decodes Link.layout.decode (Link.ofEdge id e).toJson (Link.ofEdge id e) := fun e he =>
    decodes_link (hlinks.of_list_map he)
  have hscenes : Decodes (decodeDict (decodeNat 64)) (scenesJson g.scenes) g.scenes :=
    decodes_scenes (hread.member? "scenes" rfl)
  have hcharacters := decodes_list_map (d := Character.layout.decode) (g := id)
    (l := g.characters) fun c _ => decodes_character _ _ c
  rw [List.map_id] at hcharacters
  refine decodes_record ?_ (by simp) (by simp [GraphEntry.layout, Slot.of])
  exact ((decodes_text _).option (present_text _)).fills rfl <| (decodes_text _).fills rfl <|
    (decodes_list_map hnode).fills rfl <| (decodes_list_map hlink).fills rfl <|
    hscenes.fills rfl <| hcharacters.fills rfl .nil

lemma graph_entryOf (h : g.Sound) (hfitting : ∀ n ∈ g.nodes, n.Fitting) :
    (entryOfGraph g).graph = .ok { g with graph := recounted (overNodes Node.plain g.graph) } := by
  have hplain : Proofs.Sound Node.id (overNodes Node.plain g.graph) g.scenes g.characters :=
    Sound.overNodes h fun _ => rfl
  rw [GraphEntry.graph, show (entryOfGraph g).version = some schemaVersion from rfl,
    checkVersion_current]
  refine assembled (FlowGraph.mk g.name) hplain.toHoused ?_ ?_ ?_ ?_
  · rw [entries_overNodes h.own, show (entryOfGraph g).nodes = g.nodes.map entryOf from rfl,
      List.forall₂_map_left_iff, List.forall₂_map_right_iff]
    refine List.forall₂_same.2 fun n hn c c' hc => ?_
    rw [node_entryOf (hfitting n hn)]
    dsimp only [bind, Except.bind]
    rw [flow_insert?_eq_some.2 ⟨c', hc, rfl⟩]
    rfl
  · rw [show (entryOfGraph g).links = g.graph.edges.map (Link.ofEdge id) from rfl,
      List.forall₂_map_left_iff]
    refine List.forall₂_same.2 fun e he c c' hc => ?_
    have hjoined := h.stored.wired.joined e he
    rw [source_ofEdge hjoined.output, target_ofEdge hjoined.input]
    rw [show (Link.ofEdge id e).label = e.data from rfl, flow_connect_eq_ok.2 ⟨c', hc, rfl⟩]
    rfl
  · rintro c d ⟨scene, start⟩ hstart
    dsimp only
    rw [flow_addScene_eq_ok.2 ⟨hstart, rfl⟩]
    rfl
  · exact fun _ _ _ _ => rfl

/-- A sound graph with fitting values comes back from its document, with nothing where a number is
not finite. -/
theorem ofJson_toJson (h : g.Sound) (hfitting : ∀ n ∈ g.nodes, n.Fitting)
    (hfinite : ∀ n ∈ g.nodes, n.x.isFinite = true ∧ n.y.isFinite = true)
    (hread : Readable g.document) : FlowGraph.ofJson g.toJson =
      .ok { g with graph := recounted (overNodes Node.plain g.graph) } := by
  rw [FlowGraph.ofJson, FlowGraph.toJson, readDocument_pretty (decodes_graph hread hfinite) hread]
  exact graph_entryOf h hfitting

end Graphs

end Novella.Proofs
