import Novella.Proofs.Flow.Document
import Novella.Proofs.Json.Yields

/-!
# Documents of flow graphs

A flow graph within reach is `Savable` if no declared property has a value of another kind and its
numbers are finite. It comes back from its document as it was, with the counter that its ids ask
for. Every graph that a document is read as is such a graph, so what is written for it is accepted
and written again as the same text (`flow_reloads`). That the text of a number is read as the number
(`Json.Exact`) is assumed.
-/

namespace Novella.Flow

def PropertyValue.number? : PropertyValue → Option Binary64
  | .float x => some x
  | _ => none

/-- The floating-point numbers of a node. -/
def Node.numbers (n : Node) : List Binary64 :=
  n.x :: n.y :: n.properties.values.filterMap PropertyValue.number?

def FlowGraph.numbers (g : FlowGraph) : List Binary64 := g.nodes.flatMap Node.numbers

/-- A document can say all that the node holds. -/
structure Node.Savable (n : Node) : Prop where
  fitting : n.Fitting
  finite : ∀ x ∈ n.numbers, x.isFinite = true
  id : n.id < 2 ^ 64

instance (n : Node) : Decidable n.Savable :=
  decidable_of_iff (n.Fitting ∧ (∀ x ∈ n.numbers, x.isFinite = true) ∧ n.id < 2 ^ 64)
    ⟨fun ⟨hfitting, hfinite, hid⟩ => ⟨hfitting, hfinite, hid⟩,
      fun ⟨hfitting, hfinite, hid⟩ => ⟨hfitting, hfinite, hid⟩⟩

def FlowGraph.Savable (g : FlowGraph) : Prop := ∀ n ∈ g.nodes, n.Savable

instance (g : FlowGraph) : Decidable g.Savable := inferInstanceAs (Decidable (∀ n ∈ _, _))

end Novella.Flow

namespace Novella.Proofs

open Json Novella.Flow

/-! ## What is written -/

section Writing

variable {n : Node} {g : FlowGraph}

lemma mem_numbers_of_property {e : String × PropertyValue} {x : Binary64}
    (he : e ∈ n.properties.entries) (hx : e.2.number? = some x) : x ∈ n.numbers :=
  List.mem_cons_of_mem _ (List.mem_cons_of_mem _
    (List.mem_filterMap.2 ⟨e.2, List.mem_map_of_mem he, hx⟩))

lemma plain_of_finite {v : PropertyValue} (h : ∀ x, v.number? = some x → x.isFinite = true) :
    v.plain = v := by
  cases v with
  | float x => exact if_pos (h x rfl)
  | _ => rfl

lemma node_plain_of_savable (h : n.Savable) : n.plain = n := by
  have hproperties : n.properties.map (fun _ v => v.plain) = n.properties := by
    refine dict_ext ((List.map_congr_left fun e he => ?_).trans (List.map_id _))
    exact Prod.ext rfl (plain_of_finite fun x hx => h.finite x (mem_numbers_of_property he hx))
  rw [Node.plain, hproperties]

lemma overNodes_plain (h : g.Savable) : overNodes Node.plain g.graph = g.graph := by
  have hnodes : g.graph.nodes.map (fun _ n => n.plain) = g.graph.nodes := by
    refine dict_ext ((List.map_congr_left fun e he => ?_).trans (List.map_id _))
    exact Prod.ext rfl (node_plain_of_savable (h e.2 (List.mem_map_of_mem he)))
  rw [overNodes, hnodes]

lemma readable_value {v : PropertyValue}
    (h : ∀ x, v.number? = some x → x.isFinite = true ∧ Exact x) : Readable v.toJson := by
  cases v with
  | null => exact .null
  | bool b => exact .bool
  | int i =>
    have hlow := i.le_toInt
    have hhigh := i.toInt_lt
    exact .int hlow (by omega)
  | float x =>
    obtain ⟨hfinite, hexact⟩ := h x rfl
    rw [PropertyValue.toJson, if_pos hfinite]
    exact .float fun _ => hexact
  | text s => exact .text
  | texts items => exact readable_texts items

lemma readable_location (loc : Script.Location) : Readable loc.toJson := by
  have hline := loc.line.toNat_lt
  have hcolumn := loc.column.toNat_lt
  refine .record fun m hm => ?_
  simp only [List.mem_cons, List.not_mem_nil, or_false] at hm
  rcases hm with rfl | rfl <;> exact readable_nat (by omega)

lemma readable_node (h : n.Savable) (hexact : ∀ x ∈ n.numbers, Exact x) : Readable n.toJson := by
  have hproperties : Readable (.record (n.properties.entries.map fun e => (e.1, e.2.toJson))) := by
    refine .record fun m hm => ?_
    obtain ⟨e, he, rfl⟩ := List.mem_map.1 hm
    refine readable_value fun x hx => ?_
    have hmem := mem_numbers_of_property he hx
    exact ⟨h.finite x hmem, hexact x hmem⟩
  refine .record fun m hm => ?_
  rcases List.mem_append.1 hm with hm | hm
  · simp only [List.mem_cons, List.not_mem_nil, or_false] at hm
    rcases hm with rfl | rfl | rfl | rfl | rfl
    · exact readable_nat h.id
    · exact .text
    · exact hproperties
    · exact .float fun _ => hexact _ List.mem_cons_self
    · exact .float fun _ => hexact _ (List.mem_cons_of_mem _ List.mem_cons_self)
  · split at hm
    · cases hm
    · obtain rfl := List.mem_singleton.1 hm
      exact readable_location n.loc

lemma readable_document (hsound : g.Sound) (h : g.Savable) (hexact : ∀ x ∈ g.numbers, Exact x) :
    Readable g.document := by
  have hids : ∀ id, g.graph.contains id = true → id < 2 ^ 64 := by
    intro id hid
    obtain ⟨n, hn⟩ := (contains_iff_node? id).1 hid
    exact hsound.own id n hn ▸ (h n ((mem_values_iff _ _).2 ⟨id, hn⟩)).id
  have hnodes : Readable (.list (g.nodes.map Node.toJson)) := by
    refine .list fun v hv => ?_
    obtain ⟨n, hn, rfl⟩ := List.mem_map.1 hv
    exact readable_node (h n hn) fun x hx => hexact x (List.mem_flatMap.2 ⟨n, hn, hx⟩)
  have hlinks : Readable (.list (g.graph.edges.map fun e => (Link.ofEdge id e).toJson)) :=
    readable_links fun e he =>
      have hjoined := hsound.stored.wired.joined e he
      ⟨hids _ hjoined.source, hids _ hjoined.target⟩
  have hscenes : Readable (scenesJson g.scenes) := by
    refine .record fun m hm => ?_
    obtain ⟨e, he, rfl⟩ := List.mem_map.1 hm
    exact readable_nat (hids _ (hsound.scenes e.1 e.2 ((mem_entries_iff _ _ _).1 he)))
  have hcharacters : Readable (.list (g.characters.map Character.toJson)) := by
    refine .list fun v hv => ?_
    obtain ⟨c, -, rfl⟩ := List.mem_map.1 hv
    refine .record fun m hm => ?_
    simp only [List.mem_cons, List.not_mem_nil, or_false] at hm
    rcases hm with rfl | rfl | rfl
    · exact .text
    · exact .text
    · cases c.color with
      | none => exact .null
      | some color => exact .text
  refine .record fun m hm => ?_
  simp only [List.mem_cons, List.not_mem_nil, or_false] at hm
  rcases hm with rfl | rfl | rfl | rfl | rfl | rfl
  · exact .text
  · exact .text
  · exact hnodes
  · exact hlinks
  · exact hscenes
  · exact hcharacters

lemma ofJson_toJson_of_savable (hreach : g.Reachable) (hown : g.OwnIds) (h : g.Savable)
    (hexact : ∀ x ∈ g.numbers, Exact x) : FlowGraph.ofJson g.toJson =
      .ok { g with graph := { g.graph with
        nextId := g.graph.ids.max?.elim 1 fun id => min (id + 1) PortGraph.largestId } } := by
  have hsound := sound_of_reachable hreach hown
  have hplaces : ∀ n ∈ g.nodes, n.x.isFinite = true ∧ n.y.isFinite = true := fun n hn =>
    ⟨(h n hn).finite _ List.mem_cons_self,
      (h n hn).finite _ (List.mem_cons_of_mem _ List.mem_cons_self)⟩
  rw [ofJson_toJson hsound (fun n hn => (h n hn).fitting) hplaces
    (readable_document hsound h hexact), overNodes_plain h, recounted, idAfter_eq]

end Writing

/-! ## What is read -/

section Reading

lemma fits_of_eq {w : PropertyValue} {expected : Option PropertyKind}
    (h : (expected = none || expected = some w.kind) = true) : w.Fits expected := by
  rw [Bool.or_eq_true, decide_eq_true_iff, decide_eq_true_iff] at h
  exact .inr h

lemma not_refused {w : PropertyValue} {expected : Option PropertyKind} {issue : ValueIssue}
    {other : PropertyKind → ValueIssue} :
    (match expected with
      | some kind => Except.error (other kind)
      | none => .error issue) ≠ Except.ok w := by
  intro h
  cases expected <;> cases h

/-- A value that is taken only where its kind is expected. -/
lemma fits_of_taken {u w : PropertyValue} {expected : Option PropertyKind} {issue : ValueIssue}
    {other : PropertyKind → ValueIssue}
    (h : (if expected = none || expected = some u.kind then Except.ok u
      else match expected with
        | some kind => .error (other kind)
        | none => .error issue) = .ok w) : u = w ∧ u.Fits expected := by
  split at h
  · next hfits => exact ⟨Except.ok.inj h, fits_of_eq hfits⟩
  · exact absurd h not_refused

lemma finite_of_not_number {w : PropertyValue} (h : w.number? = none) :
    ∀ x, w.number? = some x → x.isFinite = true := by
  intro x hx
  rw [h] at hx
  cases hx

/-- A value that is read fits, and it is finite if it is a number. -/
lemma fits_of_ofJson {expected : Option PropertyKind} {v : Json} {w : PropertyValue}
    (hv : InRange v) (h : PropertyValue.ofJson expected v = .ok w) :
    w.Fits expected ∧ ∀ x, w.number? = some x → x.isFinite = true := by
  cases v with
  | null =>
    obtain rfl := Except.ok.inj h
    exact ⟨.inl rfl, finite_of_not_number rfl⟩
  | bool b =>
    obtain ⟨rfl, hfits⟩ := fits_of_taken (u := .bool b) h
    exact ⟨hfits, finite_of_not_number rfl⟩
  | int n =>
    dsimp only [PropertyValue.ofJson] at h
    split at h
    · next hfloat =>
      obtain rfl := Except.ok.inj h
      exact ⟨.inr (.inr hfloat), fun x hx => Option.some.inj hx ▸ isFinite_ofInt hv.1 hv.2⟩
    split at h
    · exact absurd h not_refused
    next hfits =>
    split at h
    · obtain rfl := Except.ok.inj h
      rw [Bool.not_eq_true, Bool.not_eq_false'] at hfits
      exact ⟨fits_of_eq hfits, finite_of_not_number rfl⟩
    split at h
    · next hnone =>
      obtain rfl := Except.ok.inj h
      exact ⟨.inr (.inl hnone), fun x hx => Option.some.inj hx ▸ isFinite_ofInt hv.1 hv.2⟩
    · exact absurd h not_refused
  | float x =>
    obtain ⟨rfl, hfits⟩ := fits_of_taken (u := .float x) h
    exact ⟨hfits, fun y hy => Option.some.inj hy ▸ hv⟩
  | text s =>
    obtain ⟨rfl, hfits⟩ := fits_of_taken (u := .text s) h
    exact ⟨hfits, finite_of_not_number rfl⟩
  | list items =>
    dsimp only [PropertyValue.ofJson] at h
    split at h
    · next hfits =>
      split at h
      · obtain rfl := Except.ok.inj h
        exact ⟨fits_of_eq hfits, finite_of_not_number rfl⟩
      · cases h
    · exact absurd h not_refused
  | record members => exact absurd h not_refused

lemma mem_propertiesOf {id : Nat} {kind : NodeKind} {es : List (String × Json)}
    {vs : List (String × PropertyValue)} (h : propertiesOf id kind es = .ok vs)
    {name : String} {w : PropertyValue} (hw : (name, w) ∈ vs) :
    ∃ v, (name, v) ∈ es ∧ PropertyValue.ofJson (kind.propertyKind? name) v = .ok w := by
  induction es generalizing vs with
  | nil =>
    cases h
    cases hw
  | cons e es ih =>
    obtain ⟨key, v⟩ := e
    rw [propertiesOf] at h
    obtain ⟨u, hu, h⟩ := exists_of_bind h
    obtain ⟨rest, hrest, h⟩ := exists_of_bind h
    obtain rfl := Except.ok.inj h
    rcases List.mem_cons.1 hw with heq | hw
    · obtain ⟨rfl, rfl⟩ := Prod.mk.inj heq
      exact ⟨v, List.mem_cons_self, eq_ok_of_mapError hu⟩
    · obtain ⟨v, hv, hread⟩ := ih hrest hw
      exact ⟨v, List.mem_cons_of_mem _ hv, hread⟩

/-- The numbers of the entry are in range. -/
structure Bounded (n : NodeEntry) : Prop where
  id : n.id < 2 ^ 64
  x : n.x.isFinite = true
  y : n.y.isFinite = true
  properties : ∀ e ∈ n.properties.entries, InRange e.2

lemma yields_nodeEntry : Yields NodeEntry.layout.decode Bounded := by
  refine yields_layout ⟨by decide, rfl, rfl, nofun⟩ ?_
  simp only [NodeEntry.layout, List.forall_mem_cons, List.not_mem_nil, false_imp_iff,
    implies_true, and_true]
  refine ⟨?_, ?_, ?_, ?_, ?_, ?_⟩
  · exact (yields_nat 64).keeps fun n id h hid => { h with id := hid }
  · exact (yields_true _).keeps fun n _ h _ => { h with }
  · exact (yields_any _).dict.keeps fun n _ h hproperties => { h with properties := hproperties }
  · exact yields_float.keeps fun n x h hx => { h with x := hx }
  · exact yields_float.keeps fun n y h hy => { h with y := hy }
  · exact (yields_true _).keeps fun n _ h _ => { h with }

lemma yields_graphEntry : Yields GraphEntry.layout.decode fun d => ∀ n ∈ d.nodes, Bounded n := by
  refine yields_layout nofun ?_
  simp only [GraphEntry.layout, List.forall_mem_cons, List.not_mem_nil, false_imp_iff,
    implies_true, and_true]
  refine ⟨?_, ?_, ?_, ?_, ?_, ?_⟩
  · exact (yields_true _).keeps fun d _ h _ => h
  · exact (yields_true _).keeps fun d _ h _ => h
  · exact yields_nodeEntry.list.keeps fun d nodes _ hnodes => hnodes
  · exact (yields_true _).keeps fun d _ h _ => h
  · exact (yields_true _).keeps fun d _ h _ => h
  · exact (yields_true _).keeps fun d _ h _ => h

lemma savable_node {entry : NodeEntry} {n : Node} (hentry : Bounded entry)
    (h : entry.node = .ok n) : n.Savable := by
  obtain ⟨kind, vs, hvs, rfl⟩ : ∃ kind vs, propertiesOf entry.id kind entry.properties.entries = .ok vs ∧
      n = ⟨entry.id, kind, .ofList vs, entry.loc.getD {}, entry.x, entry.y⟩ := by
    rw [NodeEntry.node] at h
    split at h
    · obtain ⟨kind, -, h⟩ := exists_of_bind h
      obtain ⟨vs, hvs, h⟩ := exists_of_bind h
      exact ⟨kind, vs, hvs, (Except.ok.inj h).symm⟩
    · cases h
  have hvalue : ∀ e ∈ (Dict.ofList vs).entries, e.2.Fits (kind.propertyKind? e.1) ∧
      ∀ x, e.2.number? = some x → x.isFinite = true := by
    rintro ⟨name, w⟩ he
    obtain ⟨v, hv, hread⟩ := mem_propertiesOf hvs (mem_of_mem_ofList he)
    exact fits_of_ofJson (hentry.properties _ hv) hread
  refine ⟨fun e he => (hvalue e he).1, fun x hx => ?_, hentry.id⟩
  rcases List.mem_cons.1 hx with rfl | hx
  · exact hentry.x
  rcases List.mem_cons.1 hx with rfl | hx
  · exact hentry.y
  obtain ⟨w, hw, hx⟩ := List.mem_filterMap.1 hx
  obtain ⟨e, he, rfl⟩ := List.mem_map.1 hw
  exact (hvalue e he).2 x hx

lemma savable_insert? {g g' : FlowGraph} {n : Node} (hg : g.Savable) (hn : n.Savable)
    (h : g.insert? n = some g') : g'.Savable := by
  obtain ⟨graph, hgraph, rfl⟩ := flow_insert?_eq_some.1 h
  intro m hm
  obtain ⟨id, hm⟩ := (mem_values_iff _ _).1 hm
  change graph.node? id = some m at hm
  rw [node?_insert? hgraph] at hm
  split at hm
  · exact Option.some.inj hm ▸ hn
  · exact hg m ((mem_values_iff _ _).2 ⟨id, hm⟩)

lemma savable_ofJson {g : FlowGraph} {text : String} (h : FlowGraph.ofJson text = .ok g) :
    g.Savable := by
  obtain ⟨entry, hentry, h⟩ := exists_of_bind h
  have hbounded := yields_graphEntry.readDocument hentry
  refine loaded_induct (P := FlowGraph.Savable) (fun _ => nofun) ?insert ?connect ?addScene
    (fun _ _ hg => hg) h
  case insert =>
    intro e he n hn g g' hinsert hg
    exact savable_insert? hg (savable_node (hbounded e he) hn) hinsert
  case connect =>
    intro g source target label g' hconnect hg
    obtain ⟨graph, hgraph, rfl⟩ := flow_connect_eq_ok.1 hconnect
    obtain ⟨-, -, rfl⟩ := connect_eq_ok.1 hgraph
    exact hg
  case addScene =>
    intro g scene id g' hscene hg
    obtain ⟨-, rfl⟩ := flow_addScene_eq_ok.1 hscene
    exact hg

end Reading

/-! ## Reloading -/

/-- A graph within reach that documents can hold comes back with its name, nodes, connections,
scenes and characters, and its counter stands after its greatest id, if its nodes have their own ids.
Every graph that a document is read as is of this sort, and it is written again as it was. -/
theorem flow_reloads (g : FlowGraph) :
    (g.Reachable → g.OwnIds → g.Savable → (∀ x ∈ g.numbers, Exact x) →
      FlowGraph.ofJson g.toJson = .ok { g with graph := { g.graph with
        nextId := g.graph.ids.max?.elim 1 fun id => min (id + 1) PortGraph.largestId } }) ∧
    ∀ text, FlowGraph.ofJson text = .ok g → g.Reachable ∧ g.OwnIds ∧ g.Savable ∧
      ((∀ x ∈ g.numbers, Exact x) →
        ∃ g', FlowGraph.ofJson g.toJson = .ok g' ∧ g'.toJson = g.toJson) := by
  refine ⟨ofJson_toJson_of_savable, fun text h => ?_⟩
  have hreach := reachable_ofJson h
  have hown := ownIds_ofJson h
  have hsavable := savable_ofJson h
  exact ⟨hreach, hown, hsavable, fun hexact =>
    ⟨_, ofJson_toJson_of_savable hreach hown hsavable hexact, rfl⟩⟩

/-- A wait with values that are not declared, after the last node was removed. -/
def loose : FlowGraph :=
  let g := ((({ name := "loose" } : FlowGraph).create .wait).2.create .comment).2.remove 2
  g.modify 1 fun n => (n.moveTo ⟨0x4008000000000000⟩ ⟨0x8000000000000000⟩).setAll [
    ("duration", .float ⟨0x3ff8000000000000⟩), ("depth", .int 3), ("mood", .null),
    ("tags", .texts ["a", ""]), ("weight", .float .zero)]

theorem loose_reloads :
    (loose.Reachable ∧ loose.OwnIds ∧ loose.Savable ∧ ∀ x ∈ loose.numbers, Exact x) ∧
    FlowGraph.ofJson loose.toJson =
      .ok { loose with graph := { loose.graph with nextId := 2 } } ∧
    ∃ g g', FlowGraph.ofJson loose.toJson = .ok g ∧ g.Savable ∧ FlowGraph.ofJson g.toJson = .ok g' ∧
      g'.toJson = g.toJson := by
  have hreach : loose.Reachable :=
    .edited 1 _ (.removed 2 (.created .comment (.created .wait (.empty _))))
  have hown : loose.OwnIds := by decide +kernel
  have hsavable : loose.Savable := by decide +kernel
  have hexact : ∀ x ∈ loose.numbers, Exact x := by decide +kernel
  have hreload := (flow_reloads loose).1 hreach hown hsavable hexact
  obtain ⟨-, -, hagain, hsame⟩ := (flow_reloads _).2 _ hreload
  obtain ⟨g', hread, htext⟩ := hsame hexact
  exact ⟨⟨hreach, hown, hsavable, hexact⟩, hreload, _, g', hreload, hagain, hread, htext⟩

/-- The document has the overwritten node under its other id, and a connection of a node that is not
in it. -/
theorem overwritten_not_reloaded : overwritten.Reachable ∧ overwritten.Savable ∧
    (∀ x ∈ overwritten.numbers, Exact x) ∧
    FlowGraph.ofJson overwritten.toJson = .error (.badLink "connection" (.unknownNode 1)) := by
  have hfinite : ∀ n ∈ overwritten.nodes, n.x.isFinite = true ∧ n.y.isFinite = true := by
    decide +kernel
  have hread : Readable overwritten.document := by decide +kernel
  refine ⟨reachable_overwritten, by decide +kernel, by decide +kernel, ?_⟩
  rw [FlowGraph.ofJson, FlowGraph.toJson, readDocument_pretty (decodes_graph hread hfinite) hread]
  rfl

end Novella.Proofs
