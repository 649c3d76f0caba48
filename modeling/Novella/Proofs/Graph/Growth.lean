import Novella.Proofs.Dict

/-!
# Graphs that only grow

A graph to which nodes and connections are only added, and no output port is connected twice, is
`Tidy`: its ids have no gaps, and the connection of a port is the only one there. `Later` says
how such a graph has grown, and from which ports the new connections start.
-/

namespace Novella.Proofs

variable {ν ε : Type}

/-- The ids are those handed out so far, and every output port is connected at most once. -/
structure Tidy (g : PortGraph ν ε) : Prop where
  ids : ∀ id, g.contains id = true ↔ 1 ≤ id ∧ id < g.nextId
  size : g.size + 1 = g.nextId
  outputs : ∀ e ∈ g.edges, e.source.isOutput = true
  known : ∀ e ∈ g.edges, e.source.node < g.nextId
  sources : (g.edges.map (·.source)).Nodup

/-- Nothing is connected to an output port. -/
def Free (g : PortGraph ν ε) (p : Port) : Prop := ∀ e ∈ g.edges, e.source ≠ p

/-- `g'` has the nodes of `g` and its edges first, and the other edges start at ports in `S`. -/
structure Later (S : Port → Prop) (g g' : PortGraph ν ε) : Prop where
  nextId : g.nextId ≤ g'.nextId
  nodes : ∀ id < g.nextId, g'.node? id = g.node? id
  edges : ∃ new, g'.edges = g.edges ++ new ∧ ∀ e ∈ new, S e.source

/-- `g'` has `more` more nodes than connections that `g` does not have. -/
def Balance (more : Nat) (g g' : PortGraph ν ε) : Prop :=
  g'.edges.length + g.nextId + more = g.edges.length + g'.nextId

variable {g g' g'' : PortGraph ν ε} {S S' : Port → Prop}

/-! ## Growing -/

lemma Later.refl (S : Port → Prop) (g : PortGraph ν ε) : Later S g g :=
  ⟨Nat.le_refl _, fun _ _ => rfl, [], (List.append_nil _).symm, fun _ h => by cases h⟩

lemma Later.mono (h : Later S g g') (hS : ∀ p, S p → S' p) : Later S' g g' := by
  obtain ⟨new, hedges, hnew⟩ := h.edges
  exact ⟨h.nextId, h.nodes, new, hedges, fun e he => hS _ (hnew e he)⟩

lemma Later.trans (h : Later S g g') (h' : Later S g' g'') : Later S g g'' := by
  obtain ⟨new, hedges, hnew⟩ := h.edges
  obtain ⟨new', hedges', hnew'⟩ := h'.edges
  refine ⟨Nat.le_trans h.nextId h'.nextId, fun id hid => ?_, new ++ new', ?_, fun e he => ?_⟩
  · rw [h'.nodes id (Nat.lt_of_lt_of_le hid h.nextId), h.nodes id hid]
  · rw [hedges', hedges, List.append_assoc]
  · rcases List.mem_append.1 he with he | he
    · exact hnew e he
    · exact hnew' e he

lemma Later.mem_edges (h : Later S g g') {e : Edge ε} (he : e ∈ g.edges) : e ∈ g'.edges := by
  obtain ⟨new, hedges, -⟩ := h.edges
  rw [hedges]
  exact List.mem_append_left _ he

lemma Free.later {p : Port} (hfree : Free g p) (h : Later S g g') (hp : ¬S p) : Free g' p := by
  obtain ⟨new, hedges, hnew⟩ := h.edges
  intro e he
  rw [hedges] at he
  rcases List.mem_append.1 he with he | he
  · exact hfree e he
  · rintro rfl
    exact hp (hnew e he)

lemma Balance.trans {more more' : Nat} (h : Balance more g g') (h' : Balance more' g' g'') :
    Balance (more + more') g g'' := by
  unfold Balance at *
  omega

/-! ## Adding nodes -/

lemma contains_iff_node? (id : Nat) : g.contains id = true ↔ ∃ n, g.node? id = some n :=
  contains_iff g.nodes id

lemma Tidy.node?_nextId (h : Tidy g) : g.node? g.nextId = none := by
  rw [← Option.not_isSome_iff_eq_none, Option.isSome_iff_exists, ← contains_iff_node?, h.ids]
  omega

lemma node?_add (g : PortGraph ν ε) (build : Nat → ν) (id : Nat) :
    (g.add build).2.node? id = if id = g.nextId then some (build g.nextId) else g.node? id :=
  get?_insert g.nodes g.nextId id _

lemma Tidy.add (h : Tidy g) (build : Nat → ν) : Tidy (g.add build).2 where
  ids id := by
    have hpos : 1 ≤ g.nextId := by
      have := h.size
      omega
    rw [contains_iff_node?, node?_add]
    by_cases hid : id = g.nextId
    · simp [hid, PortGraph.add, hpos]
    · rw [if_neg hid, ← contains_iff_node?, h.ids]
      simp only [PortGraph.add]
      omega
  size := by
    have hsize : (g.add build).2.size = g.size + 1 := size_insert_of_new g.nodes h.node?_nextId _
    rw [hsize, h.size]
    rfl
  outputs := h.outputs
  known e he := Nat.lt_succ_of_lt (h.known e he)
  sources := h.sources

lemma node?_modify (g : PortGraph ν ε) (id id' : Nat) (f : ν → ν) :
    (g.modify id f).node? id' = if id' = id then (g.node? id').map f else g.node? id' :=
  get?_modify g.nodes id id' f

lemma Tidy.modify (h : Tidy g) (id : Nat) (f : ν → ν) : Tidy (g.modify id f) where
  ids id' := by
    have hcontains : (g.modify id f).contains id' = true ↔ g.contains id' = true := by
      rw [contains_iff_node?, contains_iff_node?, node?_modify]
      by_cases hid : id' = id
      · simp [hid]
      · rw [if_neg hid]
    rw [hcontains]
    exact h.ids id'
  size := by
    have hsize : (g.modify id f).size = g.size := size_modify g.nodes id f
    rw [hsize]
    exact h.size
  outputs := h.outputs
  known := h.known
  sources := h.sources

/-! ## Adding connections -/

lemma Free.of_new (h : Tidy g) {p : Port} (hp : g.nextId ≤ p.node) : Free g p := by
  rintro e he rfl
  exact absurd (h.known e he) (Nat.not_lt.2 hp)

lemma Free.hasEdge {p : Port} (h : Free g p) (target : Port) : g.hasEdge p target = false := by
  rw [PortGraph.hasEdge, List.any_eq_false]
  intro e he
  simp [Edge.joins, h e he]

lemma connect_of_free {source target : Port} (hs : source.isOutput = true)
    (ht : target.isOutput = false) (hsource : g.contains source.node = true)
    (htarget : g.contains target.node = true) (hfree : Free g source) (data : ε) :
    g.connect source target data = .ok { g with edges := g.edges ++ [⟨source, target, data⟩] } := by
  simp [PortGraph.connect, hs, ht, hsource, htarget, hfree.hasEdge]

lemma Tidy.connected (h : Tidy g) {source target : Port} (hs : source.isOutput = true)
    (hsource : g.contains source.node = true) (hfree : Free g source) (data : ε) :
    Tidy ({ g with edges := g.edges ++ [⟨source, target, data⟩] } : PortGraph ν ε) where
  ids := h.ids
  size := h.size
  outputs e he := by
    rcases List.mem_append.1 he with he | he
    · exact h.outputs e he
    · obtain rfl := List.mem_singleton.1 he
      exact hs
  known e he := by
    rcases List.mem_append.1 he with he | he
    · exact h.known e he
    · obtain rfl := List.mem_singleton.1 he
      exact ((h.ids _).1 hsource).2
  sources := by
    rw [List.map_append, List.nodup_append]
    refine ⟨h.sources, List.nodup_singleton _, fun a ha b hb => ?_⟩
    obtain ⟨e, he, rfl⟩ := List.mem_map.1 ha
    obtain rfl := List.mem_singleton.1 hb
    exact hfree e he

lemma later_connected (g : PortGraph ν ε) (source target : Port) (data : ε) :
    Later (· = source) g { g with edges := g.edges ++ [⟨source, target, data⟩] } :=
  ⟨Nat.le_refl _, fun _ _ => rfl, [⟨source, target, data⟩], rfl, fun e he => by
    obtain rfl := List.mem_singleton.1 he
    rfl⟩

/-! ## Following connections -/

lemma mem_outgoingFrom {id : Nat} {port : String} {e : Edge ε} :
    e ∈ g.outgoingFrom id port ↔ e ∈ g.edges ∧ e.source.node = id ∧ e.source.name = port := by
  simp only [PortGraph.outgoingFrom, PortGraph.outgoing, List.mem_filter, decide_eq_true_eq,
    and_assoc]

lemma outgoingFrom_of_free {id : Nat} {port : String} (h : Tidy g) (hfree : Free g (.output id port)) :
    g.outgoingFrom id port = [] := by
  refine List.eq_nil_iff_forall_not_mem.2 fun e he => ?_
  obtain ⟨hmem, hnode, hname⟩ := mem_outgoingFrom.1 he
  refine hfree e hmem ?_
  have hout := h.outputs e hmem
  cases hsource : e.source with
  | mk node name isOutput =>
    simp only [hsource] at hnode hname hout
    rw [hnode, hname, hout, Port.output]

lemma eq_singleton {α : Type} {l : List α} {a : α} (hl : l.Nodup) (ha : a ∈ l)
    (h : ∀ b ∈ l, b = a) : l = [a] := by
  refine List.perm_singleton.1 ((List.perm_ext_iff_of_nodup hl (List.nodup_singleton a)).2 fun b => ?_)
  rw [List.mem_singleton]
  exact ⟨h b, fun hb => hb ▸ ha⟩

lemma outgoingFrom_of_mem {e : Edge ε} (h : Tidy g) (he : e ∈ g.edges) :
    g.outgoingFrom e.source.node e.source.name = [e] := by
  have hmem : e ∈ g.outgoingFrom e.source.node e.source.name := mem_outgoingFrom.2 ⟨he, rfl, rfl⟩
  have hall : ∀ e' ∈ g.outgoingFrom e.source.node e.source.name, e' = e := by
    intro e' he'
    obtain ⟨hmem', hnode, hname⟩ := mem_outgoingFrom.1 he'
    refine List.inj_on_of_nodup_map h.sources hmem' he ?_
    have hout := h.outputs e he
    have hout' := h.outputs e' hmem'
    cases hs : e.source with
    | mk node name isOutput =>
      cases hs' : e'.source with
      | mk node' name' isOutput' => simp_all
  have hnodup : (g.outgoingFrom e.source.node e.source.name).Nodup :=
    (List.Nodup.of_map _ h.sources).filter _ |>.filter _
  exact eq_singleton hnodup hmem hall

lemma mem_incoming {id : Nat} {e : Edge ε} : e ∈ g.incoming id ↔ e ∈ g.edges ∧ e.target.node = id := by
  simp only [PortGraph.incoming, List.mem_filter, decide_eq_true_eq]

/-- Where no two edges have one target, an edge is the only one to its target. -/
lemma incoming_of_mem {e : Edge ε} (h : (g.edges.map (·.target.node)).Nodup) (he : e ∈ g.edges) :
    g.incoming e.target.node = [e] := by
  refine eq_singleton ((List.Nodup.of_map _ h).filter _) (mem_incoming.2 ⟨he, rfl⟩) fun e' he' => ?_
  obtain ⟨hmem, htarget⟩ := mem_incoming.1 he'
  exact List.inj_on_of_nodup_map h hmem he htarget

end Novella.Proofs
