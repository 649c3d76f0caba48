import Novella.Flow.Graph
import Novella.Proofs.Graph.Growth
import Novella.Proofs.Results

/-!
# The store of a port graph

What every operation on a port graph keeps up is `Stored`: ids are positive, an edge leads from an
output port to an input port of nodes that are there, and no two edges join the same ports. `Housed`
adds the tables of a flow graph or of a canvas: a scene begins at a node that is there, and no two
characters have one id. That a node stands under its own id (`OwnIds`) is a condition apart, since an
edit may give a node another id. A graph of which both hold is `Sound`.

A sound graph can be made again from its parts in the order in which they are listed. Only the
counter may differ: it is the one that the ids of the graph ask for (`idAfter`).
-/

namespace Novella.Proofs

open Novella.Flow (Character putCharacter)

variable {ν ε : Type}

/-- An edge leads from an output port to an input port of nodes of the graph. -/
structure Joined (g : PortGraph ν ε) (e : Edge ε) : Prop where
  output : e.source.isOutput = true
  input : e.target.isOutput = false
  source : g.contains e.source.node = true
  target : g.contains e.target.node = true

/-- The two ports of an edge. -/
def portsOf (e : Edge ε) : Port × Port := (e.source, e.target)

/-- Every edge joins ports of nodes of the graph, and no two edges join the same ports. -/
structure Wired (g : PortGraph ν ε) : Prop where
  joined : ∀ e ∈ g.edges, Joined g e
  distinct : (g.edges.map portsOf).Nodup

instance (g : PortGraph ν ε) : DecidablePred (Joined g) := fun e =>
  decidable_of_iff (e.source.isOutput = true ∧ e.target.isOutput = false ∧
      g.contains e.source.node = true ∧ g.contains e.target.node = true)
    ⟨fun ⟨output, input, source, target⟩ => ⟨output, input, source, target⟩,
      fun h => ⟨h.output, h.input, h.source, h.target⟩⟩

instance (g : PortGraph ν ε) : Decidable (Wired g) :=
  decidable_of_iff ((∀ e ∈ g.edges, Joined g e) ∧ (g.edges.map portsOf).Nodup)
    ⟨fun ⟨joined, distinct⟩ => ⟨joined, distinct⟩, fun h => ⟨h.joined, h.distinct⟩⟩

/-- Ids are positive, and the graph is wired. -/
structure Stored (g : PortGraph ν ε) : Prop where
  nextId : 1 ≤ g.nextId
  positive : ∀ id, g.contains id = true → 1 ≤ id
  wired : Wired g

/-- Every node says of itself the id under which it stands. -/
def OwnIds (idOf : ν → Nat) (g : PortGraph ν ε) : Prop :=
  ∀ id n, g.node? id = some n → idOf n = id

instance (idOf : ν → Nat) (g : PortGraph ν ε) : Decidable (OwnIds idOf g) :=
  decidable_of_iff (∀ e ∈ g.nodes.entries, idOf e.2 = e.1)
    ⟨fun h id n hn => h (id, n) ((mem_entries_iff g.nodes id n).2 hn),
      fun h e he => h e.1 e.2 ((mem_entries_iff g.nodes e.1 e.2).1 he)⟩

/-- Edges and scenes have their nodes, and no two edges or characters are for the same ports or id. -/
structure Housed (g : PortGraph ν ε) (scenes : Dict String Nat) (characters : List Character) :
    Prop where
  stored : Stored g
  scenes : ∀ name id, scenes.get? name = some id → g.contains id = true
  characters : (characters.map (·.id)).Nodup

structure Sound (idOf : ν → Nat) (g : PortGraph ν ε) (scenes : Dict String Nat)
    (characters : List Character) : Prop extends Housed g scenes characters where
  own : OwnIds idOf g

section Operations

variable {idOf : ν → Nat} {g g' : PortGraph ν ε}

lemma Joined.of_contains {e : Edge ε} (h : Joined g e)
    (hcontains : ∀ id, g.contains id = true → g'.contains id = true) : Joined g' e :=
  ⟨h.output, h.input, hcontains _ h.source, hcontains _ h.target⟩

/-- Where nodes are only added and connections only lost, the rest are still wired. -/
lemma Wired.of_sublist (h : Wired g) (hports : (g'.edges.map portsOf).Sublist (g.edges.map portsOf))
    (hcontains : ∀ id, g.contains id = true → g'.contains id = true) : Wired g' where
  joined e he := by
    obtain ⟨e', he', heq⟩ := List.mem_map.1 (hports.subset (List.mem_map_of_mem he))
    obtain ⟨hsource, htarget⟩ := Prod.mk.inj heq
    have hjoined := (h.joined e' he').of_contains hcontains
    exact ⟨hsource ▸ hjoined.output, htarget ▸ hjoined.input, hsource ▸ hjoined.source,
      htarget ▸ hjoined.target⟩
  distinct := h.distinct.sublist hports

lemma wired_empty : Wired ({} : PortGraph ν ε) := ⟨nofun, List.nodup_nil⟩

lemma stored_empty : Stored ({} : PortGraph ν ε) :=
  ⟨Nat.le_refl 1, fun _ hid => (nomatch hid), wired_empty⟩

lemma ownIds_empty (idOf : ν → Nat) : OwnIds idOf ({} : PortGraph ν ε) := fun _ _ hn => (nomatch hn)

lemma contains_add (g : PortGraph ν ε) (build : Nat → ν) (id : Nat) :
    (g.add build).2.contains id = true ↔ id = g.nextId ∨ g.contains id = true := by
  rw [contains_iff_node?, contains_iff_node?, node?_add]
  by_cases h : id = g.nextId <;> simp [h]

lemma Wired.add (h : Wired g) (build : Nat → ν) : Wired (g.add build).2 :=
  h.of_sublist (.refl _) fun id hid => (contains_add g build id).2 (.inr hid)

lemma Stored.add (h : Stored g) (build : Nat → ν) : Stored (g.add build).2 where
  nextId := Nat.le_succ_of_le h.nextId
  positive id hid := ((contains_add g build id).1 hid).elim (· ▸ h.nextId) (h.positive id)
  wired := h.wired.add build

lemma OwnIds.add (h : OwnIds idOf g) (build : Nat → ν) (hself : idOf (build g.nextId) = g.nextId) :
    OwnIds idOf (g.add build).2 := by
  intro id n hn
  rw [node?_add] at hn
  split at hn
  · next hid =>
    obtain rfl := Option.some.inj hn
    exact hid ▸ hself
  · exact h id n hn

/-- A node is refused only for its id: it must be positive, and not taken. -/
lemma insert?_eq_some {id : Nat} {n : ν} : g.insert? id n = some g' ↔ id ≠ 0 ∧
    g.contains id = false ∧ g' = { g with
      nodes := g.nodes.insert id n, nextId := max g.nextId (min (id + 1) PortGraph.largestId) } := by
  rw [PortGraph.insert?]
  by_cases hzero : id = 0
  · simp [hzero]
  · by_cases htaken : g.contains id = true
    · simp [htaken]
    · simp [hzero, htaken, eq_comm]

lemma node?_insert? {id : Nat} {n : ν} (hg : g.insert? id n = some g') (id' : Nat) :
    g'.node? id' = if id' = id then some n else g.node? id' := by
  obtain ⟨-, -, rfl⟩ := insert?_eq_some.1 hg
  exact get?_insert g.nodes id id' n

lemma contains_insert? {id : Nat} {n : ν} (hg : g.insert? id n = some g') (id' : Nat) :
    g'.contains id' = true ↔ id' = id ∨ g.contains id' = true := by
  rw [contains_iff_node?, contains_iff_node?, node?_insert? hg]
  by_cases h : id' = id <;> simp [h]

lemma Wired.insert? (h : Wired g) {id : Nat} {n : ν} (hg : g.insert? id n = some g') : Wired g' := by
  have hcontains := contains_insert? hg
  obtain ⟨-, -, rfl⟩ := insert?_eq_some.1 hg
  exact h.of_sublist (.refl _) fun id' hid' => (hcontains id').2 (.inr hid')

lemma Stored.insert? (h : Stored g) {id : Nat} {n : ν} (hg : g.insert? id n = some g') :
    Stored g' := by
  have hcontains := contains_insert? hg
  have hwired := h.wired.insert? hg
  obtain ⟨hpos, -, rfl⟩ := insert?_eq_some.1 hg
  refine ⟨Nat.le_trans h.nextId (Nat.le_max_left _ _), fun id' hid' => ?_, hwired⟩
  exact ((hcontains id').1 hid').elim (· ▸ Nat.one_le_iff_ne_zero.2 hpos) (h.positive id')

lemma OwnIds.insert? (h : OwnIds idOf g) {id : Nat} {n : ν} (hself : idOf n = id)
    (hg : g.insert? id n = some g') : OwnIds idOf g' := by
  intro id' n' hn'
  rw [node?_insert? hg] at hn'
  split at hn'
  · next hid =>
    obtain rfl := Option.some.inj hn'
    exact hid ▸ hself
  · exact h id' n' hn'

lemma contains_modify (g : PortGraph ν ε) (id : Nat) (f : ν → ν) (id' : Nat) :
    (g.modify id f).contains id' = g.contains id' := by
  rw [Bool.eq_iff_iff, contains_iff_node?, contains_iff_node?, node?_modify]
  by_cases h : id' = id <;> simp [h]

lemma node?_modify_of_some {id id' : Nat} {n : ν} (f : ν → ν) (hn : g.node? id' = some n) :
    (g.modify id f).node? id' = some (if id' = id then f n else n) := by
  rw [node?_modify, hn]
  split <;> rfl

lemma Wired.modify (h : Wired g) (id : Nat) (f : ν → ν) : Wired (g.modify id f) :=
  h.of_sublist (.refl _) fun id' hid' => (contains_modify g id f id').trans hid'

lemma Stored.modify (h : Stored g) (id : Nat) (f : ν → ν) : Stored (g.modify id f) where
  nextId := h.nextId
  positive id' hid' := h.positive id' ((contains_modify g id f id').symm.trans hid')
  wired := h.wired.modify id f

/-- An edit keeps own ids if it does not change the id of the node. -/
lemma OwnIds.modify (h : OwnIds idOf g) (id : Nat) {f : ν → ν} (hself : ∀ n, idOf (f n) = idOf n) :
    OwnIds idOf (g.modify id f) := by
  intro id' n hn
  rw [node?_modify] at hn
  split at hn
  · obtain ⟨n', hn', rfl⟩ := Option.map_eq_some_iff.1 hn
    rw [hself]
    exact h id' n' hn'
  · exact h id' n hn

lemma node?_mapNodes (g : PortGraph ν ε) (f : Nat → ν → ν) (id : Nat) :
    (g.mapNodes f).node? id = (g.node? id).map (f id) :=
  get?_map g.nodes f id

lemma contains_mapNodes (g : PortGraph ν ε) (f : Nat → ν → ν) (id : Nat) :
    (g.mapNodes f).contains id = g.contains id := by
  rw [Bool.eq_iff_iff, contains_iff_node?, contains_iff_node?, node?_mapNodes]
  simp

lemma Wired.mapNodes (h : Wired g) (f : Nat → ν → ν) : Wired (g.mapNodes f) :=
  h.of_sublist (.refl _) fun id hid => (contains_mapNodes g f id).trans hid

lemma Stored.mapNodes (h : Stored g) (f : Nat → ν → ν) : Stored (g.mapNodes f) where
  nextId := h.nextId
  positive id hid := h.positive id ((contains_mapNodes g f id).symm.trans hid)
  wired := h.wired.mapNodes f

lemma OwnIds.mapNodes (h : OwnIds idOf g) {f : Nat → ν → ν} (hself : ∀ id n, idOf (f id n) = idOf n) :
    OwnIds idOf (g.mapNodes f) := by
  intro id n hn
  rw [node?_mapNodes] at hn
  obtain ⟨n', hn', rfl⟩ := Option.map_eq_some_iff.1 hn
  rw [hself]
  exact h id n' hn'

lemma node?_remove_iff (g : PortGraph ν ε) (id id' : Nat) (n : ν) :
    (g.remove id).node? id' = some n ↔ g.node? id' = some n ∧ id' ≠ id :=
  get?_erase_iff g.nodes id id' n

lemma contains_remove (g : PortGraph ν ε) (id id' : Nat) :
    (g.remove id).contains id' = true ↔ g.contains id' = true ∧ id' ≠ id := by
  simp only [contains_iff_node?, node?_remove_iff]
  exact ⟨fun ⟨n, hn, hne⟩ => ⟨⟨n, hn⟩, hne⟩, fun ⟨⟨n, hn⟩, hne⟩ => ⟨n, hn, hne⟩⟩

lemma Wired.remove (h : Wired g) (id : Nat) : Wired (g.remove id) where
  joined e he := by
    obtain ⟨hmem, huntouched⟩ := List.mem_filter.1 he
    simp only [Edge.touches, Bool.not_eq_true', Bool.or_eq_false_iff, decide_eq_false_iff_not]
      at huntouched
    have hjoined := h.joined e hmem
    exact ⟨hjoined.output, hjoined.input,
      (contains_remove g id _).2 ⟨hjoined.source, huntouched.1⟩,
      (contains_remove g id _).2 ⟨hjoined.target, huntouched.2⟩⟩
  distinct := h.distinct.sublist (List.filter_sublist.map _)

lemma Stored.remove (h : Stored g) (id : Nat) : Stored (g.remove id) where
  nextId := h.nextId
  positive id' hid' := h.positive id' ((contains_remove g id id').1 hid').1
  wired := h.wired.remove id

lemma OwnIds.remove (h : OwnIds idOf g) (id : Nat) : OwnIds idOf (g.remove id) := fun id' n hn =>
  h id' n ((node?_remove_iff g id id' n).1 hn).1

lemma hasEdge_iff {source target : Port} :
    g.hasEdge source target = true ↔ (source, target) ∈ g.edges.map portsOf := by
  simp only [PortGraph.hasEdge, List.any_eq_true, Edge.joins, Bool.and_eq_true, decide_eq_true_eq,
    List.mem_map, portsOf, Prod.mk.injEq]

/-- Two ports are joined if their directions are right, their nodes are there, and they are not
joined yet. -/
lemma connect_eq_ok {source target : Port} {data : ε} : g.connect source target data = .ok g' ↔
    Joined g ⟨source, target, data⟩ ∧ (source, target) ∉ g.edges.map portsOf ∧
      g' = { g with edges := g.edges ++ [⟨source, target, data⟩] } := by
  rw [← hasEdge_iff, PortGraph.connect]
  constructor
  · intro h
    split at h
    · cases h
    split at h
    · cases h
    split at h
    · cases h
    split at h
    · cases h
    split at h
    · cases h
    next hs ht hsource htarget hedge =>
    simp only [Bool.not_eq_true', Bool.not_eq_false] at hs hsource htarget
    exact ⟨⟨hs, Bool.not_eq_true _ ▸ ht, hsource, htarget⟩, hedge, (Except.ok.inj h).symm⟩
  · rintro ⟨⟨hs, ht, hsource, htarget⟩, hedge, rfl⟩
    dsimp only at hs ht hsource htarget
    simp [hs, ht, hsource, htarget, hedge]

lemma Wired.connect (h : Wired g) {source target : Port} {data : ε}
    (hg : g.connect source target data = .ok g') : Wired g' := by
  obtain ⟨hjoined, hnew, rfl⟩ := connect_eq_ok.1 hg
  refine ⟨fun e he => ?_, ?_⟩
  · rcases List.mem_append.1 he with he | he
    · exact (h.joined e he).of_contains fun _ hid => hid
    · obtain rfl := List.mem_singleton.1 he
      exact hjoined.of_contains fun _ hid => hid
  · rw [List.map_append, List.nodup_append]
    refine ⟨h.distinct, List.nodup_singleton _, fun a ha b hb => ?_⟩
    obtain rfl := List.mem_singleton.1 hb
    rintro rfl
    exact hnew ha

lemma Stored.connect (h : Stored g) {source target : Port} {data : ε}
    (hg : g.connect source target data = .ok g') : Stored g' := by
  have hwired := h.wired.connect hg
  obtain ⟨-, -, rfl⟩ := connect_eq_ok.1 hg
  exact ⟨h.nextId, h.positive, hwired⟩

lemma OwnIds.connect (h : OwnIds idOf g) {source target : Port} {data : ε}
    (hg : g.connect source target data = .ok g') : OwnIds idOf g' := by
  obtain ⟨-, -, rfl⟩ := connect_eq_ok.1 hg
  exact h

lemma Wired.disconnect (h : Wired g) (source target : Port) : Wired (g.disconnect source target) :=
  h.of_sublist (List.eraseP_sublist.map _) fun _ hid => hid

lemma Stored.disconnect (h : Stored g) (source target : Port) :
    Stored (g.disconnect source target) :=
  ⟨h.nextId, h.positive, h.wired.disconnect source target⟩

/-- The nodes of a graph in order with their ids. -/
lemma entries_eq_values (h : OwnIds idOf g) :
    g.nodes.entries = g.nodes.values.map fun n => (idOf n, n) := by
  rw [Dict.values, List.map_map]
  refine ((List.map_congr_left fun e he => ?_).trans (List.map_id _)).symm
  exact Prod.ext (h e.1 e.2 ((mem_entries_iff g.nodes e.1 e.2).1 he)) rfl

end Operations

/-! ## Tables -/

section Tables

variable {idOf : ν → Nat} {g g' : PortGraph ν ε} {scenes : Dict String Nat}
  {characters : List Character}

lemma ids_putCharacter (c : Character) (cs : List Character) :
    (putCharacter c cs).map (·.id) =
      if c.id ∈ cs.map (·.id) then cs.map (·.id) else cs.map (·.id) ++ [c.id] := by
  induction cs with
  | nil => simp [putCharacter]
  | cons d cs ih =>
    rw [putCharacter]
    by_cases h : d.id = c.id
    · simp [h]
    · have hne : c.id ≠ d.id := Ne.symm h
      rw [if_neg h, List.map_cons, ih]
      simp only [List.map_cons, List.mem_cons, hne, false_or]
      split <;> rfl

lemma nodup_putCharacter (c : Character) {cs : List Character} (h : (cs.map (·.id)).Nodup) :
    ((putCharacter c cs).map (·.id)).Nodup := by
  rw [ids_putCharacter]
  split
  · exact h
  · next hnew => exact List.nodup_append.2 ⟨h, List.nodup_singleton _, by simpa using hnew⟩

/-- A character with an id of its own comes last. -/
lemma putCharacter_of_new {c : Character} {cs : List Character} (h : c.id ∉ cs.map (·.id)) :
    putCharacter c cs = cs ++ [c] := by
  induction cs with
  | nil => rfl
  | cons d cs ih =>
    rw [List.map_cons, List.mem_cons, not_or] at h
    rw [putCharacter, if_neg (Ne.symm h.1), ih h.2]
    rfl

lemma housed_empty : Housed ({} : PortGraph ν ε) .empty [] :=
  ⟨stored_empty, fun _ _ h => (nomatch h), List.nodup_nil⟩

/-- The tables keep their nodes as long as no node is lost. -/
lemma Housed.of_stored (h : Housed g scenes characters) (hg : Stored g')
    (hcontains : ∀ id, g.contains id = true → g'.contains id = true) : Housed g' scenes characters :=
  ⟨hg, fun name id hid => hcontains id (h.scenes name id hid), h.characters⟩

lemma Housed.add (h : Housed g scenes characters) (build : Nat → ν) :
    Housed (g.add build).2 scenes characters :=
  h.of_stored (h.stored.add build) fun id hid => (contains_add g build id).2 (.inr hid)

lemma Housed.insert? (h : Housed g scenes characters) {id : Nat} {n : ν}
    (hg : g.insert? id n = some g') : Housed g' scenes characters :=
  h.of_stored (h.stored.insert? hg) fun id' hid' => (contains_insert? hg id').2 (.inr hid')

lemma Housed.modify (h : Housed g scenes characters) (id : Nat) (f : ν → ν) :
    Housed (g.modify id f) scenes characters :=
  h.of_stored (h.stored.modify id f) fun id' hid' => (contains_modify g id f id').trans hid'

lemma Housed.mapNodes (h : Housed g scenes characters) (f : Nat → ν → ν) :
    Housed (g.mapNodes f) scenes characters :=
  h.of_stored (h.stored.mapNodes f) fun id hid => (contains_mapNodes g f id).trans hid

lemma Housed.connect (h : Housed g scenes characters) {source target : Port} {data : ε}
    (hg : g.connect source target data = .ok g') : Housed g' scenes characters := by
  refine h.of_stored (h.stored.connect hg) fun id hid => ?_
  obtain ⟨-, -, rfl⟩ := connect_eq_ok.1 hg
  exact hid

lemma Housed.disconnect (h : Housed g scenes characters) (source target : Port) :
    Housed (g.disconnect source target) scenes characters :=
  h.of_stored (h.stored.disconnect source target) fun _ hid => hid

/-- A node is removed together with the scenes that begin at it. -/
lemma Housed.remove (h : Housed g scenes characters) (id : Nat) :
    Housed (g.remove id) (scenes.filter fun _ start => start ≠ id) characters where
  stored := h.stored.remove id
  scenes name start hstart := by
    obtain ⟨hstart, hne⟩ := (get?_filter_iff _ _ _ _).1 hstart
    exact (contains_remove g id start).2 ⟨h.scenes name start hstart, of_decide_eq_true hne⟩
  characters := h.characters

lemma Housed.addScene (h : Housed g scenes characters) (name : String) {id : Nat}
    (hid : g.contains id = true) : Housed g (scenes.insert name id) characters where
  stored := h.stored
  scenes name' id' hid' := by
    rw [get?_insert] at hid'
    split at hid'
    · exact Option.some.inj hid' ▸ hid
    · exact h.scenes name' id' hid'
  characters := h.characters

lemma Housed.addCharacter (h : Housed g scenes characters) (c : Character) :
    Housed g scenes (putCharacter c characters) :=
  ⟨h.stored, h.scenes, nodup_putCharacter c h.characters⟩

end Tables

/-- The graph with every node replaced by what `f` makes of it. -/
def overNodes {ν' : Type} (f : ν → ν') (g : PortGraph ν ε) : PortGraph ν' ε :=
  ⟨g.nodes.map fun _ n => f n, g.edges, g.nextId⟩

section OverNodes

variable {ν' : Type} {f : ν → ν'} {idOf : ν → Nat} {idOf' : ν' → Nat} {g : PortGraph ν ε}
  {scenes : Dict String Nat} {characters : List Character}

lemma node?_overNodes (f : ν → ν') (g : PortGraph ν ε) (id : Nat) :
    (overNodes f g).node? id = (g.node? id).map f :=
  get?_map g.nodes _ id

lemma contains_overNodes (f : ν → ν') (g : PortGraph ν ε) (id : Nat) :
    (overNodes f g).contains id = g.contains id := by
  rw [Bool.eq_iff_iff, contains_iff_node?, contains_iff_node?, node?_overNodes]
  simp

lemma values_overNodes (f : ν → ν') (g : PortGraph ν ε) :
    (overNodes f g).nodes.values = g.nodes.values.map f := by
  simp [overNodes, Dict.values, Dict.map]

lemma entries_overNodes (h : OwnIds idOf g) (f : ν → ν') :
    (overNodes f g).nodes.entries = g.nodes.values.map fun n => (idOf n, f n) := by
  change g.nodes.entries.map (fun e => (e.1, f e.2)) = _
  rw [entries_eq_values h, List.map_map]
  rfl

lemma Stored.overNodes (h : Stored g) (f : ν → ν') : Stored (overNodes f g) where
  nextId := h.nextId
  positive id hid := h.positive id ((contains_overNodes f g id).symm.trans hid)
  wired :=
    { joined := fun e he =>
        have hjoined := h.wired.joined e he
        ⟨hjoined.output, hjoined.input, (contains_overNodes f g _).trans hjoined.source,
          (contains_overNodes f g _).trans hjoined.target⟩
      distinct := h.wired.distinct }

/-- Nodes may be replaced by others with the same ids. -/
lemma OwnIds.overNodes (h : OwnIds idOf g) (hf : ∀ n, idOf' (f n) = idOf n) :
    OwnIds idOf' (overNodes f g) := by
  intro id n hn
  rw [node?_overNodes] at hn
  obtain ⟨m, hm, rfl⟩ := Option.map_eq_some_iff.1 hn
  rw [hf]
  exact h id m hm

lemma Sound.overNodes (h : Sound idOf g scenes characters) (hf : ∀ n, idOf' (f n) = idOf n) :
    Sound idOf' (overNodes f g) scenes characters where
  stored := h.stored.overNodes f
  scenes name id hid := (contains_overNodes f g id).trans (h.scenes name id hid)
  characters := h.characters
  own := h.own.overNodes hf

end OverNodes

/-! ## Making a graph again -/

/-- The counter of a graph to which nodes with the given ids were added one after the other. -/
def idAfter (ids : List Nat) : Nat :=
  ids.foldl (fun next id => max next (min (id + 1) PortGraph.largestId)) 1

/-- The graph with the counter that its ids ask for. -/
def recounted (g : PortGraph ν ε) : PortGraph ν ε := { g with nextId := idAfter g.ids }

lemma one_le_idAfter (ids : List Nat) : 1 ≤ idAfter ids :=
  List.foldlRecOn (motive := fun next => 1 ≤ next) _ _ (Nat.le_refl 1)
    fun _ h _ _ => Nat.le_trans h (Nat.le_max_left _ _)

lemma foldl_max_min (a bound : Nat) (ids : List Nat) :
    ids.foldl (fun next id => max next (min (id + 1) bound)) (min (a + 1) bound) =
      min (ids.foldl max a + 1) bound := by
  induction ids generalizing a with
  | nil => rfl
  | cons id ids ih =>
    rw [List.foldl_cons, List.foldl_cons, ← ih]
    congr 1
    omega

/-- The counter that ids ask for is one above the greatest, as far as it can be. -/
lemma idAfter_eq (ids : List Nat) :
    idAfter ids = ids.max?.elim 1 fun id => min (id + 1) PortGraph.largestId := by
  have hlargest : 1 ≤ PortGraph.largestId := by decide
  rw [idAfter]
  cases ids with
  | nil => rfl
  | cons id ids =>
    rw [List.foldl_cons, List.max?_cons', Option.elim_some, ← foldl_max_min]
    congr 1
    omega

lemma Stored.recounted {g : PortGraph ν ε} (h : Stored g) : Stored (recounted g) :=
  ⟨one_le_idAfter _, h.positive, fun e he => (h.wired.joined e he).of_contains fun _ hid => hid,
    h.wired.distinct⟩

lemma Sound.recounted {idOf : ν → Nat} {g : PortGraph ν ε} {scenes : Dict String Nat}
    {characters : List Character} (h : Sound idOf g scenes characters) :
    Sound idOf (recounted g) scenes characters :=
  ⟨h.toHoused.of_stored h.stored.recounted fun _ hid => hid, h.own⟩

section Again

variable {idOf : ν → Nat} {g : PortGraph ν ε} {scenes : Dict String Nat}
  {characters : List Character}

lemma run_insert {rest : List (Nat × ν)} {d : Dict Nat ν} {edges : List (Edge ε)} {next : Nat}
    (hpos : ∀ e ∈ rest, e.1 ≠ 0) (hsorted : Dict.Sorted (d.entries ++ rest)) :
    rest.foldlM (fun (g : PortGraph ν ε) e => g.insert? e.1 e.2) ⟨d, edges, next⟩ =
      some ⟨⟨d.entries ++ rest, hsorted⟩, edges, (rest.map (·.1)).foldl
        (fun next id => max next (min (id + 1) PortGraph.largestId)) next⟩ := by
  induction rest generalizing d next with
  | nil =>
    have hd : d = ⟨d.entries ++ [], hsorted⟩ := dict_ext (List.append_nil _).symm
    rw [← hd]
    rfl
  | cons e rest ih =>
    obtain ⟨hzero, hpos⟩ := List.forall_mem_cons.1 hpos
    have hbefore : ∀ e' ∈ d.entries, compare e'.1 e.1 = .lt := fun e' he' =>
      (List.pairwise_append.1 hsorted).2.2 e' he' e List.mem_cons_self
    have hlast : (d.insert e.1 e.2).entries = d.entries ++ [e] := insertEntry_last hbefore e.2
    have hfree : (⟨d, edges, next⟩ : PortGraph ν ε).contains e.1 = false := by
      rw [Bool.eq_false_iff]
      intro hcontains
      obtain ⟨n, hn⟩ := (contains_iff d e.1).1 hcontains
      have hlt := hbefore _ ((mem_entries_iff d e.1 n).2 hn)
      rw [Std.ReflOrd.compare_self] at hlt
      cases hlt
    have hmore : Dict.Sorted ((d.insert e.1 e.2).entries ++ rest) := by
      rw [hlast, List.append_assoc, List.singleton_append]
      exact hsorted
    have hnodes : (⟨(d.insert e.1 e.2).entries ++ rest, hmore⟩ : Dict Nat ν) =
        ⟨d.entries ++ e :: rest, hsorted⟩ :=
      dict_ext (by
        change (d.insert e.1 e.2).entries ++ rest = d.entries ++ e :: rest
        rw [hlast, List.append_assoc, List.singleton_append])
    rw [List.foldlM_cons, insert?_eq_some.2 ⟨hzero, hfree, rfl⟩, Option.bind_eq_bind,
      Option.bind_some, ih hpos hmore, hnodes]
    rfl

/-- The nodes of a graph can be added one after the other. -/
lemma run_nodes (h : Stored g) :
    g.nodes.entries.foldlM (fun (g : PortGraph ν ε) e => g.insert? e.1 e.2) {} =
      some { nodes := g.nodes, nextId := idAfter g.ids } := by
  have hpos : ∀ e ∈ g.nodes.entries, e.1 ≠ 0 := by
    rintro ⟨id, n⟩ he
    have hlive := (contains_iff_node? id).2 ⟨n, (mem_entries_iff g.nodes id n).1 he⟩
    exact Nat.one_le_iff_ne_zero.1 (h.positive id hlive)
  exact run_insert (d := Dict.empty) hpos g.nodes.sorted

lemma run_connect {rest : List (Edge ε)} {g : PortGraph ν ε} (hjoined : ∀ e ∈ rest, Joined g e)
    (hdistinct : ((g.edges ++ rest).map portsOf).Nodup) :
    rest.foldlM (fun (g : PortGraph ν ε) e => (g.connect e.source e.target e.data).toOption) g =
      some { g with edges := g.edges ++ rest } := by
  induction rest generalizing g with
  | nil => simp only [List.append_nil]; rfl
  | cons e rest ih =>
    obtain ⟨he, hrest⟩ := List.forall_mem_cons.1 hjoined
    have hnew : (e.source, e.target) ∉ g.edges.map portsOf := by
      rw [List.map_append, List.map_cons] at hdistinct
      exact fun hmem => (List.nodup_append.1 hdistinct).2.2 _ hmem _ List.mem_cons_self rfl
    have hmore : g.edges ++ e :: rest = (g.edges ++ [e]) ++ rest := by
      rw [List.append_assoc, List.singleton_append]
    have hjoined' : ∀ e' ∈ rest, Joined ({ g with edges := g.edges ++ [e] } : PortGraph ν ε) e' :=
      fun e' he' => (hrest e' he').of_contains fun _ hid => hid
    rw [List.foldlM_cons, connect_eq_ok.2 ⟨he, hnew, rfl⟩, hmore]
    exact ih hjoined' (hmore ▸ hdistinct)

/-- The edges of a graph can be added to its nodes one after the other. -/
lemma run_edges (h : Stored g) :
    g.edges.foldlM (fun (g : PortGraph ν ε) e => (g.connect e.source e.target e.data).toOption)
      { nodes := g.nodes, nextId := idAfter g.ids } = some (recounted g) :=
  run_connect (fun e he => (h.wired.joined e he).of_contains fun _ hid => hid) h.wired.distinct

/-- The scenes of a graph can be entered one after the other. -/
lemma run_scenes (h : Housed g scenes characters) :
    scenes.entries.foldlM (fun (d : Dict String Nat) e =>
      if g.contains e.2 then some (d.insert e.1 e.2) else none) .empty = some scenes := by
  have hrun : ∀ (rest : List (String × Nat)) (d : Dict String Nat),
      (∀ e ∈ rest, g.contains e.2 = true) →
      rest.foldlM (fun (d : Dict String Nat) e =>
        if g.contains e.2 then some (d.insert e.1 e.2) else none) d =
        some (rest.foldl (fun d e => d.insert e.1 e.2) d) := by
    intro rest
    induction rest with
    | nil => exact fun _ _ => rfl
    | cons e rest ih =>
      intro d hmem
      obtain ⟨he, hrest⟩ := List.forall_mem_cons.1 hmem
      rw [List.foldlM_cons, if_pos he]
      exact ih _ hrest
  rw [hrun _ _ fun e he => h.scenes e.1 e.2 ((mem_entries_iff scenes e.1 e.2).1 he)]
  exact congrArg some (ofList_entries scenes)

/-- The characters of a graph can be put one after the other. -/
lemma foldl_putCharacter (h : (characters.map (·.id)).Nodup) :
    characters.foldl (fun cs c => putCharacter c cs) [] = characters := by
  have hrun : ∀ (rest done : List Character), ((done ++ rest).map (·.id)).Nodup →
      rest.foldl (fun cs c => putCharacter c cs) done = done ++ rest := by
    intro rest
    induction rest with
    | nil => exact fun done _ => (List.append_nil done).symm
    | cons c rest ih =>
      intro done hnodup
      have hnew : c.id ∉ done.map (·.id) := by
        rw [List.map_append, List.map_cons] at hnodup
        exact fun hmem => (List.nodup_append.1 hnodup).2.2 _ hmem _ List.mem_cons_self rfl
      have hmore : done ++ c :: rest = (done ++ [c]) ++ rest := by
        rw [List.append_assoc, List.singleton_append]
      rw [List.foldl_cons, putCharacter_of_new hnew, ih _ (hmore ▸ hnodup), hmore]
  exact hrun characters [] h

/-- A graph is made again from lists of its nodes, edges, scenes and characters, by steps
that do with an item of a list what the operations of graphs do with the part of the graph. -/
theorem assembled {σ ι κ : Type} (make : PortGraph ν ε → Dict String Nat → List Character → σ)
    {addNode : σ → ι → Except Fault σ} {addEdge : σ → κ → Except Fault σ}
    {addScene : σ → String × Nat → Except Fault σ} {addCharacter : σ → Character → σ}
    {items : List ι} {links : List κ} (h : Housed g scenes characters)
    (hnodes : List.Forall₂ (fun i (e : Nat × ν) => ∀ c c', PortGraph.insert? c e.1 e.2 = some c' →
      addNode (make c .empty []) i = .ok (make c' .empty [])) items g.nodes.entries)
    (hedges : List.Forall₂ (fun l (e : Edge ε) => ∀ c c',
      PortGraph.connect c e.source e.target e.data = .ok c' →
      addEdge (make c .empty []) l = .ok (make c' .empty [])) links g.edges)
    (hscenes : ∀ c d e, PortGraph.contains c e.2 = true →
      addScene (make c d []) e = .ok (make c (d.insert e.1 e.2) []))
    (hcharacters : ∀ c d cs x, addCharacter (make c d cs) x = make c d (putCharacter x cs)) :
    (do
      let s ← items.foldlM addNode (make {} .empty [])
      let s ← links.foldlM addEdge s
      let s ← scenes.entries.foldlM addScene s
      return characters.foldl addCharacter s) = .ok (make (recounted g) scenes characters) := by
  let stage : PortGraph ν ε → σ := fun c => make c .empty []
  have hnodes' : items.foldlM addNode (make {} .empty []) =
      .ok (stage { nodes := g.nodes, nextId := idAfter g.ids }) :=
    foldlM_follows hnodes (run_nodes h.stored)
  have hedges' : links.foldlM addEdge (stage { nodes := g.nodes, nextId := idAfter g.ids }) =
      .ok (stage (recounted g)) := by
    exact foldlM_follows
      (hedges.imp fun l e hstep c c' hc => hstep c c' (eq_ok_of_toOption hc)) (run_edges h.stored)
  let entered : Dict String Nat → σ := fun d => make (recounted g) d []
  have hscenes' : scenes.entries.foldlM addScene (entered .empty) = .ok (entered scenes) := by
    refine foldlM_follows ?_ (run_scenes h)
    refine List.forall₂_same.2 fun e he d d' hd => ?_
    have hstart : g.contains e.2 = true :=
      h.scenes e.1 e.2 ((mem_entries_iff scenes e.1 e.2).1 he)
    rw [if_pos hstart] at hd
    exact Option.some.inj hd ▸ hscenes (recounted g) d e hstart
  have hputs : characters.foldl addCharacter (entered scenes) =
      make (recounted g) scenes (characters.foldl (fun cs c => putCharacter c cs) []) :=
    List.foldl_hom (make (recounted g) scenes) fun cs c => hcharacters _ _ cs c
  rw [hnodes']
  change (links.foldlM addEdge _ >>= _) = _
  rw [hedges']
  change (scenes.entries.foldlM addScene _ >>= _) = _
  rw [hscenes']
  change Except.ok (characters.foldl addCharacter _) = _
  rw [hputs, foldl_putCharacter h.characters]

end Again

end Novella.Proofs
