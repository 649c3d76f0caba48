import Mathlib.Order.Bounds.Basic
import Novella.Proofs.Graph.Cycles

/-!
# The layers of any graph

A node is put one layer above the greatest layer of its predecessors that stand before it in the
topological order, and those are all of them but for edges that lie on a cycle. So edges that lie on
no cycle lead from a layer to a higher one, and no layer is skipped; without cycles the layer of a
node is the length of the longest path to it (`layers_longest_path`).
-/

namespace Novella.Proofs

variable {ν ε : Type} {g : PortGraph ν ε}

/-- A path along the edges to a node, as the nodes before it, the last one first. It has as many
edges as there are such nodes, and it goes through no node twice. -/
inductive PathTo (g : PortGraph ν ε) : List Nat → Nat → Prop
  | start (v : Nat) : PathTo g [] v
  | step {l : List Nat} {u v : Nat} : PathTo g l u → Joins g u v → v ∉ u :: l → PathTo g (u :: l) v

/-- What the nodes are given that are placed, in their order: each is above those before it that an
edge leads from, and just above one of them if it is not in the lowest layer. -/
structure Layered (g : PortGraph ν ε) (placed : List Nat) (layers : Dict Nat Nat) : Prop where
  given : ∀ i, (∃ n, layers.get? i = some n) ↔ i ∈ placed
  above : placed.Pairwise fun u v => Joins g u v →
    ∃ a b, layers.get? u = some a ∧ layers.get? v = some b ∧ a < b
  next : ∀ v k, layers.get? v = some (k + 1) → ∃ u, Joins g u v ∧ layers.get? u = some k

/-! ## One node -/

/-- The layer of a node is one above the greatest layer of its predecessors, or the lowest one. -/
lemma layerOf_eq_iff {layers : Dict Nat Nat} {id n : Nat} : g.layerOf layers id = n ↔
    (n = 0 ∨ ∃ u m, Joins g u id ∧ layers.get? u = some m ∧ m + 1 = n) ∧
      ∀ u m, Joins g u id → layers.get? u = some m → m + 1 ≤ n := by
  have hmem : ∀ k, k ∈ (g.predecessors id).filterMap (fun p => (layers.get? p).map (· + 1)) ↔
      ∃ u m, Joins g u id ∧ layers.get? u = some m ∧ m + 1 = k := by
    simp only [List.mem_filterMap, Option.map_eq_some_iff, mem_predecessors_iff, exists_and_left,
      implies_true]
  rw [← Option.some_inj, PortGraph.layerOf, ← List.max?_cons', List.max?_eq_some_iff]
  simp only [List.mem_cons, hmem, forall_eq_or_imp, Nat.zero_le, true_and]
  refine and_congr_right fun _ => ⟨fun hle u m hu hm => hle _ ⟨u, m, hu, hm, rfl⟩, ?_⟩
  rintro hle k ⟨u, m, hu, hm, rfl⟩
  exact hle u m hu hm

/-! ## The run -/

lemma layered_empty : Layered g [] .empty :=
  ⟨fun i => by simp [get?_empty], .nil, fun v k hv => by simp [get?_empty] at hv⟩

/-- What a node is given depends on the nodes that are placed, and they keep what they have. -/
lemma Layered.insert {placed : List Nat} {layers : Dict Nat Nat} {id : Nat}
    (h : Layered g placed layers) (hid : id ∉ placed) :
    Layered g (placed ++ [id]) (layers.insert id (g.layerOf layers id)) := by
  obtain ⟨hnext, habove⟩ := layerOf_eq_iff.1 (rfl : g.layerOf layers id = g.layerOf layers id)
  generalize g.layerOf layers id = layer at hnext habove ⊢
  have hself : (layers.insert id layer).get? id = some layer := by
    rw [get?_insert, if_pos rfl]
  have hkeep : ∀ i ∈ placed, (layers.insert id layer).get? i = layers.get? i := by
    intro i hi
    rw [get?_insert, if_neg]
    rintro rfl
    exact hid hi
  have hold : ∀ u m, layers.get? u = some m → (layers.insert id layer).get? u = some m :=
    fun u m hm => (hkeep u ((h.given u).1 ⟨m, hm⟩)).trans hm
  refine ⟨fun i => ?_, List.pairwise_append.2 ⟨h.above.imp fun hlt hstep => ?_,
    List.pairwise_singleton _ _, fun u hu v hv hstep => ?_⟩, fun v k hv => ?_⟩
  · rw [List.mem_append, List.mem_singleton, ← h.given, get?_insert]
    by_cases hi : i = id
    · simp [hi]
    · simp [hi]
  · obtain ⟨a, b, ha, hb, hab⟩ := hlt hstep
    exact ⟨a, b, hold _ a ha, hold _ b hb, hab⟩
  · obtain rfl := List.mem_singleton.1 hv
    obtain ⟨m, hm⟩ := (h.given u).2 hu
    exact ⟨m, layer, hold u m hm, hself, habove u m hstep hm⟩
  · have hbelow : ∃ u, Joins g u v ∧ layers.get? u = some k := by
      rw [get?_insert] at hv
      split at hv
      · next heq =>
        obtain rfl := Option.some_inj.1 hv
        obtain ⟨u, m, hu, hm, hsucc⟩ := hnext.resolve_left (Nat.succ_ne_zero k)
        exact ⟨u, heq ▸ hu, Nat.succ.inj hsucc ▸ hm⟩
      · exact h.next v k hv
    obtain ⟨u, hu, hk⟩ := hbelow
    exact ⟨u, hu, hold u k hk⟩

lemma Layered.foldl {placed : List Nat} {layers : Dict Nat Nat} (rest : List Nat)
    (h : Layered g placed layers) (hnodup : (placed ++ rest).Nodup) :
    Layered g (placed ++ rest)
      (rest.foldl (fun layers id => layers.insert id (g.layerOf layers id)) layers) := by
  induction rest generalizing placed layers with
  | nil => rwa [List.append_nil]
  | cons id rest ih =>
    have hid : id ∉ placed := fun hmem =>
      (List.nodup_append.1 hnodup).2.2 id hmem id List.mem_cons_self rfl
    rw [List.append_cons] at hnodup ⊢
    exact ih (h.insert hid) hnodup

lemma layered_layers (h : Wired g) : Layered g g.topologicalOrder g.layers :=
  layered_empty.foldl g.topologicalOrder ((topologicalOrder_perm h).nodup_iff.2 (nodup_ids g))

lemma mem_layers_iff (h : Wired g) {i : Nat} :
    (∃ n, g.layers.get? i = some n) ↔ g.contains i = true := by
  rw [(layered_layers h).given, (topologicalOrder_perm h).mem_iff, mem_ids_iff]

/-- An edge that lies on no cycle leads to a higher layer, as its nodes stand in the order in which
it leads. -/
theorem layers_lt (h : Wired g) {u v : Nat} (hstep : Joins g u v) (hback : ¬LeadsTo g v u) :
    ∃ a b, g.layers.get? u = some a ∧ g.layers.get? v = some b ∧ a < b := by
  have hids : v ∈ g.ids := h.mem_ids_of_leadsTo' (.single hstep) (h.mem_ids_of_joins hstep)
  have hv : v ∈ g.topologicalOrder := (topologicalOrder_perm h).mem_iff.2 hids
  have hlt := (placed_or_leadsTo h hv (Nat.le_refl _) hstep).resolve_right hback
  have habove := List.pairwise_iff_getElem.1 (layered_layers h).above _ _
    (List.idxOf_lt_length_of_mem (mem_of_idxOf_lt hlt)) (List.idxOf_lt_length_of_mem hv) hlt
  rw [List.getElem_idxOf, List.getElem_idxOf] at habove
  exact habove hstep

/-! ## Paths -/

/-- No layer is skipped on the way down from a node, so a path of as many edges leads to it. -/
lemma exists_pathTo (h : Wired g) {v n : Nat} (hv : g.layers.get? v = some n) :
    ∃ l, PathTo g l v ∧ l.length = n := by
  -- The nodes of the path stand in the layers below, so that the next one is not among them.
  suffices hlow : ∃ l, PathTo g l v ∧ l.length = n ∧
      ∀ i ∈ l, ∃ m, g.layers.get? i = some m ∧ m < n from
    hlow.imp fun l hl => ⟨hl.1, hl.2.1⟩
  induction n generalizing v with
  | zero => exact ⟨[], .start v, rfl, fun _ hi => absurd hi List.not_mem_nil⟩
  | succ n ih =>
    obtain ⟨u, hstep, hu⟩ := (layered_layers h).next v n hv
    obtain ⟨l, hpath, hlength, hlow⟩ := ih hu
    have hlower : ∀ i ∈ u :: l, ∃ m, g.layers.get? i = some m ∧ m < n + 1 := by
      refine List.forall_mem_cons.2 ⟨⟨n, hu, Nat.lt_succ_self n⟩, fun i hi => ?_⟩
      obtain ⟨m, hm, hlt⟩ := hlow i hi
      exact ⟨m, hm, Nat.lt_succ_of_lt hlt⟩
    refine ⟨u :: l, hpath.step hstep fun hmem => ?_, congrArg Nat.succ hlength, hlower⟩
    obtain ⟨m, hm, hlt⟩ := hlower v hmem
    exact absurd (Option.some_inj.1 (hm.symm.trans hv)) (Nat.ne_of_lt hlt)

/-- Without cycles every edge of a path leads to a higher layer. -/
lemma PathTo.length_le (h : Wired g) (hnone : ∀ i, ¬OnCycle g i) {l : List Nat} {v n : Nat}
    (hpath : PathTo g l v) (hv : g.layers.get? v = some n) : l.length ≤ n := by
  induction hpath generalizing n with
  | start v => exact Nat.zero_le n
  | @step l u v _ hstep _ ih =>
    obtain ⟨a, b, ha, hb, hab⟩ := layers_lt h hstep fun hback => hnone u (.head' hstep hback)
    obtain rfl := Option.some_inj.1 (hb.symm.trans hv)
    exact Nat.lt_of_le_of_lt (ih ha) hab

/-- Every node of the graph is in a layer, edges that lie on no cycle lead to a higher one, and a
layer is one above that of some predecessor, or the lowest. Without cycles the layer of a node is
the length of the longest path to it. -/
theorem layers_longest_path (h : Wired g) :
    (∀ i, (∃ n, g.layers.get? i = some n) ↔ g.contains i = true) ∧
    (∀ u v, Joins g u v → ¬LeadsTo g v u →
      ∃ a b, g.layers.get? u = some a ∧ g.layers.get? v = some b ∧ a < b) ∧
    (∀ v k, g.layers.get? v = some (k + 1) → ∃ u, Joins g u v ∧ g.layers.get? u = some k) ∧
    ((∀ i, ¬OnCycle g i) → ∀ v n, g.layers.get? v = some n ↔
      g.contains v = true ∧ IsGreatest {k | ∃ l, PathTo g l v ∧ l.length = k} n) := by
  refine ⟨fun i => mem_layers_iff h, fun u v => layers_lt h, (layered_layers h).next,
    fun hnone v n => ?_⟩
  have hgreatest : ∀ m, g.layers.get? v = some m →
      IsGreatest {k | ∃ l, PathTo g l v ∧ l.length = k} m := by
    intro m hm
    refine ⟨exists_pathTo h hm, ?_⟩
    rintro _ ⟨l, hpath, rfl⟩
    exact hpath.length_le h hnone hm
  constructor
  · exact fun hn => ⟨(mem_layers_iff h).1 ⟨n, hn⟩, hgreatest n hn⟩
  · rintro ⟨hlive, hn⟩
    obtain ⟨m, hm⟩ := (mem_layers_iff h).2 hlive
    rw [hm, (hgreatest m hm).unique hn]

/-- Two ways to one node, with one edge and with two. -/
def detour : PortGraph String String where
  nodes := .ofList [(1, ""), (2, ""), (3, "")]
  edges := [⟨.output 1 "out", .input 3 "in", ""⟩, ⟨.output 1 "out", .input 2 "in", ""⟩,
    ⟨.output 2 "out", .input 3 "in", ""⟩]
  nextId := 4

theorem layers_longest_path_of_detour : Wired detour ∧ (∀ i, ¬OnCycle detour i) ∧
    IsGreatest {k | ∃ l, PathTo detour l 3 ∧ l.length = k} 2 ∧
    ∃ a b, detour.layers.get? 1 = some a ∧ detour.layers.get? 3 = some b ∧ a < b := by
  have hwired : Wired detour := by decide
  have hedge : ∀ e ∈ detour.edges, e.source.node < e.target.node := by decide
  have hup : ∀ u v, Joins detour u v → u < v := by
    rintro u v ⟨e, he, rfl, rfl⟩
    exact hedge e he
  have hnone : ∀ i, ¬OnCycle detour i := by
    intro i hi
    have hlt : Relation.TransGen (· < ·) i i := Relation.TransGen.mono hup _ _ hi
    rw [Relation.transGen_eq_self] at hlt
    exact Nat.lt_irrefl i hlt
  obtain ⟨-, hlt, -, hlongest⟩ := layers_longest_path hwired
  have hstep : Joins detour 1 3 := ⟨_, .head _, rfl, rfl⟩
  exact ⟨hwired, hnone, ((hlongest hnone 3 2).1 (by decide)).2,
    hlt 1 3 hstep fun hback => hnone 1 (.head' hstep hback)⟩

end Novella.Proofs
