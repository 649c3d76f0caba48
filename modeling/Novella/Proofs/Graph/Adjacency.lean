import Novella.Proofs.Graph.CycleSearch
import Novella.Proofs.Graph.Reachability
import Novella.Proofs.Graph.Runs

/-!
# What the analyses see of a graph

Two graphs look alike (`Alike`) if they have nodes under the same ids, and if their edges join the same
nodes. In what order the edges were made, how many of them there are between two nodes, at which ports,
and what the nodes and edges hold, makes no difference: the neighbours of a node are listed alike. The
orders, cycles and layers are read off these lists. The search for what roots lead to goes along the
edges as they were made, so it may reach the nodes in another order; but it takes as many turns, and it
ends with the same nodes (`analyses_agree`).
-/

namespace Novella.Proofs

variable {ν ε ν' ε' : Type} {g : PortGraph ν ε} {g' : PortGraph ν' ε'} {roots roots' : List Nat}

/-- The graphs have nodes under the same ids, and edges between the same nodes. -/
structure Alike (g : PortGraph ν ε) (g' : PortGraph ν' ε') : Prop where
  contains : ∀ id, g.contains id = true ↔ g'.contains id = true
  joins : ∀ u v, Joins g u v ↔ Joins g' u v

instance (g : PortGraph ν ε) (u v : Nat) : Decidable (Joins g u v) :=
  inferInstanceAs (Decidable (∃ e ∈ g.edges, e.source.node = u ∧ e.target.node = v))

/-- The edges of each graph have a counterpart in the other. -/
lemma alike_of_edges (hids : g.ids = g'.ids)
    (h : ∀ e ∈ g.edges, Joins g' e.source.node e.target.node)
    (h' : ∀ e ∈ g'.edges, Joins g e.source.node e.target.node) : Alike g g' where
  contains id := by rw [← mem_ids_iff, ← mem_ids_iff, hids]
  joins u v := by
    constructor
    · rintro ⟨e, he, rfl, rfl⟩
      exact h e he
    · rintro ⟨e, he, rfl, rfl⟩
      exact h' e he

/-- A set has one listing in ascending order. -/
lemma eq_of_ascending {l m : List Nat} (hl : l.Pairwise (· < ·)) (hm : m.Pairwise (· < ·))
    (h : ∀ i, i ∈ l ↔ i ∈ m) : l = m :=
  (ascending_eq hl fun _ => Iff.rfl).symm.trans (ascending_eq hm h)

namespace Alike

lemma ids (h : Alike g g') : g.ids = g'.ids :=
  eq_of_ascending (ids_pairwise g) (ids_pairwise g') fun i => by
    rw [mem_ids_iff, mem_ids_iff, h.contains]

lemma size (h : Alike g g') : g.size = g'.size := by
  rw [← length_ids, ← length_ids, h.ids]

lemma successors (h : Alike g g') : g.successors = g'.successors := by
  funext i
  refine eq_of_ascending (ascending_pairwise _) (ascending_pairwise _) fun j => ?_
  rw [mem_successors_iff, mem_successors_iff, h.joins]

lemma predecessors (h : Alike g g') : g.predecessors = g'.predecessors := by
  funext i
  refine eq_of_ascending (ascending_pairwise _) (ascending_pairwise _) fun j => ?_
  rw [mem_predecessors_iff, mem_predecessors_iff, h.joins]

lemma leadsTo_iff (h : Alike g g') {u v : Nat} : LeadsTo g u v ↔ LeadsTo g' u v := by
  have hjoins : Joins g = Joins g' := funext fun u => funext fun v => propext (h.joins u v)
  rw [LeadsTo, LeadsTo, hjoins]

lemma topologicalOrder (h : Alike g g') : g.topologicalOrder = g'.topologicalOrder := by
  rw [PortGraph.topologicalOrder, PortGraph.topologicalOrder, h.predecessors, h.size, h.ids]

lemma cycles (h : Alike g g') : g.cycles = g'.cycles := by
  rw [PortGraph.cycles, PortGraph.cycles, h.successors, h.size, h.ids]

lemma layers (h : Alike g g') : g.layers = g'.layers := by
  have hlayer : g.layerOf = g'.layerOf := by
    funext layers id
    rw [PortGraph.layerOf, PortGraph.layerOf, h.predecessors]
  rw [PortGraph.layers, PortGraph.layers, h.topologicalOrder, hlayer]

/-- Roots may be given in any order, and more than once. -/
lemma reachableFrom (h : Alike g g') (hg : Wired g) (hg' : Wired g')
    (hroots : ∀ r, r ∈ roots ↔ r ∈ roots') : g.reachableFrom roots = g'.reachableFrom roots' := by
  refine eq_of_ascending (reachableFrom_pairwise g roots) (reachableFrom_pairwise g' roots')
    fun i => ?_
  simp only [mem_reachableFrom_iff hg, mem_reachableFrom_iff hg', h.contains, h.leadsTo_iff, hroots]

/-- The loops that follow the edges in the order of their making end in the same turn, with the same
nodes. -/
lemma loops (h : Alike g g') (hg : Wired g) (hg' : Wired g')
    (hroots : ∀ r, r ∈ roots ↔ r ∈ roots') : ∃ turns reached reached',
      (Wave.advance g)^[turns] (.start g roots) = ⟨reached, []⟩ ∧
      (Wave.advance g')^[turns] (.start g' roots') = ⟨reached', []⟩ ∧ reached.Perm reached' := by
  obtain ⟨reached, hloop, hperm⟩ := exists_advance_eq hg roots
  obtain ⟨reached', hloop', hperm'⟩ := exists_advance_eq hg' roots'
  rw [← h.reachableFrom hg hg' hroots] at hloop' hperm'
  exact ⟨_, reached, reached', hloop, hloop', hperm.trans hperm'.symm⟩

end Alike

lemma wired_run (ops : List (PortGraph.Operation ν ε)) : Wired ((graphEditor ν ε).run {} ops) :=
  ((lawful_portGraph ν ε).run {} ops).wired wired_empty

/-- Whatever operations have led to two graphs that look alike, and whatever their nodes and edges
hold, the analyses of the two agree: they give equal orders, cycles and layers, and what the same roots
lead to is the same, also for the loop that goes along the edges in the order of their making. -/
theorem analyses_agree (ops : List (PortGraph.Operation ν ε)) (ops' : List (PortGraph.Operation ν' ε'))
    (h : Alike ((graphEditor ν ε).run {} ops) ((graphEditor ν' ε').run {} ops'))
    (hroots : ∀ r, r ∈ roots ↔ r ∈ roots') :
    let g := (graphEditor ν ε).run {} ops
    let g' := (graphEditor ν' ε').run {} ops'
    g.topologicalOrder = g'.topologicalOrder ∧ g.cycles = g'.cycles ∧ g.layers = g'.layers ∧
      g.reachableFrom roots = g'.reachableFrom roots' ∧
      ∃ turns reached reached', (Wave.advance g)^[turns] (.start g roots) = ⟨reached, []⟩ ∧
        (Wave.advance g')^[turns] (.start g' roots') = ⟨reached', []⟩ ∧ reached.Perm reached' :=
  ⟨h.topologicalOrder, h.cycles, h.layers, h.reachableFrom (wired_run ops) (wired_run ops') hroots,
    h.loops (wired_run ops) (wired_run ops') hroots⟩

/-- A circle of three nodes and a way across it. -/
def circled : List (PortGraph.Operation String Nat) :=
  [.add toString, .add toString, .add toString, .connect (.output 1 "next") (.input 2 "in") 0,
    .connect (.output 1 "next") (.input 3 "in") 1, .connect (.output 2 "next") (.input 3 "in") 2,
    .connect (.output 3 "next") (.input 1 "in") 3]

/-- The same with other payloads, made in another order, with an edge too many and a node that goes
again. -/
def circledAnew : List (PortGraph.Operation Nat String) :=
  [.insert 7 0, .insert 3 0, .insert 2 5, .connect (.output 3 "b") (.input 7 "in") "",
    .connect (.output 2 "a") (.input 3 "in") "on", .insert 1 0, .remove 7,
    .connect (.output 3 "a") (.input 1 "in") "back", .connect (.output 1 "b") (.input 3 "in") "",
    .connect (.output 1 "a") (.input 3 "side") "again", .connect (.output 1 "a") (.input 2 "in") ""]

theorem analyses_agree_circled :
    let g := (graphEditor String Nat).run {} circled
    let g' := (graphEditor Nat String).run {} circledAnew
    Alike g g' ∧ (∀ r, r ∈ [2, 1] ↔ r ∈ [1, 2, 1]) ∧ g.topologicalOrder = g'.topologicalOrder ∧
      g.cycles = g'.cycles ∧ g.layers = g'.layers ∧
      g.reachableFrom [2, 1] = g'.reachableFrom [1, 2, 1] := by
  have halike : Alike ((graphEditor String Nat).run {} circled)
      ((graphEditor Nat String).run {} circledAnew) :=
    alike_of_edges (by decide) (by decide) (by decide)
  have hroots : ∀ r, r ∈ [2, 1] ↔ r ∈ [1, 2, 1] := fun r => by simp; tauto
  obtain ⟨horder, hcycles, hlayers, hreachable, -⟩ :=
    analyses_agree circled circledAnew halike hroots
  exact ⟨halike, hroots, horder, hcycles, hlayers, hreachable⟩

end Novella.Proofs
