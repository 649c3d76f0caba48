import Novella.Proofs.Graph.DepthFirst
import Novella.Proofs.Graph.Store

/-!
# Ways along the edges

What edges lead from a node to, in one step (`Joins`) or in any number of steps (`LeadsTo`), is what
the orders, cycles and layers of a graph are about. The walks that find them stay among the nodes of
the graph, and the depth that they are given is enough for them (`walks_of_closed`).
-/

namespace Novella.Proofs

open Walk

variable {ν ε : Type} {g : PortGraph ν ε}

/-- An edge leads from `u` to `v`. -/
def Joins (g : PortGraph ν ε) (u v : Nat) : Prop :=
  ∃ e ∈ g.edges, e.source.node = u ∧ e.target.node = v

/-- Edges lead from a node to another one, or to itself, in any number of steps. -/
def LeadsTo (g : PortGraph ν ε) : Nat → Nat → Prop := Relation.ReflTransGen (Joins g)

/-- Two nodes lie on a common cycle, or are one node. -/
def Together (g : PortGraph ν ε) (u v : Nat) : Prop := LeadsTo g u v ∧ LeadsTo g v u

lemma LeadsTo.trans {u v w : Nat} (h : LeadsTo g u v) (h' : LeadsTo g v w) : LeadsTo g u w :=
  Relation.ReflTransGen.trans h h'

lemma mem_predecessors_iff {u v : Nat} : u ∈ g.predecessors v ↔ Joins g u v := by
  rw [mem_predecessors, Joins]
  exact exists_congr fun e => and_congr_right fun _ => and_comm

lemma path_predecessors_iff {u v : Nat} : Path g.predecessors v u ↔ LeadsTo g u v := by
  rw [Path, LeadsTo, ← Relation.reflTransGen_swap]
  simp only [mem_predecessors_iff]

lemma mem_successors_iff {u v : Nat} : v ∈ g.successors u ↔ Joins g u v := mem_successors

lemma path_successors_iff {u v : Nat} : Path g.successors u v ↔ LeadsTo g u v := by
  simp only [Path, LeadsTo, mem_successors_iff]

/-- Edges do not lead out of a set that no single edge leads out of. -/
lemma LeadsTo.of_closed {S : Nat → Prop}
    (hclosed : ∀ e ∈ g.edges, S e.source.node → S e.target.node) {u v : Nat} (huv : LeadsTo g u v)
    (hu : S u) : S v := by
  induction huv with
  | refl => exact hu
  | tail _ hstep ih =>
    obtain ⟨e, he, rfl, rfl⟩ := hstep
    exact hclosed e he ih

/-! ## Ids -/

lemma length_ids (g : PortGraph ν ε) : g.ids.length = g.size := List.length_map _

lemma nodup_ids (g : PortGraph ν ε) : g.ids.Nodup := (ids_pairwise g).imp Nat.ne_of_lt

lemma mem_ids_iff {id : Nat} : id ∈ g.ids ↔ g.contains id = true := by
  rw [contains_iff_node?]
  exact mem_keys_iff g.nodes id

lemma Wired.mem_ids_of_joins (h : Wired g) {u v : Nat} (huv : Joins g u v) : u ∈ g.ids := by
  obtain ⟨e, he, rfl, -⟩ := huv
  exact mem_ids_iff.2 (h.joined e he).source

lemma Wired.mem_ids_of_leadsTo (h : Wired g) {u v : Nat} (huv : LeadsTo g u v) (hv : v ∈ g.ids) :
    u ∈ g.ids := by
  rcases Relation.ReflTransGen.cases_head huv with rfl | ⟨w, huw, -⟩
  · exact hv
  · exact h.mem_ids_of_joins huw

lemma Wired.mem_ids_of_leadsTo' (h : Wired g) {u v : Nat} (huv : LeadsTo g u v) (hu : u ∈ g.ids) :
    v ∈ g.ids :=
  huv.of_closed (fun e he _ => mem_ids_iff.2 (h.joined e he).target) hu

lemma Wired.predecessors (h : Wired g) : ∀ i ∈ g.ids, ∀ j ∈ g.predecessors i, j ∈ g.ids :=
  fun _ _ _ hj => h.mem_ids_of_joins (mem_predecessors_iff.1 hj)

lemma Wired.successors (h : Wired g) : ∀ i ∈ g.ids, ∀ j ∈ g.successors i, j ∈ g.ids :=
  fun _ hi _ hj => h.mem_ids_of_leadsTo' (.single (mem_successors_iff.1 hj)) hi

lemma length_unreached_ids_le (g : PortGraph ν ε) (w : Walk) :
    (unreached g.ids w).length ≤ g.size :=
  Nat.le_trans (List.length_filter_le _ _) (Nat.le_of_eq (length_ids g))

/-- The depth that a walk on a graph is given is enough for it. -/
lemma walks_of_closed {next : Nat → List Nat} (hnext : ∀ i ∈ g.ids, ∀ j ∈ next i, j ∈ g.ids)
    {ids : List Nat} (hids : ∀ id ∈ ids, id ∈ g.ids) (w : Walk) :
    Walks next ids w (ids.foldl (visit next (g.size + 1)) w) :=
  walks_foldl_visit hnext hids (Nat.lt_succ_of_le (length_unreached_ids_le g w))

end Novella.Proofs
