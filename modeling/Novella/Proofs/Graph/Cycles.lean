import Novella.Proofs.Graph.CycleSearch
import Novella.Proofs.Graph.TopologicalOrder
import Novella.Story.Validation

/-!
# The cycles of any graph

What is reported are cycles, no two with the same members, and nothing is reported only where there
is no cycle (`cycles_are_circuits`). Every set of nodes that lie on common cycles has a report.

Not every node on a cycle is named by a report, though: the search sees an edge that closes a cycle
only where it leads back to the path. `cycles_name_iff` says which nodes are named: those that lie
on a cycle without nodes that the search is done with when it comes to them. Where the cycles have
no nodes in common that is every node on a cycle.
-/

namespace Novella.Proofs

variable {ν ε : Type} {g : PortGraph ν ε}

/-- One edge or more lead from a node back to it. -/
def OnCycle (g : PortGraph ν ε) (i : Nat) : Prop := Relation.TransGen (Joins g) i i

/-- The walk along the edges from every node, which the search for cycles is. -/
def edgeWalk (g : PortGraph ν ε) : Walk := Walk.fromRoots g.successors (g.size + 1) g.ids

/-- The walk along the edges is done with `i` when it comes to `c`. -/
def DoneBefore (g : PortGraph ν ε) (i c : Nat) : Prop :=
  (edgeWalk g).preorder.idxOf i < (edgeWalk g).preorder.idxOf c ∧
    (edgeWalk g).postorder.idxOf i < (edgeWalk g).postorder.idxOf c

lemma OnCycle.mem_ids {i : Nat} (h : Wired g) (hi : OnCycle g i) : i ∈ g.ids := by
  obtain ⟨j, hij, -⟩ := Relation.TransGen.head'_iff.1 hi
  exact h.mem_ids_of_joins hij

lemma OnCycle.of_together {i j : Nat} (hi : OnCycle g i) (hij : Together g i j) : OnCycle g j :=
  .trans_right hij.2 (.trans_left hi hij.1)

/-- Edges from a node that a cycle leads to, to a node that leads to it, lead along the cycle. -/
lemma transGen_together {c u v : Nat} (huv : Relation.TransGen (Joins g) u v) (hcu : LeadsTo g c u)
    (hvc : LeadsTo g v c) : Relation.TransGen (fun i j => Joins g i j ∧ Together g c j) u v := by
  induction huv with
  | single hstep => exact .single ⟨hstep, hcu.tail hstep, hvc⟩
  | tail huw hstep ih =>
    exact (ih (.head hstep hvc)).tail ⟨hstep, (hcu.trans huw.to_reflTransGen).tail hstep, hvc⟩

lemma Circuit.leadsTo {l : List Nat} {i j : Nat} (h : Circuit (Joins g) l) (hi : i ∈ l)
    (hj : j ∈ l) : LeadsTo g i j :=
  (h.transGen hi hj).to_reflTransGen

lemma Circuit.exists_next {R : Nat → Nat → Prop} {l : List Nat} {i : Nat} (h : Circuit R l)
    (hi : i ∈ l) : ∃ j ∈ l, R i j := by
  have hinside : Circuit (fun i j => R i j ∧ j ∈ l) l := h.imp fun _ _ _ hj hstep => ⟨hstep, hj⟩
  obtain ⟨j, ⟨hstep, hj⟩, -⟩ := Relation.TransGen.head'_iff.1 (hinside.transGen hi hi)
  exact ⟨j, hj, hstep⟩

/-! ## The run -/

lemma walks_edgeWalk (h : Wired g) : Walks g.successors g.ids {} (edgeWalk g) :=
  walks_of_closed h.successors (fun _ hid => hid) {}

/-- The run that the cycles are read off. -/
lemma Wired.search (h : Wired g) : ∃ s, Searches g.successors [] g.ids {} [] s (edgeWalk g).done ∧
    s.reached = (edgeWalk g).reached ∧ g.cycles = s.cycles := by
  obtain ⟨d, hrun, -⟩ := searches_foldl_visit (s := {}) h.successors [] [] (fun _ hid => hid)
    (Nat.lt_of_le_of_lt (length_unreached_ids_le g _) (by omega : g.size < g.size + 2))
  have hsame := (hrun.walks fun i hi => absurd hi List.not_mem_nil).unique (walks_edgeWalk h)
  rw [← hsame]
  exact ⟨_, hrun, rfl, rfl⟩

lemma idxOf_reverse_lt_iff {l before : List Nat} {c i : Nat} (h : c :: before <:+ l)
    (hc : c ∉ before) : l.reverse.idxOf i < l.reverse.idxOf c ↔ i ∈ before := by
  obtain ⟨after, rfl⟩ := h
  rw [List.reverse_append, List.reverse_cons, List.append_assoc, List.singleton_append,
    idxOf_lt_iff (mt List.mem_reverse.1 hc), List.mem_reverse]

lemma circuit_of_mem_cycles (h : Wired g) {l : List Nat} (hl : l ∈ g.cycles) :
    Circuit (Joins g) l := by
  obtain ⟨s, hrun, -, hcycles⟩ := h.search
  have hcircuit := ((hrun.underway (underway_empty _)).circuits l (hcycles ▸ hl)).1
  exact hcircuit.imp fun _ _ _ _ => mem_successors_iff.1

/-- A node is named by a report if and only if edges lead from it back to it past the nodes that the
search is done with when it comes to the node. -/
theorem reported_iff (h : Wired g) {c : Nat} : (∃ l ∈ g.cycles, c ∈ l) ↔
    Relation.TransGen (fun u v => Joins g u v ∧ ¬DoneBefore g v c) c c := by
  by_cases hc : c ∈ g.ids
  · obtain ⟨s, hrun, hreached, hcycles⟩ := h.search
    obtain ⟨p, t, e, t₁, e₁, hmoment⟩ := hrun.entered (underway_empty _)
      (hreached ▸ (walks_edgeWalk h).outcome_empty.listed c hc) List.not_mem_nil
    have hleft : c ∉ e₁ := (((hmoment.run.underway hmoment.entering).mem_path c).1
      (List.mem_append_right _ List.mem_cons_self)).2
    have hdone : ∀ v, DoneBefore g v c ↔ v ∈ e := by
      intro v
      rw [DoneBefore, Walk.preorder, Walk.postorder, ← hreached,
        idxOf_reverse_lt_iff hmoment.reached hmoment.fresh, idxOf_reverse_lt_iff hmoment.done hleft,
        hmoment.mem_iff]
    simp only [hcycles, hmoment.reported_iff, mem_successors_iff, hdone]
  · refine iff_of_false ?_ fun hback => ?_
    · rintro ⟨l, hl, hmem⟩
      exact hc (OnCycle.mem_ids h ((circuit_of_mem_cycles h hl).transGen hmem hmem))
    · obtain ⟨v, ⟨hstep, -⟩, -⟩ := Relation.TransGen.head'_iff.1 hback
      exact hc (h.mem_ids_of_joins hstep)

/-- Of nodes that lie on common cycles, the one that the search comes to first is named. -/
theorem exists_report (h : Wired g) {c : Nat} (hc : OnCycle g c) :
    ∃ l ∈ g.cycles, ∀ i ∈ l, Together g c i := by
  classical
  obtain ⟨r, hr, hfirst⟩ := (g.ids.toFinset.filter (Together g c)).exists_min_image
    (edgeWalk g).preorder.idxOf ⟨c, by simpa using ⟨hc.mem_ids h, .refl, .refl⟩⟩
  simp only [Finset.mem_filter, List.mem_toFinset] at hr hfirst
  have hcycle : OnCycle g r := hc.of_together hr.2
  have hahead : ∀ v, Together g r v → ¬DoneBefore g v r := by
    intro v hrv hdone
    have hcv : Together g c v := ⟨hr.2.1.trans hrv.1, hrv.2.trans hr.2.2⟩
    have hle := hfirst v ⟨h.mem_ids_of_leadsTo hcv.2 (hc.mem_ids h), hcv⟩
    exact absurd hdone.1 (Nat.not_lt_of_le hle)
  have hback : Relation.TransGen (fun u v => Joins g u v ∧ ¬DoneBefore g v r) r r :=
    Relation.TransGen.mono (fun u v hstep => ⟨hstep.1, hahead v hstep.2⟩) _ _
      (transGen_together hcycle .refl .refl)
  obtain ⟨l, hl, hmem⟩ := (reported_iff h).2 hback
  have hcircuit := circuit_of_mem_cycles h hl
  exact ⟨l, hl, fun i hi =>
    ⟨hr.2.1.trans (hcircuit.leadsTo hmem hi), (hcircuit.leadsTo hi hmem).trans hr.2.2⟩⟩

/-- Where the nodes that lie on common cycles form one single cycle, all of them are named. -/
lemma named_of_single (h : Wired g) {c : Nat} (hc : OnCycle g c)
    (hsingle : ∀ u v w, Together g c u → Together g c v → Together g c w → Joins g u v →
      Joins g u w → v = w) : ∃ l ∈ g.cycles, c ∈ l := by
  obtain ⟨l, hl, htogether⟩ := exists_report h hc
  have hcircuit := circuit_of_mem_cycles h hl
  obtain ⟨x, hx⟩ := List.exists_mem_of_ne_nil l hcircuit.nonempty
  have hxc : Relation.TransGen (fun i j => Joins g i j ∧ Together g c j) x c :=
    transGen_together (.trans_right (htogether x hx).2 hc) (htogether x hx).1 .refl
  -- The report is closed under the steps between these nodes, as each has only one.
  have hclosed : ∀ u ∈ l, ∀ v, Joins g u v → Together g c v → v ∈ l := by
    intro u hu v hstep hv
    obtain ⟨w, hw, hnext⟩ := hcircuit.exists_next hu
    exact hsingle u v w (htogether u hu) hv (htogether w hw) hstep hnext ▸ hw
  have hstays : ∀ y, Relation.TransGen (fun i j => Joins g i j ∧ Together g c j) x y → y ∈ l := by
    intro y hxy
    induction hxy with
    | single hstep => exact hclosed x hx _ hstep.1 hstep.2
    | tail _ hstep ih => exact hclosed _ ih _ hstep.1 hstep.2
  exact ⟨l, hl, hstays c hxc⟩

/-- Nothing is reported only where no edges lead from a node back to it. -/
lemma cycles_eq_nil_iff (h : Wired g) : g.cycles = [] ↔ ∀ i, ¬OnCycle g i := by
  constructor
  · intro hnone i hi
    obtain ⟨l, hl, -⟩ := exists_report h hi
    exact absurd hl (hnone ▸ List.not_mem_nil)
  · refine fun hnone => List.eq_nil_iff_forall_not_mem.2 fun l hl => ?_
    have hcircuit := circuit_of_mem_cycles h hl
    obtain ⟨i, hi⟩ := List.exists_mem_of_ne_nil l hcircuit.nonempty
    exact hnone i (hcircuit.transGen hi hi)

/-! ## The reports -/

/-- The search comes to its end. Every report is a cycle of distinct nodes of the graph, no two have
the same members, and there is none if and only if there is no cycle. -/
theorem cycles_are_circuits (h : Wired g) :
    (∃ s, (hunt g.successors)^[g.size + turnsFor g.successors g.ids] ⟨{}, g.ids, []⟩ = ⟨s, [], []⟩ ∧
      g.cycles = s.cycles) ∧
    (∀ l ∈ g.cycles, Circuit (Joins g) l ∧ ∀ i ∈ l, g.contains i = true) ∧
    Apart g.cycles ∧
    (g.cycles = [] ↔ ∀ i, ¬OnCycle g i) := by
  obtain ⟨s, hrun, -, hcycles⟩ := h.search
  have hcircuit : ∀ l ∈ g.cycles, Circuit (Joins g) l := fun l hl => circuit_of_mem_cycles h hl
  refine ⟨⟨s, ?_, hcycles⟩, fun l hl => ⟨hcircuit l hl, fun i hi => ?_⟩, ?_, cycles_eq_nil_iff h⟩
  · obtain ⟨new, hdone, hturns⟩ := hunts_of_searches hrun
    rw [List.append_nil] at hdone
    have hnew : new.Perm g.ids :=
      hdone ▸ (walks_edgeWalk h).outcome_empty.perm (nodup_ids g) h.successors
    rw [← turnsFor_perm hnew, ← length_ids]
    exact hturns [] rfl
  · have honCycle : OnCycle g i := (hcircuit l hl).transGen hi hi
    exact mem_ids_iff.1 (honCycle.mem_ids h)
  · exact hcycles ▸ (hrun.underway (underway_empty _)).apart

theorem cycles_are_circuits_of_knotted : Wired knotted ∧ OnCycle knotted 1 ∧ knotted.cycles ≠ [] ∧
    Circuit (Joins knotted) [3] := by
  have hwired : Wired knotted := by decide
  obtain ⟨-, hcircuits, -, hnone⟩ := cycles_are_circuits hwired
  have hcycle : OnCycle knotted 1 :=
    .tail (.single ⟨_, .head _, rfl, rfl⟩) ⟨_, .tail _ (.head _), rfl, rfl⟩
  exact ⟨hwired, hcycle, fun hempty => hnone.1 hempty 1 hcycle, (hcircuits [3] (by decide)).1⟩

open Novella.Flow.FlowGraph in
lemma cycle_mem_findings (f : Flow.FlowGraph) (l : List Nat) :
    .cycle l ∈ f.findings ↔ l ∈ f.graph.cycles := by
  have hscene : ∀ scene id, Finding.cycle l ∉ f.sceneFindings scene id := by
    intro scene id
    rw [sceneFindings]
    split
    · simp
    · split <;> simp
  have hedge : ∀ e, Finding.cycle l ∉ f.edgeFindings e := by
    intro e
    unfold edgeFindings
    cases f.node? e.source.node <;> cases f.node? e.target.node <;> simp
  simp [findings, hscene, hedge]

open Story.StoryGraph in
lemma cycle_mem_issues (s : Story.StoryGraph) (l : List Nat) :
    .cycle l ∈ s.validate.issues ↔ l ∈ s.graph.cycles := by
  have hstart : Story.Issue.cycle l ∉ s.startIssues := by
    unfold startIssues
    split <;> split <;> simp
  have hconnection : ∀ e, Story.Issue.cycle l ∉ s.connectionIssues e := by
    intro e
    unfold connectionIssues
    split
    · split
      · simp
      · simp
      · split <;> simp
    · simp
  have hproperty : ∀ n, Story.Issue.cycle l ∉ propertyIssues n := by
    intro n
    unfold propertyIssues
    split
    · simp
    · split <;> simp
  simp [validate, idIssues, hstart, hconnection, hproperty]

/-- What lies on common cycles has a report among its nodes. The nodes that are named by a report
are those on a cycle without nodes that the search is done with when it comes to them; so all nodes
on a cycle are where that cycle shares no node with another. What a flow graph and a story are found
at fault with are the reports on their graphs. -/
theorem cycles_name_iff (h : Wired g) :
    (∀ c, OnCycle g c → ∃ l ∈ g.cycles, ∀ i ∈ l, Together g c i) ∧
    (∀ c, (∃ l ∈ g.cycles, c ∈ l) ↔
      Relation.TransGen (fun u v => Joins g u v ∧ ¬DoneBefore g v c) c c) ∧
    (∀ c, OnCycle g c → (∀ u v w, Together g c u → Together g c v → Together g c w → Joins g u v →
      Joins g u w → v = w) → ∃ l ∈ g.cycles, c ∈ l) ∧
    (∀ (f : Flow.FlowGraph) l, .cycle l ∈ f.findings ↔ l ∈ f.graph.cycles) ∧
    ∀ (s : Story.StoryGraph) l, .cycle l ∈ s.validate.issues ↔ l ∈ s.graph.cycles := by
  exact ⟨fun c => exists_report h, fun c => reported_iff h, fun c => named_of_single h,
    cycle_mem_findings, cycle_mem_issues⟩

theorem cycles_name_iff_entered : Wired entered ∧ OnCycle entered 3 ∧
    ∃ l ∈ entered.cycles, 3 ∈ l := by
  have hwired : Wired entered := by decide
  have hcycle : OnCycle entered 3 :=
    .tail (.single ⟨_, .tail _ (.tail _ (.head _)), rfl, rfl⟩) ⟨_, .tail _ (.head _), rfl, rfl⟩
  obtain ⟨-, -, hnamed, -⟩ := cycles_name_iff hwired
  have hone : ∀ e ∈ entered.edges, ∀ e' ∈ entered.edges, e.source.node = e'.source.node →
      e.target.node = e'.target.node := by decide
  refine ⟨hwired, hcycle, hnamed 3 hcycle ?_⟩
  rintro u v w - - - ⟨e, he, rfl, rfl⟩ ⟨e', he', hsame, rfl⟩
  exact hone e he e' he' hsame.symm

/-- Two cycles with a node in common: 1, 2 and 1, 3, 2. -/
def eclipsed : PortGraph String String where
  nodes := .ofList [(1, ""), (2, ""), (3, "")]
  edges := [⟨.output 1 "out", .input 2 "in", ""⟩, ⟨.output 2 "out", .input 1 "in", ""⟩,
    ⟨.output 1 "out", .input 3 "in", ""⟩, ⟨.output 3 "out", .input 2 "in", ""⟩]
  nextId := 4

/-- The search is done with 2 when it comes to 3, so that it does not see the cycle through 3. -/
theorem eclipsed_not_named : Wired eclipsed ∧ OnCycle eclipsed 3 ∧ eclipsed.cycles = [[1, 2]] ∧
    ¬∃ l ∈ eclipsed.cycles, 3 ∈ l := by
  have hcycles : eclipsed.cycles = [[1, 2]] := by decide
  have hback : LeadsTo eclipsed 2 3 :=
    .tail (.single ⟨_, .tail _ (.head _), rfl, rfl⟩) ⟨_, .tail _ (.tail _ (.head _)), rfl, rfl⟩
  refine ⟨by decide, .head' ⟨_, .tail _ (.tail _ (.tail _ (.head _))), rfl, rfl⟩ hback, hcycles, ?_⟩
  rw [hcycles]
  decide

end Novella.Proofs
