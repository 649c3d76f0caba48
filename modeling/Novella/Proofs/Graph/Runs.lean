import Mathlib.Data.List.Infix
import Novella.Proofs.Graph.Store

/-!
# Runs of operations on graphs

An `Editor` performs operations on states that hold a port graph, and an operation that is refused
leaves its state as it is. If every operation is lawful, what it does to the graph evolves it
(`Evolves`): the graph stays wired, its ids stay below the counter, and the counter does not go
back. Then the whole run keeps the store in order (`upheld_of_lawful`), and a new id is greater than
all ids that were ever seen. The operations of port graphs themselves are lawful.
-/

namespace Novella.PortGraph

variable {ν ε : Type}

/-- An operation on a port graph. -/
inductive Operation (ν ε : Type) where
  | add (build : Nat → ν)
  | insert (id : Nat) (node : ν)
  | remove (id : Nat)
  | modify (id : Nat) (f : ν → ν)
  | mapNodes (f : Nat → ν → ν)
  | connect (source target : Port) (data : ε)
  | disconnect (source target : Port)
  | setEdge (source target : Port) (data : ε)
  | clear

def Operation.perform (g : PortGraph ν ε) : Operation ν ε → Option (PortGraph ν ε)
  | add build => some (g.add build).2
  | insert id node => g.insert? id node
  | remove id => some (g.remove id)
  | modify id f => some (g.modify id f)
  | mapNodes f => some (g.mapNodes f)
  | connect source target data => (g.connect source target data).toOption
  | disconnect source target => some (g.disconnect source target)
  | setEdge source target data => some (g.setEdge source target data)
  | clear => some g.clear

def Operation.issued (g : PortGraph ν ε) : Operation ν ε → Option Nat
  | add build => some (g.add build).1
  | _ => none

end Novella.PortGraph

namespace Novella.Proofs

/-- States that hold a port graph, and the operations on them. -/
structure Editor (σ ι ν ε : Type) where
  graph : σ → PortGraph ν ε
  /-- The state that an operation leads to, or nothing if the operation is refused. -/
  perform : σ → ι → Option σ
  /-- The id that an operation hands out for a new node. -/
  issued : σ → ι → Option Nat
  removal : Nat → ι
  disconnection : Port → Port → ι

namespace Editor

variable {σ ι ν ε : Type} (E : Editor σ ι ν ε)

def after (s : σ) (op : ι) : σ := (E.perform s op).getD s

def run (s : σ) (ops : List ι) : σ := ops.foldl E.after s

/-- No id reaches the largest one at any time of the run. -/
def Within (s : σ) (ops : List ι) : Prop :=
  ∀ done ∈ ops.inits, ∀ id ∈ (E.graph (E.run s done)).ids, id < PortGraph.largestId

instance (s : σ) (ops : List ι) : Decidable (E.Within s ops) :=
  inferInstanceAs (Decidable (∀ done ∈ _, ∀ id ∈ _, _))

/-- The id was live or handed out at some time of the run. -/
inductive Seen (s : σ) (ops : List ι) : Nat → Prop
  | live {done : List ι} {id : Nat} (hdone : done <+: ops)
      (hid : (E.graph (E.run s done)).contains id = true) : Seen s ops id
  | issued {done : List ι} {op : ι} {id : Nat} (hdone : done ++ [op] <+: ops)
      (hid : E.issued (E.run s done) op = some id) : Seen s ops id

/-- What holds where a run ends. -/
structure Upheld (s : σ) (ops : List ι) : Prop where
  wired : Wired (E.graph (E.run s ops))
  ids : ∀ id, (E.graph (E.run s ops)).contains id = true →
    1 ≤ id ∧ id < (E.graph (E.run s ops)).nextId
  disconnected : ∀ source target,
    (E.graph (E.run s (ops ++ [E.disconnection source target]))).hasEdge source target = false
  removed : ∀ id, ∀ e ∈ (E.graph (E.run s (ops ++ [E.removal id]))).edges, e.touches id = false
  counter : ∀ done, done <+: ops →
    (E.graph (E.run s done)).nextId ≤ (E.graph (E.run s ops)).nextId
  fresh : ∀ op new, E.issued (E.run s ops) op = some new → ∀ id, E.Seen s ops id → id < new
  refused : ∀ op, E.perform (E.run s ops) op = none → E.run s (ops ++ [op]) = E.run s ops

end Editor

variable {σ ι ν ε : Type} {g g' : PortGraph ν ε}

/-- Live ids are positive, and the counter is above them as far as it can be. -/
structure Counted (g : PortGraph ν ε) : Prop where
  nextId : 1 ≤ g.nextId
  ids : ∀ id, g.contains id = true → 1 ≤ id ∧ min (id + 1) PortGraph.largestId ≤ g.nextId

/-- What an operation may do to a graph. -/
structure Evolves (g g' : PortGraph ν ε) : Prop where
  nextId : g.nextId ≤ g'.nextId
  counted : Counted g → Counted g'
  wired : Wired g → Wired g'

/-! ## What the operations of port graphs do -/

section Operations

lemma Evolves.refl (g : PortGraph ν ε) : Evolves g g := ⟨Nat.le_refl _, id, id⟩

lemma counted_empty : Counted ({} : PortGraph ν ε) :=
  ⟨Nat.le_refl 1, fun _ hid => by cases hid⟩

lemma Counted.of_contains (h : Counted g) (hnext : g.nextId ≤ g'.nextId)
    (hcontains : ∀ id, g'.contains id = true → g.contains id = true) : Counted g' where
  nextId := Nat.le_trans h.nextId hnext
  ids id hid := by
    obtain ⟨hpos, hbelow⟩ := h.ids id (hcontains id hid)
    exact ⟨hpos, Nat.le_trans hbelow hnext⟩

lemma Counted.stored (h : Counted g) (hwired : Wired g) : Stored g :=
  ⟨h.nextId, fun id hid => (h.ids id hid).1, hwired⟩

/-- A live id below the largest one is below the counter. -/
lemma Counted.lt_nextId (h : Counted g) {id : Nat} (hid : g.contains id = true)
    (hlt : id < PortGraph.largestId) : id < g.nextId := by
  have hbelow := (h.ids id hid).2
  omega

lemma Counted.add (h : Counted g) (build : Nat → ν) : Counted (g.add build).2 where
  nextId := Nat.le_succ_of_le h.nextId
  ids id hid := by
    change 1 ≤ id ∧ min (id + 1) PortGraph.largestId ≤ g.nextId + 1
    rcases (contains_add g build id).1 hid with rfl | hid
    · exact ⟨h.nextId, Nat.min_le_left _ _⟩
    · obtain ⟨hpos, hbelow⟩ := h.ids id hid
      exact ⟨hpos, Nat.le_succ_of_le hbelow⟩

lemma Counted.insert? (h : Counted g) {id : Nat} {n : ν} (hg : g.insert? id n = some g') :
    Counted g' := by
  have hcontains := contains_insert? hg
  obtain ⟨hpos, -, rfl⟩ := insert?_eq_some.1 hg
  refine ⟨Nat.le_trans h.nextId (Nat.le_max_left _ _), fun id' hid' => ?_⟩
  rcases (hcontains id').1 hid' with rfl | hid'
  · exact ⟨Nat.one_le_iff_ne_zero.2 hpos, Nat.le_max_right _ _⟩
  · obtain ⟨hpos', hbelow⟩ := h.ids id' hid'
    exact ⟨hpos', Nat.le_trans hbelow (Nat.le_max_left _ _)⟩

lemma evolves_add (g : PortGraph ν ε) (build : Nat → ν) : Evolves g (g.add build).2 :=
  ⟨Nat.le_succ _, fun h => h.add build, fun h => h.add build⟩

lemma evolves_insert? {id : Nat} {n : ν} (hg : g.insert? id n = some g') : Evolves g g' where
  nextId := by
    obtain ⟨-, -, rfl⟩ := insert?_eq_some.1 hg
    exact Nat.le_max_left _ _
  counted h := h.insert? hg
  wired h := h.insert? hg

lemma evolves_remove (g : PortGraph ν ε) (id : Nat) : Evolves g (g.remove id) where
  nextId := Nat.le_refl _
  counted h := h.of_contains (Nat.le_refl _) fun id' hid' => ((contains_remove g id id').1 hid').1
  wired h := h.remove id

lemma evolves_modify (g : PortGraph ν ε) (id : Nat) (f : ν → ν) : Evolves g (g.modify id f) where
  nextId := Nat.le_refl _
  counted h := h.of_contains (Nat.le_refl _) fun id' hid' =>
    (contains_modify g id f id').symm.trans hid'
  wired h := h.modify id f

lemma evolves_mapNodes (g : PortGraph ν ε) (f : Nat → ν → ν) : Evolves g (g.mapNodes f) where
  nextId := Nat.le_refl _
  counted h := h.of_contains (Nat.le_refl _) fun id hid => (contains_mapNodes g f id).symm.trans hid
  wired h := h.mapNodes f

lemma evolves_connect {source target : Port} {data : ε}
    (hg : g.connect source target data = .ok g') : Evolves g g' := by
  refine ⟨?_, fun h => ?_, fun h => h.connect hg⟩ <;> obtain ⟨-, -, rfl⟩ := connect_eq_ok.1 hg
  · exact Nat.le_refl _
  · exact h.of_contains (Nat.le_refl _) fun _ hid => hid

lemma evolves_disconnect (g : PortGraph ν ε) (source target : Port) :
    Evolves g (g.disconnect source target) where
  nextId := Nat.le_refl _
  counted h := h.of_contains (Nat.le_refl _) fun _ hid => hid
  wired h := h.disconnect source target

/-- The data of a connection do not say which ports it joins. -/
lemma portsOf_setEdge (g : PortGraph ν ε) (source target : Port) (data : ε) :
    (g.setEdge source target data).edges.map portsOf = g.edges.map portsOf := by
  rw [PortGraph.setEdge, List.map_map]
  refine List.map_congr_left fun e _ => ?_
  rw [Function.comp_apply]
  split <;> rfl

lemma evolves_setEdge (g : PortGraph ν ε) (source target : Port) (data : ε) :
    Evolves g (g.setEdge source target data) where
  nextId := Nat.le_refl _
  counted h := h.of_contains (Nat.le_refl _) fun _ hid => hid
  wired h := h.of_sublist (portsOf_setEdge g source target data ▸ .refl _) fun _ hid => hid

lemma evolves_clear (g : PortGraph ν ε) : Evolves g g.clear where
  nextId := Nat.le_refl _
  counted h := ⟨h.nextId, fun _ hid => by cases hid⟩
  wired _ := ⟨nofun, List.nodup_nil⟩

/-- The connection of the two ports goes, and all others stay in their order. -/
lemma edges_disconnect (h : Wired g) (source target : Port) :
    (g.disconnect source target).edges = g.edges.filter fun e => portsOf e ≠ (source, target) := by
  have hjoins : (fun e : Edge ε => e.joins source target) =
      fun e => decide (portsOf e = (source, target)) := by
    funext e
    rw [Edge.joins, Bool.eq_iff_iff, Bool.and_eq_true, decide_eq_true_eq, decide_eq_true_eq,
      decide_eq_true_eq, portsOf, Prod.mk.injEq]
  change g.edges.eraseP (fun e => e.joins source target) = _
  rw [hjoins]
  have hdistinct := h.distinct
  generalize g.edges = edges at hdistinct ⊢
  induction edges with
  | nil => rfl
  | cons e edges ih =>
    rw [List.map_cons, List.nodup_cons] at hdistinct
    by_cases he : portsOf e = (source, target)
    · have hrest : ∀ e' ∈ edges, decide (portsOf e' ≠ (source, target)) = true := fun e' he' =>
        decide_eq_true fun heq => hdistinct.1 (he.trans heq.symm ▸ List.mem_map_of_mem he')
      simp only [List.eraseP_cons, List.filter_cons, he, decide_true, cond_true, ne_eq, not_true,
        decide_false, Bool.false_eq_true, if_false]
      exact (List.filter_eq_self.2 hrest).symm
    · simp only [List.eraseP_cons, List.filter_cons, he, decide_false, cond_false, ne_eq,
        not_false_eq_true, decide_true, if_true]
      rw [ih hdistinct.2]

/-- No second connection of the two ports is left. -/
lemma hasEdge_disconnect (h : Wired g) (source target : Port) :
    (g.disconnect source target).hasEdge source target = false := by
  rw [Bool.eq_false_iff, Ne, hasEdge_iff, edges_disconnect h]
  rintro hmem
  obtain ⟨e, he, heq⟩ := List.mem_map.1 hmem
  exact of_decide_eq_true (List.mem_filter.1 he).2 heq

/-- In a wired graph two ports have one connection at most, which is the one that is found. -/
lemma edge?_eq_some_iff (h : Wired g) {source target : Port} {e : Edge ε} :
    g.edge? source target = some e ↔ e ∈ g.edges ∧ portsOf e = (source, target) := by
  have hjoins : ∀ e : Edge ε, e.joins source target = true ↔ portsOf e = (source, target) := by
    simp [Edge.joins, portsOf]
  have hfound : ∀ {e : Edge ε}, g.edge? source target = some e → portsOf e = (source, target) :=
    fun he => (hjoins _).1 (List.find?_some (p := fun e : Edge ε => e.joins source target) he)
  constructor
  · intro he
    exact ⟨List.mem_of_find?_eq_some he, hfound he⟩
  · rintro ⟨hmem, hports⟩
    obtain ⟨e', he'⟩ := Option.isSome_iff_exists.1
      (List.find?_isSome.2 ⟨e, hmem, (hjoins e).2 hports⟩ : (g.edge? source target).isSome)
    have hsame : portsOf e' = portsOf e := (hfound he').trans hports.symm
    obtain rfl := List.inj_on_of_nodup_map h.distinct (List.mem_of_find?_eq_some he') hmem hsame
    exact he'

/-- Removing a node that is not there does nothing. -/
lemma remove_of_not_contains (h : Wired g) {id : Nat} (hid : g.contains id = false) :
    g.remove id = g := by
  have hnodes : g.nodes.erase id = g.nodes := dict_ext <| List.filter_eq_self.2 fun e he => by
    have hlive : g.contains e.1 = true :=
      (contains_iff_node? _).2 ⟨e.2, (mem_entries_iff g.nodes e.1 e.2).1 he⟩
    rw [bne_iff_ne, Ne, compare_eq_iff_eq]
    rintro rfl
    rw [hid] at hlive
    cases hlive
  have hedges : g.edges.filter (fun e => !e.touches id) = g.edges :=
    List.filter_eq_self.2 fun e he => by
      have hjoined := h.joined e he
      rw [Bool.not_eq_true', Edge.touches, Bool.or_eq_false_iff, decide_eq_false_iff_not,
        decide_eq_false_iff_not]
      constructor <;> rintro rfl
      · exact absurd hjoined.source (by rw [hid]; exact Bool.false_ne_true)
      · exact absurd hjoined.target (by rw [hid]; exact Bool.false_ne_true)
  rw [PortGraph.remove, hnodes, hedges]

end Operations

/-! ## Lawful editors -/

/-- The operations of the editor do to the graph what those of port graphs do. -/
structure Editor.Lawful (E : Editor σ ι ν ε) : Prop where
  evolves : ∀ s op s', E.perform s op = some s' → Evolves (E.graph s) (E.graph s')
  issued : ∀ s op id, E.issued s op = some id → id = (E.graph s).nextId ∧
    (E.graph (E.after s op)).contains id = true
  disconnection : ∀ s source target,
    E.graph (E.after s (E.disconnection source target)) = (E.graph s).disconnect source target
  removal : ∀ s id, Wired (E.graph s) →
    E.graph (E.after s (E.removal id)) = (E.graph s).remove id

section Lawful

variable {E : Editor σ ι ν ε}

lemma run_append (s : σ) (done rest : List ι) : E.run s (done ++ rest) = E.run (E.run s done) rest :=
  List.foldl_append

lemma run_snoc (s : σ) (ops : List ι) (op : ι) : E.run s (ops ++ [op]) = E.after (E.run s ops) op :=
  List.foldl_concat ..

/-- A run keeps up what every operation that is performed keeps up. -/
lemma run_induct {P : σ → Prop} {ops : List ι}
    (hstep : ∀ s, ∀ op ∈ ops, ∀ s', E.perform s op = some s' → P s → P s') {s : σ} (hs : P s) :
    P (E.run s ops) := by
  refine List.foldlRecOn ops E.after hs fun s hs op hop => ?_
  rw [Editor.after]
  cases hperform : E.perform s op with
  | none => exact hs
  | some s' => exact hstep s op hop s' hperform hs

variable {s : σ} {ops : List ι}

lemma Editor.Within.lt (h : E.Within s ops) {done : List ι} (hdone : done <+: ops) {id : Nat}
    (hid : (E.graph (E.run s done)).contains id = true) : id < PortGraph.largestId :=
  h done ((List.mem_inits _ _).2 hdone) id ((mem_keys_iff _ _).2 ((contains_iff_node? id).1 hid))

/-- A run within bounds keeps up what every operation keeps up where the ids are below the largest. -/
lemma run_induct_within {P : σ → Prop} (hstep : ∀ s op s', P s →
      (∀ id, (E.graph s).contains id = true → id < PortGraph.largestId) →
      E.perform s op = some s' → P s')
    (hs : P s) (h : E.Within s ops) : P (E.run s ops) := by
  suffices hdone : ∀ done, done <+: ops → P (E.run s done) from hdone ops (List.prefix_refl ops)
  intro done
  induction done using List.reverseRecOn with
  | nil => exact fun _ => hs
  | append_singleton done op ih =>
    intro hprefix
    have hbefore : done <+: ops := (List.prefix_append done [op]).trans hprefix
    rw [run_snoc, Editor.after]
    cases hperform : E.perform (E.run s done) op with
    | none => exact ih hbefore
    | some s' => exact hstep _ op s' (ih hbefore) (fun id hid => h.lt hbefore hid) hperform

lemma Editor.Lawful.run (hE : E.Lawful) (s : σ) (ops : List ι) :
    Evolves (E.graph s) (E.graph (E.run s ops)) :=
  run_induct (P := fun t => Evolves (E.graph s) (E.graph t))
    (fun t op _ t' hperform ht =>
      have hstep := hE.evolves t op t' hperform
      ⟨Nat.le_trans ht.nextId hstep.nextId, fun h => hstep.counted (ht.counted h),
        fun h => hstep.wired (ht.wired h)⟩)
    (Evolves.refl _)

/-- The counter is above every id that was live so far. -/
lemma Editor.Lawful.lt_nextId (hE : E.Lawful) (hcounted : Counted (E.graph s))
    (h : E.Within s ops) {done : List ι} (hdone : done <+: ops) {id : Nat}
    (hid : (E.graph (E.run s done)).contains id = true) : id < (E.graph (E.run s ops)).nextId := by
  have hlt := ((hE.run s done).counted hcounted).lt_nextId hid (h.lt hdone hid)
  obtain ⟨rest, rfl⟩ := hdone
  rw [run_append]
  exact Nat.lt_of_lt_of_le hlt (hE.run _ rest).nextId

/-- A run of lawful operations keeps the store in order. -/
theorem upheld_of_lawful (hE : E.Lawful) (hwired : Wired (E.graph s)) (hcounted : Counted (E.graph s))
    (h : E.Within s ops) : E.Upheld s ops := by
  have hrun := hE.run s ops
  have hwired' := hrun.wired hwired
  refine ⟨hwired', fun id hid => ⟨((hrun.counted hcounted).ids id hid).1,
    hE.lt_nextId hcounted h (List.prefix_refl ops) hid⟩, fun source target => ?_, fun id e he => ?_,
    fun done hdone => ?_, fun op new hnew id hid => ?_, fun op hop => ?_⟩
  · rw [run_snoc, hE.disconnection]
    exact hasEdge_disconnect hwired' source target
  · rw [run_snoc, hE.removal _ _ hwired'] at he
    simpa using (List.mem_filter.1 he).2
  · obtain ⟨rest, rfl⟩ := hdone
    rw [run_append]
    exact (hE.run _ rest).nextId
  · rw [(hE.issued _ op new hnew).1]
    cases hid with
    | live hdone hid => exact hE.lt_nextId hcounted h hdone hid
    | @issued done op' _ hdone hid =>
      have hlive := (hE.issued _ op' id hid).2
      rw [← run_snoc] at hlive
      exact hE.lt_nextId hcounted h hdone hlive
  · rw [run_snoc, Editor.after, hop]
    rfl

end Lawful

/-! ## The operations of port graphs -/

def graphEditor (ν ε : Type) : Editor (PortGraph ν ε) (PortGraph.Operation ν ε) ν ε where
  graph := id
  perform := PortGraph.Operation.perform
  issued := PortGraph.Operation.issued
  removal := .remove
  disconnection := .disconnect

lemma lawful_portGraph (ν ε : Type) : (graphEditor ν ε).Lawful where
  evolves g op g' h := by
    cases op with
    | add build => exact Option.some.inj h ▸ evolves_add g build
    | insert id node => exact evolves_insert? h
    | remove id => exact Option.some.inj h ▸ evolves_remove g id
    | modify id f => exact Option.some.inj h ▸ evolves_modify g id f
    | mapNodes f => exact Option.some.inj h ▸ evolves_mapNodes g f
    | connect source target data => exact evolves_connect (eq_ok_of_toOption h)
    | disconnect source target => exact Option.some.inj h ▸ evolves_disconnect g source target
    | setEdge source target data => exact Option.some.inj h ▸ evolves_setEdge g source target data
    | clear => exact Option.some.inj h ▸ evolves_clear g
  issued g op id h := by
    cases op with
    | add build =>
      obtain rfl := Option.some.inj h
      exact ⟨rfl, (contains_add g build _).2 (.inl rfl)⟩
    | _ => cases h
  disconnection _ _ _ := rfl
  removal _ _ _ := rfl

end Novella.Proofs
