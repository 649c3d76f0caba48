import Mathlib.Data.List.Forall2
import Mathlib.Data.List.Nodup
import Mathlib.Tactic.Lemma
import Std.Data.String.ToNat
import Novella.Flow.Lowering
import Novella.Proofs.Script.Rebuild

/-!
# Statements along a flow graph

`Leads g top q stmts lo hi` says that the flow from the output port `q` comes to a node for each of
the statements in turn, that each arm of such a node leads along the statements of the arm, and
that these nodes have the ids from `lo` up to `hi`, a node before its arms and the arms before the
node after it. On the chain of a scene (`top`) the last port leads to a scene end with the id `hi`,
and on the chain of an arm to nothing. Nested blocks have no node: the flow leads along what is in them.
-/

namespace Novella.Script

variable {σ : Type}

/-- The bodies of the arms of an act under the names of their ports. -/
def Act.armPorts : Act σ → List (String × List σ)
  | .choice options => (options.zipIdx).map fun (o, i) => (Flow.optionPort i, o.body)
  | .branch _ thenBody elseBody => ("true", thenBody) :: elseBody.toList.map fun b => ("false", b)
  | .switch _ cases default =>
    (cases.zipIdx).map (fun (c, i) => (Flow.casePort i, c.body)) ++
      default.toList.map fun b => ("default", b)
  | .loop _ body => [("body", body)]
  | _ => []

/-- The ports of arms that an act could have and does not have. -/
def Act.absentPorts : Act σ → List String
  | .branch _ _ none => ["false"]
  | .switch _ _ none => ["default"]
  | _ => []

end Novella.Script

namespace Novella.Proofs

open Script Novella.Flow

/-- The items stand for consecutive ranges of numbers, from `lo` up to `hi`. -/
def Consecutive {α : Type} (R : α → Nat → Nat → Prop) : List α → Nat → Nat → Prop
  | [], lo, hi => lo = hi
  | a :: rest, lo, hi => ∃ mid, R a lo mid ∧ Consecutive R rest mid hi

/-- The node as it is made for a construct, wherever it is placed. -/
def MadeFor (id : Nat) (kind : NodeKind) (loc : Location)
    (properties : List (String × PropertyValue)) (n : Node) : Prop :=
  ∃ x y, n = (({ id, kind, loc } : Node).moveTo x y).setAll properties

/-- The flow ends at a port as the chain of a scene (`top`) ends, at the scene end `stop`, or as that
of an arm does. -/
def EndsAt (g : FlowGraph) (top : Bool) (q : Port) (stop : Nat) : Prop :=
  if top then
    ∃ n, g.targetOf? q.node q.name = some stop ∧ g.node? stop = some n ∧ n.kind = .sceneEnd
  else g.targetOf? q.node q.name = none

/-- The port of a node at which the flow goes on. -/
def onward (id : Nat) (kind : NodeKind) : Port := .output id (kind.continuation?.getD "out")

/-- The flow from a port leads along statements, whose nodes have the ids from `lo` up to `hi`. -/
inductive Leads (g : FlowGraph) : Bool → Port → List Statement → Nat → Nat → Prop
  | stop {top : Bool} {q : Port} {lo : Nat} (ends : EndsAt g top q lo) : Leads g top q [] lo lo
  | block {top : Bool} {q : Port} {loc : Location} {body rest : List Statement} {lo hi : Nat}
      (inside : Leads g top q (body ++ rest) lo hi) :
      Leads g top q (.mk loc (.block body) :: rest) lo hi
  | node {top : Bool} {q : Port} {loc : Location} {act : Act Statement} {kind : NodeKind}
      {properties : List (String × PropertyValue)} {rest : List Statement} {id hi : Nat} {n : Node}
      (bounds : Nat → Nat) (stands : nodeOf? act = some (kind, properties))
      (entered : g.targetOf? q.node q.name = some id) (found : g.node? id = some n)
      (made : MadeFor id kind loc properties n)
      (absent : ∀ port ∈ act.absentPorts, g.targetOf? id port = none)
      (first : bounds 0 = id + 1)
      (arms : ∀ i (h : i < act.armPorts.length), Leads g false (.output id act.armPorts[i].1)
        act.armPorts[i].2 (bounds i) (bounds (i + 1)))
      (next : Leads g top (onward id kind) rest (bounds act.armPorts.length) hi) :
      Leads g top q (.mk loc act :: rest) id hi

/-! ## Ports -/

section Ports

lemma optionPort_injective {i j : Nat} (h : optionPort i = optionPort j) : i = j := by
  have hrepr : (Nat.repr i).toList = (Nat.repr j).toList := by
    simpa [optionPort] using congrArg String.toList h
  exact Nat.repr_injective (String.toList_inj.1 hrepr)

lemma casePort_injective {i j : Nat} (h : casePort i = casePort j) : i = j := by
  have hrepr : (Nat.repr i).toList = (Nat.repr j).toList := by
    simpa [casePort] using congrArg String.toList h
  exact Nat.repr_injective (String.toList_inj.1 hrepr)

lemma optionPort_ne {port : String} (h : port.toList.head? ≠ some 'o') (i : Nat) :
    optionPort i ≠ port := by
  rintro rfl
  simp [optionPort] at h

lemma casePort_ne {port : String} (h : port.toList.head? ≠ some 'c') (i : Nat) :
    casePort i ≠ port := by
  rintro rfl
  simp [casePort] at h

variable {σ : Type}

lemma optionPort_mem {options : List (ChoiceOption σ)} {port : String}
    (h : port ∈ (Act.choice options).armPorts.map (·.1)) : ∃ i, port = optionPort i := by
  simp only [Act.armPorts, List.map_map, List.mem_map] at h
  obtain ⟨⟨o, i⟩, -, rfl⟩ := h
  exact ⟨i, rfl⟩

lemma casePort_mem {subject : Expression} {cases : List (SwitchCase σ)} {default : Option (List σ)}
    {port : String} (h : port ∈ (Act.switch subject cases default).armPorts.map (·.1)) :
    (∃ i, port = casePort i) ∨ port = "default" ∧ default ≠ none := by
  simp only [Act.armPorts, List.map_append, List.map_map, List.mem_append, List.mem_map,
    Option.mem_toList] at h
  rcases h with ⟨⟨c, i⟩, -, rfl⟩ | ⟨body, hbody, rfl⟩
  · exact .inl ⟨i, rfl⟩
  · exact .inr ⟨rfl, by rw [hbody]; exact Option.some_ne_none _⟩

lemma map_zipIdx_port {α : Type} (l : List α) {port : Nat → String} :
    (l.zipIdx.map fun (_, i) => port i) = (List.range l.length).map port := by
  rw [List.range_eq_range', ← List.zipIdx_map_snd, List.map_map]
  rfl

lemma nodup_zipIdx_map {α : Type} (l : List α) {port : Nat → String}
    (h : ∀ i j, port i = port j → i = j) : (l.zipIdx.map fun (_, i) => port i).Nodup := by
  rw [map_zipIdx_port]
  exact List.nodup_range.map fun i j => h i j

lemma nodup_armPorts (act : Act σ) : (act.armPorts.map (·.1)).Nodup := by
  cases act with
  | choice options =>
    rw [Act.armPorts, List.map_map]
    exact nodup_zipIdx_map options fun _ _ => optionPort_injective
  | branch condition thenBody elseBody => cases elseBody <;> simp [Act.armPorts]
  | switch subject cases default =>
    rw [Act.armPorts, List.map_append, List.map_map, List.nodup_append]
    refine ⟨nodup_zipIdx_map cases fun _ _ => casePort_injective, ?_, ?_⟩
    · cases default <;> simp
    · intro a ha b hb
      obtain ⟨⟨c, i⟩, -, rfl⟩ := List.mem_map.1 ha
      obtain ⟨⟨_, body⟩, hbody, rfl⟩ := List.mem_map.1 hb
      obtain ⟨_, -, heq⟩ := List.mem_map.1 hbody
      cases heq
      exact casePort_ne (show "default".toList.head? ≠ some 'c' by decide) i
  | loop condition body => simp [Act.armPorts]
  | _ => exact List.nodup_nil

lemma mem_bodies_of_mem_armPorts {act : Act σ} {a : String × List σ} (h : a ∈ act.armPorts) :
    a.2 ∈ act.bodies := by
  cases act with
  | choice options =>
    obtain ⟨⟨o, i⟩, ho, rfl⟩ := List.mem_map.1 h
    exact List.mem_map_of_mem (List.fst_mem_of_mem_zipIdx ho)
  | branch condition thenBody elseBody =>
    rcases List.mem_cons.1 h with rfl | h
    · exact List.mem_cons_self
    · obtain ⟨body, hbody, rfl⟩ := List.mem_map.1 h
      exact List.mem_cons_of_mem _ hbody
  | switch subject cases default =>
    rcases List.mem_append.1 h with h | h
    · obtain ⟨⟨c, i⟩, hc, rfl⟩ := List.mem_map.1 h
      exact List.mem_append_left _ (List.mem_map_of_mem (List.fst_mem_of_mem_zipIdx hc))
    · obtain ⟨body, hbody, rfl⟩ := List.mem_map.1 h
      exact List.mem_append_right _ hbody
  | loop condition body =>
    obtain rfl := List.mem_singleton.1 h
    exact List.mem_cons_self
  | _ => cases h

/-- The flow goes on at a port that is none of the arms. -/
lemma onward_notMem_armPorts {act : Act σ} {kind : NodeKind}
    {properties : List (String × PropertyValue)} (h : nodeOf? act = some (kind, properties)) :
    kind.continuation?.getD "out" ∉ act.armPorts.map (·.1) := by
  cases act with
  | choice options =>
    obtain ⟨rfl, -⟩ := Prod.mk.inj (Option.some.inj h)
    intro hmem
    obtain ⟨i, hi⟩ := optionPort_mem hmem
    exact optionPort_ne (by decide) i hi.symm
  | branch condition thenBody elseBody =>
    obtain ⟨rfl, -⟩ := Prod.mk.inj (Option.some.inj h)
    cases elseBody <;> simp [Act.armPorts, NodeKind.continuation?]
  | switch subject cases default =>
    obtain ⟨rfl, -⟩ := Prod.mk.inj (Option.some.inj h)
    intro hmem
    rcases casePort_mem hmem with ⟨i, hi⟩ | ⟨hi, -⟩
    · exact casePort_ne (by decide) i hi.symm
    · exact absurd hi (by decide)
  | loop condition body =>
    obtain ⟨rfl, -⟩ := Prod.mk.inj (Option.some.inj h)
    simp [Act.armPorts, NodeKind.continuation?]
  | _ => simp [Act.armPorts]

/-- A port of an arm that is not there is neither that of an arm that is there nor the one at
which the flow goes on. -/
lemma absentPorts_apart {act : Act σ} {kind : NodeKind}
    {properties : List (String × PropertyValue)} (h : nodeOf? act = some (kind, properties))
    {port : String} (hport : port ∈ act.absentPorts) :
    port ∉ act.armPorts.map (·.1) ∧ port ≠ kind.continuation?.getD "out" := by
  cases act with
  | branch condition thenBody elseBody =>
    obtain ⟨rfl, -⟩ := Prod.mk.inj (Option.some.inj h)
    cases elseBody with
    | none =>
      obtain rfl := List.mem_singleton.1 hport
      exact ⟨by simp [Act.armPorts], by decide⟩
    | some body => cases hport
  | switch subject cases default =>
    obtain ⟨rfl, -⟩ := Prod.mk.inj (Option.some.inj h)
    cases default with
    | none =>
      obtain rfl := List.mem_singleton.1 hport
      refine ⟨fun hmem => ?_, by decide⟩
      rcases casePort_mem hmem with ⟨i, hi⟩ | ⟨-, hne⟩
      · exact casePort_ne (by decide) i hi.symm
      · exact hne rfl
    | some body => cases hport
  | _ => cases hport

end Ports

/-! ## Consecutive ranges -/

section Consecutive

variable {α : Type} {R R' : α → Nat → Nat → Prop}

lemma consecutive_le (h : ∀ a lo hi, R a lo hi → lo ≤ hi) {l : List α} {lo hi : Nat}
    (hl : Consecutive R l lo hi) : lo ≤ hi := by
  induction l generalizing lo with
  | nil => exact Nat.le_of_eq hl
  | cons a rest ih =>
    obtain ⟨mid, ha, hrest⟩ := hl
    exact Nat.le_trans (h a lo mid ha) (ih hrest)

lemma consecutive_mono (h : ∀ a lo hi, R a lo hi → R' a lo hi) {l : List α} {lo hi : Nat}
    (hl : Consecutive R l lo hi) : Consecutive R' l lo hi := by
  induction l generalizing lo with
  | nil => exact hl
  | cons a rest ih =>
    obtain ⟨mid, ha, hrest⟩ := hl
    exact ⟨mid, h a lo mid ha, ih hrest⟩

/-- The ranges of the items lie within the whole range. -/
lemma consecutive_imp (hle : ∀ a lo hi, R a lo hi → lo ≤ hi) {l : List α} {lo hi : Nat}
    (h : ∀ a ∈ l, ∀ lo' hi', lo ≤ lo' → hi' ≤ hi → R a lo' hi' → R' a lo' hi')
    (hl : Consecutive R l lo hi) : Consecutive R' l lo hi := by
  induction l generalizing lo with
  | nil => exact hl
  | cons a rest ih =>
    obtain ⟨mid, ha, hrest⟩ := hl
    have hlo := hle a lo mid ha
    have hhi := consecutive_le hle hrest
    refine ⟨mid, h a List.mem_cons_self lo mid (Nat.le_refl lo) hhi ha, ih ?_ hrest⟩
    exact fun b hb lo' hi' hlo' => h b (List.mem_cons_of_mem _ hb) lo' hi' (Nat.le_trans hlo hlo')

lemma consecutive_mem (hle : ∀ a lo hi, R a lo hi → lo ≤ hi) {l : List α} {lo hi : Nat}
    (hl : Consecutive R l lo hi) {a : α} (ha : a ∈ l) :
    ∃ lo' hi', lo ≤ lo' ∧ hi' ≤ hi ∧ R a lo' hi' := by
  induction l generalizing lo with
  | nil => cases ha
  | cons b rest ih =>
    obtain ⟨mid, hb, hrest⟩ := hl
    rcases List.mem_cons.1 ha with rfl | ha
    · exact ⟨lo, mid, Nat.le_refl lo, consecutive_le hle hrest, hb⟩
    · obtain ⟨lo', hi', hlo, hhi, hR⟩ := ih hrest ha
      exact ⟨lo', hi', (hle b lo mid hb).trans hlo, hhi, hR⟩

/-- Every number of the whole range lies in the range of an item. -/
lemma consecutive_cover {l : List α} {lo hi : Nat} (hl : Consecutive R l lo hi) {i : Nat}
    (hlo : lo ≤ i) (hhi : i < hi) : ∃ a ∈ l, ∃ lo' hi', R a lo' hi' ∧ lo' ≤ i ∧ i < hi' := by
  induction l generalizing lo with
  | nil =>
    obtain rfl : lo = hi := hl
    exact absurd hhi (Nat.not_lt.2 hlo)
  | cons a rest ih =>
    obtain ⟨mid, ha, hrest⟩ := hl
    by_cases hmid : i < mid
    · exact ⟨a, List.mem_cons_self, lo, mid, ha, hlo, hmid⟩
    · obtain ⟨b, hb, lo', hi', hR, hi⟩ := ih hrest (Nat.not_lt.1 hmid)
      exact ⟨b, List.mem_cons_of_mem _ hb, lo', hi', hR, hi⟩

lemma consecutive_of_bounds {l : List α} (bounds : Nat → Nat)
    (h : ∀ i (h : i < l.length), R l[i] (bounds i) (bounds (i + 1))) :
    Consecutive R l (bounds 0) (bounds l.length) := by
  induction l generalizing bounds with
  | nil => rfl
  | cons a rest ih =>
    refine ⟨bounds 1, h 0 (Nat.zero_lt_succ _), ?_⟩
    exact ih (fun i => bounds (i + 1)) fun i hi => h (i + 1) (Nat.succ_lt_succ hi)

lemma bounds_of_consecutive {l : List α} {lo hi : Nat} (hl : Consecutive R l lo hi) :
    ∃ bounds : Nat → Nat, bounds 0 = lo ∧ bounds l.length = hi ∧
      ∀ i (h : i < l.length), R l[i] (bounds i) (bounds (i + 1)) := by
  induction l generalizing lo with
  | nil => exact ⟨fun _ => lo, rfl, hl, fun i h => absurd h (Nat.not_lt_zero i)⟩
  | cons a rest ih =>
    obtain ⟨mid, ha, hrest⟩ := hl
    obtain ⟨bounds, hfirst, hlast, hbounds⟩ := ih hrest
    refine ⟨fun i => i.casesOn lo bounds, rfl, hlast, fun i h => ?_⟩
    cases i with
    | zero =>
      change R a lo (bounds 0)
      rwa [hfirst]
    | succ i => exact hbounds i (Nat.lt_of_succ_lt_succ h)

lemma consecutive_map {β : Type} (f : β → α) (l : List β) (lo hi : Nat) :
    Consecutive R (l.map f) lo hi ↔ Consecutive (fun b => R (f b)) l lo hi := by
  induction l generalizing lo with
  | nil => rfl
  | cons b rest ih => simp only [List.map_cons, Consecutive, ih]

lemma consecutive_append (l l' : List α) (lo hi : Nat) :
    Consecutive R (l ++ l') lo hi ↔ ∃ mid, Consecutive R l lo mid ∧ Consecutive R l' mid hi := by
  induction l generalizing lo with
  | nil => simp [Consecutive]
  | cons a rest ih =>
    simp only [List.cons_append, Consecutive, ih]
    constructor
    · rintro ⟨mid, ha, mid', hrest, h'⟩
      exact ⟨mid', ⟨mid, ha, hrest⟩, h'⟩
    · rintro ⟨mid', ⟨mid, ha, hrest⟩, h'⟩
      exact ⟨mid, ha, mid', hrest, h'⟩

lemma consecutive_flatMap {β : Type} (f : β → List α) (l : List β) (lo hi : Nat) :
    Consecutive R (l.flatMap f) lo hi ↔ Consecutive (fun b => Consecutive R (f b)) l lo hi := by
  induction l generalizing lo with
  | nil => rfl
  | cons b rest ih => simp only [List.flatMap_cons, consecutive_append, Consecutive, ih]

/-- Consecutive ranges of one number each. -/
lemma forall₂_of_consecutive {S : Nat → α → Prop} {l : List α} {lo hi : Nat}
    (h : Consecutive (fun a lo hi => hi = lo + 1 ∧ S lo a) l lo hi) :
    hi = lo + l.length ∧ List.Forall₂ S (List.range' lo l.length) l := by
  induction l generalizing lo with
  | nil => exact ⟨h.symm, .nil⟩
  | cons a rest ih =>
    obtain ⟨mid, ⟨rfl, ha⟩, hrest⟩ := h
    obtain ⟨rfl, hall⟩ := ih hrest
    rw [List.length_cons, List.range'_succ]
    exact ⟨by omega, .cons ha hall⟩

end Consecutive

/-! ## Flow along statements -/

section Leads

variable {g : FlowGraph}

/-- The flow leads along a node for an act and then along the statements after it. -/
lemma leads_node {top : Bool} {q : Port} {loc : Location} {act : Act Statement} {kind : NodeKind}
    {properties : List (String × PropertyValue)} {rest : List Statement} {id mid hi : Nat} {n : Node}
    (stands : nodeOf? act = some (kind, properties))
    (entered : g.targetOf? q.node q.name = some id) (found : g.node? id = some n)
    (made : MadeFor id kind loc properties n)
    (absent : ∀ port ∈ act.absentPorts, g.targetOf? id port = none)
    (arms : Consecutive (fun a lo hi => Leads g false (.output id a.1) a.2 lo hi)
      act.armPorts (id + 1) mid)
    (next : Leads g top (onward id kind) rest mid hi) : Leads g top q (.mk loc act :: rest) id hi := by
  obtain ⟨bounds, hfirst, rfl, hbounds⟩ := bounds_of_consecutive arms
  exact .node bounds stands entered found made absent hfirst hbounds next

/-- What holds at every end, inside of every block, and of every node as soon as it holds of the
arms and after the node, holds wherever the flow leads along statements. -/
theorem leads_induct {P : Bool → Port → List Statement → Nat → Nat → Prop}
    (stop : ∀ top q lo, EndsAt g top q lo → P top q [] lo lo)
    (block : ∀ top q loc body rest lo hi, P top q (body ++ rest) lo hi →
      P top q (.mk loc (.block body) :: rest) lo hi)
    (node : ∀ top q loc act kind properties rest id mid hi n,
      nodeOf? act = some (kind, properties) → g.targetOf? q.node q.name = some id →
      g.node? id = some n → MadeFor id kind loc properties n →
      (∀ port ∈ act.absentPorts, g.targetOf? id port = none) →
      Consecutive (fun a lo hi => P false (.output id a.1) a.2 lo hi) act.armPorts (id + 1) mid →
      P top (onward id kind) rest mid hi → P top q (.mk loc act :: rest) id hi)
    {top : Bool} {q : Port} {stmts : List Statement} {lo hi : Nat} (h : Leads g top q stmts lo hi) :
    P top q stmts lo hi := by
  induction h with
  | stop ends => exact stop _ _ _ ends
  | block _ ih => exact block _ _ _ _ _ _ _ ih
  | node bounds stands entered found made absent first _ _ armsIh nextIh =>
    refine node _ _ _ _ _ _ _ _ _ _ _ stands entered found made absent ?_ nextIh
    exact first ▸ consecutive_of_bounds bounds armsIh

lemma leads_le {top : Bool} {q : Port} {stmts : List Statement} {lo hi : Nat}
    (h : Leads g top q stmts lo hi) : lo ≤ hi := by
  refine leads_induct (P := fun _ _ _ lo hi => lo ≤ hi) ?_ ?_ ?_ h
  · exact fun _ _ lo _ => Nat.le_refl lo
  · exact fun _ _ _ _ _ _ _ ih => ih
  · intro top q loc act kind properties rest id mid hi n _ _ _ _ _ arms next
    have harms : id + 1 ≤ mid := consecutive_le (fun _ _ _ h => h) arms
    omega

end Leads

end Novella.Proofs
