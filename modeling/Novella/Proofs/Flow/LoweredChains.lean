import Novella.Proofs.Flow.Chains
import Novella.Proofs.Graph.Growth
import Novella.Proofs.Script.Rebuild

/-!
# Lowered statements lie along the graph

Lowering the statements of a body never fails, and leaves a graph along which the flow leads from
the port that waited before to the port that waits after (`Extended`). The graph is not
finished then: the connection to the owner of an arm is made after the arm, and the port that
waits is connected later. So what is shown is that in every graph that comes out of this one
by connections from elsewhere (`Final`), the flow leads along the statements and then along
whatever it leads to from the port that waits now.
-/

namespace Novella.Proofs

open Script Novella.Flow

/-! ## Making nodes -/

abbrev base (d : Draft) : PortGraph Node String := d.graph.graph

section Place

variable {p : Placement} {d : Draft} {kind : NodeKind} {loc : Location}
  {properties : List (String × PropertyValue)}

lemma tidy_place (h : Tidy (base d)) : Tidy (base (d.place p kind loc properties).2) :=
  (h.add fun id => ({ id, kind } : Node)).modify (base d).nextId fun n =>
    (({ n with loc } : Node).moveTo d.x d.y).setAll properties

lemma node?_place (id : Nat) : (d.place p kind loc properties).2.graph.node? id =
    if id = (base d).nextId then
      some ((({ id := (base d).nextId, kind, loc } : Node).moveTo d.x d.y).setAll properties)
    else d.graph.node? id := by
  have hmodify := node?_modify ((base d).add fun id => ({ id, kind } : Node)).2 (base d).nextId id
    fun n => ({ n with loc }.moveTo d.x d.y).setAll properties
  rw [node?_add] at hmodify
  refine hmodify.trans ?_
  split <;> rfl

lemma later_place (S : Port → Prop) :
    Later S (base d) (base (d.place p kind loc properties).2) where
  nextId := Nat.le_succ _
  nodes id hid := (node?_place id).trans (if_neg (Nat.ne_of_lt hid))
  edges := ⟨[], (List.append_nil _).symm, fun _ he => by cases he⟩

lemma madeFor_place : ∃ n, (d.place p kind loc properties).2.graph.node? (base d).nextId = some n ∧
    MadeFor (base d).nextId kind loc properties n :=
  ⟨_, (node?_place _).trans (if_pos rfl), d.x, d.y, rfl⟩

end Place

lemma setAll_kind (n : Node) (vs : List (String × PropertyValue)) : (n.setAll vs).kind = n.kind := by
  induction vs generalizing n with
  | nil => rfl
  | cons v vs ih => exact ih (n.set v.1 v.2)

lemma setAll_id (n : Node) (vs : List (String × PropertyValue)) : (n.setAll vs).id = n.id := by
  induction vs generalizing n with
  | nil => rfl
  | cons v vs ih => exact ih (n.set v.1 v.2)

lemma setAll_loc (n : Node) (vs : List (String × PropertyValue)) : (n.setAll vs).loc = n.loc := by
  induction vs generalizing n with
  | nil => rfl
  | cons v vs ih => exact ih (n.set v.1 v.2)

lemma MadeFor.kind_eq {id : Nat} {kind : NodeKind} {loc : Location}
    {properties : List (String × PropertyValue)} {n : Node} (h : MadeFor id kind loc properties n) :
    n.kind = kind := by
  obtain ⟨x, y, rfl⟩ := h
  exact setAll_kind _ _

lemma MadeFor.id_eq {id : Nat} {kind : NodeKind} {loc : Location}
    {properties : List (String × PropertyValue)} {n : Node} (h : MadeFor id kind loc properties n) :
    n.id = id := by
  obtain ⟨x, y, rfl⟩ := h
  exact setAll_id _ _

lemma MadeFor.loc_eq {id : Nat} {kind : NodeKind} {loc : Location}
    {properties : List (String × PropertyValue)} {n : Node} (h : MadeFor id kind loc properties n) :
    n.loc = loc := by
  obtain ⟨x, y, rfl⟩ := h
  exact setAll_loc _ _

lemma nodeOf?_kind {σ : Type} {act : Act σ} {kind : NodeKind}
    {properties : List (String × PropertyValue)} (h : nodeOf? act = some (kind, properties)) :
    kind ≠ .sceneStart ∧ kind ≠ .sceneEnd := by
  cases act with
  | block body => cases h
  | _ =>
    obtain ⟨rfl, -⟩ := Prod.mk.inj (Option.some.inj h)
    decide

/-- Whatever is not in the nodes and connections of a graph is that of another. -/
structure SameTables (g g' : FlowGraph) : Prop where
  name : g'.name = g.name
  scenes : g'.scenes = g.scenes
  characters : g'.characters = g.characters

lemma SameTables.trans {g g' g'' : FlowGraph} (h : SameTables g g') (h' : SameTables g' g'') :
    SameTables g g'' :=
  ⟨h'.name.trans h.name, h'.scenes.trans h.scenes, h'.characters.trans h.characters⟩

/-- The nodes that were added stand under their ids, and no scene begins at them. -/
def NoNewScene (g g' : FlowGraph) : Prop :=
  ∀ id n, g.graph.nextId ≤ id → g'.node? id = some n → n.id = id ∧ n.kind ≠ .sceneStart

lemma NoNewScene.trans {g g' g'' : FlowGraph} {S : Port → Prop} (h : NoNewScene g g')
    (h' : NoNewScene g' g'') (hlater : Later S g'.graph g''.graph) : NoNewScene g g'' := by
  intro id n hid hn
  by_cases hlt : id < g'.graph.nextId
  · exact h id n hid ((hlater.nodes id hlt).symm.trans hn)
  · exact h' id n (Nat.not_lt.1 hlt) hn

/-- The graph `g'` is `g` with a node for a construct. -/
structure NodeAdded (kind : NodeKind) (loc : Location) (properties : List (String × PropertyValue))
    (g g' : FlowGraph) : Prop where
  tidy : Tidy g'.graph
  later : Later (fun _ => False) g.graph g'.graph
  nextId : g'.graph.nextId = g.graph.nextId + 1
  balance : Balance 1 g.graph g'.graph
  node : ∃ n, g'.node? g.graph.nextId = some n ∧ MadeFor g.graph.nextId kind loc properties n
  tables : SameTables g g'

lemma nodeAdded {p : Placement} {d : Draft} (h : Tidy (base d)) (kind : NodeKind) (loc : Location)
    (properties : List (String × PropertyValue)) :
    ∃ d', d.place p kind loc properties = ((base d).nextId, d') ∧
      NodeAdded kind loc properties d.graph d'.graph :=
  ⟨_, rfl, tidy_place h, later_place _, rfl, rfl, madeFor_place, rfl, rfl, rfl⟩

lemma NodeAdded.noNewScene {kind : NodeKind} {loc : Location}
    {properties : List (String × PropertyValue)} {g g' : FlowGraph}
    (h : NodeAdded kind loc properties g g') (hkind : kind ≠ .sceneStart) : NoNewScene g g' := by
  intro id n hid hn
  have hlt := ((h.tidy.ids id).1 ((contains_iff_node? id).2 ⟨n, hn⟩)).2
  rw [h.nextId] at hlt
  obtain rfl : id = g.graph.nextId := Nat.le_antisymm (Nat.lt_succ_iff.1 hlt) hid
  obtain ⟨n', hn', hmade⟩ := h.node
  obtain rfl : n = n' := Option.some.inj (hn.symm.trans hn')
  exact ⟨hmade.id_eq, hmade.kind_eq ▸ hkind⟩

/-- No scene begins where nothing was added. -/
lemma noNewScene_of_nextId {g g' : FlowGraph} (h : Tidy g'.graph)
    (hnext : g'.graph.nextId = g.graph.nextId) : NoNewScene g g' := by
  intro id n hid hn
  have hlt := ((h.ids id).1 ((contains_iff_node? id).2 ⟨n, hn⟩)).2
  exact absurd (hnext ▸ hlt) (Nat.not_lt.2 hid)

/-- The graph `g'` is `g` with a connection. -/
structure EdgeAdded (source target : Port) (g g' : FlowGraph) : Prop where
  tidy : Tidy g'.graph
  later : Later (· = source) g.graph g'.graph
  nextId : g'.graph.nextId = g.graph.nextId
  edges : g'.graph.edges.length = g.graph.edges.length + 1
  edge : ∃ e ∈ g'.graph.edges, e.source = source ∧ e.target = target
  tables : SameTables g g'

/-- A free output port of a node can be connected to an input port of a node. -/
lemma edgeAdded {g : FlowGraph} (source target : Port) (label : String) (h : Tidy g.graph)
    (hs : source.isOutput = true) (ht : target.isOutput = false)
    (hsource : 1 ≤ source.node ∧ source.node < g.graph.nextId)
    (htarget : 1 ≤ target.node ∧ target.node < g.graph.nextId) (hfree : Free g.graph source) :
    ∃ g', g.connect source target label = .ok g' ∧ EdgeAdded source target g g' := by
  have hcontains := (h.ids _).2 hsource
  refine ⟨{ g with graph := { g.graph with edges := g.graph.edges ++ [⟨source, target, label⟩] } }, ?_,
    h.connected hs hcontains hfree label, later_connected _ _ _ _, rfl, List.length_append,
    ⟨_, List.mem_append_right _ (List.mem_singleton_self _), rfl, rfl⟩, rfl, rfl, rfl⟩
  rw [FlowGraph.connect, connect_of_free hs ht hcontains ((h.ids _).2 htarget) hfree]
  rfl

/-! ## Arms in one list -/

/-- An arm with the column in which it is laid out and the label of the connection to it. -/
structure LoweredArm where
  x : Binary64
  port : String
  label : String
  body : List Statement

def loweredArms (p : Placement) (x : Binary64) : Act Statement → List LoweredArm
  | .choice options =>
    (options.zipIdx).map fun (o, i) => ⟨armX p x i, optionPort i, o.text, o.body⟩
  | .branch _ thenBody elseBody => ⟨armX p x 0, "true", "true", thenBody⟩ ::
      elseBody.toList.map fun b => ⟨armX p x 1, "false", "false", b⟩
  | .switch _ cases default =>
    (cases.zipIdx).map (fun (c, i) => ⟨armX p x i, casePort i, casePort i, c.body⟩) ++
      default.toList.map fun b => ⟨armX p x cases.length, "default", "default", b⟩
  | .loop _ body => [⟨armX p x 0, "body", "body", body⟩]
  | _ => []

def lowerEach (p : Placement) (owner : Nat) : List LoweredArm → Draft → Except Fault Draft
  | [], d => .ok d
  | a :: rest, d => do
    let c ← lowerBody p a.x a.body ⟨d, .output owner a.port, a.label⟩
    lowerEach p owner rest c.draft

section Arms

variable {p : Placement} {x : Binary64} {owner : Nat} {d : Draft}

lemma map_loweredArms (act : Act Statement) :
    (loweredArms p x act).map (fun a => (a.port, a.body)) = act.armPorts := by
  cases act with
  | choice options => simp [loweredArms, Act.armPorts, Function.comp_def]
  | branch condition thenBody elseBody => simp [loweredArms, Act.armPorts, Function.comp_def]
  | switch subject cases default => simp [loweredArms, Act.armPorts, Function.comp_def]
  | _ => rfl

lemma ports_loweredArms (act : Act Statement) :
    (loweredArms p x act).map (·.port) = act.armPorts.map (·.1) := by
  rw [← map_loweredArms (p := p) (x := x), List.map_map]
  rfl

lemma lowerEach_append (a b : List LoweredArm) :
    lowerEach p owner (a ++ b) d = lowerEach p owner a d >>= lowerEach p owner b := by
  induction a generalizing d with
  | nil => rfl
  | cons arm a ih =>
    simp only [List.cons_append, lowerEach, ih]
    rw [bind_assoc]

lemma lowerOptional_eq (y : Binary64) (port : String) (body : Option (List Statement)) :
    lowerOptional p y owner port body d =
      lowerEach p owner (body.toList.map fun b => ⟨y, port, port, b⟩) d := by
  cases body with
  | none => rfl
  | some body =>
    simp only [lowerOptional, Option.toList_some, List.map_cons, List.map_nil, lowerEach]
    rfl

lemma lowerOptions_eq (index : Nat) (options : List (ChoiceOption Statement)) :
    lowerOptions p x owner index options d = lowerEach p owner ((options.zipIdx index).map
      fun (o, i) => ⟨armX p x i, optionPort i, o.text, o.body⟩) d := by
  induction options generalizing index d with
  | nil => rfl
  | cons o rest ih => simp only [lowerOptions, List.zipIdx_cons, List.map_cons, lowerEach, ih]

lemma lowerCases_eq (index : Nat) (cases : List (SwitchCase Statement)) :
    lowerCases p x owner index cases d = lowerEach p owner ((cases.zipIdx index).map
      fun (c, i) => ⟨armX p x i, casePort i, casePort i, c.body⟩) d := by
  induction cases generalizing index d with
  | nil => rfl
  | cons c rest ih => simp only [lowerCases, List.zipIdx_cons, List.map_cons, lowerEach, ih]

lemma lowerArms_eq (act : Act Statement) :
    lowerArms p x owner act d = lowerEach p owner (loweredArms p x act) d := by
  cases act with
  | choice options => rw [lowerArms, lowerOptions_eq, loweredArms]
  | branch condition thenBody elseBody =>
    simp only [lowerArms, loweredArms, lowerEach, lowerOptional_eq]
  | switch subject cases default =>
    simp only [lowerArms, loweredArms, lowerEach_append, lowerOptional_eq, lowerCases_eq]
  | loop condition body =>
    simp only [lowerArms, loweredArms, lowerEach]
    rfl
  | _ => simp only [lowerArms, loweredArms, lowerEach]

end Arms

/-! ## Extending a chain -/

/-- A chain can be continued: a node can be connected to the port that waits. -/
structure Ready (c : Chain) : Prop where
  tidy : Tidy (base c.draft)
  output : c.pending.isOutput = true
  known : 1 ≤ c.pending.node ∧ c.pending.node < (base c.draft).nextId
  free : Free (base c.draft) c.pending

/-- `g` comes out of the chain `c` by connections that start at the port that waits, at nodes
before `lo` or at nodes added later. -/
structure Final (lo : Nat) (c : Chain) (g : FlowGraph) : Prop where
  tidy : Tidy g.graph
  later : Later (fun q => q = c.pending ∨ q.node < lo ∨ (base c.draft).nextId ≤ q.node)
    (base c.draft) g.graph

/-- The chain `c'` continues `c` along statements. -/
structure Extended (stmts : List Statement) (c c' : Chain) : Prop where
  ready : Ready c'
  later : Later (fun q => q = c.pending ∨ (base c.draft).nextId ≤ q.node) (base c.draft)
    (base c'.draft)
  pending : c'.pending = c.pending ∨ (base c.draft).nextId ≤ c'.pending.node
  balance : Balance 0 (base c.draft) (base c'.draft)
  tables : SameTables c.draft.graph c'.draft.graph
  noScene : NoNewScene c.draft.graph c'.draft.graph
  leads : ∀ {g top rest hi}, Final (base c.draft).nextId c' g →
    Leads g top c'.pending rest (base c'.draft).nextId hi →
    Leads g top c.pending (stmts ++ rest) (base c.draft).nextId hi

def Lowers (p : Placement) (s : Statement) : Prop :=
  ∀ x c, Ready c → ∃ c', lowerStatement p x s c = .ok c' ∧ Extended [s] c c'

def LowersBody (p : Placement) (body : List Statement) : Prop :=
  ∀ x c, Ready c → ∃ c', lowerBody p x body c = .ok c' ∧ Extended body c c'

section Extend

variable {p : Placement} {c c' c'' : Chain} {a b : List Statement}

lemma Extended.refl (h : Ready c) : Extended [] c c where
  ready := h
  later := .refl _ _
  pending := .inl rfl
  balance := rfl
  tables := ⟨rfl, rfl, rfl⟩
  noScene := noNewScene_of_nextId h.tidy rfl
  leads _ h := h

/-- Connections made after `c'` start where connections made after `c` may start. -/
lemma Extended.final_of_final {lo : Nat} {g : FlowGraph} (h : Extended a c c')
    (hfinal : Final lo c' g) : Final lo c g where
  tidy := hfinal.tidy
  later := by
    refine (h.later.mono fun q hq => ?_).trans (hfinal.later.mono fun q hq => ?_)
    · rcases hq with hq | hq
      · exact .inl hq
      · exact .inr (.inr hq)
    · have hle := h.later.nextId
      rcases hq with rfl | hq | hq
      · rcases h.pending with hpending | hpending
        · exact .inl hpending
        · exact .inr (.inr hpending)
      · exact .inr (.inl hq)
      · exact .inr (.inr (hle.trans hq))

lemma Extended.append (h : Extended a c c') (h' : Extended b c' c'') : Extended (a ++ b) c c'' where
  ready := h'.ready
  later := by
    refine h.later.trans (h'.later.mono fun q hq => ?_)
    rcases hq with rfl | hq
    · exact h.pending
    · exact .inr (h.later.nextId.trans hq)
  pending := by
    rcases h'.pending with hpending | hpending
    · exact hpending ▸ h.pending
    · exact .inr (h.later.nextId.trans hpending)
  balance := h.balance.trans h'.balance
  tables := h.tables.trans h'.tables
  noScene := h.noScene.trans h'.noScene h'.later
  leads {g top rest hi} hfinal hrest := by
    have hfinal' : Final (base c'.draft).nextId c'' g :=
      ⟨hfinal.tidy, hfinal.later.mono fun q hq => by
        rcases hq with hq | hq | hq
        · exact .inl hq
        · exact .inr (.inl (hq.trans_le h.later.nextId))
        · exact .inr (.inr hq)⟩
    rw [List.append_assoc]
    exact h.leads (h'.final_of_final hfinal) (h'.leads hfinal' hrest)

lemma lowersBody_of_lowers {body : List Statement} (h : ∀ s ∈ body, Lowers p s) :
    LowersBody p body := by
  induction body with
  | nil => exact fun x c hc => ⟨c, rfl, .refl hc⟩
  | cons s rest ih =>
    intro x c hc
    obtain ⟨c₁, hs, h₁⟩ := h s List.mem_cons_self x c hc
    obtain ⟨c₂, hrest, h₂⟩ := ih (fun t ht => h t (List.mem_cons_of_mem _ ht)) x c₁ h₁.ready
    refine ⟨c₂, ?_, h₁.append h₂⟩
    rw [lowerBody, hs]
    exact hrest

end Extend

/-! ## Adding the arms of a node -/

/-- The draft `d'` continues `d` by the chains of arms of a node. -/
structure ArmsAdded (owner : Nat) (arms : List LoweredArm) (d d' : Draft) : Prop where
  tidy : Tidy (base d')
  later : Later (fun q => (q.node = owner ∧ q.name ∈ arms.map (·.port)) ∨ (base d).nextId ≤ q.node)
    (base d) (base d')
  balance : Balance 0 (base d) (base d')
  tables : SameTables d.graph d'.graph
  noScene : NoNewScene d.graph d'.graph
  leads : ∀ {g : FlowGraph}, Tidy g.graph →
    Later (fun q => q.node < owner ∨ (q.node = owner ∧ q.name ∉ arms.map (·.port)) ∨
      (base d').nextId ≤ q.node) (base d') g.graph →
    Consecutive (fun a lo hi => Leads g false (.output owner a.port) a.body lo hi) arms
      (base d).nextId (base d').nextId

lemma targetOf?_of_free {g : FlowGraph} {id : Nat} {port : String} (h : Tidy g.graph)
    (hfree : Free g.graph (.output id port)) : g.targetOf? id port = none := by
  rw [FlowGraph.targetOf?, outgoingFrom_of_free h hfree]
  rfl

lemma targetOf?_of_mem {g : FlowGraph} {e : Edge String} (h : Tidy g.graph)
    (he : e ∈ g.graph.edges) : g.targetOf? e.source.node e.source.name = some e.target.node := by
  rw [FlowGraph.targetOf?, outgoingFrom_of_mem h he]
  rfl

section Arm

variable {p : Placement} {d : Draft} {c : Chain} {owner : Nat} {port label : String}
  {body : List Statement} {g : FlowGraph}

/-- The chain of an arm ends where nothing is connected to it any more. -/
lemma Extended.endsAt (h : Extended body ⟨d, .output owner port, label⟩ c)
    (howner : owner < (base d).nextId) (hg : Tidy g.graph)
    (hlater : Later (fun q => q.node < owner ∨ (q.node = owner ∧ q.name ≠ port) ∨
      (base c.draft).nextId ≤ q.node) (base c.draft) g.graph) (stop : Nat) :
    EndsAt g false c.pending stop := by
  have hknown := h.ready.known.2
  have hfree : Free g.graph c.pending := by
    refine Free.later h.ready.free hlater ?_
    rcases h.pending with hpending | hpending
    · rw [hpending] at hknown ⊢
      rintro (hq | ⟨-, hname⟩ | hq)
      · exact absurd hq (Nat.lt_irrefl _)
      · exact hname rfl
      · exact absurd hknown (Nat.not_lt.2 hq)
    · have hlt : owner < c.pending.node := howner.trans_le hpending
      rintro (hq | ⟨hnode, -⟩ | hq)
      · exact absurd hq (Nat.lt_asymm hlt)
      · exact absurd hnode (Nat.ne_of_gt hlt)
      · exact absurd hknown (Nat.not_lt.2 hq)
  have hport : c.pending = .output c.pending.node c.pending.name := by
    have hout := h.ready.output
    cases hp : c.pending
    simp only [hp] at hout
    rw [hout, Port.output]
  exact targetOf?_of_free hg (hport ▸ hfree)

/-- The flow leads along the statements of an arm. -/
lemma Extended.leads_arm (h : Extended body ⟨d, .output owner port, label⟩ c)
    (howner : owner < (base d).nextId) (hg : Tidy g.graph)
    (hlater : Later (fun q => q.node < owner ∨ (q.node = owner ∧ q.name ≠ port) ∨
      (base c.draft).nextId ≤ q.node) (base c.draft) g.graph) :
    Leads g false (.output owner port) body (base d).nextId (base c.draft).nextId := by
  have hfinal : Final (base d).nextId c g := ⟨hg, hlater.mono fun q hq => by
    rcases hq with hq | ⟨hnode, -⟩ | hq
    · exact .inr (.inl (hq.trans howner))
    · exact .inr (.inl (hnode ▸ howner))
    · exact .inr (.inr hq)⟩
  have hleads := h.leads hfinal (.stop (h.endsAt howner hg hlater _))
  rwa [List.append_nil] at hleads

lemma ArmsAdded.nil (hd : Tidy (base d)) : ArmsAdded owner [] d d where
  tidy := hd
  later := .refl _ _
  balance := rfl
  tables := ⟨rfl, rfl, rfl⟩
  noScene := noNewScene_of_nextId hd rfl
  leads _ _ := rfl

lemma ArmsAdded.cons {a : LoweredArm} {arms : List LoweredArm} {d' : Draft}
    (hext : Extended a.body ⟨d, .output owner a.port, a.label⟩ c)
    (hadded : ArmsAdded owner arms c.draft d') (hnew : a.port ∉ arms.map (·.port))
    (howner : owner < (base d).nextId) : ArmsAdded owner (a :: arms) d d' where
  tidy := hadded.tidy
  later := by
    refine (hext.later.mono fun q hq => ?_).trans (hadded.later.mono fun q hq => ?_)
    · rcases hq with rfl | hq
      · exact .inl ⟨rfl, List.mem_cons_self⟩
      · exact .inr hq
    · rcases hq with ⟨hnode, hname⟩ | hq
      · exact .inl ⟨hnode, List.mem_cons_of_mem _ hname⟩
      · exact .inr (hext.later.nextId.trans hq)
  balance := hext.balance.trans hadded.balance
  tables := hext.tables.trans hadded.tables
  noScene := hext.noScene.trans hadded.noScene hadded.later
  leads {g} hg hlater := by
    have hafter : Later (fun q => q.node < owner ∨ (q.node = owner ∧ q.name ≠ a.port) ∨
        (base c.draft).nextId ≤ q.node) (base c.draft) g.graph := by
      refine (hadded.later.mono fun q hq => ?_).trans (hlater.mono fun q hq => ?_)
      · rcases hq with ⟨hnode, hname⟩ | hq
        · exact .inr (.inl ⟨hnode, fun heq => hnew (heq ▸ hname)⟩)
        · exact .inr (.inr hq)
      · rcases hq with hq | ⟨hnode, hname⟩ | hq
        · exact .inl hq
        · exact .inr (.inl ⟨hnode, fun heq => hname (heq ▸ List.mem_cons_self)⟩)
        · exact .inr (.inr (hadded.later.nextId.trans hq))
    refine ⟨(base c.draft).nextId, hext.leads_arm howner hg hafter, ?_⟩
    refine hadded.leads hg (hlater.mono fun q hq => ?_)
    rcases hq with hq | ⟨hnode, hname⟩ | hq
    · exact .inl hq
    · exact .inr (.inl ⟨hnode, fun hmem => hname (List.mem_cons_of_mem _ hmem)⟩)
    · exact .inr (.inr hq)

end Arm

lemma armsAdded {p : Placement} {owner : Nat} {arms : List LoweredArm} {d : Draft}
    (hbody : ∀ a ∈ arms, LowersBody p a.body) (hnodup : (arms.map (·.port)).Nodup)
    (hd : Tidy (base d)) (hpos : 1 ≤ owner) (howner : owner < (base d).nextId)
    (hfree : ∀ a ∈ arms, Free (base d) (.output owner a.port)) :
    ∃ d', lowerEach p owner arms d = .ok d' ∧ ArmsAdded owner arms d d' := by
  induction arms generalizing d with
  | nil => exact ⟨d, rfl, .nil hd⟩
  | cons a arms ih =>
    rw [List.map_cons, List.nodup_cons] at hnodup
    have hready : Ready ⟨d, .output owner a.port, a.label⟩ :=
      ⟨hd, rfl, ⟨hpos, howner⟩, hfree a List.mem_cons_self⟩
    obtain ⟨c, hc, hext⟩ := hbody a List.mem_cons_self a.x _ hready
    have hfree' : ∀ a' ∈ arms, Free (base c.draft) (.output owner a'.port) := by
      intro a' ha'
      refine Free.later (hfree a' (List.mem_cons_of_mem _ ha')) hext.later ?_
      rintro (heq | hnode)
      · have hport : a'.port = a.port := congrArg Port.name heq
        exact hnodup.1 (hport ▸ List.mem_map_of_mem ha')
      · exact absurd howner (Nat.not_lt.2 hnode)
    obtain ⟨d', hd', hadded⟩ := ih (fun a' ha' => hbody a' (List.mem_cons_of_mem _ ha')) hnodup.2
      hext.ready.tidy (howner.trans_le hext.later.nextId) hfree'
    exact ⟨d', by rw [lowerEach, hc]; exact hd', .cons hext hadded hnodup.1 howner⟩

/-! ## Adding a statement -/

lemma lowerStatement_eq {p : Placement} {x : Binary64} {loc : Location} {act : Act Statement}
    {c : Chain} {kind : NodeKind} {properties : List (String × PropertyValue)}
    (h : nodeOf? act = some (kind, properties)) :
    lowerStatement p x (.mk loc act) c = (do
      let placed := (⟨c.draft.graph, x, c.draft.y⟩ : Draft).place p kind loc properties
      let draft ← lowerEach p placed.1 (loweredArms p x act) placed.2
      let graph ← draft.graph.connect c.pending (.input placed.1 "in") c.label
      return ⟨{ draft with graph }, onward placed.1 kind, ""⟩) := by
  cases act with
  | block body => cases h
  | _ =>
    simp only [lowerStatement, h, lowerArms_eq]
    rfl

lemma body_mem_bodies {p : Placement} {x : Binary64} {act : Act Statement} {a : LoweredArm}
    (ha : a ∈ loweredArms p x act) : a.body ∈ act.bodies := by
  have harm : (a.port, a.body) ∈ act.armPorts := by
    rw [← map_loweredArms (p := p) (x := x)]
    exact List.mem_map_of_mem ha
  exact mem_bodies_of_mem_armPorts harm

/-- The chain `c'` is `c` with the node of an act, entered from the port that waited, and with the
chains of its arms. -/
structure NodeChained (act : Act Statement) (kind : NodeKind) (loc : Location)
    (properties : List (String × PropertyValue)) (c c' : Chain) : Prop where
  lt : (base c.draft).nextId < (base c'.draft).nextId
  pending : c'.pending = onward (base c.draft).nextId kind
  node : ∃ n, c'.draft.graph.node? (base c.draft).nextId = some n ∧
    MadeFor (base c.draft).nextId kind loc properties n
  entered : ∃ e ∈ (base c'.draft).edges,
    e.source = c.pending ∧ e.target = .input (base c.draft).nextId "in"
  free : ∀ port, port ∉ act.armPorts.map (·.1) →
    Free (base c'.draft) (.output (base c.draft).nextId port)
  arms : ∀ {g : FlowGraph}, Tidy g.graph →
    Later (fun q => q.node < (base c.draft).nextId ∨
      (q.node = (base c.draft).nextId ∧ q.name ∉ act.armPorts.map (·.1)) ∨
      (base c'.draft).nextId ≤ q.node) (base c'.draft) g.graph →
    Consecutive (fun a lo hi => Leads g false (.output (base c.draft).nextId a.1) a.2 lo hi)
      act.armPorts ((base c.draft).nextId + 1) (base c'.draft).nextId

section Node

variable {p : Placement} {loc : Location} {act : Act Statement} {kind : NodeKind}
  {properties : List (String × PropertyValue)} {c c' : Chain}

/-- The flow leads through the node of an act and then along whatever it leads to after it. -/
lemma NodeChained.leads {g : FlowGraph} {top : Bool} {rest : List Statement} {hi : Nat}
    (hchained : NodeChained act kind loc properties c c')
    (hnode : nodeOf? act = some (kind, properties)) (hfinal : Final (base c.draft).nextId c' g)
    (hrest : Leads g top c'.pending rest (base c'.draft).nextId hi) :
    Leads g top c.pending (.mk loc act :: rest) (base c.draft).nextId hi := by
  obtain ⟨n, hn, hmade⟩ := hchained.node
  obtain ⟨e, he, hsource, htarget⟩ := hchained.entered
  have hlt := hchained.lt
  have hpending := hchained.pending
  have hentered : g.targetOf? c.pending.node c.pending.name = some (base c.draft).nextId := by
    have := targetOf?_of_mem hfinal.tidy (hfinal.later.mem_edges he)
    rwa [hsource, htarget] at this
  have hfound : g.node? (base c.draft).nextId = some n := (hfinal.later.nodes _ hlt).trans hn
  have habsent : ∀ port ∈ act.absentPorts, g.targetOf? (base c.draft).nextId port = none := by
    intro port hport
    obtain ⟨hnotArm, hnotOnward⟩ := absentPorts_apart hnode hport
    refine targetOf?_of_free hfinal.tidy (Free.later (hchained.free port hnotArm) hfinal.later ?_)
    rintro (hq | hq | hq)
    · exact hnotOnward (congrArg Port.name (hq.trans hpending))
    · exact absurd hq (Nat.lt_irrefl _)
    · exact absurd hlt (Nat.not_lt.2 hq)
  have harms := hchained.arms hfinal.tidy (hfinal.later.mono fun q hq => by
    rcases hq with rfl | hq | hq
    · rw [hpending]
      exact .inr (.inl ⟨rfl, onward_notMem_armPorts hnode⟩)
    · exact .inl hq
    · exact .inr (.inr hq))
  exact leads_node hnode hentered hfound hmade habsent harms (hpending ▸ hrest)

lemma nodeChained {d₁ d₂ : Draft} {g : FlowGraph} {x : Binary64} (hc : Ready c)
    (hplaced : NodeAdded kind loc properties c.draft.graph d₁.graph)
    (hadded : ArmsAdded (base c.draft).nextId (loweredArms p x act) d₁ d₂)
    (hedge : EdgeAdded c.pending (.input (base c.draft).nextId "in") d₂.graph g) :
    NodeChained act kind loc properties c
      ⟨{ d₂ with graph := g }, onward (base c.draft).nextId kind, ""⟩ := by
  have hpending : c.pending.node < (base c.draft).nextId := hc.known.2
  have hnext : (base d₁).nextId = (base c.draft).nextId + 1 := hplaced.nextId
  have hports := ports_loweredArms (p := p) (x := x) act
  have hlt : (base c.draft).nextId < (base d₁).nextId := hnext ▸ Nat.lt_succ_self _
  have hlt₂ : (base c.draft).nextId < (base d₂).nextId := hlt.trans_le hadded.later.nextId
  have hnode : g.node? (base c.draft).nextId = d₁.graph.node? (base c.draft).nextId :=
    (hedge.later.nodes _ hlt₂).trans (hadded.later.nodes _ hlt)
  refine ⟨hedge.nextId ▸ hlt₂, rfl, ?_, hedge.edge, ?_, ?_⟩
  · obtain ⟨n, hn, hmade⟩ := hplaced.node
    exact ⟨n, hnode.trans hn, hmade⟩
  · intro port hport
    have hfree : Free (base d₁) (.output (base c.draft).nextId port) :=
      Free.later (Free.of_new hc.tidy (Nat.le_refl _)) hplaced.later not_false
    refine Free.later (Free.later hfree hadded.later ?_) hedge.later fun heq => ?_
    · rintro (⟨-, hname⟩ | hq)
      · exact hport (hports ▸ hname)
      · exact absurd hlt (Nat.not_lt.2 hq)
    · exact absurd (congrArg Port.node heq) (Nat.ne_of_gt hpending)
  · intro g' hg' hlater
    have harms := hadded.leads hg' ((hedge.later.mono fun q hq => .inl (hq ▸ hpending)).trans
      (hlater.mono fun q hq => by rwa [hports, ← hedge.nextId]))
    rwa [← hnext, ← map_loweredArms (p := p) (x := x), consecutive_map, hedge.nextId]

lemma lowers_node (h : nodeOf? act = some (kind, properties))
    (hbodies : ∀ body ∈ act.bodies, LowersBody p body) : Lowers p (.mk loc act) := by
  intro x c hc
  obtain ⟨id, hid⟩ : ∃ id, id = (base c.draft).nextId := ⟨_, rfl⟩
  have hpending : 1 ≤ c.pending.node ∧ c.pending.node < id := hid ▸ hc.known
  have hpos : 1 ≤ id := hpending.1.trans hpending.2.le
  obtain ⟨d₁, hplace, hplaced⟩ :=
    nodeAdded (p := p) (d := ⟨c.draft.graph, x, c.draft.y⟩) hc.tidy kind loc properties
  have hnext : (base d₁).nextId = id + 1 := hid ▸ hplaced.nextId
  have hlt : id < (base d₁).nextId := hnext ▸ Nat.lt_succ_self id
  have hports := ports_loweredArms (p := p) (x := x) act
  obtain ⟨d₂, hd₂, hadded⟩ := armsAdded (p := p) (d := d₁)
    (fun a ha => hbodies _ (body_mem_bodies ha)) (hports ▸ nodup_armPorts act) hplaced.tidy hpos hlt
    fun a _ => Free.later (Free.of_new hc.tidy hid.ge) hplaced.later not_false
  have hlt₂ : id < (base d₂).nextId := hlt.trans_le hadded.later.nextId
  have hfree : Free (base d₂) c.pending := by
    refine Free.later (Free.later hc.free hplaced.later not_false) hadded.later ?_
    rintro (⟨hnode, -⟩ | hnode)
    · omega
    · omega
  obtain ⟨g, hg, hedge⟩ := edgeAdded c.pending (.input id "in") c.label hadded.tidy hc.output rfl
    ⟨hpending.1, hpending.2.trans hlt₂⟩ ⟨hpos, hlt₂⟩ hfree
  subst hid
  have hchained := nodeChained hc hplaced hadded hedge
  refine ⟨_, ?_, ⟨hedge.tidy, rfl, ⟨hpos, hchained.lt⟩, ?_⟩, ?_, .inr (Nat.le_refl _), ?_, ?_, ?_,
    fun hfinal hrest => hchained.leads h hfinal hrest⟩
  · rw [lowerStatement_eq h, hplace]
    dsimp only
    rw [hd₂]
    change (d₂.graph.connect c.pending (.input _ "in") c.label >>= _) = _
    rw [hg]
    rfl
  · exact hchained.free _ (onward_notMem_armPorts h)
  · refine (hplaced.later.mono fun _ h => h.elim).trans
      ((hadded.later.mono fun q hq => .inr ?_).trans (hedge.later.mono fun q hq => .inl hq))
    rcases hq with ⟨hnode, -⟩ | hq
    · exact hnode.ge
    · exact hlt.le.trans hq
  · have hboth : Balance (1 + 0) (base c.draft) (base d₂) := hplaced.balance.trans hadded.balance
    have hedges : g.graph.edges.length = (base d₂).edges.length + 1 := hedge.edges
    have hnodes : g.graph.nextId = (base d₂).nextId := hedge.nextId
    change g.graph.edges.length + (base c.draft).nextId + 0 =
      (base c.draft).edges.length + g.graph.nextId
    unfold Balance at hboth
    omega
  · exact hplaced.tables.trans (hadded.tables.trans hedge.tables)
  · have hscene : NoNewScene c.draft.graph d₂.graph :=
      (hplaced.noNewScene (nodeOf?_kind h).1).trans hadded.noScene hadded.later
    exact hscene.trans (noNewScene_of_nextId hedge.tidy hedge.nextId) hedge.later

end Node

theorem lowers (p : Placement) (s : Statement) : Lowers p s := by
  revert s
  refine statement_induct fun loc act ih => ?_
  have hbodies : ∀ body ∈ act.bodies, LowersBody p body :=
    fun body hbody => lowersBody_of_lowers (ih body hbody)
  cases hnode : nodeOf? act with
  | some node => exact lowers_node hnode hbodies
  | none =>
    cases act with
    | block body =>
      intro x c hc
      obtain ⟨c', hc', hext⟩ := hbodies body List.mem_cons_self x c hc
      refine ⟨c', by rw [lowerStatement, hc'], hext.ready, hext.later, hext.pending,
        hext.balance, hext.tables, hext.noScene, fun hfinal hrest => .block (hext.leads hfinal hrest)⟩
    | _ => cases hnode

lemma lowersBody (p : Placement) (body : List Statement) : LowersBody p body :=
  lowersBody_of_lowers fun s _ => lowers p s

end Novella.Proofs
