import Novella.Flow.Raising
import Novella.Proofs.Dict
import Novella.Proofs.Flow.LoweredChains
import Novella.Proofs.Script.ExpressionReading

/-!
# Statements read back along the graph

Where the flow leads along statements, reading the chain gives these statements back
(`gives_chain`): nested blocks are spliced, comments kept or dropped, and numbers without a
literal replaced. A reader skips nodes that it has seen. That it has not seen the ones before it
follows from their ids, which ascend along the chain; `Gives` carries this bound from one reader to
the next.
-/

namespace Novella.Flow

open Script

/-- What is read of the node of an act, if anything. -/
def kept (policy : CommentPolicy) : Act Statement → Option (Act Statement)
  | .comment text => if policy = .preserve then some (.comment text) else none
  | act => some (act.mapExpressions Expression.written)

/-- The statements that are read back of a statement. -/
def raisedAct (policy : CommentPolicy) (loc : Location) : Act Statement → List Statement
  | .block body => body
  | act => ((kept policy act).map (Statement.mk loc)).toList

end Novella.Flow

namespace Novella.Proofs

open Script Novella.Flow

/-! ## Readers that visit a range of nodes -/

/-- With nothing visited but nodes below `lo`, the reader gives `a` and has then visited nothing but
nodes below `hi`. -/
def Gives {α : Type} (r : Reading α) (a : α) (lo hi : Nat) : Prop :=
  ∀ visited : List Nat, (∀ v ∈ visited, v < lo) →
    ∃ visited', r visited = .ok (a, visited') ∧ ∀ v ∈ visited', v < hi

section Gives

variable {α β : Type} {a : α} {b : β} {lo mid hi : Nat}

lemma gives_pure (a : α) (lo : Nat) : Gives (pure a) a lo lo :=
  fun visited h => ⟨visited, rfl, h⟩

lemma Gives.bind {r : Reading α} {next : α → Reading β} (hr : Gives r a lo mid)
    (hnext : Gives (next a) b mid hi) : Gives (r >>= next) b lo hi := by
  intro visited hvisited
  obtain ⟨between, hread, hbetween⟩ := hr visited hvisited
  obtain ⟨after, hread', hafter⟩ := hnext between hbetween
  refine ⟨after, ?_, hafter⟩
  change (r visited >>= fun s => next s.1 s.2) = _
  rw [hread]
  exact hread'

lemma gives_lift {x : Except Fault α} (h : x = .ok a) (lo : Nat) :
    Gives (liftM x : Reading α) a lo lo := by
  intro visited hvisited
  subst h
  exact ⟨visited, rfl, hvisited⟩

lemma Gives.map {r : Reading α} (h : Gives r a lo hi) (f : α → β) :
    Gives (r >>= fun a => pure (f a)) (f a) lo hi :=
  h.bind (gives_pure _ _)

end Gives

/-! ## Properties of a node -/

section Properties

variable {n : Node} {property : String}

lemma property?_set (n : Node) (name other : String) (v : PropertyValue) :
    (n.set name v).property? other = if other = name then some v else n.property? other :=
  get?_insert n.properties name other v

/-- Of all properties only the named one goes. -/
lemma property?_unset (n : Node) (name other : String) :
    (n.unset name).property? other = if other = name then none else n.property? other := by
  ext v
  rw [Node.property?, Node.unset, get?_erase_iff]
  split <;> simp_all [Node.property?]

section MadeFor

variable {id : Nat} {kind : NodeKind} {loc : Location} {properties : List (String × PropertyValue)}

lemma MadeFor.property? (h : MadeFor id kind loc properties n) (name : String) :
    n.property? name = properties.reverse.lookup name := by
  have hset : ∀ (vs : List (String × PropertyValue)) (n : Node),
      (n.setAll vs).property? name = (vs.reverse.lookup name).or (n.property? name) := by
    intro vs
    induction vs with
    | nil => intro n; rfl
    | cons v vs ih =>
      obtain ⟨other, value⟩ := v
      intro n
      rw [Node.setAll, List.foldl_cons, ← Node.setAll, ih, property?_set, List.reverse_cons,
        List.lookup_append, Option.or_assoc]
      by_cases hname : name = other
      · simp [hname]
      · simp [List.lookup_cons, hname, beq_false_of_ne hname]
  obtain ⟨x, y, rfl⟩ := h
  rw [hset]
  exact Option.or_none

lemma MadeFor.text {t : String} (h : MadeFor id kind loc properties n)
    (ht : properties.reverse.lookup property = some (.text t)) : n.text property = t := by
  rw [Node.text, Node.text?, h.property?, ht]
  rfl

lemma MadeFor.texts {ts : List String} (h : MadeFor id kind loc properties n)
    (ht : properties.reverse.lookup property = some (.texts ts)) : n.texts property = ts := by
  rw [Node.texts, Node.texts?, h.property?, ht]
  rfl

lemma MadeFor.bool {b : Bool} (h : MadeFor id kind loc properties n)
    (hb : properties.reverse.lookup property = some (.bool b)) : n.bool property = b := by
  rw [Node.bool, Node.bool?, h.property?, hb]
  rfl

lemma MadeFor.float {x : Binary64} (h : MadeFor id kind loc properties n)
    (hx : properties.reverse.lookup property = some (.float x)) : n.float property = x := by
  rw [Node.float, Node.float?, h.property?, hx]
  rfl

end MadeFor

lemma nameOf_eq {name : String} (htext : n.text property = name) (h : isName name = true) :
    nameOf n property = .ok name := by
  simp only [nameOf, htext, h, if_true]

lemma nameOf?_eq {name : Option String} (htext : n.text property = name.getD "")
    (h : ∀ m ∈ name.toList, isName m = true) : nameOf? n property = .ok name := by
  rw [nameOf?]
  cases name with
  | none => rw [htext, Option.getD_none, if_pos rfl]
  | some m =>
    have hname : isName m = true := h m List.mem_cons_self
    have hne : m ≠ "" := by
      rintro rfl
      obtain ⟨c, cs, hcs, -⟩ := isName_exists_cons hname
      exact List.cons_ne_nil c cs hcs.symm
    rw [htext, Option.getD_some, if_neg hne, nameOf_eq htext hname]
    rfl

lemma expressionIn_eq {text : String} {e : Expression} (h : parseExpression text = .ok e) :
    expressionIn n property text = .ok e := by
  unfold expressionIn
  rw [h]

lemma expressionIn_render (n : Node) (property : String) {e : Expression} (h : e.Named) :
    expressionIn n property e.render = .ok e.written :=
  expressionIn_eq (parseExpression_render h)

lemma expressionOf_render {e : Expression} (htext : n.text property = e.render) (h : e.Named) :
    expressionOf n property = .ok e.written := by
  rw [expressionOf, htext, expressionIn_render n property h]

lemma render_ne_empty {e : Expression} (h : e.Named) : e.render ≠ "" := by
  intro hempty
  obtain ⟨c, cs, hcs, -⟩ := render_head h
  rw [hempty] at hcs
  cases hcs

lemma conditionOf_eq {condition : Option Expression} {index : Nat}
    (htext : (n.texts "conditions")[index]? = some (condition.elim "" Expression.render))
    (h : ∀ e ∈ condition, e.Named) : conditionOf n index = .ok (condition.map Expression.written) := by
  rw [conditionOf, htext]
  cases condition with
  | none => rfl
  | some e =>
    have he : e.Named := h e rfl
    dsimp only [Option.elim]
    rw [if_neg (render_ne_empty he), expressionIn_render n _ he]
    rfl

end Properties

/-! ## Arms -/

section Arms

variable {n : Node} {arm : String → Reading (List Statement)} {f : List Statement → List Statement}
  {lo hi : Nat}

lemma gives_options {options : List (ChoiceOption Statement)} {index : Nat}
    (hconditions : ∀ i o, options[i]? = some o →
      (n.texts "conditions")[index + i]? = some (o.condition.elim "" Expression.render))
    (hnamed : ∀ o ∈ options, ∀ e ∈ o.condition, e.Named)
    (harms : Consecutive (fun a => Gives (arm a.1) (f a.2))
      ((options.zipIdx index).map fun (o, i) => (optionPort i, o.body)) lo hi) :
    Gives (readOptions n arm index (options.map (·.text)))
      (options.map fun o => ⟨o.text, o.condition.map Expression.written, f o.body⟩) lo hi := by
  induction options generalizing index lo with
  | nil => exact harms ▸ gives_pure [] lo
  | cons o options ih =>
    obtain ⟨mid, hbody, hrest⟩ := harms
    have hcondition := conditionOf_eq (hconditions 0 o rfl) (hnamed o List.mem_cons_self)
    have htail := ih
      (fun i p hp => by rw [Nat.add_right_comm]; exact hconditions (i + 1) p hp)
      (fun p hp => hnamed p (List.mem_cons_of_mem _ hp)) hrest
    exact (gives_lift hcondition lo).bind (hbody.bind (htail.map _))

lemma gives_cases {cases : List (SwitchCase Statement)} {index : Nat}
    (hnamed : ∀ c ∈ cases, c.value.Named)
    (harms : Consecutive (fun a => Gives (arm a.1) (f a.2))
      ((cases.zipIdx index).map fun (c, i) => (casePort i, c.body)) lo hi) :
    Gives (readCases n arm index (cases.map (·.value.render)))
      (cases.map fun c => ⟨c.value.written, f c.body⟩) lo hi := by
  induction cases generalizing index lo with
  | nil => exact harms ▸ gives_pure [] lo
  | cons c cases ih =>
    obtain ⟨mid, hbody, hrest⟩ := harms
    have hvalue := expressionIn_render n "cases" (hnamed c List.mem_cons_self)
    have htail := ih (fun d hd => hnamed d (List.mem_cons_of_mem _ hd)) hrest
    exact (gives_lift hvalue lo).bind (hbody.bind (htail.map _))

lemma gives_optional {g : FlowGraph} {flag port : String} {body : Option (List Statement)}
    (hflag : n.bool flag = body.isSome) (hnone : body = none → g.targetOf? n.id port = none)
    (harms : Consecutive (fun a => Gives (arm a.1) (f a.2)) (body.toList.map fun b => (port, b))
      lo hi) :
    Gives (readOptional g n arm flag port) (body.map f) lo hi := by
  rw [readOptional, hflag]
  cases body with
  | none =>
    rw [hnone rfl]
    exact harms ▸ gives_pure none lo
  | some b =>
    obtain ⟨mid, hbody, rfl⟩ := harms
    exact hbody.map some

end Arms

/-! ## Nodes -/

section Nodes

variable {policy : CommentPolicy} {g : FlowGraph} {arm : String → Reading (List Statement)}
  {f : List Statement → List Statement}

lemma gives_choice {n : Node} {lo hi : Nat} {options : List (ChoiceOption Statement)}
    (hkind : n.kind = .choice) (hoptions : n.texts "options" = options.map (·.text))
    (hconditions : n.texts "conditions" =
      options.map fun o => o.condition.elim "" Expression.render)
    (named : (Act.choice options).Named)
    (arms : Consecutive (fun a => Gives (arm a.1) (f a.2)) (Act.choice options).armPorts lo hi) :
    Gives (readNode policy g arm n) (kept policy ((Act.choice options).mapBodies f)) lo hi := by
  have hread : Gives (readOptions n arm 0 (options.map (·.text)))
      (options.map fun o => ⟨o.text, o.condition.map Expression.written, f o.body⟩) lo hi := by
    refine gives_options (fun i o ho => ?_) (fun o ho e he => ?_) arms
    · rw [hconditions, Nat.zero_add, List.getElem?_map, ho]
      rfl
    · exact named.2 e (List.mem_filterMap.2 ⟨o, ho, he⟩)
  have hkept : kept policy ((Act.choice options).mapBodies f) = some (.choice
      (options.map fun o => ⟨o.text, o.condition.map Expression.written, f o.body⟩)) := by
    simp [kept, Act.mapBodies, Act.mapExpressions]
  rw [readNode, hkind, hoptions, hkept]
  exact hread.map fun options => some (Act.choice options)

lemma gives_switch {n : Node} {lo hi : Nat} {subject : Expression}
    {cases : List (SwitchCase Statement)} {default : Option (List Statement)}
    (hkind : n.kind = .switch) (hsubject : n.text "subject" = subject.render)
    (hcases : n.texts "cases" = cases.map (·.value.render))
    (hdefault : n.bool "has_default" = default.isSome)
    (hnone : default = none → g.targetOf? n.id "default" = none)
    (named : (Act.switch subject cases default).Named)
    (arms : Consecutive (fun a => Gives (arm a.1) (f a.2))
      (Act.switch subject cases default).armPorts lo hi) :
    Gives (readNode policy g arm n) (kept policy ((Act.switch subject cases default).mapBodies f))
      lo hi := by
  obtain ⟨mid, hbodies, harm⟩ := (consecutive_append _ _ _ _).1 arms
  obtain ⟨hnamed, hvalues⟩ := List.forall_mem_cons.1 named.2
  have hread : Gives (readCases n arm 0 (cases.map (·.value.render)))
      (cases.map fun c => ⟨c.value.written, f c.body⟩) lo mid :=
    gives_cases (fun c hc => hvalues _ (List.mem_map_of_mem hc)) hbodies
  have hkept : kept policy ((Act.switch subject cases default).mapBodies f) =
      some (.switch subject.written (cases.map fun c => ⟨c.value.written, f c.body⟩)
        (default.map f)) := by
    simp [kept, Act.mapBodies, Act.mapExpressions]
  rw [readNode, hkind, hcases, hkept]
  exact (gives_lift (expressionOf_render hsubject hnamed) lo).bind
    (hread.bind ((gives_optional hdefault hnone harm).map _))

lemma gives_branch {n : Node} {lo hi : Nat} {condition : Expression} {thenBody : List Statement}
    {elseBody : Option (List Statement)} (hkind : n.kind = .branch)
    (hcondition : n.text "condition" = condition.render)
    (helse : n.bool "has_else" = elseBody.isSome)
    (hnone : elseBody = none → g.targetOf? n.id "false" = none)
    (named : (Act.branch condition thenBody elseBody).Named)
    (arms : Consecutive (fun a => Gives (arm a.1) (f a.2))
      (Act.branch condition thenBody elseBody).armPorts lo hi) :
    Gives (readNode policy g arm n)
      (kept policy ((Act.branch condition thenBody elseBody).mapBodies f)) lo hi := by
  obtain ⟨mid, hthen, harm⟩ := arms
  have hnamed : condition.Named := named.2 _ List.mem_cons_self
  rw [readNode, hkind]
  exact (gives_lift (expressionOf_render hcondition hnamed) lo).bind
    (hthen.bind ((gives_optional helse hnone harm).map _))

lemma gives_loop {n : Node} {lo hi : Nat} {condition : Expression} {body : List Statement}
    (hkind : n.kind = .loop) (hcondition : n.text "condition" = condition.render)
    (named : (Act.loop condition body).Named)
    (arms : Consecutive (fun a => Gives (arm a.1) (f a.2)) (Act.loop condition body).armPorts
      lo hi) :
    Gives (readNode policy g arm n) (kept policy ((Act.loop condition body).mapBodies f))
      lo hi := by
  obtain ⟨mid, hbody, rfl⟩ := arms
  have hnamed : condition.Named := named.2 _ List.mem_cons_self
  rw [readNode, hkind]
  exact (gives_lift (expressionOf_render hcondition hnamed) lo).bind (hbody.map _)

/-- The node of an act is read as the act with what its arms are read as. -/
lemma gives_node {act : Act Statement} {id : Nat} {kind : NodeKind} {loc : Location}
    {properties : List (String × PropertyValue)} {n : Node} {lo hi : Nat}
    (stands : nodeOf? act = some (kind, properties)) (made : MadeFor id kind loc properties n)
    (named : act.Named) (absent : ∀ port ∈ act.absentPorts, g.targetOf? n.id port = none)
    (arms : Consecutive (fun a => Gives (arm a.1) (f a.2)) act.armPorts lo hi) :
    Gives (readNode policy g arm n) (kept policy (act.mapBodies f)) lo hi := by
  have hkind := made.kind_eq
  cases act with
  | say speaker text =>
    obtain ⟨rfl, rfl⟩ := Prod.mk.inj (Option.some.inj stands)
    have hspeaker : n.text "speaker" = speaker.getD "" := made.text rfl
    have htext : n.text "text" = text := made.text rfl
    rw [readNode, hkind, htext]
    have := gives_lift (nameOf?_eq hspeaker named.1) lo
    obtain rfl : lo = hi := arms
    exact this.map _
  | showCharacter character position =>
    obtain ⟨rfl, rfl⟩ := Prod.mk.inj (Option.some.inj stands)
    have hcharacter : n.text "character" = character := made.text rfl
    have hposition : n.text "position" = position.getD "" := made.text rfl
    rw [readNode, hkind]
    obtain ⟨hname, hnames⟩ := List.forall_mem_cons.1 named.1
    obtain rfl : lo = hi := arms
    exact (gives_lift (nameOf_eq hcharacter hname) lo).bind
      ((gives_lift (nameOf?_eq hposition hnames) lo).map _)
  | wait seconds =>
    obtain ⟨rfl, rfl⟩ := Prod.mk.inj (Option.some.inj stands)
    obtain rfl : lo = hi := arms
    have hduration : n.float "duration" = seconds := made.float rfl
    rw [readNode, hkind, hduration]
    exact gives_pure _ lo
  | choice options =>
    obtain ⟨rfl, rfl⟩ := Prod.mk.inj (Option.some.inj stands)
    have hoptions : n.texts "options" = options.map (·.text) := made.texts rfl
    have hconditions : n.texts "conditions" =
        options.map fun o => o.condition.elim "" Expression.render := made.texts rfl
    exact gives_choice hkind hoptions hconditions named arms
  | branch condition thenBody elseBody =>
    obtain ⟨rfl, rfl⟩ := Prod.mk.inj (Option.some.inj stands)
    have hcondition : n.text "condition" = condition.render := made.text rfl
    have helse : n.bool "has_else" = elseBody.isSome := made.bool rfl
    have hnone : elseBody = none → g.targetOf? n.id "false" = none := by
      rintro rfl
      exact absent _ List.mem_cons_self
    exact gives_branch hkind hcondition helse hnone named arms
  | switch subject cases default =>
    obtain ⟨rfl, rfl⟩ := Prod.mk.inj (Option.some.inj stands)
    have hsubject : n.text "subject" = subject.render := made.text rfl
    have hcases : n.texts "cases" = cases.map (·.value.render) := made.texts rfl
    have hdefault : n.bool "has_default" = default.isSome := made.bool rfl
    have hnone : default = none → g.targetOf? n.id "default" = none := by
      rintro rfl
      exact absent _ List.mem_cons_self
    exact gives_switch hkind hsubject hcases hdefault hnone named arms
  | loop condition body =>
    obtain ⟨rfl, rfl⟩ := Prod.mk.inj (Option.some.inj stands)
    have hcondition : n.text "condition" = condition.render := made.text rfl
    exact gives_loop hkind hcondition named arms
  | set target value =>
    obtain ⟨rfl, rfl⟩ := Prod.mk.inj (Option.some.inj stands)
    have htarget : n.text "variable" = target := made.text rfl
    have hvalue : n.text "value" = value.render := made.text rfl
    obtain rfl : lo = hi := arms
    rw [readNode, hkind]
    exact (gives_lift (nameOf_eq htarget (named.1 _ List.mem_cons_self)) lo).bind
      ((gives_lift (expressionOf_render hvalue (named.2 _ List.mem_cons_self)) lo).map _)
  | hide character =>
    obtain ⟨rfl, rfl⟩ := Prod.mk.inj (Option.some.inj stands)
    have hcharacter : n.text "character" = character := made.text rfl
    obtain rfl : lo = hi := arms
    rw [readNode, hkind]
    exact (gives_lift (nameOf_eq hcharacter (named.1 _ List.mem_cons_self)) lo).map _
  | goto target =>
    obtain ⟨rfl, rfl⟩ := Prod.mk.inj (Option.some.inj stands)
    have htarget : n.text "target" = target := made.text rfl
    obtain rfl : lo = hi := arms
    rw [readNode, hkind]
    exact (gives_lift (nameOf_eq htarget (named.1 _ List.mem_cons_self)) lo).map _
  | transition name duration =>
    obtain ⟨rfl, rfl⟩ := Prod.mk.inj (Option.some.inj stands)
    have hname : n.text "kind" = name := made.text rfl
    have hduration : n.float "duration" = duration := made.float rfl
    obtain rfl : lo = hi := arms
    rw [readNode, hkind, hduration]
    exact (gives_lift (nameOf_eq hname (named.1 _ List.mem_cons_self)) lo).map _
  | stopMusic =>
    obtain ⟨rfl, rfl⟩ := Prod.mk.inj (Option.some.inj stands)
    obtain rfl : lo = hi := arms
    rw [readNode, hkind]
    exact gives_pure _ lo
  | comment text =>
    obtain ⟨rfl, rfl⟩ := Prod.mk.inj (Option.some.inj stands)
    have htext : n.text "text" = text := made.text rfl
    obtain rfl : lo = hi := arms
    rw [readNode, hkind, htext]
    exact gives_pure _ lo
  | showBackground asset | playMusic asset | playSound asset =>
    obtain ⟨rfl, rfl⟩ := Prod.mk.inj (Option.some.inj stands)
    have hasset : n.text "asset" = asset := made.text rfl
    obtain rfl : lo = hi := arms
    rw [readNode, hkind, hasset]
    exact gives_pure _ lo
  | block body => cases stands

end Nodes

/-! ## Chains -/

section Chains

variable {policy : CommentPolicy} {g : FlowGraph}

lemma continuation?_of_ne {kind : NodeKind} (h : kind ≠ .sceneEnd) :
    ∃ port, kind.continuation? = some port := by
  cases kind with
  | sceneEnd => exact absurd rfl h
  | _ => exact ⟨_, rfl⟩

lemma gives_end {top : Bool} {q : Port} {lo : Nat} (h : EndsAt g top q lo) (steps : Nat) :
    Gives (readChain policy g (steps + 1) top q.node q.name) [] lo lo := by
  rw [readChain]
  cases top with
  | true =>
    obtain ⟨n, htarget, hn, hkind⟩ := h
    rw [htarget]
    dsimp only
    rw [hn]
    dsimp only
    rw [if_pos hkind]
    exact gives_pure [] lo
  | false =>
    have htarget : g.targetOf? q.node q.name = none := h
    rw [htarget]
    exact gives_pure [] lo

/-- A chain that goes on is read as the node to which it leads and what comes after it. -/
lemma gives_step {top : Bool} {q : Port} {id mid hi steps : Nat} {n : Node} {port : String}
    {act : Option (Act Statement)} {rest : List Statement}
    (htarget : g.targetOf? q.node q.name = some id) (hn : g.node? id = some n)
    (hkind : n.kind ≠ .sceneEnd) (hport : n.kind.continuation? = some port)
    (hact : Gives (readNode policy g (readChain policy g steps false n.id) n) act (id + 1) mid)
    (hrest : Gives (readChain policy g steps top id port) rest mid hi) :
    Gives (readChain policy g (steps + 1) top q.node q.name)
      ((act.map (Statement.mk n.loc)).toList ++ rest) id hi := by
  intro visited hvisited
  have hnew : visited.contains id = false := by
    rw [List.contains_eq_mem, decide_eq_false_iff_not]
    exact fun hmem => Nat.lt_irrefl id (hvisited id hmem)
  have hmarked : ∀ v ∈ id :: visited, v < id + 1 := by
    intro v hv
    rcases List.mem_cons.1 hv with rfl | hv
    · exact Nat.lt_succ_self v
    · exact Nat.lt_succ_of_lt (hvisited v hv)
  have hboth : Gives (readNode policy g (readChain policy g steps false n.id) n >>= fun act =>
      readChain policy g steps top id port >>= fun rest =>
        pure ((act.map (Statement.mk n.loc)).toList ++ rest)) _ (id + 1) hi :=
    hact.bind (hrest.map _)
  obtain ⟨visited', hread, hvisited'⟩ := hboth (id :: visited) hmarked
  refine ⟨visited', ?_, hvisited'⟩
  rw [readChain, htarget]
  dsimp only
  rw [hn]
  dsimp only
  rw [if_neg hkind, hport]
  change (if visited.contains id = true then _ else _ : Reading _) visited = _
  rw [hnew]
  exact hread

/-- With enough steps, the chain at a port is read as the statements. -/
structure ReadBack (policy : CommentPolicy) (g : FlowGraph) (top : Bool) (q : Port)
    (stmts : List Statement) (lo hi : Nat) : Prop where
  le : lo ≤ hi
  gives : (∀ s ∈ stmts, s.All Act.Named) → ∀ steps, hi < lo + steps →
    Gives (readChain policy g steps top q.node q.name) (rebuildBody (raisedAct policy) stmts) lo hi

/-- Where the flow leads along statements, these are read back. -/
theorem gives_chain {top : Bool} {q : Port} {stmts : List Statement} {lo hi : Nat}
    (h : Leads g top q stmts lo hi) : ReadBack policy g top q stmts lo hi := by
  refine leads_induct (P := ReadBack policy g) ?stop ?block ?node h
  case stop =>
    intro top q lo ends
    refine ⟨Nat.le_refl lo, fun _ steps hsteps => ?_⟩
    obtain ⟨steps, rfl⟩ := Nat.exists_eq_add_one_of_ne_zero (n := steps) (by omega)
    exact gives_end ends steps
  case block =>
    intro top q loc body rest lo hi ih
    refine ⟨ih.le, fun hnamed steps hsteps => ?_⟩
    obtain ⟨hblock, hrest⟩ := List.forall_mem_cons.1 hnamed
    have hbody : ∀ s ∈ body ++ rest, s.All Act.Named := fun s hs =>
      (List.mem_append.1 hs).elim ((all_mk_iff.1 hblock).2 body List.mem_cons_self s) (hrest s)
    have hread := ih.gives hbody steps hsteps
    rwa [rebuildBody_append] at hread
  case node =>
    intro top q loc act kind properties rest id mid hi n stands entered found made absent arms next
    obtain ⟨hle, hnext⟩ := next
    have harms : id + 1 ≤ mid := consecutive_le (fun _ _ _ h => h.le) arms
    refine ⟨by omega, fun hnamed steps hsteps => ?_⟩
    obtain ⟨hstatement, hrest⟩ := List.forall_mem_cons.1 hnamed
    obtain ⟨hact, hbodies⟩ := all_mk_iff.1 hstatement
    obtain ⟨steps, rfl⟩ := Nat.exists_eq_add_one_of_ne_zero (n := steps) (by omega)
    have hkind := made.kind_eq
    obtain ⟨port, hport⟩ := continuation?_of_ne (nodeOf?_kind stands).2
    have hread : Gives (readNode policy g (readChain policy g steps false n.id) n)
        (kept policy (act.mapBodies (rebuildBody (raisedAct policy)))) (id + 1) mid := by
      rw [made.id_eq]
      refine gives_node stands made hact (made.id_eq ▸ absent) ?_
      refine consecutive_imp (fun _ _ _ h => h.le) (fun a ha lo' hi' hlo hhi harm => ?_) arms
      exact harm.gives (hbodies _ (mem_bodies_of_mem_armPorts ha)) steps (by omega)
    have hafter := hnext hrest steps (by omega)
    rw [onward, hport] at hafter
    have hstep := gives_step entered found (hkind ▸ (nodeOf?_kind stands).2) (hkind ▸ hport) hread
      hafter
    rw [rebuildBody_cons, rebuild_mk]
    rw [made.loc_eq] at hstep
    cases act with
    | block body => cases stands
    | _ => exact hstep

end Chains

end Novella.Proofs
