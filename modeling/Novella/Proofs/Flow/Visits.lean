import Mathlib.Logic.Function.Iterate
import Novella.Proofs.Flow.Reachable
import Novella.Proofs.Flow.Shells
import Novella.Proofs.Graph.Ways
import Novella.Proofs.Script.Expressible

/-!
# What reading visits

Reading a chain comes to further chains: those of the arms of its first node, and the one behind it.
`readOnce` is one such step, and reading is its repetition. Along any connections, each node is read
at most once, since a reader stops where it comes again (`Ends`). So a reader that may take more steps
than there are unread nodes does not depend on what it would do after them (`visits_iterate`), and what
it returns are the statements of the nodes that it read, in the order in which it came to them.
-/

namespace Novella.Flow

open Script

/-- The first step of reading the chain at an output port; `again` reads the chains that it comes to. -/
def readOnce (policy : CommentPolicy) (g : FlowGraph)
    (again : Bool → Nat → String → Reading (List Statement)) (topLevel : Bool) (node : Nat)
    (port : String) : Reading (List Statement) := do
  match g.targetOf? node port with
  | none => if topLevel then throw (.incomplete node port) else return []
  | some id =>
    match g.node? id with
    | none => throw (.unknownNode id)
    | some n =>
      if n.kind = .sceneEnd then return []
      if (← get).contains id then return []
      modify (id :: ·)
      let act ← readNode policy g (again false n.id) n
      let rest ← match n.kind.continuation? with
        | some next => again topLevel id next
        | none => pure []
      return (act.map (Statement.mk n.loc)).toList ++ rest

/-- The number of nodes that have not been visited. -/
def unread (g : FlowGraph) (visited : List Nat) : Nat :=
  (Proofs.unreached g.graph.ids { reached := visited }).length

/-- A node of the graph has a text that stands for a name and is none, or for an expression. -/
inductive BadText (g : FlowGraph) : Fault → Prop
  | name {n : Node} {property : String} (hn : n ∈ g.nodes) (h : isName (n.text property) = false) :
    BadText g (.badProperty n.id property (.notName (n.text property)))
  | expression {n : Node} {property text : String} {issue : Issue} {excerpt : Text.Excerpt}
    (hn : n ∈ g.nodes) (htext : n.text property = text ∨ text ∈ n.texts property)
    (h : parseExpression text = .error (.badScript issue excerpt)) :
    BadText g (.badProperty n.id property (.notExpression issue))

end Novella.Flow

namespace Novella.Proofs

open Script Novella.Flow

/-! ## Ways to end -/

/-- Nodes of the graph, each once, that had not been visited. -/
structure Fresh (g : FlowGraph) (visited read : List Nat) : Prop where
  nodup : read.Nodup
  new : ∀ id ∈ read, id ∉ visited
  live : ∀ id ∈ read, g.graph.contains id = true

/-- How a reader ends that starts with nodes visited: with a fault of `F`, or with what stands in `R`
to the nodes that it read, in the order in which it came to them. -/
inductive Ends {α : Type} (g : FlowGraph) (F : Fault → Prop) (R : α → List Nat → Prop)
    (visited : List Nat) : Except Fault (α × List Nat) → Prop
  | failed {fault : Fault} (h : F fault) : Ends g F R visited (.error fault)
  | returned {a : α} {read : List Nat} (fresh : Fresh g visited read) (h : R a read) :
    Ends g F R visited (.ok (a, read.reverse ++ visited))

/-- With fewer unread nodes than `budget`, both readers do the same and end so. -/
def Visits {α : Type} (g : FlowGraph) (F : Fault → Prop) (R : α → List Nat → Prop) (budget : Nat)
    (r r' : Reading α) : Prop :=
  ∀ visited, unread g visited < budget → r' visited = r visited ∧ Ends g F R visited (r visited)

section Ends

variable {α β : Type} {g : FlowGraph} {F : Fault → Prop} {R : α → List Nat → Prop}
  {R' : β → List Nat → Prop} {visited read more : List Nat} {budget : Nat}

lemma fresh_nil (g : FlowGraph) (visited : List Nat) : Fresh g visited [] :=
  ⟨List.nodup_nil, nofun, nofun⟩

lemma Fresh.append (h : Fresh g visited read) (h' : Fresh g (read.reverse ++ visited) more) :
    Fresh g visited (read ++ more) where
  nodup := List.nodup_append.2 ⟨h.nodup, h'.nodup, fun _ ha b hb heq =>
    h'.new b hb (List.mem_append_left _ (List.mem_reverse.2 (heq ▸ ha)))⟩
  new id hid := (List.mem_append.1 hid).elim (h.new id) fun hmore hvisited =>
    h'.new id hmore (List.mem_append_right _ hvisited)
  live id hid := (List.mem_append.1 hid).elim (h.live id) (h'.live id)

lemma Fresh.cons {id : Nat} (hnew : id ∉ visited) (hlive : g.graph.contains id = true)
    (h : Fresh g (id :: visited) read) : Fresh g visited (id :: read) := by
  have hone : Fresh g visited [id] :=
    ⟨List.nodup_singleton id, by simpa using hnew, by simpa using hlive⟩
  exact hone.append h

lemma ends_pure {a : α} (h : R a []) : Ends g F R visited (.ok (a, visited)) :=
  .returned (fresh_nil g visited) h

lemma Ends.bind {r : Reading α} {k : α → Reading β} (hr : Ends g F R visited (r visited))
    (hk : ∀ a read, r visited = .ok (a, read.reverse ++ visited) → R a read →
      Ends g F (fun b more => R' b (read ++ more)) (read.reverse ++ visited)
        (k a (read.reverse ++ visited))) :
    Ends g F R' visited ((r >>= k) visited) := by
  change Ends g F R' visited (r visited >>= fun s => k s.1 s.2)
  generalize r visited = x at hr hk
  cases hr with
  | failed h => exact .failed h
  | @returned a read fresh h =>
    have hnext := hk a read rfl h
    change Ends g F R' visited (k a (read.reverse ++ visited))
    generalize k a (read.reverse ++ visited) = y at hnext
    cases hnext with
    | failed h' => exact .failed h'
    | @returned b more fresh' h' =>
      rw [← List.append_assoc, ← List.reverse_append]
      exact .returned (fresh.append fresh') h'

/-- A node that is visited before a reader starts counts as the first one that it read. -/
lemma Ends.enter {id : Nat} (hnew : id ∉ visited) (hlive : g.graph.contains id = true)
    {x : Except Fault (α × List Nat)}
    (h : Ends g F (fun a read => R a (id :: read)) (id :: visited) x) : Ends g F R visited x := by
  cases h with
  | failed h => exact .failed h
  | @returned a read fresh h =>
    have hsplit : read.reverse ++ id :: visited = (id :: read).reverse ++ visited := by simp
    rw [hsplit]
    exact .returned (fresh.cons hnew hlive) h

lemma Ends.mono {F' : Fault → Prop} {x : Except Fault (α × List Nat)} (h : Ends g F R visited x)
    (hF : ∀ fault, F fault → F' fault) : Ends g F' R visited x := by
  cases h with
  | failed h => exact .failed (hF _ h)
  | returned fresh h => exact .returned fresh h

lemma unread_le (g : FlowGraph) (visited : List Nat) : unread g visited ≤ g.graph.size :=
  length_unreached_ids_le g.graph _

lemma unread_append_le (g : FlowGraph) (read visited : List Nat) :
    unread g (read ++ visited) ≤ unread g visited :=
  length_unreached_le fun _ hi => List.mem_append_right _ hi

lemma unread_cons_lt {id : Nat} (hlive : g.graph.contains id = true) (hnew : id ∉ visited) :
    unread g (id :: visited) < unread g visited :=
  length_unreached_cons (w := { reached := visited }) (mem_ids_iff.2 hlive) hnew

lemma visits_pure {a : α} (h : R a []) : Visits g F R budget (pure a) (pure a) :=
  fun _ _ => ⟨rfl, ends_pure h⟩

lemma Visits.bind {r r' : Reading α} {k k' : α → Reading β} (hr : Visits g F R budget r r')
    (hk : ∀ a read, R a read → Visits g F (fun b more => R' b (read ++ more)) budget (k a) (k' a)) :
    Visits g F R' budget (r >>= k) (r' >>= k') := by
  intro visited hbudget
  obtain ⟨heq, hends⟩ := hr visited hbudget
  have hnext : ∀ a read, R a read → _ := fun a read ha =>
    hk a read ha (read.reverse ++ visited) (Nat.lt_of_le_of_lt (unread_append_le g _ _) hbudget)
  refine ⟨?_, hends.bind fun a read _ ha => (hnext a read ha).2⟩
  change (r' visited >>= fun s => k' s.1 s.2) = (r visited >>= fun s => k s.1 s.2)
  rw [heq]
  generalize r visited = x at hends
  cases hends with
  | failed h => rfl
  | returned fresh h => exact (hnext _ _ h).1

lemma Visits.check {x : Except Fault α} {k k' : α → Reading β} (hx : ∀ fault, x = .error fault → F fault)
    (hk : ∀ a, Visits g F R' budget (k a) (k' a)) :
    Visits g F R' budget (liftM x >>= k) (liftM x >>= k') := by
  have hlift : Visits g F (fun _ read => read = []) budget (liftM x : Reading α) (liftM x) := by
    intro visited _
    cases x with
    | error fault => exact ⟨rfl, .failed (hx fault rfl)⟩
    | ok a => exact ⟨rfl, ends_pure rfl⟩
  refine hlift.bind fun a read hread => ?_
  subst hread
  exact hk a

lemma Visits.also {r r' : Reading α} {good : α → Prop} (h : Visits g F R budget r r')
    (hgood : Returns r good) : Visits g F (fun a read => R a read ∧ good a) budget r r' := by
  intro visited hbudget
  obtain ⟨heq, hends⟩ := h visited hbudget
  refine ⟨heq, ?_⟩
  have hreturned := hgood visited
  generalize r visited = x at hends hreturned
  cases hends with
  | failed h => exact .failed h
  | returned fresh h => exact .returned fresh ⟨h, hreturned _ _ rfl⟩

end Ends

/-! ## Faults of a node -/

section Faults

variable {g : FlowGraph} {n : Node} {property : String} {fault : Fault}

lemma badText_of_nameOf (hn : n ∈ g.nodes) (h : nameOf n property = .error fault) :
    BadText g fault := by
  rw [nameOf] at h
  split at h
  · cases h
  · next hname =>
    cases h
    exact .name hn (Bool.eq_false_iff.2 hname)

lemma badText_of_nameOf? (hn : n ∈ g.nodes) (h : nameOf? n property = .error fault) :
    BadText g fault := by
  rw [nameOf?] at h
  split at h
  · cases h
  · exact badText_of_nameOf hn (eq_error_of_map h)

lemma badText_of_expressionIn {text : String} (hn : n ∈ g.nodes)
    (htext : n.text property = text ∨ text ∈ n.texts property)
    (h : expressionIn n property text = .error fault) : BadText g fault := by
  unfold expressionIn at h
  split at h
  · cases h
  · next hparse =>
    cases h
    exact .expression hn htext hparse
  · next hother hparse =>
    obtain ⟨issue, excerpt, rfl⟩ := badScript_of_run hparse
    exact absurd rfl (hother issue excerpt)

lemma badText_of_conditionOf {index : Nat} (hn : n ∈ g.nodes)
    (h : conditionOf n index = .error fault) : BadText g fault := by
  unfold conditionOf at h
  split at h
  · cases h
  · next text hcondition =>
    split at h
    · cases h
    · exact badText_of_expressionIn hn (.inr (List.mem_of_getElem? hcondition)) (eq_error_of_map h)

end Faults

/-! ## Nodes and chains -/

section Chains

variable {policy : CommentPolicy} {g : FlowGraph} {F : Fault → Prop} {budget : Nat}

/-- The statements of a body are those of the nodes that were read. -/
def Tells (policy : CommentPolicy) (g : FlowGraph) (body : List Statement) (read : List Nat) : Prop :=
  shells body = read.filterMap (ownStatement? policy g)

/-- The statements in the bodies of an act are those of the nodes that were read. -/
def TellsInside (policy : CommentPolicy) (g : FlowGraph) (bodies : List (List Statement))
    (read : List Nat) : Prop :=
  bodies.flatMap shells = read.filterMap (ownStatement? policy g)

section Nodes

variable {n : Node} {arm arm' : String → Reading (List Statement)}

lemma visits_readOptions (hn : n ∈ g.nodes) (hF : ∀ fault, BadText g fault → F fault)
    (harm : ∀ port, Visits g F (Tells policy g) budget (arm port) (arm' port)) (index : Nat)
    (texts : List String) : Visits g F (fun options => TellsInside policy g (options.map (·.body)))
      budget (readOptions n arm index texts) (readOptions n arm' index texts) := by
  induction texts generalizing index with
  | nil => exact visits_pure rfl
  | cons text texts ih =>
    refine .check (fun _ h => hF _ (badText_of_conditionOf hn h)) fun condition => ?_
    refine (harm _).bind fun body read hbody => (ih (index + 1)).bind fun options more hoptions => ?_
    refine visits_pure ?_
    rw [TellsInside, List.map_cons, List.flatMap_cons, hbody, hoptions, List.append_nil,
      List.filterMap_append]

lemma visits_readCases (hn : n ∈ g.nodes) (hF : ∀ fault, BadText g fault → F fault)
    (harm : ∀ port, Visits g F (Tells policy g) budget (arm port) (arm' port)) (index : Nat)
    {texts : List String} (htexts : ∀ text ∈ texts, text ∈ n.texts "cases") :
    Visits g F (fun cases => TellsInside policy g (cases.map (·.body))) budget
      (readCases n arm index texts) (readCases n arm' index texts) := by
  induction texts generalizing index with
  | nil => exact visits_pure rfl
  | cons text texts ih =>
    obtain ⟨htext, hrest⟩ := List.forall_mem_cons.1 htexts
    refine .check (fun _ h => hF _ (badText_of_expressionIn hn (.inr htext) h)) fun value => ?_
    refine (harm _).bind fun body read hbody => (ih (index + 1) hrest).bind fun cases more hcases => ?_
    refine visits_pure ?_
    rw [TellsInside, List.map_cons, List.flatMap_cons, hbody, hcases, List.append_nil,
      List.filterMap_append]

lemma visits_readOptional (harm : ∀ port, Visits g F (Tells policy g) budget (arm port) (arm' port))
    (flag port : String) : Visits g F (fun body => TellsInside policy g body.toList) budget
      (readOptional g n arm flag port) (readOptional g n arm' flag port) := by
  rw [readOptional, readOptional]
  split
  · refine (harm port).bind fun body read hbody => visits_pure ?_
    rw [TellsInside, Option.toList_some, List.flatMap_singleton, hbody, List.append_nil]
  · exact visits_pure rfl

/-- What is read of a node and of its arms. -/
lemma visits_readNode (hn : n ∈ g.nodes) (hF : ∀ fault, BadText g fault → F fault)
    (harm : ∀ port, Visits g F (Tells policy g) budget (arm port) (arm' port)) :
    Visits g F (fun act => TellsInside policy g (act.elim [] Act.bodies)) budget
      (readNode policy g arm n) (readNode policy g arm' n) := by
  have hname : ∀ property fault, nameOf n property = .error fault → F fault :=
    fun _ _ h => hF _ (badText_of_nameOf hn h)
  have hname? : ∀ property fault, nameOf? n property = .error fault → F fault :=
    fun _ _ h => hF _ (badText_of_nameOf? hn h)
  have hexpression : ∀ property fault, expressionOf n property = .error fault → F fault :=
    fun _ _ h => hF _ (badText_of_expressionIn hn (.inl rfl) h)
  unfold readNode
  cases n.kind with
  | sceneStart | sceneEnd | wait | playMusic | playSound | stopMusic | showBackground =>
    exact visits_pure rfl
  | comment => exact visits_pure (by cases policy <;> rfl)
  | dialogue => exact .check (hname? _) fun _ => visits_pure rfl
  | hideCharacter | goto | transition => exact .check (hname _) fun _ => visits_pure rfl
  | showCharacter => exact .check (hname _) fun _ => .check (hname? _) fun _ => visits_pure rfl
  | setVariable => exact .check (hname _) fun _ => .check (hexpression _) fun _ => visits_pure rfl
  | choice =>
    refine (visits_readOptions hn hF harm _ _).bind fun options read hoptions => visits_pure ?_
    rw [List.append_nil]
    exact hoptions
  | loop =>
    refine .check (hexpression _) fun condition => (harm _).bind fun body read hbody => visits_pure ?_
    rw [List.append_nil]
    exact (List.flatMap_singleton ..).trans hbody
  | branch =>
    refine .check (hexpression _) fun condition => (harm _).bind fun thenBody read hthen => ?_
    refine (visits_readOptional harm _ _).bind fun elseBody more helse => visits_pure ?_
    rw [Tells] at hthen
    rw [TellsInside] at helse ⊢
    simp only [Option.elim_some, Act.bodies, List.flatMap_cons, hthen, helse, List.append_nil,
      List.filterMap_append]
  | switch =>
    refine .check (hexpression _) fun subject => ?_
    refine (visits_readCases hn hF harm _ fun _ h => h).bind fun cases read hcases => ?_
    refine (visits_readOptional harm _ _).bind fun default more hdefault => visits_pure ?_
    rw [TellsInside] at hcases hdefault ⊢
    simp only [Option.elim_some, Act.bodies, List.flatMap_append, hcases, hdefault, List.append_nil,
      List.filterMap_append]

end Nodes

/-- Before what is read behind it, a node has its own statement and those on its arms. -/
lemma tells_cons {id : Nat} {n : Node} (hn : g.node? id = some n) {act : Option (Act Statement)}
    {rest : List Statement} {read more : List Nat}
    (hown : readNode policy g emptyArm n = return act.map (Act.mapBodies fun _ => []))
    (hbodies : TellsInside policy g (act.elim [] Act.bodies) read)
    (hrest : Tells policy g rest more) :
    Tells policy g ((act.map (Statement.mk n.loc)).toList ++ rest) (id :: (read ++ more)) := by
  have hshell := ownStatement?_of_shell hn hown
  rw [Tells] at hrest
  rw [TellsInside] at hbodies
  rw [Tells, shells_append, hrest, List.filterMap_cons, hshell, List.filterMap_append, ← hbodies]
  cases act with
  | none => rfl
  | some act => simp [shells_singleton]

lemma exists_node_of_targetOf? (hg : Wired g.graph) {node id : Nat} {port : String}
    (h : g.targetOf? node port = some id) : ∃ n, g.node? id = some n := by
  rw [FlowGraph.targetOf?, Option.map_eq_some_iff] at h
  obtain ⟨e, he, rfl⟩ := h
  have hmem := (mem_outgoingFrom.1 (List.mem_of_mem_head? he)).1
  exact (contains_iff_node? _).1 (hg.joined e hmem).target

lemma mem_nodes_of_node? {id : Nat} {n : Node} (hn : g.node? id = some n) : n ∈ g.nodes :=
  (mem_values_iff _ _).2 ⟨id, hn⟩

section Steps

variable {again again' : Bool → Nat → String → Reading (List Statement)} {topLevel : Bool}
  {node id : Nat} {port : String} {n : Node} {visited : List Nat}

lemma readOnce_stop (htarget : g.targetOf? node port = some id) (hn : g.node? id = some n)
    (hstop : n.kind = .sceneEnd ∨ id ∈ visited) :
    readOnce policy g again topLevel node port visited = .ok ([], visited) := by
  rw [readOnce, htarget]
  dsimp only
  rw [hn]
  dsimp only
  by_cases hend : n.kind = .sceneEnd
  · rw [if_pos hend]
    rfl
  · rw [if_neg hend]
    have hseen : visited.contains id = true := by simpa [hend] using hstop
    change (if visited.contains id = true then _ else _ : Reading (List Statement)) visited = _
    rw [if_pos hseen]
    rfl

lemma readOnce_enter (htarget : g.targetOf? node port = some id) (hn : g.node? id = some n)
    (hstop : ¬(n.kind = .sceneEnd ∨ id ∈ visited)) : ∃ onward, n.kind.continuation? = some onward ∧
      ∀ again, readOnce policy g again topLevel node port visited =
        (readNode policy g (again false n.id) n >>= fun act => again topLevel id onward >>= fun rest =>
          return (act.map (Statement.mk n.loc)).toList ++ rest) (id :: visited) := by
  obtain ⟨hend, hnew⟩ := not_or.1 hstop
  obtain ⟨onward, honward⟩ : ∃ onward, n.kind.continuation? = some onward := by
    cases hkind : n.kind with
    | sceneEnd => exact absurd hkind hend
    | _ => exact ⟨_, rfl⟩
  refine ⟨onward, honward, fun again => ?_⟩
  rw [readOnce, htarget]
  dsimp only
  rw [hn]
  dsimp only
  rw [if_neg hend, honward]
  have hseen : ¬visited.contains id = true := by simpa using hnew
  change (if visited.contains id = true then _ else _ : Reading (List Statement)) visited = _
  rw [if_neg hseen]
  rfl

/-- If the chains that it comes to are read alike within a budget, a chain is within one node more. -/
lemma visits_readOnce (hg : Wired g.graph) (hF : ∀ fault, BadText g fault → F fault)
    (htop : topLevel = true → ∀ node port, F (.incomplete node port))
    (harms : ∀ node port, Visits g F (Tells policy g) budget (again false node port)
      (again' false node port))
    (hnext : ∀ node port, Visits g F (Tells policy g) budget (again topLevel node port)
      (again' topLevel node port)) (node : Nat) (port : String) :
    Visits g F (Tells policy g) (budget + 1) (readOnce policy g again topLevel node port)
      (readOnce policy g again' topLevel node port) := by
  intro visited hbudget
  cases htarget : g.targetOf? node port with
  | none =>
    rw [readOnce, readOnce, htarget]
    cases topLevel with
    | true => exact ⟨rfl, .failed (htop rfl node port)⟩
    | false => exact ⟨rfl, ends_pure rfl⟩
  | some id =>
    obtain ⟨n, hn⟩ := exists_node_of_targetOf? hg htarget
    by_cases hstop : n.kind = .sceneEnd ∨ id ∈ visited
    · rw [readOnce_stop htarget hn hstop, readOnce_stop htarget hn hstop]
      exact ⟨rfl, ends_pure rfl⟩
    · obtain ⟨onward, -, hread⟩ := readOnce_enter htarget hn hstop
      have hlive := (contains_iff_node? id).2 ⟨n, hn⟩
      have hnew := (not_or.1 hstop).2
      have hnode := (visits_readNode (mem_nodes_of_node? hn) hF (harms n.id)).also returns_readNode_shell
      have hall : Visits g F (fun body read => Tells policy g body (id :: read)) budget _ _ :=
        hnode.bind fun act read hact => (hnext id onward).bind fun rest more hrest =>
          visits_pure (R := fun body last => Tells policy g body (id :: (read ++ (more ++ last)))) (by
            rw [List.append_nil]
            exact tells_cons hn hact.2 hact.1 hrest)
      -- The node that is entered was unread, and so the rest is within the budget.
      have hfewer := unread_cons_lt hlive hnew
      obtain ⟨heq, hends⟩ := hall (id :: visited) (by omega)
      rw [hread, hread]
      exact ⟨heq, hends.enter hnew hlive⟩

/-- Two readers that agree within a budget, each behind as many first steps, agree within as many nodes
more. On the chain of a scene the arms are read, too, and so both sorts of chains are meant at once. -/
lemma visits_iterate (hg : Wired g.graph) (hF : ∀ fault, BadText g fault → F fault)
    (htop : topLevel = true → ∀ node port, F (.incomplete node port))
    (hagain : ∀ b, (b = true → topLevel = true) → ∀ node port,
      Visits g F (Tells policy g) budget (again b node port) (again' b node port)) (steps : Nat) :
    ∀ b, (b = true → topLevel = true) → ∀ node port, Visits g F (Tells policy g) (budget + steps)
      ((readOnce policy g)^[steps] again b node port)
      ((readOnce policy g)^[steps] again' b node port) := by
  induction steps with
  | zero => exact hagain
  | succ steps ih =>
    intro b hb node port
    rw [Function.iterate_succ_apply', Function.iterate_succ_apply']
    exact visits_readOnce hg hF (fun h => htop (hb h)) (ih false nofun) (ih b hb) node port

end Steps

/-- Reading a chain is the first step, repeated. -/
lemma readChain_eq_iterate (policy : CommentPolicy) (g : FlowGraph) (steps : Nat) :
    readChain policy g steps = (readOnce policy g)^[steps] fun _ _ _ => return [] := by
  induction steps with
  | zero => rfl
  | succ steps ih =>
    rw [Function.iterate_succ_apply', ← ih]
    rfl

/-- What would be done after more steps than there are unread nodes does not matter. -/
lemma visits_again (hg : Wired g.graph) (policy : CommentPolicy)
    (again again' : Bool → Nat → String → Reading (List Statement)) (steps : Nat) (topLevel : Bool)
    (node : Nat) (port : String) : Visits g (fun _ => True) (Tells policy g) steps
      ((readOnce policy g)^[steps] again topLevel node port)
      ((readOnce policy g)^[steps] again' topLevel node port) := by
  have hnone : ∀ b node port, Visits g (fun _ => True) (Tells policy g) 0 (again b node port)
      (again' b node port) := fun _ _ _ _ h => absurd h (Nat.not_lt_zero _)
  have hall := visits_iterate hg (fun _ _ => trivial) (fun _ _ _ => trivial) (fun b _ => hnone b) steps
    topLevel id node port
  rwa [Nat.zero_add] at hall

theorem iterate_eq_readChain (hg : Wired g.graph) (policy : CommentPolicy)
    (again : Bool → Nat → String → Reading (List Statement)) {steps : Nat}
    (hsteps : g.graph.size < steps) (topLevel : Bool) (node : Nat) (port : String)
    (visited : List Nat) : ((readOnce policy g)^[steps] again topLevel node port).run visited =
      (readChain policy g (g.graph.size + 1) topLevel node port).run visited := by
  obtain ⟨more, rfl⟩ := Nat.exists_eq_add_of_le hsteps
  rw [Function.iterate_add_apply, readChain_eq_iterate]
  exact (visits_again hg policy _ _ _ topLevel node port visited
    (Nat.lt_succ_of_le (unread_le g visited))).1

/-- A node and its arms are read with as many steps as there are unread nodes as with more. -/
lemma readNode_readChain (hg : Wired g.graph) (policy : CommentPolicy) {id : Nat} {n : Node}
    (hn : g.node? id = some n) {steps : Nat} (more : Nat) {visited : List Nat}
    (hsteps : unread g visited < steps) :
    readNode policy g (readChain policy g (steps + more) false n.id) n visited =
      readNode policy g (readChain policy g steps false n.id) n visited := by
  have harm : ∀ port, Visits g (fun _ => True) (Tells policy g) steps
      (readChain policy g steps false n.id port)
      (readChain policy g (steps + more) false n.id port) := by
    intro port
    rw [readChain_eq_iterate, readChain_eq_iterate, Function.iterate_add_apply]
    exact visits_again hg policy _ _ steps false n.id port
  exact (visits_readNode (mem_nodes_of_node? hn) (fun _ _ => trivial) harm visited hsteps).1

/-- What is read of an arm, or of another chain that may end anywhere. -/
theorem visits_readArm (hg : Wired g.graph) (policy : CommentPolicy) (steps node : Nat) (port : String) :
    Visits g (BadText g) (Tells policy g) budget (readChain policy g steps false node port)
      (readChain policy g steps false node port) := by
  have hall : Visits g (BadText g) (Tells policy g) (budget + steps) _ _ :=
    visits_iterate hg (fun _ h => h) (fun h => absurd h Bool.false_ne_true)
      (fun _ _ _ _ => visits_pure (a := []) rfl) steps false id node port
  rw [readChain_eq_iterate]
  exact fun visited h => hall visited (Nat.lt_add_right steps h)

/-- What is read of a node with its arms, whatever has been visited. -/
lemma ends_readNode (hg : Wired g.graph) (policy : CommentPolicy) {id : Nat} {n : Node}
    (hn : g.node? id = some n) (steps : Nat) (visited : List Nat) : Ends g (BadText g)
      (fun act read => TellsInside policy g (act.elim [] Act.bodies) read ∧
        readNode policy g emptyArm n = return act.map (Act.mapBodies fun _ => [])) visited
      (readNode policy g (readChain policy g steps false n.id) n visited) := by
  have hnode : Visits g (BadText g) _ (unread g visited + 1) _ _ :=
    visits_readNode (mem_nodes_of_node? hn) (fun _ h => h) (visits_readArm hg policy steps n.id)
  exact (hnode.also returns_readNode_shell visited (Nat.lt_succ_self _)).2

/-- On an arm, no port needs to be connected. -/
lemma readChain_arm_ne (hg : Wired g.graph) (policy : CommentPolicy) (steps node : Nat) (port : String)
    (visited : List Nat) (node' : Nat) (port' : String) :
    (readChain policy g steps false node port).run visited ≠ .error (.incomplete node' port') := by
  intro h
  have hends := (visits_readArm hg policy steps node port visited (Nat.lt_succ_self _)).2
  rw [StateT.run] at h
  rw [h] at hends
  cases hends with
  | failed hbad => cases hbad

end Chains

end Novella.Proofs
