import Novella.Proofs.Flow.ReadingOrder
import Novella.Proofs.Flow.Visits
import Novella.Proofs.Runs

/-!
# How raising ends

However tangled a graph is, reading it comes to an end, and what comes out says how
(`raise_ends`). If there is a script, the statements of a scene are those of nodes that were read once
each, and the chain of the scene, along the continuations from its start, has come to a scene end or to
a node that was read before (`ReadOut`). If there is none, a name or an expression was none, or the
chain of a scene has come to a port with nothing connected to it (`Refused`); the arms beside the chain
may end anywhere.
-/

namespace Novella.Flow

open Script

/-- The chain of a scene, along the continuations from its start: the nodes visited so far and the
output port that it has come to. On its way each node of the chain is read together with its arms. -/
inductive OnChain (policy : CommentPolicy) (g : FlowGraph) (start : Nat) :
    List Nat → Nat → String → Prop
  | start : OnChain policy g start [start] start "out"
  | next {visited visited' : List Nat} {node id : Nat} {port onward : String} {n : Node}
    {act : Option (Act Statement)} (before : OnChain policy g start visited node port)
    (target : g.targetOf? node port = some id) (found : g.node? id = some n) (new : id ∉ visited)
    (read : (readNode policy g (readChain policy g (g.graph.size + 1) false n.id) n).run
      (id :: visited) = .ok (act, visited'))
    (continues : n.kind.continuation? = some onward) : OnChain policy g start visited' id onward

/-- The chain of a scene comes to a scene end or to a node that has been visited. -/
def Arrives (policy : CommentPolicy) (g : FlowGraph) (start : Nat) (visited : List Nat) : Prop :=
  ∃ node port target, OnChain policy g start visited node port ∧
    g.targetOf? node port = some target ∧
    ((∃ n, g.node? target = some n ∧ n.kind = .sceneEnd) ∨ target ∈ visited)

/-- The scene that was read from a start, through the nodes that were read after it. -/
structure ReadOut (policy : CommentPolicy) (g : FlowGraph) (start : Nat) (read : List Nat)
    (s : SceneDecl) : Prop where
  once : (start :: read).Nodup
  live : ∀ id ∈ start :: read, g.graph.contains id = true
  tells : shells s.body = read.filterMap (ownStatement? policy g)
  arrives : Arrives policy g start (read.reverse ++ [start])

/-- The chain of a scene comes to a port with nothing connected to it. -/
inductive Unfinished (policy : CommentPolicy) (g : FlowGraph) (start : Nat) : Fault → Prop
  | incomplete {visited : List Nat} {node : Nat} {port : String}
    (onChain : OnChain policy g start visited node port)
    (free : ∀ e ∈ g.graph.edges, e.source ≠ .output node port) :
    Unfinished policy g start (.incomplete node port)

/-- Why there is no script of a graph. -/
inductive Refused (policy : CommentPolicy) (g : FlowGraph) : Fault → Prop
  | character {c : Character} (hc : c ∈ g.characters) (h : isName c.id = false) :
    Refused policy g (.badCharacter c.id)
  | scene {n : Node} (hn : n ∈ g.nodes) (hstart : n.id ∈ g.entries)
    (h : isName (sceneName g n) = false) :
    Refused policy g (.badProperty n.id "scene" (.notName (sceneName g n)))
  | text {fault : Fault} (h : BadText g fault) : Refused policy g fault
  | unfinished {start : Nat} {fault : Fault} (hstart : start ∈ g.entries)
    (h : Unfinished policy g start fault) : Refused policy g fault

end Novella.Flow

namespace Novella.Proofs

open Script Novella.Flow

variable {policy : CommentPolicy} {g : FlowGraph} {start : Nat}

lemma free_of_targetOf?_none {node : Nat} {port : String} (h : g.targetOf? node port = none) :
    ∀ e ∈ g.graph.edges, e.source ≠ .output node port := by
  rw [FlowGraph.targetOf?, Option.map_eq_none_iff, List.head?_eq_none_iff] at h
  intro e he hsource
  have hmem : e ∈ g.graph.outgoingFrom node port :=
    mem_outgoingFrom.2 ⟨he, by rw [hsource]; exact ⟨rfl, rfl⟩⟩
  rw [h] at hmem
  cases hmem

/-- Reading on along the chain of a scene, with fewer unread nodes than steps. -/
theorem ends_readChain (hg : Wired g.graph) {steps : Nat} (hsteps : steps ≤ g.graph.size + 1)
    {visited : List Nat} (hbudget : unread g visited < steps) {node : Nat} {port : String}
    (hchain : OnChain policy g start visited node port) :
    Ends g (fun fault => BadText g fault ∨ Unfinished policy g start fault)
      (fun body read => Tells policy g body read ∧ Arrives policy g start (read.reverse ++ visited))
      visited (readChain policy g steps true node port visited) := by
  induction steps generalizing visited node port with
  | zero => exact absurd hbudget (Nat.not_lt_zero _)
  | succ steps ih =>
    change Ends _ _ _ _ (readOnce policy g (readChain policy g steps) true node port visited)
    cases htarget : g.targetOf? node port with
    | none =>
      rw [readOnce, htarget]
      exact .failed (.inr (.incomplete hchain (free_of_targetOf?_none htarget)))
    | some id =>
      obtain ⟨n, hn⟩ := exists_node_of_targetOf? hg htarget
      by_cases hstop : n.kind = .sceneEnd ∨ id ∈ visited
      · rw [readOnce_stop htarget hn hstop]
        exact ends_pure ⟨rfl, node, port, id, hchain, htarget, hstop.imp_left fun h => ⟨n, hn, h⟩⟩
      · obtain ⟨onward, honward, hread⟩ := readOnce_enter htarget hn hstop
        have hlive := (contains_iff_node? id).2 ⟨n, hn⟩
        have hnew := (not_or.1 hstop).2
        -- The node that is entered had been unread, so that the steps are enough for the rest.
        have hfewer := unread_cons_lt hlive hnew
        have hleft : unread g (id :: visited) < steps := by omega
        have hbad : ∀ fault, BadText g fault → BadText g fault ∨ Unfinished policy g start fault :=
          fun _ => .inl
        have hnode := (ends_readNode hg policy hn steps (id :: visited)).mono hbad
        rw [hread]
        refine .enter hnew hlive (hnode.bind fun act read hrun hact => ?_)
        obtain ⟨spare, hspare⟩ := Nat.exists_eq_add_of_le (Nat.le_of_succ_le hsteps)
        have hmore := readNode_readChain hg policy hn spare hleft
        rw [← hspare, hrun] at hmore
        have hless := unread_append_le g read.reverse (id :: visited)
        have hnext := hchain.next htarget hn hnew hmore honward
        have hrest := ih (by omega) (Nat.lt_of_le_of_lt hless hleft) hnext
        refine hrest.bind fun rest more _ hlast => ends_pure ⟨?_, ?_⟩
        · rw [List.append_nil]
          exact tells_cons hn hact.2 hact.1 hlast.1
        · simpa using hlast.2

/-! ## Scenes and scripts -/

/-- The name of a scene is a name, and its chain comes to an end, or there is no script. -/
lemma ends_readScene (hg : g.Sound) (policy : CommentPolicy) (hstart : start ∈ g.entries) :
    match readScene policy g start with
    | .ok s => ∃ read, ReadOut policy g start read s
    | .error fault => Refused policy g fault := by
  have hlive : g.graph.contains start = true := by
    rcases (mem_entries_of_sound hg).1 hstart with ⟨name, hname⟩ | ⟨n, hn, -⟩
    · exact hg.scenes name start hname
    · exact (contains_iff_node? start).2 ⟨n, hn⟩
  obtain ⟨n, hn⟩ : ∃ n, g.node? start = some n := (contains_iff_node? start).1 hlive
  have hchain : OnChain policy g start [start] start "out" := .start
  have hends := ends_readChain hg.stored.wired (Nat.le_refl _) (Nat.lt_succ_of_le (unread_le g [start])) hchain
  rw [readScene, hn]
  dsimp only
  by_cases hname : isName (sceneName g n) = true
  · simp only [hname, Bool.not_true, Bool.false_eq_true, if_false, StateT.run]
    generalize readChain policy g (g.graph.size + 1) true start "out" [start] = x at hends
    cases hends with
    | failed h => exact h.elim .text (.unfinished hstart)
    | @returned body read fresh h =>
      refine ⟨read, List.nodup_cons.2 ⟨?_, fresh.nodup⟩, List.forall_mem_cons.2 ⟨hlive, fresh.live⟩,
        h.1, h.2⟩
      exact fun hmem => fresh.new start hmem List.mem_cons_self
  · simp only [hname]
    obtain rfl := hg.own start n hn
    exact .scene (mem_nodes_of_node? hn) hstart (Bool.eq_false_iff.2 hname)

lemma badCharacter_of_declare {c : Character} {fault : Fault} (h : declare c = .error fault) :
    isName c.id = false ∧ fault = .badCharacter c.id := by
  rw [declare] at h
  split at h
  · cases h
  · next hname =>
    cases h
    exact ⟨Bool.eq_false_iff.2 hname, rfl⟩

/-- Raising a graph comes to an end: it does not depend on what would be done after more steps than
there are nodes. Let the nodes have their own ids. If there is a script, its scenes have been read from
the entries of the graph, each node at most once in a scene. If there is none, a name or an expression
was none, or the chain of a scene has come to a port with nothing connected to it; reading an arm never
says the latter. -/
theorem raise_ends (h : g.Reachable) (policy : CommentPolicy) :
    (∀ again steps, g.graph.size < steps → ∀ topLevel node port visited,
      ((readOnce policy g)^[steps] again topLevel node port).run visited =
        (readChain policy g (g.graph.size + 1) topLevel node port).run visited) ∧
    (∀ steps node port visited node' port', (readChain policy g steps false node port).run visited ≠
      .error (.incomplete node' port')) ∧
    (g.OwnIds → match raise policy g with
      | .ok p => List.Forall₂ (fun start s => ∃ read, ReadOut policy g start read s) g.entries p.scenes
      | .error fault => Refused policy g fault) := by
  have hwired : Wired g.graph := (housed_of_reachable h).stored.wired
  refine ⟨fun again steps hsteps => iterate_eq_readChain hwired policy again hsteps,
    readChain_arm_ne hwired policy, fun hown => ?_⟩
  have hg := sound_of_reachable h hown
  rw [raise]
  cases hcharacters : g.characters.mapM declare with
  | error fault =>
    obtain ⟨c, hc, hdeclare⟩ := exists_of_mapM_error hcharacters
    obtain ⟨hname, rfl⟩ := badCharacter_of_declare hdeclare
    exact .character hc hname
  | ok characters =>
    rw [ok_bind]
    cases hscenes : g.entries.mapM (readScene policy g) with
    | error fault =>
      obtain ⟨start, hstart, hread⟩ := exists_of_mapM_error hscenes
      have hends := ends_readScene hg policy hstart
      rw [hread] at hends
      exact hends
    | ok scenes =>
      refine forall₂_of_mapM (fun start hstart s hread => ?_) hscenes
      have hends := ends_readScene hg policy hstart
      rw [hread] at hends
      exact hends

/-- The flow of a scene comes back from an arm to the choice, and from behind the choice to the arm. -/
def entwined : FlowGraph := flowEditor.run {} [
  .create .sceneStart, .create .choice, .create .dialogue, .create .dialogue,
  .edit 2 (fun n => n.set "options" (.texts ["stay", "leave"])),
  .connect (.output 1 "out") (.input 2 "in") "", .connect (.output 2 "option_0") (.input 3 "in") "",
  .connect (.output 2 "option_1") (.input 4 "in") "", .connect (.output 3 "out") (.input 2 "in") "",
  .connect (.output 2 "next") (.input 3 "in") ""]

/-- Nothing is connected behind the choice. -/
def frayed : FlowGraph := entwined.disconnect (.output 2 "next") (.input 3 "in")

theorem raise_ends_entwined : (entwined.Reachable ∧ entwined.OwnIds) ∧
    (frayed.Reachable ∧ frayed.OwnIds) ∧
    (∃ name loc read, raise .preserve entwined = .ok ⟨[], [⟨name, [.bare (.choice [
        ⟨"stay", none, [.bare (.say none "")]⟩, ⟨"leave", none, [.bare (.say none "")]⟩])], loc⟩]⟩ ∧
      (1 :: read).Nodup ∧ Arrives .preserve entwined 1 (read.reverse ++ [1])) ∧
    raise .preserve frayed = .error (.incomplete 2 "next") ∧
    Refused .preserve frayed (.incomplete 2 "next") := by
  have hreach : entwined.Reachable := reachable_run _ _
  have hreach' : frayed.Reachable := .disconnected _ _ hreach
  have hown : entwined.OwnIds := by decide +kernel
  have hown' : frayed.OwnIds := by decide +kernel
  have hends := (raise_ends hreach .preserve).2.2 hown
  have hrefused := (raise_ends hreach' .preserve).2.2 hown'
  have hfault : raise .preserve frayed = .error (.incomplete 2 "next") := by rfl
  have hraise : raise .preserve entwined = .ok ⟨[], [⟨"scene_1", [.bare (.choice [
        ⟨"stay", none, [.bare (.say none "")]⟩, ⟨"leave", none, [.bare (.say none "")]⟩])], {}⟩]⟩ := by
    rfl
  have hentries : entwined.entries = [1] := by decide +kernel
  rw [hfault] at hrefused
  rw [hraise, hentries] at hends
  obtain ⟨read, hread⟩ := (List.forall₂_cons.1 hends).1
  exact ⟨⟨hreach, hown⟩, ⟨hreach', hown'⟩,
    ⟨"scene_1", {}, read, hraise, hread.once, hread.arrives⟩, hfault, hrefused⟩

/-- The entry has the other id of the overwritten node, and no scene can be read from there. -/
theorem overwritten_not_raised : overwritten.Reachable ∧
    raise .preserve overwritten = .error (.unknownNode 7) ∧
    ¬Refused .preserve overwritten (.unknownNode 7) := by
  refine ⟨reachable_overwritten, by rfl, fun h => ?_⟩
  cases h with
  | text h => cases h
  | unfinished _ h => cases h

end Novella.Proofs
