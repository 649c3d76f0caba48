import Mathlib.Data.List.TakeWhile
import Mathlib.Order.Bounds.Basic
import Novella.Proofs.Graph.Cycles
import Novella.Proofs.Graph.Reachability
import Novella.Proofs.Story.Ports

/-!
# Valid stories

Validation is exact for every story that an editor can leave behind, also where it has overwritten the
ids and the ports of nodes (`StoryGraph.Drafted`): a story is valid if and only if its nodes carry
their ids, it begins somewhere, it has no cycles, its connections are plugged and its nodes have what
they must have. What is only warned of is what the beginning of the story does not lead to
(`validate_exact`).
-/

namespace Novella.Story

open Proofs (LeadsTo OnCycle)

/-- Stories as an editor leaves them. An edit of a node may overwrite all that it holds. -/
inductive StoryGraph.Drafted : StoryGraph → Prop
  | empty (name : String) : Drafted { name }
  | performed {g g' : StoryGraph} {op : Operation} (h : Drafted g) (hg : op.perform g = some g') :
      Drafted g'
  | edited {g : StoryGraph} (id : Nat) (f : Node → Node) (h : Drafted g) : Drafted (g.modify id f)

/-- Every node carries the id that it is stored under. -/
def StoryGraph.Labelled (g : StoryGraph) : Prop := ∀ id n, g.node? id = some n → n.id = id

/-- The story begins at the node that is declared its start, if that is there, or else at the first
node of the kind of a start. -/
def StoryGraph.BeginsAt (g : StoryGraph) (id : Nat) : Prop :=
  (g.start? = some id ∧ g.graph.contains id = true) ∨
    (∀ start, g.start? = some start → g.graph.contains start = false) ∧
      IsLeast {i | ∃ n, g.node? i = some n ∧ n.kind = .start} id

/-- The story has what it must have. -/
structure StoryGraph.InOrder (g : StoryGraph) : Prop where
  labelled : g.Labelled
  begins : (∃ id, g.start? = some id ∧ g.graph.contains id = true) ∨
    ∃ id n, g.node? id = some n ∧ n.kind = .start
  acyclic : ∀ i, ¬OnCycle g.graph i
  plugged : ∀ e ∈ g.graph.edges, g.Plugged e.source e.target
  required : ∀ id n name, g.node? id = some n → n.kind.required? = some name →
    ∃ text, n.properties.get? name = some text ∧ Text.trim text ≠ ""

end Novella.Story

namespace Novella.Proofs

open Story Story.StoryGraph

variable {g g' : StoryGraph}

/-! ## The connections of drafts -/

lemma wired_disconnectAll {graph : PortGraph Story.Node Bool} (h : Wired graph)
    (edges : List (Edge Bool)) : Wired (disconnectAll edges graph) := by
  induction edges generalizing graph with
  | nil => exact h
  | cons e edges ih => exact ih (h.disconnect e.source e.target)

lemma wired_addOutput (h : Wired g.graph) {id : Nat} {port : PortDecl} {added : Bool}
    (hg : g.addOutput id port = .ok (added, g')) : Wired g'.graph := by
  obtain rfl | rfl := addOutput_eq_ok hg
  · exact h
  · exact h.modify id _

lemma wired_perform (h : Wired g.graph) {op : StoryGraph.Operation} (hg : op.perform g = some g') :
    Wired g'.graph := by
  cases op with
  | create kind x y =>
    have hcreate : Wired (g.create kind x y).2.graph := h.add fun id => .ofKind id kind x y
    exact Option.some.inj hg ▸ hcreate
  | load text => exact (disciplined_ofJson (eq_ok_of_toOption hg)).wired
  | remove id =>
    obtain rfl := Option.some.inj hg
    rw [StoryGraph.remove]
    split
    · exact h.remove id
    · exact h
  | setStart id =>
    have hg := eq_ok_of_toOption hg
    rw [StoryGraph.setStart] at hg
    split at hg
    · exact Except.ok.inj hg ▸ h
    · cases hg
  | addOutput id port =>
    obtain ⟨_, hadded, rfl⟩ := exists_of_map (eq_ok_of_toOption hg)
    exact wired_addOutput h hadded
  | removeOutput id name =>
    obtain ⟨_, hremoved, rfl⟩ := exists_of_map (eq_ok_of_toOption hg)
    obtain ⟨hsame, -⟩ | hcut := removeOutput_eq_ok hremoved
    · exact hsame ▸ h
    · exact hcut ▸ (wired_disconnectAll h _).modify id _
  | addOption id text =>
    obtain ⟨_, hadded, rfl⟩ := exists_of_map (eq_ok_of_toOption hg)
    obtain ⟨_, _, hadded⟩ := addOption_eq_ok hadded
    exact wired_addOutput h hadded
  | connect source target =>
    obtain ⟨graph, hgraph, rfl, -⟩ := story_connect_eq_ok (eq_ok_of_toOption hg)
    exact h.connect hgraph
  | disconnect source target =>
    have hless : Wired (g.disconnect source target).graph := h.disconnect source target
    exact Option.some.inj hg ▸ hless
  | select source target selected =>
    have hsame : Wired (g.select source target selected).graph :=
      (evolves_setEdge g.graph source target selected).wired h
    exact Option.some.inj hg ▸ hsame

/-- Whatever is done to a story, its connections join nodes that are there. -/
lemma wired_of_drafted (h : g.Drafted) : Wired g.graph := by
  induction h with
  | empty name => exact wired_empty
  | performed _ hg ih => exact wired_perform ih hg
  | edited id f _ ih => exact ih.modify id f

/-! ## Texts that are more than blank -/

lemma trimChars_eq_nil_iff {cs : List Char} :
    Text.trimChars cs = [] ↔ ∀ c ∈ cs, Text.isBlank c = true := by
  rw [Text.trimChars, Text.trimEnd, List.reverse_eq_nil_iff, List.dropWhile_eq_nil_iff]
  simp only [List.mem_reverse]
  constructor
  · -- The first character that is not blank would be the last that is left.
    intro hrest
    rw [← List.dropWhile_eq_nil_iff]
    by_contra hne
    have hhead := hrest _ (List.head_mem hne)
    rw [List.head_dropWhile_not Text.isBlank hne] at hhead
    cases hhead
  · exact fun hall c hc => hall c ((List.dropWhile_sublist _).subset hc)

lemma isBlankText_eq_false_iff {text : String} :
    Text.isBlankText text = false ↔ Text.trim text ≠ "" := by
  rw [← Bool.not_eq_true, Text.isBlankText, List.all_eq_true, ← trimChars_eq_nil_iff, Text.trim,
    Ne, String.ofList_eq_empty_iff]

/-! ## The checks -/

lemma idIssues_eq_nil_iff : g.idIssues = [] ↔ g.Labelled := by
  simp only [StoryGraph.idIssues, List.map_eq_nil_iff, List.filter_eq_nil_iff, Prod.forall,
    mem_entries_iff, decide_eq_true_eq, Decidable.not_not]
  rfl

lemma entry?_eq (g : StoryGraph) :
    g.entry? = (g.start?.filter g.graph.contains).or g.starts.head? := by
  rw [StoryGraph.entry?]
  cases g.start?.filter g.graph.contains <;> rfl

lemma starts_ne_nil_iff : g.starts ≠ [] ↔ ∃ id n, g.node? id = some n ∧ n.kind = .start := by
  simp only [StoryGraph.starts, Ne, List.map_eq_nil_iff, List.filter_eq_nil_iff, StoryGraph.nodes,
    mem_values_iff, decide_eq_true_eq, not_forall, Decidable.not_not, exists_prop]
  constructor
  · rintro ⟨n, ⟨id, hn⟩, hkind⟩
    exact ⟨id, n, hn, hkind⟩
  · rintro ⟨id, n, hn, hkind⟩
    exact ⟨n, ⟨id, hn⟩, hkind⟩

lemma entry?_ne_none_iff : g.entry? ≠ none ↔
    (∃ id, g.start? = some id ∧ g.graph.contains id = true) ∨
      ∃ id n, g.node? id = some n ∧ n.kind = .start := by
  rw [entry?_eq, Ne, Option.or_eq_none_iff, not_and_or, List.head?_eq_none_iff]
  refine or_congr ?_ starts_ne_nil_iff
  simp [Option.filter_eq_none_iff]

/-- A second start is only warned of. -/
lemma startErrors_eq_nil_iff :
    g.startIssues.filter (·.severity = .error) = [] ↔ g.entry? ≠ none := by
  rw [startIssues, List.filter_append, List.append_eq_nil_iff]
  refine (and_iff_left (List.filter_eq_nil_iff.2 fun issue hissue => ?_)).trans ?_
  · split at hissue
    · obtain rfl := List.mem_singleton.1 hissue
      exact Bool.false_ne_true
    · cases hissue
  · by_cases hentry : g.entry? = none <;> simp [hentry, Issue.severity]

lemma connectionIssues_eq_nil_iff {e : Edge Bool} :
    g.connectionIssues e = [] ↔ g.Plugged e.source e.target := by
  refine ⟨fun hnone => ?_, connectionIssues_eq_nil⟩
  rw [StoryGraph.connectionIssues] at hnone
  split at hnone
  · next fromNode toNode hfrom hto =>
    split at hnone
    · cases hnone
    · cases hnone
    · next output input houtput hinput =>
      split at hnone
      · next hkinds =>
        exact ⟨fromNode, toNode, output, input, hfrom, hto, houtput, hinput, hkinds⟩
      · cases hnone
  · cases hnone

lemma hasRequired_iff {n : Story.Node} {name : String} : hasRequired n name = true ↔
    ∃ text, n.properties.get? name = some text ∧ Text.trim text ≠ "" := by
  rw [hasRequired]
  cases n.properties.get? name with
  | none => simp
  | some text => simp [isBlankText_eq_false_iff]

lemma propertyIssues_eq_nil_iff {n : Story.Node} : propertyIssues n = [] ↔
    ∀ name, n.kind.required? = some name →
      ∃ text, n.properties.get? name = some text ∧ Text.trim text ≠ "" := by
  simp only [← hasRequired_iff]
  rw [propertyIssues]
  cases n.kind.required? <;> simp

/-! ## All checks together -/

lemma severity_idIssues {issue : Issue} (h : issue ∈ g.idIssues) : issue.severity = .error := by
  obtain ⟨_, -, rfl⟩ := List.mem_map.1 h
  rfl

lemma severity_connectionIssues {e : Edge Bool} {issue : Issue} (h : issue ∈ g.connectionIssues e) :
    issue.severity = .error := by
  rw [StoryGraph.connectionIssues] at h
  split at h
  · split at h
    · exact List.mem_singleton.1 h ▸ rfl
    · exact List.mem_singleton.1 h ▸ rfl
    · split at h
      · cases h
      · exact List.mem_singleton.1 h ▸ rfl
  · exact List.mem_singleton.1 h ▸ rfl

lemma severity_propertyIssues {n : Story.Node} {issue : Issue} (h : issue ∈ propertyIssues n) :
    issue.severity = .error := by
  rw [propertyIssues] at h
  split at h
  · cases h
  · split at h
    · cases h
    · exact List.mem_singleton.1 h ▸ rfl

/-- But for what is found about starts, only nodes that the story does not come to are no errors. -/
lemma severities_validate (g : StoryGraph) :
    (∀ issue ∈ g.idIssues, issue.severity = .error) ∧
    (∀ issue ∈ g.graph.cycles.map Issue.cycle, issue.severity = .error) ∧
    (∀ issue ∈ g.unreachable.map Issue.unreachable, issue.severity = .warning) ∧
    (∀ issue ∈ g.graph.edges.flatMap g.connectionIssues, issue.severity = .error) ∧
    ∀ issue ∈ g.nodes.flatMap propertyIssues, issue.severity = .error := by
  refine ⟨fun _ => severity_idIssues, ?_, ?_, fun issue hissue => ?_, fun issue hissue => ?_⟩
  · exact List.forall_mem_map.2 fun _ _ => rfl
  · exact List.forall_mem_map.2 fun _ _ => rfl
  · obtain ⟨e, -, hissue⟩ := List.mem_flatMap.1 hissue
    exact severity_connectionIssues hissue
  · obtain ⟨n, -, hissue⟩ := List.mem_flatMap.1 hissue
    exact severity_propertyIssues hissue

lemma filter_severity_of_eq {issues : List Issue} {s : Severity}
    (h : ∀ issue ∈ issues, issue.severity = s) : issues.filter (·.severity = s) = issues :=
  List.filter_eq_self.2 fun issue hissue => decide_eq_true (h issue hissue)

lemma filter_severity_of_ne {issues : List Issue} {s s' : Severity}
    (h : ∀ issue ∈ issues, issue.severity = s) (hne : s ≠ s') :
    issues.filter (·.severity = s') = [] := by
  refine List.filter_eq_nil_iff.2 fun issue hissue => ?_
  rw [h issue hissue, decide_eq_true_eq]
  exact hne

lemma errors_validate (g : StoryGraph) : g.validate.errors =
    g.idIssues ++ g.startIssues.filter (·.severity = .error) ++ g.graph.cycles.map .cycle ++
      g.graph.edges.flatMap g.connectionIssues ++ g.nodes.flatMap propertyIssues := by
  obtain ⟨hids, hcycles, hmissed, hconnections, hproperties⟩ := severities_validate g
  have hne : Severity.warning ≠ .error := by decide
  simp only [Report.errors, validate, List.filter_append, filter_severity_of_eq hids,
    filter_severity_of_eq hcycles, filter_severity_of_ne hmissed hne,
    filter_severity_of_eq hconnections, filter_severity_of_eq hproperties, List.append_nil]

lemma warnings_validate (g : StoryGraph) : g.validate.warnings =
    g.startIssues.filter (·.severity = .warning) ++ g.unreachable.map .unreachable := by
  obtain ⟨hids, hcycles, hmissed, hconnections, hproperties⟩ := severities_validate g
  have hne : Severity.error ≠ .warning := by decide
  simp only [Report.warnings, validate, List.filter_append, filter_severity_of_ne hids hne,
    filter_severity_of_ne hcycles hne, filter_severity_of_eq hmissed,
    filter_severity_of_ne hconnections hne, filter_severity_of_ne hproperties hne, List.append_nil,
    List.nil_append]

/-- The verdict is that each check that finds errors finds nothing. -/
lemma isValid_iff_inOrder (h : Wired g.graph) : g.validate.isValid = true ↔ g.InOrder := by
  have hnodes : (∀ n ∈ g.nodes, propertyIssues n = []) ↔
      ∀ id n name, g.node? id = some n → n.kind.required? = some name →
        ∃ text, n.properties.get? name = some text ∧ Text.trim text ≠ "" := by
    simp only [StoryGraph.nodes, mem_values_iff, propertyIssues_eq_nil_iff]
    exact ⟨fun hall id n name hn => hall n ⟨id, hn⟩ name, fun hall n ⟨id, hn⟩ name => hall id n name hn⟩
  simp only [Report.isValid, List.isEmpty_iff, errors_validate, List.append_eq_nil_iff,
    List.map_eq_nil_iff, List.flatMap_eq_nil_iff, idIssues_eq_nil_iff, startErrors_eq_nil_iff,
    entry?_ne_none_iff, cycles_eq_nil_iff h, connectionIssues_eq_nil_iff, hnodes]
  exact ⟨fun ⟨⟨⟨⟨labelled, begins⟩, acyclic⟩, plugged⟩, required⟩ =>
    ⟨labelled, begins, acyclic, plugged, required⟩, fun h =>
    ⟨⟨⟨⟨h.labelled, h.begins⟩, h.acyclic⟩, h.plugged⟩, h.required⟩⟩

/-! ## What the story does not come to -/

lemma mem_filter_ids (h : g.Labelled) {p : Story.Node → Bool} {i : Nat} :
    i ∈ (g.nodes.filter p).map (·.id) ↔ ∃ n, g.node? i = some n ∧ p n = true := by
  simp only [StoryGraph.nodes, List.mem_map, List.mem_filter, mem_values_iff]
  constructor
  · rintro ⟨n, ⟨⟨id, hn⟩, hp⟩, rfl⟩
    obtain rfl := h id n hn
    exact ⟨n, hn, hp⟩
  · rintro ⟨n, hn, hp⟩
    exact ⟨n, ⟨⟨i, hn⟩, hp⟩, h i n hn⟩

lemma filter_ids_pairwise (h : g.Labelled) (p : Story.Node → Bool) :
    ((g.nodes.filter p).map (·.id)).Pairwise (· < ·) := by
  have hids : g.nodes.map (·.id) = g.graph.ids := by
    simp only [StoryGraph.nodes, Dict.values, PortGraph.ids, Dict.keys, List.map_map]
    refine List.map_congr_left fun e he => ?_
    exact h e.1 e.2 ((mem_entries_iff _ _ _).1 he)
  exact (hids ▸ ids_pairwise g.graph).sublist ((List.filter_sublist).map _)

lemma head?_eq_some_iff_isLeast {ids : List Nat} (h : ids.Pairwise (· < ·)) {id : Nat} :
    ids.head? = some id ↔ IsLeast {i | i ∈ ids} id := by
  cases ids with
  | nil => simp [IsLeast]
  | cons first rest =>
    have hfirst : IsLeast {i | i ∈ first :: rest} first := by
      refine ⟨List.mem_cons_self, fun i hi => ?_⟩
      rcases List.mem_cons.1 hi with rfl | hi
      · exact Nat.le_refl _
      · exact Nat.le_of_lt ((List.pairwise_cons.1 h).1 i hi)
    rw [List.head?_cons, Option.some.injEq]
    exact ⟨fun heq => heq ▸ hfirst, fun hleast => hfirst.unique hleast⟩

lemma entry?_eq_some_iff (h : g.Labelled) {id : Nat} : g.entry? = some id ↔ g.BeginsAt id := by
  have hstarts : {i | i ∈ g.starts} = {i | ∃ n, g.node? i = some n ∧ n.kind = .start} := by
    ext i
    simp only [StoryGraph.starts, Set.mem_ofPred_eq, mem_filter_ids h, decide_eq_true_eq]
  have hpairwise : g.starts.Pairwise (· < ·) := filter_ids_pairwise h _
  rw [entry?_eq, Option.or_eq_some_iff, head?_eq_some_iff_isLeast hpairwise, hstarts,
    Option.filter_eq_some_iff, Option.filter_eq_none_iff]
  simp only [StoryGraph.BeginsAt, Bool.not_eq_true]

lemma contains_of_beginsAt {id : Nat} (h : g.BeginsAt id) : g.graph.contains id = true := by
  rcases h with ⟨-, hlive⟩ | ⟨-, ⟨n, hn, -⟩, -⟩
  · exact hlive
  · exact (contains_iff_node? id).2 ⟨n, hn⟩

lemma mem_storyUnreachable_iff (hwired : Wired g.graph) (h : g.Labelled) {i : Nat} :
    i ∈ g.unreachable ↔ ∃ n, g.node? i = some n ∧ n.kind ≠ .comment ∧
      ∃ start, g.BeginsAt start ∧ ¬LeadsTo g.graph start i := by
  rw [StoryGraph.unreachable]
  cases hentry : g.entry? with
  | none =>
    simp only [List.not_mem_nil, false_iff, not_exists, not_and]
    intro n _ _ start hstart
    rw [(entry?_eq_some_iff h).2 hstart] at hentry
    cases hentry
  | some entry =>
    have hbegins := (entry?_eq_some_iff h).1 hentry
    have hreached : ∀ n, g.node? i = some n →
        (i ∈ g.graph.reachableFrom [entry] ↔ LeadsTo g.graph entry i) := by
      intro n hn
      rw [mem_reachableFrom_iff hwired]
      constructor
      · rintro ⟨-, r, hr, -, hway⟩
        exact List.mem_singleton.1 hr ▸ hway
      · intro hway
        exact ⟨(contains_iff_node? i).2 ⟨n, hn⟩, entry, List.mem_singleton_self _,
          contains_of_beginsAt hbegins, hway⟩
    simp only [List.mem_filter, mem_filter_ids h, decide_eq_true_eq, Bool.not_eq_eq_eq_not,
      Bool.not_true, List.contains_eq_mem, decide_eq_false_iff_not]
    constructor
    · rintro ⟨⟨n, hn, hkind⟩, hfar⟩
      exact ⟨n, hn, hkind, entry, hbegins, fun hway => hfar ((hreached n hn).2 hway)⟩
    · rintro ⟨n, hn, hkind, start, hstart, hfar⟩
      obtain rfl := Option.some.inj (((entry?_eq_some_iff h).2 hstart).symm.trans hentry)
      exact ⟨⟨n, hn, hkind⟩, fun hmem => hfar ((hreached n hn).1 hmem)⟩

lemma storyUnreachable_pairwise (h : g.Labelled) : g.unreachable.Pairwise (· < ·) := by
  rw [StoryGraph.unreachable]
  split
  · exact .nil
  · exact (filter_ids_pairwise h _).filter _

lemma filter_unreachable_warnings (g : StoryGraph) :
    g.validate.warnings.filter (·.code = "VAL_UNREACHABLE") = g.unreachable.map .unreachable := by
  have hstarts : (g.startIssues.filter (·.severity = .warning)).filter
      (·.code = "VAL_UNREACHABLE") = [] := by
    refine List.filter_eq_nil_iff.2 fun issue hissue => ?_
    rcases code_startIssues (List.mem_filter.1 hissue).1 with hcode | hcode <;> rw [hcode] <;> decide
  have hmissed : ∀ issue ∈ g.unreachable.map Issue.unreachable,
      decide (issue.code = "VAL_UNREACHABLE") = true := List.forall_mem_map.2 fun _ _ => rfl
  rw [warnings_validate, List.filter_append, hstarts, List.filter_eq_self.2 hmissed, List.nil_append]

/-- A story is valid if and only if it is in order, whatever has been overwritten in its nodes. Where
the nodes carry their ids, the nodes that are warned of are those that are no comments and that the
beginning of the story does not lead to. -/
theorem validate_exact (g : StoryGraph) (h : g.Drafted) :
    (g.validate.isValid = true ↔ g.InOrder) ∧
    (g.Labelled → ∃ missed : List Nat,
      g.validate.warnings.filter (·.code = "VAL_UNREACHABLE") = missed.map .unreachable ∧
      g.validate.unreachable = missed.length ∧ missed.Pairwise (· < ·) ∧
      ∀ i, i ∈ missed ↔ ∃ n, g.node? i = some n ∧ n.kind ≠ .comment ∧
        ∃ start, g.BeginsAt start ∧ ¬LeadsTo g.graph start i) := by
  have hwired := wired_of_drafted h
  refine ⟨isValid_iff_inOrder hwired, fun hlabelled => ⟨g.unreachable,
    filter_unreachable_warnings g, rfl, storyUnreachable_pairwise hlabelled, fun i => ?_⟩⟩
  exact mem_storyUnreachable_iff hwired hlabelled

lemma drafted_run (name : String) (ops : List StoryGraph.Operation) :
    (storyEditor.run { name } ops).Drafted :=
  run_induct (P := StoryGraph.Drafted) (fun _ _ _ _ hg h => h.performed hg) (.empty name)

/-- A dialogue that has lost its text and the input at which the story comes to it, and an end that the
story does not come to. -/
def severed : StoryGraph :=
  (storyEditor.run { name := "s" } [.create .start .zero .zero, .create .dialogue .zero .zero,
    .create .stop .zero .zero, .connect (.output 1 "out") (.input 2 "in")]).modify 2 fun n =>
      { n.set "text" " \n" with inputs := [] }

theorem validate_exact_severed : severed.Drafted ∧ severed.Labelled ∧ ¬severed.InOrder ∧
    ∃ start, severed.BeginsAt start ∧ ¬LeadsTo severed.graph start 3 := by
  have hdrafted : severed.Drafted := .edited 2 _ (drafted_run "s" _)
  have hlabelled : severed.Labelled := idIssues_eq_nil_iff.1 (by decide +kernel)
  have hinvalid : severed.validate.isValid = false := by decide +kernel
  obtain ⟨hvalid, hwarnings⟩ := validate_exact severed hdrafted
  obtain ⟨missed, hmissed, -, -, hmem⟩ := hwarnings hlabelled
  have hwarned : Issue.unreachable 3 ∈ missed.map Issue.unreachable := by
    rw [← hmissed]
    decide +kernel
  refine ⟨hdrafted, hlabelled, fun horder => ?_, ?_⟩
  · rw [hvalid.2 horder] at hinvalid
    cases hinvalid
  · obtain ⟨i, hi, heq⟩ := List.mem_map.1 hwarned
    obtain rfl := Issue.unreachable.inj heq
    obtain ⟨-, -, -, hstart⟩ := (hmem 3).1 hi
    exact hstart

end Novella.Proofs
