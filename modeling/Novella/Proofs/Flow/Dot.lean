import Novella.Flow.Dot
import Novella.Proofs.Decimal.Literal
import Novella.Proofs.Flow.ReadingOrder

/-!
# The lines of a DOT text

Whatever the texts in a graph are, its DOT text falls into the lines that were written: one for each
node in the order of the ids, and one for each connection in the order in which they were made. A label
on a line ends at its own closing quote and reads back as the text that it shows, but for carriage
returns, which are left out. The nodes in red are those that no entry of a scene leads to
(`toDot_reads_back`).
-/

namespace Novella.Flow.Dot

/-- A line as a reader of DOT cuts it: what stands outside of labels and the labels themselves, by turns
and without the quotes between them. In a label a backslash belongs to the character after it, and stands
with an `n` for a line feed. A label that is not closed is refused. -/
def cut : (inLabel : Bool) → List Char → Option (List (List Char))
  | false, [] => some [[]]
  | true, [] => none
  | true, ['\\'] => none
  | true, '\\' :: c :: rest =>
    (cut true rest).map (List.modifyHead ((if c = 'n' then '\n' else c) :: ·))
  | inLabel, c :: rest =>
    if c = '"' then (cut (!inLabel) rest).map ([] :: ·)
    else (cut inLabel rest).map (List.modifyHead (c :: ·))

/-- The characters of a text that its label keeps. -/
def kept (s : String) : List Char := s.toList.filter (· ≠ '\r')

end Novella.Flow.Dot

namespace Novella.Proofs

open Novella.Flow

/-! ## Labels -/

section Labels

variable {before after : List Char}

/-- Neither a quote nor the end of a line stands in the text. -/
def Unquoted (cs : List Char) : Prop := ∀ c ∈ cs, c ≠ '"' ∧ c ≠ '\n'

instance (cs : List Char) : Decidable (Unquoted cs) :=
  List.decidableBAll (fun c => c ≠ '"' ∧ c ≠ '\n') cs

lemma Unquoted.append {cs ds : List Char} (hcs : Unquoted cs) (hds : Unquoted ds) :
    Unquoted (cs ++ ds) :=
  List.forall_mem_append.2 ⟨hcs, hds⟩

lemma unquoted_toString (n : Nat) : Unquoted (toString n).toList := by
  intro c hc
  have hdigit : c.isDigit = true :=
    Nat.isDigit_of_mem_toDigits (b := 10) (by decide) (by decide) (by simpa using hc)
  exact ⟨ne_of_isDigit hdigit (by decide), ne_of_isDigit hdigit (by decide)⟩

/-- Every character is written so that it is read as it was, unless it is left out. -/
lemma cut_escapeChar (c : Char) (rest : List Char) : Dot.cut true (Dot.escapeChar c ++ rest) =
    if c = '\r' then Dot.cut true rest else (Dot.cut true rest).map (List.modifyHead (c :: ·)) := by
  unfold Dot.escapeChar
  split
  · rfl
  · rfl
  · rfl
  · rfl
  · next hslash hquote _ hreturn =>
    have hslash : c ≠ '\\' := hslash
    have hquote : c ≠ '"' := hquote
    rw [if_neg hreturn, List.singleton_append, Dot.cut, if_neg hquote]
    · exact fun _ h _ => hslash h
    · exact fun _ _ _ h _ => hslash h

lemma cut_escape (s rest : List Char) : Dot.cut true (s.flatMap Dot.escapeChar ++ '"' :: rest) =
    (Dot.cut false rest).map (s.filter (· ≠ '\r') :: ·) := by
  induction s with
  | nil => rfl
  | cons c s ih =>
    rw [List.flatMap_cons, List.append_assoc, cut_escapeChar, ih]
    by_cases hreturn : c = '\r'
    · rw [if_pos hreturn, List.filter_cons_of_neg (by simpa using hreturn)]
    · rw [if_neg hreturn, List.filter_cons_of_pos (by simpa using hreturn), Option.map_map]
      rfl

lemma cut_unquoted (h : Unquoted before) (rest : List Char) : Dot.cut false (before ++ rest) =
    (Dot.cut false rest).map (List.modifyHead (before ++ ·)) := by
  induction before with
  | nil =>
    have hsame : List.modifyHead (([] : List Char) ++ ·) = id := by
      funext pieces
      cases pieces <;> rfl
    rw [hsame, Option.map_id]
    rfl
  | cons c before ih =>
    obtain ⟨hc, hbefore⟩ := List.forall_mem_cons.1 h
    rw [List.cons_append, Dot.cut, if_neg hc.1, ih hbefore, Option.map_map]
    · congr 1
      funext pieces
      cases pieces <;> rfl
    all_goals simp

/-- A line with one label on it falls into the label and what stands before and after it. -/
lemma cut_labelled (hbefore : Unquoted before) (hafter : Unquoted after) (s : String) :
    Dot.cut false (before ++ '"' :: ((Dot.escape s).toList ++ '"' :: after)) =
      some [before, Dot.kept s, after] := by
  have hend : Dot.cut false after = some [after] := by
    simpa [Dot.cut] using cut_unquoted hafter []
  have hlabel : Dot.cut true ((Dot.escape s).toList ++ '"' :: after) = some [Dot.kept s, after] := by
    rw [Dot.escape, String.toList_ofList, cut_escape, hend]
    rfl
  rw [cut_unquoted hbefore, Dot.cut, if_pos rfl, Bool.not_false, hlabel]
  · simp
  all_goals simp

lemma lineEnd_notMem_escape (s : String) : '\n' ∉ (Dot.escape s).toList := by
  rw [Dot.escape, String.toList_ofList, List.mem_flatMap]
  rintro ⟨c, -, hc⟩
  unfold Dot.escapeChar at hc
  split at hc
  · simp at hc
  · simp at hc
  · simp at hc
  · simp at hc
  · next hfeed _ => exact hfeed (List.mem_singleton.1 hc).symm

lemma Unquoted.lineEnd_notMem (h : Unquoted before) : '\n' ∉ before := fun hmem => (h _ hmem).2 rfl

lemma lineEnd_notMem_labelled (hbefore : Unquoted before) (hafter : Unquoted after) (s : String) :
    '\n' ∉ before ++ '"' :: ((Dot.escape s).toList ++ '"' :: after) := by
  simp [hbefore.lineEnd_notMem, hafter.lineEnd_notMem, lineEnd_notMem_escape]

end Labels

/-! ## Lines -/

section Lines

variable {g : FlowGraph}

/-- What stands before the label on the line of a node. -/
def nodeFront (n : Node) : List Char := "    n".toList ++ ((toString n.id).toList ++ " [label=".toList)

/-- What stands after the label on the line of a node. -/
def nodeEnd (unreachable : List Nat) (n : Node) : List Char :=
  " shape=".toList ++ ((Dot.shape n.kind).toList ++
    (" color=".toList ++ ((Dot.color unreachable n).toList ++ "];".toList)))

/-- What stands before the label on the line of a connection. -/
def edgeFront (e : Edge String) : List Char :=
  "    n".toList ++ ((toString e.source.node).toList ++ (" -> n".toList ++
    ((toString e.target.node).toList ++ (" [style=".toList ++ (Dot.style e.source.name).toList))))

lemma nodeLine_toList (unreachable : List Nat) (n : Node) : (Dot.nodeLine unreachable n).toList =
    nodeFront n ++ '"' :: ((Dot.escape (Dot.label n)).toList ++ '"' :: nodeEnd unreachable n) := by
  have hopen : " [label=\"".toList = " [label=".toList ++ ['"'] := by decide
  have hclose : "\" shape=".toList = '"' :: " shape=".toList := by decide
  unfold Dot.nodeLine nodeFront nodeEnd
  simp only [String.toList_append]
  rw [hopen, hclose]
  simp only [List.append_assoc, List.cons_append, List.nil_append]

lemma edgeLine_toList (e : Edge String) : (Dot.edgeLine e).toList =
    if e.data = "" then edgeFront e ++ "];".toList
    else (edgeFront e ++ " label=".toList) ++
      '"' :: ((Dot.escape e.data).toList ++ '"' :: "];".toList) := by
  have hopen : " label=\"".toList = " label=".toList ++ ['"'] := by decide
  have hclose : "\"".toList = ['"'] := by decide
  have hnone : "".toList = [] := by decide
  unfold Dot.edgeLine edgeFront
  simp only [String.isEmpty_iff]
  split
  · simp only [String.toList_append, hnone, List.append_assoc, List.nil_append]
  · simp only [String.toList_append]
    rw [hopen, hclose]
    simp only [List.append_assoc, List.cons_append, List.nil_append]

lemma unquoted_nodeFront (n : Node) : Unquoted (nodeFront n) :=
  .append (by decide) ((unquoted_toString _).append (by decide))

lemma unquoted_nodeEnd (unreachable : List Nat) (n : Node) : Unquoted (nodeEnd unreachable n) := by
  have hshape : Unquoted (Dot.shape n.kind).toList := by cases n.kind <;> decide
  have hcolors : ∀ color ∈ ["red", "green", "black"], Unquoted color.toList := by decide
  have hcolor : Dot.color unreachable n ∈ ["red", "green", "black"] := by
    rw [Dot.color]
    split
    · exact .head _
    · split
      · exact .tail _ (.head _)
      · exact .tail _ (.tail _ (.head _))
  exact .append (by decide) (hshape.append (.append (by decide)
    ((hcolors _ hcolor).append (by decide))))

lemma unquoted_edgeFront (e : Edge String) : Unquoted (edgeFront e) := by
  have hstyles : ∀ style ∈ ["solid", "bold", "dotted", "dashed"], Unquoted style.toList := by decide
  have hstyle : Dot.style e.source.name ∈ ["solid", "bold", "dotted", "dashed"] := by
    rw [Dot.style]
    split
    · exact .head _
    · split
      · exact .tail _ (.head _)
      · split
        · exact .tail _ (.tail _ (.head _))
        · exact .tail _ (.tail _ (.tail _ (.head _)))
  exact .append (by decide) ((unquoted_toString _).append (.append (by decide)
    ((unquoted_toString _).append (.append (by decide) (hstyles _ hstyle)))))

/-- No line of the text runs over its end. -/
lemma lineEnd_notMem_lines {line : String} (h : line ∈ Dot.lines g) : '\n' ∉ line.toList := by
  simp only [Dot.lines, List.mem_append, List.mem_map, List.mem_singleton] at h
  rcases h with (((hheader | ⟨n, -, rfl⟩) | rfl) | ⟨e, -, rfl⟩) | rfl
  · have hall : ∀ line ∈ Dot.header, '\n' ∉ line.toList := by decide
    exact hall line hheader
  · rw [nodeLine_toList]
    exact lineEnd_notMem_labelled (unquoted_nodeFront n) (unquoted_nodeEnd _ n) _
  · decide
  · rw [edgeLine_toList]
    split
    · exact ((unquoted_edgeFront e).append (by decide)).lineEnd_notMem
    · exact lineEnd_notMem_labelled ((unquoted_edgeFront e).append (by decide)) (by decide) _
  · decide

lemma splitOn_joined {lines : List String} (h : ∀ line ∈ lines, '\n' ∉ line.toList) :
    (String.join (lines.map (· ++ "\n"))).toList.splitOn '\n' = lines.map String.toList ++ [[]] := by
  induction lines with
  | nil => rfl
  | cons line lines ih =>
    obtain ⟨hline, hlines⟩ := List.forall_mem_cons.1 h
    have hfront : (String.join ((line :: lines).map (· ++ "\n"))).toList =
        line.toList ++ '\n' :: (String.join (lines.map (· ++ "\n"))).toList := by
      simp
    rw [hfront, List.splitOn_append_cons_self_of_not_mem hline, ih hlines]
    rfl

lemma cut_nodeLine (unreachable : List Nat) (n : Node) :
    Dot.cut false (Dot.nodeLine unreachable n).toList =
      some [nodeFront n, Dot.kept (Dot.label n), nodeEnd unreachable n] := by
  rw [nodeLine_toList]
  exact cut_labelled (unquoted_nodeFront n) (unquoted_nodeEnd unreachable n) _

lemma cut_edgeLine (e : Edge String) : Dot.cut false (Dot.edgeLine e).toList = some (
    if e.data = "" then [edgeFront e ++ "];".toList]
    else [edgeFront e ++ " label=".toList, Dot.kept e.data, "];".toList]) := by
  rw [edgeLine_toList]
  split
  · have hall : Unquoted (edgeFront e ++ "];".toList) := (unquoted_edgeFront e).append (by decide)
    simpa [Dot.cut] using cut_unquoted hall []
  · exact cut_labelled ((unquoted_edgeFront e).append (by decide)) (by decide) _

/-- A node of the graph is red if no entry of a scene leads to it. -/
lemma color_eq_red_iff (h : g.Sound) {n : Node} (hn : n ∈ g.nodes) :
    Dot.color g.unreachable n = "red" ↔ ¬∃ start, ((∃ scene, g.scenes.get? scene = some start) ∨
      ∃ m, g.node? start = some m ∧ m.kind = .sceneStart) ∧ LeadsTo g.graph start n.id := by
  have hcolor : Dot.color g.unreachable n = "red" ↔ n.id ∈ g.unreachable := by
    rw [Dot.color]
    split
    · next hmem => exact iff_of_true rfl (List.contains_iff_mem.1 hmem)
    · next hmem =>
      refine iff_of_false ?_ fun hin => hmem (List.contains_iff_mem.2 hin)
      split <;> decide
  obtain ⟨id, hid⟩ := (mem_values_iff _ _).1 hn
  obtain rfl : n.id = id := h.own id n hid
  have hlive : g.graph.contains n.id = true := (contains_iff_node? n.id).2 ⟨n, hid⟩
  rw [hcolor, mem_unreachable_iff h.stored.wired, and_iff_right hlive]
  simp only [mem_entries_of_sound h, not_exists, not_and]

lemma map_id_nodes (h : g.Sound) : g.nodes.map (·.id) = g.graph.ids := by
  rw [PortGraph.ids, Dict.keys, entries_eq_values h.own, List.map_map]
  rfl

/-- Where the nodes have their own ids, the DOT text of a graph, cut at the ends of its lines, gives the
header, a line for each node in ascending order of the ids, an empty line, a line for each connection
with the newest one last, and the brace at the end. The label on the line of a node reads back as what
the label says, and that on the line of a connection as its text, but for carriage returns; nothing else
on the line can be taken for a part of it. A node is red exactly if no entry leads to it. -/
theorem toDot_reads_back (g : FlowGraph) (h : g.Reachable) (hown : g.OwnIds) :
    g.toDot.toList.splitOn '\n' = (Dot.header ++ g.nodes.map (Dot.nodeLine g.unreachable) ++ [""] ++
      g.graph.edges.map Dot.edgeLine ++ ["\x7d", ""]).map String.toList ∧
    (g.nodes.map (·.id) = g.graph.ids ∧ g.graph.ids.Pairwise (· < ·) ∧
      ∀ id, id ∈ g.graph.ids ↔ g.graph.contains id = true) ∧
    (∀ source target label g', g.connect source target label = .ok g' →
      g'.graph.edges = g.graph.edges ++ [⟨source, target, label⟩]) ∧
    (∀ n ∈ g.nodes, Dot.cut false (Dot.nodeLine g.unreachable n).toList =
        some [nodeFront n, Dot.kept (Dot.label n), nodeEnd g.unreachable n] ∧
      (Dot.color g.unreachable n = "red" ↔
        ¬∃ start, ((∃ scene, g.scenes.get? scene = some start) ∨
          ∃ m, g.node? start = some m ∧ m.kind = .sceneStart) ∧ LeadsTo g.graph start n.id)) ∧
    ∀ e ∈ g.graph.edges, Dot.cut false (Dot.edgeLine e).toList = some (
      if e.data = "" then [edgeFront e ++ "];".toList]
      else [edgeFront e ++ " label=".toList, Dot.kept e.data, "];".toList]) := by
  have hsound := sound_of_reachable h hown
  refine ⟨?_, ⟨map_id_nodes hsound, ids_pairwise g.graph, fun id => mem_ids_iff⟩,
    fun source target label g' hg => ?_,
    fun n hn => ⟨cut_nodeLine g.unreachable n, color_eq_red_iff hsound hn⟩,
    fun e _ => cut_edgeLine e⟩
  · rw [FlowGraph.toDot, splitOn_joined fun line hline => lineEnd_notMem_lines hline, Dot.lines]
    simp only [List.map_append, List.append_assoc]
    rfl
  · obtain ⟨graph, hgraph, rfl⟩ := flow_connect_eq_ok.1 hg
    obtain ⟨-, -, rfl⟩ := connect_eq_ok.1 hgraph
    rfl

/-- A scene with a text that has all in it that is escaped, and a node beside it. -/
def scrawled : FlowGraph := flowEditor.run {} [
  .create .sceneStart, .create .dialogue, .create .wait,
  .edit 2 (fun n => n.set "text" (.text "\"hi\"\r\n\\")),
  .connect (.output 1 "out") (.input 2 "in") "\\\""]

theorem toDot_reads_back_scrawled : scrawled.Reachable ∧ scrawled.OwnIds ∧
    (∃ n ∈ scrawled.nodes, n.id = 2 ∧ (Dot.cut false (Dot.nodeLine scrawled.unreachable n).toList).map
      (·[1]?) = some (some "[2] Dialogue: narrator: \"hi\"\n\\".toList)) ∧
    ∃ n ∈ scrawled.nodes, Dot.color scrawled.unreachable n = "red" ∧
      ¬LeadsTo scrawled.graph 1 n.id := by
  have hreach : scrawled.Reachable := reachable_run _ _
  have hown : scrawled.OwnIds := by decide +kernel
  obtain ⟨-, -, -, hnodes, -⟩ := toDot_reads_back scrawled hreach hown
  obtain ⟨n, hn, hid, hlabel⟩ : ∃ n ∈ scrawled.nodes, n.id = 2 ∧
      Dot.kept (Dot.label n) = "[2] Dialogue: narrator: \"hi\"\n\\".toList := by decide +kernel
  obtain ⟨m, hm, hred⟩ : ∃ m ∈ scrawled.nodes, Dot.color scrawled.unreachable m = "red" := by
    decide +kernel
  have hstart : ∃ n, scrawled.node? 1 = some n ∧ n.kind = .sceneStart := ⟨_, rfl, rfl⟩
  refine ⟨hreach, hown, ⟨n, hn, hid, ?_⟩, m, hm, hred, fun hway => ?_⟩
  · rw [(hnodes n hn).1, ← hlabel]
    rfl
  · exact (hnodes m hm).2.1 hred ⟨1, .inr hstart, hway⟩

/-- The line of the overwritten node has its other id, and the node to which this start of a scene
leads is red. -/
theorem overwritten_drawn_astray : overwritten.Reachable ∧ overwritten.graph.ids = [1, 2] ∧
    overwritten.nodes.map (·.id) = [7, 2] ∧
    (∃ n, overwritten.node? 1 = some n ∧ n.kind = .sceneStart) ∧ LeadsTo overwritten.graph 1 2 ∧
    ∃ n, overwritten.node? 2 = some n ∧ Dot.color overwritten.unreachable n = "red" :=
  ⟨reachable_overwritten, by decide, by decide, ⟨_, rfl, rfl⟩,
    .single ⟨_, List.mem_singleton.2 rfl, rfl, rfl⟩, _, rfl, by decide +kernel⟩

end Lines

end Novella.Proofs
