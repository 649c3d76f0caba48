import Novella.Canvas.Projection
import Novella.Proofs.Decimal.Literal
import Novella.Proofs.Flow.Reachable
import Novella.Proofs.Json.Decoding

/-!
# The canvas loses nothing

A property crosses to the canvas as a text. The hint that goes with it where the declared kind does
not say what kind of value the text stands for is just what reading the text needs, so every value
comes back with its kind (`valueOf_render`), a number that is not finite as zero. A sound graph is
refused nothing on either way, so it comes back whole (`toFlow_ofFlow`), except that the next id is
the one that its ids ask for. The canvas has every node under its own id: where a node stands under
the id of another, its connections are lost.
-/

namespace Novella.Flow

/-- The value that the text form of a value stands for: a number that is not finite is written as
zero. -/
def PropertyValue.written : PropertyValue → PropertyValue
  | .float x => .float x.written
  | v => v

def Node.written (n : Node) : Node :=
  { n with properties := n.properties.map fun _ v => v.written }

def PropertyValue.Finite : PropertyValue → Prop
  | .float x => x.isFinite = true
  | _ => True

instance : DecidablePred PropertyValue.Finite
  | .float x => inferInstanceAs (Decidable (x.isFinite = true))
  | .null | .bool _ | .int _ | .text _ | .texts _ => inferInstanceAs (Decidable True)

/-- All numbers in the properties of the node are finite. -/
def Node.Finite (n : Node) : Prop := ∀ v ∈ n.properties.values, v.Finite

instance : DecidablePred Node.Finite := fun n =>
  inferInstanceAs (Decidable (∀ v ∈ n.properties.values, v.Finite))

end Novella.Flow

namespace Novella.Proofs

open Novella.Flow Canvas
open Novella.Flow.FlowGraph (Reachable)

/-! ## Values -/

section Values

lemma trimChars_eq_self {cs : List Char} (h : ∀ c ∈ cs, Text.isBlank c = false) :
    Text.trimChars cs = cs := by
  have hdrop : ∀ cs : List Char, (∀ c ∈ cs, Text.isBlank c = false) →
      cs.dropWhile Text.isBlank = cs := by
    intro cs h
    cases cs with
    | nil => rfl
    | cons c cs => rw [List.dropWhile_cons_of_neg (by simp [h c List.mem_cons_self])]
  rw [Text.trimChars, hdrop cs h, Text.trimEnd, hdrop _ fun c hc => h c (List.mem_reverse.1 hc),
    List.reverse_reverse]

lemma isBlank_of_isDigit {c : Char} (h : c.isDigit = true) : Text.isBlank c = false := by
  have hrange : 48 ≤ c.toNat ∧ c.toNat ≤ 57 := by
    simpa [Char.isDigit, UInt32.le_iff_toNat_le] using h
  simp only [Text.isBlank, Bool.or_eq_false_iff, Bool.and_eq_false_iff, decide_eq_false_iff_not]
  omega

lemma isBlank_of_mem_signText {negative : Bool} {c : Char} (h : c ∈ signText negative) :
    Text.isBlank c = false := by
  cases negative with
  | true =>
    rw [List.mem_singleton.1 h]
    decide
  | false => cases h

lemma trimChars_toString (n : Int) : Text.trimChars (toString n).toList = (toString n).toList := by
  refine trimChars_eq_self fun c hc => ?_
  rw [← signText_decimalDigits] at hc
  rcases List.mem_append.1 hc with hc | hc
  · exact isBlank_of_mem_signText hc
  · exact isBlank_of_isDigit ((digits_decimalDigits _).isDigit c hc)

lemma trimChars_literal (x : Binary64) : Text.trimChars x.literal.toList = x.literal.toList := by
  obtain ⟨t, -⟩ := literal_floatText x
  refine trimChars_eq_self fun c hc => ?_
  rw [t.eq] at hc
  rcases List.mem_append.1 hc with hc | hc
  · exact isBlank_of_mem_signText hc
  · rcases List.mem_append.1 hc with hc | hc
    · exact isBlank_of_isDigit (t.whole_digits.isDigit c hc)
    · rcases List.mem_cons.1 hc with rfl | hc
      · decide
      · exact isBlank_of_isDigit (t.part_digits.isDigit c hc)

/-- Trimming a text leaves what is not blank. -/
lemma mem_trimChars {c : Char} {cs : List Char} (hc : c ∈ cs) (h : Text.isBlank c = false) :
    c ∈ Text.trimChars cs := by
  have hdrop : ∀ cs : List Char, c ∈ cs → c ∈ cs.dropWhile Text.isBlank := by
    intro cs hc
    induction cs with
    | nil => exact hc
    | cons d cs ih =>
      rw [List.dropWhile_cons]
      split
      · next hd =>
        rcases List.mem_cons.1 hc with rfl | hc
        · rw [h] at hd
          cases hd
        · exact ih hc
      · exact hc
  exact List.mem_reverse.2 (hdrop _ (List.mem_reverse.2 (hdrop cs hc)))

/-- The text of a list begins with a bracket. -/
lemma trimChars_texts (items : List String) :
    (Text.trimChars (Json.texts items).compact.toList).isEmpty = false := by
  have hbracket : '[' ∈ (Json.texts items).compact.toList := by
    simp [Json.texts, Json.compact, String.toList_append]
  rw [List.isEmpty_eq_false_iff]
  exact List.ne_nil_of_mem (mem_trimChars hbracket (by decide))

/-- The text of a value, read as a value of its kind, is the value. -/
lemma parse_kind_render (v : PropertyValue) : PropertyValue.parse v.kind v.render = .ok v.written := by
  cases v with
  | null => rfl
  | bool b => cases b <;> rfl
  | int n =>
    simp only [PropertyValue.parse, PropertyValue.kind, PropertyValue.render, trimChars_toString,
      readInt64_toString]
    rfl
  | float x =>
    simp only [PropertyValue.parse, PropertyValue.kind, PropertyValue.render, trimChars_literal,
      read_literal]
    rfl
  | text s => rfl
  | texts items =>
    simp only [PropertyValue.parse, PropertyValue.kind, PropertyValue.render, trimChars_texts,
      (decodes_texts items).compact (Json.readable_texts items)]
    rfl

/-- The text of a truth value or a number is not empty. -/
lemma render_isEmpty {v : PropertyValue}
    (h : v.kind = .bool ∨ v.kind = .int ∨ v.kind = .float) : v.render.isEmpty = false := by
  have hne : v.render.toList ≠ [] → v.render.isEmpty = false := by
    intro hne
    rw [Bool.eq_false_iff, Ne, String.isEmpty_iff]
    rintro heq
    exact hne (by rw [heq]; rfl)
  cases v with
  | bool b => cases b <;> decide
  | int n =>
    refine hne ?_
    rw [PropertyValue.render, toString_toList]
    exact List.append_ne_nil_of_right_ne_nil _ (digits_decimalDigits _).ne_nil
  | float x =>
    obtain ⟨t, -⟩ := literal_floatText x
    refine hne ?_
    rw [PropertyValue.render, t.eq]
    simp
  | _ => rcases h with h | h | h <;> cases h

/-- With the hint that goes with it, the text of a value stands for the value. -/
theorem valueOf_render (kind : NodeKind) (name : String) (v : PropertyValue) :
    valueOf (if v.kind ≠ impliedKind kind name then some v.kind else none) (kind.propertyKind? name)
      v.render = .ok v.written := by
  by_cases hkind : v.kind = impliedKind kind name
  · rw [if_neg (not_not.2 hkind)]
    cases hdeclared : kind.propertyKind? name with
    | none =>
      rw [impliedKind, hdeclared] at hkind
      cases v with
      | text s => rfl
      | _ => cases hkind
    | some declared =>
      rw [impliedKind, hdeclared] at hkind
      obtain rfl : v.kind = declared := hkind
      rw [valueOf, if_neg]
      · exact parse_kind_render v
      · intro h
        simp only [Bool.and_eq_true, Bool.or_eq_true, decide_eq_true_eq] at h
        rw [render_isEmpty (or_assoc.1 h.2)] at h
        exact absurd h.1 Bool.false_ne_true
  · rw [if_pos hkind]
    exact parse_kind_render v

end Values

/-! ## Nodes -/

section Nodes

variable {n : Flow.Node}

/-- A value has a hint where its kind is not the one that the text would imply. -/
lemma get?_hintsOf (kind : NodeKind) {properties : Dict String PropertyValue} {name : String}
    {v : PropertyValue} (h : properties.get? name = some v) :
    (hintsOf kind properties).get? name =
      if v.kind ≠ impliedKind kind name then some v.kind else none := by
  rw [hintsOf, get?_map]
  by_cases hkind : v.kind ≠ impliedKind kind name
  · rw [if_pos hkind, (get?_filter_iff _ _ _ _).2 ⟨h, decide_eq_true hkind⟩]
    rfl
  · rw [if_neg hkind, Option.map_eq_none_iff, Option.eq_none_iff_forall_ne_some]
    intro w hw
    obtain ⟨hget, hne⟩ := (get?_filter_iff _ _ _ _).1 hw
    obtain rfl := Option.some.inj (h.symm.trans hget)
    exact hkind (of_decide_eq_true hne)

lemma valuesOf_ofFlow (n : Flow.Node) {es : List (String × PropertyValue)}
    (h : ∀ e ∈ es, e ∈ n.properties.entries) :
    valuesOf (.ofFlow n) n.kind (es.map fun e => (e.1, e.2.render)) =
      .ok (es.map fun e => (e.1, e.2.written)) := by
  induction es with
  | nil => rfl
  | cons e es ih =>
    obtain ⟨he, hes⟩ := List.forall_mem_cons.1 h
    have hhint := get?_hintsOf n.kind ((mem_entries_iff n.properties e.1 e.2).1 he)
    have hvalue := valueOf_render n.kind e.1 e.2
    rw [← hhint] at hvalue
    rw [List.map_cons, valuesOf]
    change ((valueOf ((hintsOf n.kind n.properties).get? e.1) _ _).mapError _ >>= _) = _
    rw [hvalue]
    change (valuesOf _ _ (es.map _) >>= _) = _
    rw [ih hes]
    rfl

/-- A node comes back from the canvas. -/
theorem toFlow_node (n : Flow.Node) : (Canvas.Node.ofFlow n).toFlow = .ok n.written := by
  have hkind : NodeKind.ofTag? (Canvas.Node.ofFlow n).tag = some n.kind := NodeKind.ofTag?_tag n.kind
  have hvalues : valuesOf (.ofFlow n) n.kind (Canvas.Node.ofFlow n).properties.entries =
      .ok (n.properties.map fun _ v => v.written).entries := valuesOf_ofFlow n fun e he => he
  rw [Canvas.Node.toFlow, hkind]
  change (valuesOf (.ofFlow n) n.kind _ >>= _) = _
  rw [hvalues]
  exact congrArg (fun properties => Except.ok { n with properties }) (ofList_entries _)

lemma written_of_finite_value {v : PropertyValue} (h : v.Finite) : v.written = v := by
  cases v with
  | float x => exact congrArg PropertyValue.float (written_of_finite h)
  | _ => rfl

lemma written_of_finite_node (h : n.Finite) : n.written = n := by
  have hentries : ∀ e ∈ n.properties.entries, (e.1, e.2.written) = e := fun e he =>
    Prod.ext rfl (written_of_finite_value (h e.2 (List.mem_map_of_mem he)))
  have hproperties : (n.properties.map fun _ v => v.written) = n.properties :=
    dict_ext ((List.map_congr_left hentries).trans (List.map_id _))
  rw [Node.written, hproperties]

end Nodes

/-! ## Graphs -/

section Graphs

variable {g : FlowGraph}

lemma canvas_insert? {canvas : CanvasGraph} {n : Canvas.Node} {graph : PortGraph Canvas.Node String}
    (h : canvas.graph.insert? n.id n = some graph) : canvas.insert? n = some { canvas with graph } := by
  rw [CanvasGraph.insert?, h]
  rfl

/-- Shows a node on the canvas, or fails where the canvas refuses it. -/
def insertShown (canvas : CanvasGraph) (n : Flow.Node) : Except Fault CanvasGraph :=
  (canvas.insert? (.ofFlow n)).elim (.error (.badNodeId n.id)) .ok

lemma toOption_insertShown (canvas : CanvasGraph) (n : Flow.Node) :
    (insertShown canvas n).toOption = canvas.insert? (.ofFlow n) := by
  unfold insertShown
  cases canvas.insert? (.ofFlow n) <;> rfl

/-- The canvas refuses nothing of a sound graph. -/
lemma run_ofFlow (h : g.Sound) : (do
      let canvas ← g.nodes.foldlM insertShown (⟨g.name, {}, .empty, []⟩ : CanvasGraph)
      let canvas ← g.graph.edges.foldlM (fun (canvas : CanvasGraph) (e : Edge String) =>
        canvas.connect e.source e.target e.data) canvas
      let canvas ← g.scenes.entries.foldlM (fun (canvas : CanvasGraph) (e : String × Nat) =>
        canvas.addScene e.1 e.2) canvas
      return g.characters.foldl CanvasGraph.addCharacter canvas) =
    .ok ⟨g.name, recounted (overNodes .ofFlow g.graph), g.scenes, g.characters⟩ := by
  have hsound : Proofs.Sound Canvas.Node.id (overNodes Canvas.Node.ofFlow g.graph) g.scenes
      g.characters := Sound.overNodes h fun _ => rfl
  refine assembled (CanvasGraph.mk g.name) hsound.toHoused ?_ ?_ ?_ ?_
  · rw [entries_overNodes h.own, List.forall₂_map_right_iff]
    refine List.forall₂_same.2 fun n _ c c' hc => ?_
    rw [insertShown, canvas_insert? (n := Canvas.Node.ofFlow n) hc]
    rfl
  · refine List.forall₂_same.2 fun e _ c c' hc => ?_
    rw [CanvasGraph.connect, hc]
    rfl
  · intro c d e he
    rw [CanvasGraph.addScene, if_pos he]
  · exact fun _ _ _ _ => rfl

/-- Showing a sound graph leaves nothing out. -/
theorem ofFlow_eq (h : g.Sound) : CanvasGraph.ofFlow g =
    ⟨g.name, recounted (overNodes .ofFlow g.graph), g.scenes, g.characters⟩ := by
  obtain ⟨shown, hnodes, hrun⟩ := exists_of_bind (run_ofFlow h)
  obtain ⟨joined, hedges, hrun⟩ := exists_of_bind hrun
  obtain ⟨entered, hscenes, hrun⟩ := exists_of_bind hrun
  have hinserted := foldl_toOption hnodes
  simp only [toOption_insertShown] at hinserted
  have hconnected := foldl_toOption hedges
  have hadded := foldl_toOption hscenes
  rw [CanvasGraph.ofFlow]
  dsimp only
  rw [hinserted, hconnected, hadded]
  exact Except.ok.inj hrun

/-- Typing a canvas whose nodes and tables are those of a sound graph gives the graph. -/
theorem toFlow_eq {canvas : CanvasGraph} (h : g.Sound) (hname : canvas.name = g.name)
    (hnodes : List.Forall₂ (fun n m => Canvas.Node.toFlow n = .ok m) canvas.nodes g.nodes)
    (hedges : canvas.graph.edges = g.graph.edges) (hscenes : canvas.scenes = g.scenes)
    (hcharacters : canvas.characters = g.characters) :
    canvas.toFlow = .ok { g with graph := recounted g.graph } := by
  rw [CanvasGraph.toFlow, hname, hedges, hscenes, hcharacters]
  refine assembled (FlowGraph.mk g.name) h.toHoused ?_ ?_ ?_ ?_
  · rw [entries_eq_values h.own, List.forall₂_map_right_iff]
    refine hnodes.imp fun n m hm c c' hc => ?_
    rw [hm]
    dsimp only [bind, Except.bind]
    rw [flow_insert?_eq_some.2 ⟨c', hc, rfl⟩]
    rfl
  · refine List.forall₂_same.2 fun e _ c c' hc => ?_
    exact flow_connect_eq_ok.2 ⟨c', hc, rfl⟩
  · intro c d e he
    exact flow_addScene_eq_ok.2 ⟨he, rfl⟩
  · exact fun _ _ _ _ => rfl

/-- A sound graph comes back from the canvas with its values as their texts have them. -/
lemma toFlow_ofFlow_sound (h : g.Sound) : (CanvasGraph.ofFlow g).toFlow =
    .ok { g with graph := recounted (overNodes Flow.Node.written g.graph) } := by
  have hwritten : FlowGraph.Sound { g with graph := overNodes Flow.Node.written g.graph } :=
    Sound.overNodes h fun _ => rfl
  rw [ofFlow_eq h]
  refine toFlow_eq hwritten rfl ?_ rfl rfl rfl
  change List.Forall₂ _ (overNodes Canvas.Node.ofFlow g.graph).nodes.values
    (overNodes Flow.Node.written g.graph).nodes.values
  rw [values_overNodes, values_overNodes, List.forall₂_map_left_iff, List.forall₂_map_right_iff]
  exact List.forall₂_same.2 fun n _ => toFlow_node n

/-- A graph whose nodes have their own ids and whose numbers are finite comes back from the canvas as
it was, but for the counter, which is the one that its ids ask for. -/
theorem toFlow_ofFlow (h : g.Reachable) (hown : g.OwnIds) (hfinite : ∀ n ∈ g.nodes, n.Finite) :
    (CanvasGraph.ofFlow g).toFlow =
      .ok { g with graph := { g.graph with nextId := idAfter g.graph.ids } } := by
  have hnodes : overNodes Flow.Node.written g.graph = g.graph := by
    have hnode : ∀ e ∈ g.graph.nodes.entries, (e.1, e.2.written) = e := fun e he =>
      Prod.ext rfl (written_of_finite_node (hfinite e.2 (List.mem_map_of_mem he)))
    have hentries : g.graph.nodes.map (fun _ n => n.written) = g.graph.nodes :=
      dict_ext ((List.map_congr_left hnode).trans (List.map_id _))
    rw [overNodes, hentries]
  rw [toFlow_ofFlow_sound (sound_of_reachable h hown), hnodes]
  rfl

/-- Values of other kinds than declared, empty ones, and a node that was removed. -/
def patched : FlowGraph :=
  let g := ((({ name := "patched" } : FlowGraph).create .comment).2.create .wait).2.remove 1
  g.modify 2 fun n => n.setAll [("duration", .text ""), ("mood", .null), ("tags", .texts []),
    ("weight", .float ⟨0xc004000000000000⟩)]

theorem patched_comes_back : patched.Reachable ∧ patched.OwnIds ∧ (∀ n ∈ patched.nodes, n.Finite) ∧
    (CanvasGraph.ofFlow patched).toFlow =
      .ok { patched with graph := { patched.graph with nextId := idAfter patched.graph.ids } } := by
  have hreach : patched.Reachable :=
    .edited 2 _ (.removed 1 (.created .wait (.created .comment (.empty _))))
  have hown : patched.OwnIds := by decide
  have hfinite : ∀ n ∈ patched.nodes, n.Finite := by
    decide
  exact ⟨hreach, hown, hfinite, toFlow_ofFlow hreach hown hfinite⟩

/-- The canvas has the overwritten node under its other id, and nothing under the id from which the
connection leads. -/
theorem overwritten_disconnected : overwritten.Reachable ∧ (∀ n ∈ overwritten.nodes, n.Finite) ∧
    overwritten.graph.ids = [1, 2] ∧
    overwritten.graph.edges = [⟨.output 1 "out", .input 2 "in", ""⟩] ∧
    ∃ g, (CanvasGraph.ofFlow overwritten).toFlow = .ok g ∧ g.graph.ids = [2, 7] ∧
      g.graph.edges = [] :=
  ⟨reachable_overwritten, by decide, by decide, rfl, _, rfl, by decide, rfl⟩

end Graphs

end Novella.Proofs
