import Novella.Canvas.Arrangement
import Novella.Proofs.Canvas.Document
import Novella.Proofs.Conversion
import Novella.Proofs.Flow.Document
import Novella.Proofs.Flow.ReadAlike

/-!
# All ways to the text agree

A graph goes through the canvas with its numbers as their texts have them, through an arrangement
with its nodes elsewhere, and through its document without the numbers that are not finite. Raising
tells none of these graphs from the graph itself but for the durations, and their text is the same.
So every way from a script to its text gives what the direct one gives (`routes_agree`).
-/

namespace Novella.Flow

/-- The value `v'` is read as `v` is, a number as its text has it. -/
inductive PropertyValue.Alike : PropertyValue → PropertyValue → Prop
  | same {v : PropertyValue} (h : v.kind ≠ .float) : Alike v v
  | number {x : Binary64} : Alike (.float x) (.float x.written)
  | nothing {x : Binary64} (h : x.written = .zero) : Alike (.float x) .null

end Novella.Flow

namespace Novella.Proofs

open Script Novella.Flow Conversion
open Canvas (CanvasGraph)

/-! ## Values and nodes -/

section Nodes

lemma alike_written (v : PropertyValue) : v.Alike v.written := by
  cases v with
  | float x => exact .number
  | _ =>
    refine .same fun hfloat => ?_
    cases hfloat

lemma alike_plain (v : PropertyValue) : v.Alike v.plain := by
  cases v with
  | float x =>
    rw [PropertyValue.plain]
    by_cases hx : x.isFinite = true
    · rw [if_pos hx]
      have hnumber : PropertyValue.Alike (.float x) (.float x.written) := .number
      rwa [written_of_finite hx] at hnumber
    · rw [if_neg hx]
      exact .nothing (by rw [Binary64.written, if_neg hx])
  | _ =>
    refine .same fun hfloat => ?_
    cases hfloat

/-- A node whose values are replaced by values that read alike reads alike, wherever it stands. -/
lemma alike_of_values {f : PropertyValue → PropertyValue} (hf : ∀ v : PropertyValue, v.Alike (f v))
    (n : Flow.Node) (x y : Binary64) :
    n.Alike { n with properties := n.properties.map fun _ v => f v, x := x, y := y } := by
  obtain ⟨n', hn'⟩ : ∃ n' : Flow.Node,
    n' = { n with properties := n.properties.map fun _ v => f v, x := x, y := y } := ⟨_, rfl⟩
  have hvalue : ∀ name, n.property? name = none ∧ n'.property? name = none ∨
      ∃ v v', n.property? name = some v ∧ n'.property? name = some v' ∧ v.Alike v' := by
    intro name
    have hget : n'.property? name = (n.property? name).map f :=
      hn' ▸ get?_map n.properties (fun _ v => f v) name
    rw [hget]
    cases n.property? name with
    | none => exact .inl ⟨rfl, rfl⟩
    | some v => exact .inr ⟨v, f v, rfl, rfl, hf v⟩
  rw [← hn']
  refine ⟨hn' ▸ rfl, hn' ▸ rfl, hn' ▸ rfl, fun name => ?_, fun name => ?_, fun name => ?_,
    fun name => ?_⟩
  · obtain ⟨hv, hv'⟩ | ⟨v, v', hv, hv', halike⟩ := hvalue name
    · rw [Flow.Node.text?, Flow.Node.text?, hv, hv']
    · rw [Flow.Node.text?, Flow.Node.text?, hv, hv']
      cases halike <;> rfl
  · obtain ⟨hv, hv'⟩ | ⟨v, v', hv, hv', halike⟩ := hvalue name
    · rw [Flow.Node.bool, Flow.Node.bool?, Flow.Node.bool, Flow.Node.bool?, hv, hv']
    · rw [Flow.Node.bool, Flow.Node.bool?, Flow.Node.bool, Flow.Node.bool?, hv, hv']
      cases halike <;> rfl
  · obtain ⟨hv, hv'⟩ | ⟨v, v', hv, hv', halike⟩ := hvalue name
    · rw [Flow.Node.texts, Flow.Node.texts?, Flow.Node.texts, Flow.Node.texts?, hv, hv']
    · rw [Flow.Node.texts, Flow.Node.texts?, Flow.Node.texts, Flow.Node.texts?, hv, hv']
      cases halike <;> rfl
  · obtain ⟨hv, hv'⟩ | ⟨v, v', hv, hv', halike⟩ := hvalue name
    · rw [Flow.Node.float, Flow.Node.float?, Flow.Node.float, Flow.Node.float?, hv, hv']
      rfl
    · rw [Flow.Node.float, Flow.Node.float?, Flow.Node.float, Flow.Node.float?, hv, hv']
      cases halike with
      | same h =>
        cases v with
        | float x => exact absurd rfl h
        | _ => rfl
      | number => rfl
      | nothing h => exact h.symm

end Nodes

/-! ## Ways of a graph -/

section Graphs

variable {g : FlowGraph}

lemma over_overNodes (f : Flow.Node → Flow.Node) (g : FlowGraph) :
    g.Over f { g with graph := recounted (overNodes f g.graph) } :=
  ⟨rfl, rfl, rfl, rfl⟩

/-- The text of a graph is that of its canvas. -/
theorem textOfCanvas_ofFlow (s : Settings) (h : g.Sound) :
    textOfCanvas s (.ofFlow g) = textOfFlow s g := by
  rw [textOfCanvas, toFlow_ofFlow_sound h]
  exact textOfFlow_alike s (over_overNodes _ g) fun n => alike_of_values alike_written n n.x n.y

lemma toFlow_moved {n : Canvas.Node} {m : Flow.Node} (h : n.toFlow = .ok m) (x y : Binary64) :
    Canvas.Node.toFlow { n with x := x, y := y } = .ok { m with x := x, y := y } := by
  have hvalues : ∀ kind es, Canvas.valuesOf { n with x := x, y := y } kind es =
      Canvas.valuesOf n kind es := by
    intro kind es
    induction es with
    | nil => rfl
    | cons e es ih => rw [Canvas.valuesOf, Canvas.valuesOf, ih]
  rw [Canvas.Node.toFlow] at h ⊢
  cases hkind : NodeKind.ofTag? n.tag with
  | none =>
    rw [hkind] at h
    cases h
  | some kind =>
    rw [hkind] at h
    obtain ⟨_, hsame, h⟩ := exists_of_bind h
    obtain rfl := Except.ok.inj hsame
    obtain ⟨values, hvs, h⟩ := exists_of_bind h
    obtain rfl := Except.ok.inj h
    dsimp only
    change (Canvas.valuesOf _ kind _ >>= _) = _
    rw [hvalues, hvs]
    rfl

/-- It does not matter where the nodes of the canvas stand. -/
lemma textOfCanvas_moved (s : Settings) (h : g.Sound) (x y : Nat → Canvas.Node → Binary64) :
    textOfCanvas s { CanvasGraph.ofFlow g with
      graph := (CanvasGraph.ofFlow g).graph.mapNodes (fun id n => { n with
        x := x id n, y := y id n }) } = textOfFlow s g := by
  let place (n : Canvas.Node) : Canvas.Node := { n with x := x n.id n, y := y n.id n }
  let moved (n : Flow.Node) : Flow.Node :=
    { n.written with x := x n.id (.ofFlow n), y := y n.id (.ofFlow n) }
  have hmoved : FlowGraph.Sound { g with graph := overNodes moved g.graph } :=
    Sound.overNodes h fun _ => rfl
  have hnodes : ((CanvasGraph.ofFlow g).graph.mapNodes
      (fun id n => { n with x := x id n, y := y id n })).nodes.values =
        g.nodes.map fun n => place (.ofFlow n) := by
    rw [ofFlow_eq h]
    change ((overNodes Canvas.Node.ofFlow g.graph).nodes.entries.map _).map _ = _
    rw [entries_overNodes h.own, List.map_map, List.map_map]
    rfl
  rw [textOfCanvas, toFlow_eq (g := { g with graph := overNodes moved g.graph }) hmoved]
  · exact textOfFlow_alike s (over_overNodes moved g) fun n => alike_of_values alike_written n _ _
  · rw [ofFlow_eq h]
  · change List.Forall₂ _ (PortGraph.nodes _).values (overNodes moved g.graph).nodes.values
    rw [hnodes, values_overNodes, FlowGraph.nodes, List.forall₂_map_left_iff, List.forall₂_map_right_iff]
    exact List.forall₂_same.2 fun n _ => toFlow_moved (toFlow_node n) _ _
  · rw [ofFlow_eq h]
    rfl
  · rw [ofFlow_eq h]
  · rw [ofFlow_eq h]

theorem textOfCanvas_arrange (s : Settings) (h : g.Sound) (layout : Placement) :
    textOfCanvas s (CanvasGraph.arrange layout (.ofFlow g)) = textOfFlow s g :=
  textOfCanvas_moved s h _ _

/-- The text of a graph with declared properties is that of the graph that its document gives. -/
theorem textOfFlow_ofJson (s : Settings) (h : g.Sound) (hdeclared : ∀ n ∈ g.nodes, n.Declared)
    (hfinite : ∀ n ∈ g.nodes, n.x.isFinite = true ∧ n.y.isFinite = true)
    (hread : Json.Readable g.document) :
    (FlowGraph.ofJson g.toJson >>= textOfFlow s) = textOfFlow s g := by
  rw [ofJson_toJson h (fun n hn => fitting_of_declared (hdeclared n hn)) hfinite hread]
  exact textOfFlow_alike s (over_overNodes _ g) fun n => alike_of_values alike_plain n n.x n.y

/-- A canvas of a graph comes back from its document as it is. -/
lemma ofJson_toJson_ofFlow (h : g.Sound)
    (hfinite : ∀ n ∈ g.nodes, n.x.isFinite = true ∧ n.y.isFinite = true)
    (hread : Json.Readable (CanvasGraph.ofFlow g).document) :
    CanvasGraph.ofJson (CanvasGraph.ofFlow g).toJson = .ok (.ofFlow g) := by
  have hsound : (CanvasGraph.ofFlow g).Sound := by
    rw [ofFlow_eq h]
    exact Sound.recounted (Sound.overNodes h fun _ => rfl)
  have hsize : (200 : Binary64).isFinite = true ∧ (80 : Binary64).isFinite = true := by
    decide +kernel
  have hplaced : ∀ n ∈ (CanvasGraph.ofFlow g).nodes, n.Placed := by
    rw [ofFlow_eq h]
    change ∀ n ∈ (overNodes Canvas.Node.ofFlow g.graph).nodes.values, n.Placed
    rw [values_overNodes]
    intro n hn
    obtain ⟨m, hm, rfl⟩ := List.mem_map.1 hn
    exact ⟨(hfinite m hm).1, (hfinite m hm).2, hsize.1, hsize.2⟩
  rw [canvas_ofJson_toJson hsound hplaced hread, ofFlow_eq h]
  rfl

theorem textOfCanvas_ofJson (s : Settings) (h : g.Sound)
    (hfinite : ∀ n ∈ g.nodes, n.x.isFinite = true ∧ n.y.isFinite = true)
    (hread : Json.Readable (CanvasGraph.ofFlow g).document) :
    (CanvasGraph.ofJson (CanvasGraph.ofFlow g).toJson >>= textOfCanvas s) = textOfFlow s g := by
  rw [ofJson_toJson_ofFlow h hfinite hread]
  exact textOfCanvas_ofFlow s h

end Graphs

/-! ## Ways of a script -/

/-- If all nodes of the graph of a script stand at finite places and its documents give back the
numbers that they have, every way from the script to its text gives the same text: by the canvas, by a
canvas that was arranged, by the document of the graph, and by the document of the canvas. -/
theorem routes_agree (s : Settings) {source : String} {p : Program} (h : parse source = .ok p)
    (hfinite : ∀ g, flowOfText s source = .ok g →
      ∀ n ∈ g.nodes, n.x.isFinite = true ∧ n.y.isFinite = true)
    (hread : ∀ g, flowOfText s source = .ok g → Json.Readable g.document)
    (hreadCanvas : ∀ canvas, canvasOfText s source = .ok canvas → Json.Readable canvas.document) :
    ∃ text, roundTrip s source = .ok text ∧
      (do textOfCanvas s (← canvasOfText s source)) = .ok text ∧
      (∀ layout, (do textOfCanvas s ((← canvasOfText s source).arrange layout)) = .ok text) ∧
      (do textOfFlow s (← FlowGraph.ofJson (← flowOfText s source).toJson)) = .ok text ∧
      (do textOfCanvas s (← CanvasGraph.ofJson (← canvasOfText s source).toJson)) = .ok text := by
  obtain ⟨g, hlower, hraise⟩ := raise_lower (named_of_parse h) s.placement s.comments
  have hflow : flowOfText s source = .ok g := by
    rw [flowOfText, h]
    exact hlower
  have hcanvas : canvasOfText s source = .ok (.ofFlow g) := by
    rw [canvasOfText, hflow]
    rfl
  obtain ⟨text, htext⟩ : ∃ text, textOfFlow s g = .ok text := by
    rw [textOfFlow, hraise]
    exact ⟨_, rfl⟩
  have hsound : g.Sound := sound_of_reachable (reachable_lower hlower) (ownIds_lower hlower)
  have hdeclared : ∀ n ∈ g.nodes, n.Declared := by
    intro n hn
    obtain ⟨id, hid⟩ := (mem_values_iff _ _).1 hn
    exact declared_lower hlower id n hid
  refine ⟨text, ?_, ?_, fun layout => ?_, ?_, ?_⟩
  · rw [roundTrip, hflow]
    exact htext
  · rw [hcanvas, ok_bind, textOfCanvas_ofFlow s hsound, htext]
  · rw [hcanvas, ok_bind, textOfCanvas_arrange s hsound layout, htext]
  · rw [hflow, ok_bind, textOfFlow_ofJson s hsound hdeclared (hfinite g hflow) (hread g hflow), htext]
  · rw [hcanvas, ok_bind, textOfCanvas_ofJson s hsound (hfinite g hflow) (hreadCanvas _ hcanvas), htext]

/-- A scene with a duration. -/
def waiting : String := "scene s \x7b wait 1.5 \x7d"

theorem waiting_agrees : (∃ p, parse waiting = .ok p) ∧ (∃ g, flowOfText {} waiting = .ok g) ∧
    ∃ text, roundTrip {} waiting = .ok text ∧
      (do textOfCanvas {} (← canvasOfText {} waiting)) = .ok text ∧
      (∀ layout, (do textOfCanvas {} ((← canvasOfText {} waiting).arrange layout)) = .ok text) ∧
      (do textOfFlow {} (← FlowGraph.ofJson (← flowOfText {} waiting).toJson)) = .ok text ∧
      (do textOfCanvas {} (← CanvasGraph.ofJson (← canvasOfText {} waiting).toJson)) = .ok text := by
  have hparse : ∃ p, parse waiting = .ok p := by decide +kernel
  have hflow : ∃ g, flowOfText {} waiting = .ok g := by decide +kernel
  have hfinite : ∀ g, flowOfText {} waiting = .ok g →
      ∀ n ∈ g.nodes, n.x.isFinite = true ∧ n.y.isFinite = true := by decide +kernel
  have hread : ∀ g, flowOfText {} waiting = .ok g → Json.Readable g.document := by decide +kernel
  have hreadCanvas : ∀ canvas, canvasOfText {} waiting = .ok canvas →
      Json.Readable canvas.document := by decide +kernel
  exact ⟨hparse, hflow, hparse.elim fun _ h => routes_agree {} h hfinite hread hreadCanvas⟩

end Novella.Proofs
