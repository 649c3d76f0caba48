import Novella.Proofs.Canvas.Projection

/-!
# Editing a property on the canvas

An editor changes the text of one property of a node that is shown on the canvas, and the graph is
typed again. Then the property has the value that the text stands for where its declared kind says how
to read it (`editedValue`), whatever kind of value it had before, and nothing else has changed
(`toFlow_setProperty`): the hint of the property went with its old text, and all other properties of
all nodes keep the hints that their texts need. If the text stands for no value, it is what typing
refuses.
-/

namespace Novella.Canvas

open Novella.Flow (NodeKind PropertyKind PropertyValue)

/-- The value that an edited text stands for at a node of a kind. Where a truth value or a number is
declared, an empty text stands for no value. -/
def editedValue (kind : NodeKind) (name text : String) : Except TextIssue PropertyValue :=
  if text = "" ∧ (impliedKind kind name = .bool ∨ impliedKind kind name = .float) then .ok .null
  else PropertyValue.parse (impliedKind kind name) text

/-- The node with another text for a property, and no hint for it. -/
def Node.edit (n : Node) (name text : String) : Node :=
  { n with properties := n.properties.insert name text, hints := n.hints.erase name }

end Novella.Canvas

namespace Novella.Proofs

open Novella.Flow Canvas
open Novella.Flow.FlowGraph (Reachable)

/-! ## Values -/

section Values

variable {kind : NodeKind} {name text : String}

/-- No property is declared to be a whole number. -/
lemma propertyKind?_ne_int (kind : NodeKind) (name : String) :
    kind.propertyKind? name ≠ some .int := by
  have hschema : ∀ e ∈ kind.schema, e.2 ≠ .int := by
    cases kind <;> decide
  intro h
  obtain ⟨before, after, heq, -⟩ := List.lookup_eq_some_iff.1 h
  exact hschema _ (heq ▸ List.mem_append_right _ List.mem_cons_self) rfl

/-- A text without a hint is read as an edited one. -/
lemma valueOf_none (kind : NodeKind) (name text : String) :
    valueOf none (kind.propertyKind? name) text = editedValue kind name text := by
  cases hdeclared : kind.propertyKind? name with
  | none => simp [valueOf, editedValue, impliedKind, hdeclared, PropertyValue.parse]
  | some declared =>
    have hint : declared ≠ .int := fun h => propertyKind?_ne_int kind name (hdeclared.trans (h ▸ rfl))
    simp [valueOf, editedValue, impliedKind, hdeclared, hint]

/-- The texts of a node stand for values if each of them does. -/
lemma valuesOf_eq_ok {n : Canvas.Node} {es : List (String × String)} {value : String → PropertyValue}
    (h : ∀ e ∈ es, valueOf (n.hints.get? e.1) (kind.propertyKind? e.1) e.2 = .ok (value e.1)) :
    valuesOf n kind es = .ok (es.map fun e => (e.1, value e.1)) := by
  induction es with
  | nil => rfl
  | cons e es ih =>
    obtain ⟨he, hes⟩ := List.forall_mem_cons.1 h
    rw [valuesOf, he, ih hes]
    rfl

/-- If all texts but one stand for values, it is the one that is refused. -/
lemma valuesOf_eq_error {n : Canvas.Node} {es : List (String × String)} {value : String → PropertyValue}
    {issue : TextIssue}
    (h : ∀ e ∈ es, valueOf (n.hints.get? e.1) (kind.propertyKind? e.1) e.2 =
      if e.1 = name then .error issue else .ok (value e.1)) (hname : name ∈ es.map (·.1)) :
    valuesOf n kind es = .error (.badProperty n.id name (.badText issue)) := by
  induction es with
  | nil => cases hname
  | cons e es ih =>
    obtain ⟨he, hes⟩ := List.forall_mem_cons.1 h
    by_cases heq : e.1 = name
    · rw [if_pos heq] at he
      rw [valuesOf, he, heq]
      rfl
    · rw [if_neg heq] at he
      have hrest := ih hes ((List.mem_cons.1 hname).resolve_left fun h => heq h.symm)
      rw [valuesOf, he, hrest]
      rfl

end Values

/-! ## Nodes -/

section Nodes

variable {n : Flow.Node} {name text : String}

/-- The new text of an edited node is read as its kind has it, and all others stand for the values
that they are the texts of. -/
lemma valueOf_edit (hfinite : n.Finite) {e : String × String}
    (he : e ∈ ((Canvas.Node.ofFlow n).edit name text).properties.entries) :
    valueOf (((Canvas.Node.ofFlow n).edit name text).hints.get? e.1) (n.kind.propertyKind? e.1) e.2 =
      if e.1 = name then editedValue n.kind name text
      else .ok ((n.properties.get? e.1).getD .null) := by
  have hget : ((n.properties.map fun _ v => v.render).insert name text).get? e.1 = some e.2 :=
    (mem_entries_iff _ e.1 e.2).1 he
  change valueOf (((hintsOf n.kind n.properties).erase name).get? e.1) _ _ = _
  rw [get?_insert, get?_map] at hget
  split at hget
  · next heq =>
    have hhint : ((hintsOf n.kind n.properties).erase name).get? e.1 = none :=
      Option.eq_none_iff_forall_ne_some.2 fun kind hkind => ((get?_erase_iff _ _ _ _).1 hkind).2 heq
    rw [if_pos heq, hhint, ← Option.some.inj hget, heq, valueOf_none]
  · next hne =>
    obtain ⟨v, hv, hrender⟩ := Option.map_eq_some_iff.1 hget
    have hhint : ((hintsOf n.kind n.properties).erase name).get? e.1 =
        if v.kind ≠ impliedKind n.kind e.1 then some v.kind else none := by
      rw [← get?_hintsOf n.kind hv]
      exact Option.ext fun kind => (get?_erase_iff _ _ _ _).trans (and_iff_left hne)
    have hwritten := written_of_finite_value (hfinite v ((mem_values_iff _ v).2 ⟨e.1, hv⟩))
    rw [if_neg hne, hhint, ← hrender, valueOf_render, hwritten, hv, Option.getD_some]

/-- A node whose property was edited is typed with the value of the new text, or its text is
refused. -/
theorem toFlow_edit (hfinite : n.Finite) (name text : String) :
    ((Canvas.Node.ofFlow n).edit name text).toFlow =
      match editedValue n.kind name text with
      | .ok v => .ok (n.set name v)
      | .error issue => .error (.badProperty n.id name (.badText issue)) := by
  have hkind : NodeKind.ofTag? ((Canvas.Node.ofFlow n).edit name text).tag = some n.kind :=
    NodeKind.ofTag?_tag n.kind
  rw [Canvas.Node.toFlow, hkind]
  change (valuesOf _ n.kind _ >>= _) = _
  cases hvalue : editedValue n.kind name text with
  | error issue =>
    have hname : name ∈ ((Canvas.Node.ofFlow n).edit name text).properties.entries.map (·.1) :=
      (mem_keys_iff _ _).2 ⟨text, by rw [Canvas.Node.edit, get?_insert, if_pos rfl]⟩
    let value : String → PropertyValue := fun key => (n.properties.get? key).getD .null
    have hread : ∀ e ∈ ((Canvas.Node.ofFlow n).edit name text).properties.entries,
        valueOf (((Canvas.Node.ofFlow n).edit name text).hints.get? e.1) (n.kind.propertyKind? e.1)
          e.2 = if e.1 = name then .error issue else .ok (value e.1) :=
      fun e he => by rw [valueOf_edit hfinite he, hvalue]
    rw [valuesOf_eq_error hread hname]
    rfl
  | ok v =>
    let value : String → PropertyValue := fun key =>
      if key = name then v else (n.properties.get? key).getD .null
    have hread : ∀ e ∈ ((Canvas.Node.ofFlow n).edit name text).properties.entries,
        valueOf (((Canvas.Node.ofFlow n).edit name text).hints.get? e.1) (n.kind.propertyKind? e.1)
          e.2 = .ok (value e.1) := fun e he => by
      rw [valueOf_edit hfinite he, hvalue, ← apply_ite Except.ok]
    have hproperties : Dict.ofList (((Canvas.Node.ofFlow n).edit name text).properties.map
        fun key _ => value key).entries = (n.set name v).properties := by
      rw [ofList_entries]
      refine dict_ext_get? fun key => ?_
      rw [get?_map, Canvas.Node.edit, Flow.Node.set, get?_insert, get?_insert, Canvas.Node.ofFlow,
        get?_map]
      by_cases heq : key = name
      · simp [value, heq]
      · cases hkey : n.properties.get? key <;> simp [value, heq, hkey]
    rw [valuesOf_eq_ok hread]
    exact congrArg (fun properties => Except.ok { n with properties }) hproperties

end Nodes

/-! ## Graphs -/

section Graphs

variable {g : FlowGraph} {id : Nat} {n : Flow.Node}

/-- Editing succeeds at a node that is there. -/
lemma setProperty_eq (h : g.Sound) (hn : g.node? id = some n) (name text : String) :
    (CanvasGraph.ofFlow g).setProperty id name text = .ok { CanvasGraph.ofFlow g with
      graph := (CanvasGraph.ofFlow g).graph.modify id fun n => n.edit name text } := by
  have hlive : (CanvasGraph.ofFlow g).graph.contains id = true := by
    rw [ofFlow_eq h]
    exact (contains_overNodes _ _ id).trans ((contains_iff_node? id).2 ⟨n, hn⟩)
  rw [CanvasGraph.setProperty, CanvasGraph.modify, if_pos hlive]
  rfl

/-- The nodes of an edited canvas, in order. -/
lemma nodes_edited (h : g.Sound) (id : Nat) (name text : String) :
    ((CanvasGraph.ofFlow g).graph.modify id fun n => n.edit name text).nodes.values =
      g.graph.nodes.entries.map fun e =>
        if e.1 = id then (Canvas.Node.ofFlow e.2).edit name text else .ofFlow e.2 := by
  rw [ofFlow_eq h, PortGraph.modify, values_modify]
  exact List.map_map

/-- A canvas whose edited text stands for a value is typed as the graph with this value. -/
lemma toFlow_edited (h : g.Sound) (hfinite : ∀ n ∈ g.nodes, n.Finite) (hn : g.node? id = some n)
    {name text : String} {v : PropertyValue} (hvalue : editedValue n.kind name text = .ok v) :
    ({ CanvasGraph.ofFlow g with
        graph := (CanvasGraph.ofFlow g).graph.modify id fun n => n.edit name text } :
      CanvasGraph).toFlow =
      .ok { g with graph := recounted (g.graph.modify id fun n => n.set name v) } := by
  have hsound : FlowGraph.Sound { g with graph := g.graph.modify id fun n => n.set name v } :=
    ⟨h.toHoused.modify id _, h.own.modify id fun _ => rfl⟩
  have hshown := ofFlow_eq h
  refine toFlow_eq hsound (congrArg CanvasGraph.name hshown) ?_
    (congrArg (fun canvas : CanvasGraph => canvas.graph.edges) hshown)
    (congrArg CanvasGraph.scenes hshown) (congrArg CanvasGraph.characters hshown)
  change List.Forall₂ _ (PortGraph.modify _ id _).nodes.values (g.graph.modify id _).nodes.values
  rw [nodes_edited h, PortGraph.modify, values_modify, List.forall₂_map_left_iff,
    List.forall₂_map_right_iff]
  refine List.forall₂_same.2 fun e he => ?_
  have hfinite' : e.2.Finite := hfinite e.2 (List.mem_map_of_mem he)
  split
  · next heq =>
    obtain rfl : n = e.2 := Option.some.inj
      (hn.symm.trans (heq ▸ (mem_entries_iff g.graph.nodes e.1 e.2).1 he))
    rw [toFlow_edit hfinite', hvalue]
  · rw [toFlow_node, written_of_finite_node hfinite']

/-- A canvas whose edited text stands for no value is refused for it. -/
lemma toFlow_edited_error (h : g.Sound) (hfinite : ∀ n ∈ g.nodes, n.Finite)
    (hn : g.node? id = some n) {name text : String} {issue : TextIssue}
    (hvalue : editedValue n.kind name text = .error issue) :
    ({ CanvasGraph.ofFlow g with
        graph := (CanvasGraph.ofFlow g).graph.modify id fun n => n.edit name text } :
      CanvasGraph).toFlow = .error (.badProperty id name (.badText issue)) := by
  have hmem : (id, n) ∈ g.graph.nodes.entries := (mem_entries_iff g.graph.nodes id n).2 hn
  obtain ⟨before, after, hsplit⟩ := List.append_of_mem hmem
  have hbefore : ∀ e ∈ before, e.1 ≠ id := by
    intro e he heq
    have hsorted := g.graph.nodes.sorted
    rw [hsplit] at hsorted
    have hlt := (List.pairwise_append.1 hsorted).2.2 e he _ List.mem_cons_self
    rw [heq, Std.ReflOrd.compare_self] at hlt
    cases hlt
  -- Typed without the edit, the nodes before the edited one are accepted.
  obtain ⟨_, hnodes, -⟩ := exists_of_bind (toFlow_ofFlow_sound h)
  have hshown : (CanvasGraph.ofFlow g).nodes =
      before.map (fun e => .ofFlow e.2) ++ .ofFlow n :: after.map fun e => .ofFlow e.2 := by
    rw [ofFlow_eq h]
    change (overNodes Canvas.Node.ofFlow g.graph).nodes.values = _
    rw [values_overNodes, Dict.values, hsplit]
    simp [Function.comp_def]
  rw [hshown] at hnodes
  have hedited : ((CanvasGraph.ofFlow g).graph.modify id fun n => n.edit name text).nodes.values =
      before.map (fun e => .ofFlow e.2) ++ (Canvas.Node.ofFlow n).edit name text ::
        after.map fun e => if e.1 = id then (Canvas.Node.ofFlow e.2).edit name text else .ofFlow e.2 := by
    rw [nodes_edited h, hsplit, List.map_append, List.map_cons, if_pos rfl]
    exact congrArg (· ++ _) (List.map_congr_left fun e he => if_neg (hbefore e he))
  have hid : n.id = id := h.own id n hn
  rw [CanvasGraph.toFlow, CanvasGraph.nodes, hedited]
  rw [foldlM_eq_error hnodes fun flow => ?_]
  · rfl
  · rw [toFlow_edit (hfinite n (List.mem_map_of_mem hmem)), hvalue, hid]
    rfl

/-- Where the nodes have their own ids, an edit of a property on the canvas sets the property of the
node to the value that the text stands for, whatever it was, and changes nothing else but the counter,
which is the one that the ids ask for. A text that stands for no value is refused under the names of the
node and the property. -/
theorem toFlow_setProperty (h : g.Reachable) (hown : g.OwnIds) (hfinite : ∀ n ∈ g.nodes, n.Finite)
    (hn : g.node? id = some n) (name text : String) :
    ∃ canvas, (CanvasGraph.ofFlow g).setProperty id name text = .ok canvas ∧
      canvas.toFlow = match editedValue n.kind name text with
        | .ok v => .ok { g with graph := recounted (g.graph.modify id fun n => n.set name v) }
        | .error issue => .error (.badProperty id name (.badText issue)) := by
  have hsound := sound_of_reachable h hown
  refine ⟨_, setProperty_eq hsound hn name text, ?_⟩
  cases hvalue : editedValue n.kind name text with
  | ok v => exact toFlow_edited hsound hfinite hn hvalue
  | error issue => exact toFlow_edited_error hsound hfinite hn hvalue

/-- A duration that is a text, beside a property that is not declared. -/
def hesitant : FlowGraph :=
  (({ name := "hesitant" } : FlowGraph).create .wait).2.modify 1 fun n =>
    n.setAll [("duration", .text "long"), ("mood", .bool true)]

theorem hesitant_edited : hesitant.Reachable ∧ hesitant.OwnIds ∧ (∀ n ∈ hesitant.nodes, n.Finite) ∧
    ∃ n, hesitant.node? 1 = some n ∧
      (∃ canvas, (CanvasGraph.ofFlow hesitant).setProperty 1 "duration" " 2.5" = .ok canvas ∧
        canvas.toFlow = .ok { hesitant with
          graph := recounted (hesitant.graph.modify 1 fun n =>
            n.set "duration" (.float ⟨0x4004000000000000⟩)) }) ∧
      (∃ canvas, (CanvasGraph.ofFlow hesitant).setProperty 1 "duration" "" = .ok canvas ∧
        canvas.toFlow = .ok { hesitant with
          graph := recounted (hesitant.graph.modify 1 fun n => n.set "duration" .null) }) ∧
      (∃ canvas, (CanvasGraph.ofFlow hesitant).setProperty 1 "mood" "false" = .ok canvas ∧
        canvas.toFlow = .ok { hesitant with
          graph := recounted (hesitant.graph.modify 1 fun n => n.set "mood" (.text "false")) }) ∧
      ∃ canvas issue, (CanvasGraph.ofFlow hesitant).setProperty 1 "duration" "soon" = .ok canvas ∧
        canvas.toFlow = .error (.badProperty 1 "duration" (.badText issue)) := by
  have hreach : hesitant.Reachable := .edited 1 _ (.created .wait (.empty _))
  have hown : hesitant.OwnIds := by decide
  have hfinite : ∀ n ∈ hesitant.nodes, n.Finite := by decide
  obtain ⟨n, hn, hkind⟩ : ∃ n, hesitant.node? 1 = some n ∧ n.kind = .wait := ⟨_, rfl, rfl⟩
  have hnumber : Binary64.read (Text.trimChars " 2.5".toList) = .ok ⟨0x4004000000000000⟩ := by
    decide +kernel
  have hread : editedValue .wait "duration" " 2.5" = .ok (.float ⟨0x4004000000000000⟩) := by
    change ((Binary64.read (Text.trimChars " 2.5".toList)).map _).mapError TextIssue.notFloat = _
    rw [hnumber]
    rfl
  have hrefused : ∃ issue, editedValue .wait "duration" "soon" = .error issue := ⟨_, rfl⟩
  obtain ⟨issue, hissue⟩ := hrefused
  have hedit := toFlow_setProperty hreach hown hfinite hn
  simp only [hkind] at hedit
  refine ⟨hreach, hown, hfinite, n, hn, ?_, hedit "duration" "", hedit "mood" "false", ?_⟩
  · obtain ⟨canvas, hset, hflow⟩ := hedit "duration" " 2.5"
    rw [hread] at hflow
    exact ⟨canvas, hset, hflow⟩
  · obtain ⟨canvas, hset, hflow⟩ := hedit "duration" "soon"
    rw [hissue] at hflow
    exact ⟨canvas, issue, hset, hflow⟩

/-- The overwritten node cannot be edited under the id under which it stands. -/
theorem overwritten_not_edited : overwritten.Reachable ∧ (∀ n ∈ overwritten.nodes, n.Finite) ∧
    (∃ n, overwritten.node? 1 = some n) ∧
    (CanvasGraph.ofFlow overwritten).setProperty 1 "scene" "s" = .error (.unknownNode 1) :=
  ⟨reachable_overwritten, by decide, ⟨_, rfl⟩, rfl⟩

end Graphs

end Novella.Proofs
