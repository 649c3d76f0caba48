import Novella.Canvas.Document
import Novella.Proofs.Canvas.Projection
import Novella.Proofs.Graph.Document

/-!
# A canvas comes back from its document

A document of a canvas says everything that the canvas holds. So a sound canvas with finite places
and sizes is made again as it was, with the counter that its ids ask for (`canvas_ofJson_toJson`).
-/

namespace Novella.Canvas

/-- The place and the size of the node are finite. -/
structure Node.Placed (n : Node) : Prop where
  x : n.x.isFinite = true
  y : n.y.isFinite = true
  width : n.width.isFinite = true
  height : n.height.isFinite = true

/-- Edges and scenes have their nodes, and no two edges or characters are for the same ports or id. -/
def CanvasGraph.Housed (g : CanvasGraph) : Prop := Proofs.Housed g.graph g.scenes g.characters

/-- No node stands under the id of another. -/
def CanvasGraph.OwnIds (g : CanvasGraph) : Prop := Proofs.OwnIds Node.id g.graph

/-- The canvas is housed, and its nodes have their own ids. -/
def CanvasGraph.Sound (g : CanvasGraph) : Prop :=
  Proofs.Sound Node.id g.graph g.scenes g.characters

end Novella.Canvas

namespace Novella.Proofs

open Json Canvas
open Novella.Flow (PropertyKind Character)

section Documents

variable {n : Canvas.Node} {canvas : CanvasGraph}

lemma decodes_kind (kind : PropertyKind) : Decodes decodeKind (.text kind.tag) kind := by
  refine decodes_variant ?_
  cases kind <;> rfl

lemma eq_empty_of_isEmpty {hints : Dict String PropertyKind} (h : hints.isEmpty = true) :
    hints = .empty :=
  dict_ext (List.isEmpty_iff.1 h)

/-- The members that every node has before its hints and its place. -/
lemma fills_canvas_node (hid : n.id < 2 ^ 64) (h : n.Placed) {rest : List (String × Json)}
    {n' : Canvas.Node}
    (others : Fills Canvas.Node.layout { n with hints := .empty, loc := {} } rest n') :
    Fills Canvas.Node.layout {} ([("id", .nat n.id), ("type", .text n.tag), ("title", .text n.title),
      ("x", .float n.x), ("y", .float n.y), ("width", .float n.width), ("height", .float n.height),
      ("collapsed", .bool n.collapsed), ("selected", .bool n.selected),
      ("properties", .record (n.properties.entries.map fun (name, s) => (name, .text s)))] ++ rest)
      n' := by
  have hproperties : Decodes (decodeDict decodeText)
      (.record (n.properties.entries.map fun e => (e.1, .text e.2))) n.properties :=
    decodes_dict fun _ _ => decodes_text _
  exact (decodes_nat hid).fills rfl <| (decodes_text _).fills rfl <| (decodes_text _).fills rfl <|
    (decodes_float h.x).fills rfl <| (decodes_float h.y).fills rfl <|
    (decodes_float h.width).fills rfl <| (decodes_float h.height).fills rfl <|
    (decodes_bool _).fills rfl <| (decodes_bool _).fills rfl <| hproperties.fills rfl others

/-- A node is written with its hints if it has some. -/
lemma decodes_canvas_node (hid : n.id < 2 ^ 64) (h : n.Placed) :
    Decodes Canvas.Node.layout.decode n.toJson n := by
  have hloc : Decodes Script.Location.layout.decode n.loc.toJson n.loc := decodes_location n.loc
  rw [Canvas.Node.toJson, List.append_assoc]
  by_cases hempty : n.hints.isEmpty = true
  · have hsame : { n with hints := .empty } = n := by
      rw [← eq_empty_of_isEmpty hempty]
    rw [if_pos hempty]
    refine decodes_record ?_ (by simp) (by simp [Canvas.Node.layout, Slot.of])
    refine fills_canvas_node hid h (hloc.fills rfl ?_)
    rw [hsame]
    exact .nil
  · have hhints : Decodes (decodeDict decodeKind)
        (.record (n.hints.entries.map fun e => (e.1, .text e.2.tag))) n.hints :=
      decodes_dict (f := fun kind : PropertyKind => .text kind.tag) fun _ _ => decodes_kind _
    rw [if_neg hempty]
    refine decodes_record ?_ (by simp) (by simp [Canvas.Node.layout, Slot.of])
    exact fills_canvas_node hid h (hhints.fills rfl (hloc.fills rfl .nil))

/-- What a document has for a canvas. -/
def entryOfCanvas (canvas : CanvasGraph) : Canvas.GraphEntry :=
  { version := some schemaVersion, name := canvas.name, nodes := canvas.nodes,
    links := canvas.graph.edges.map (Link.ofEdge id), scenes := canvas.scenes,
    characters := canvas.characters }

lemma decodes_canvas (hread : Readable canvas.document) (hplaced : ∀ n ∈ canvas.nodes, n.Placed) :
    Decodes Canvas.GraphEntry.layout.decode canvas.document (entryOfCanvas canvas) := by
  have hnodes : Readable (.list (canvas.nodes.map Canvas.Node.toJson)) :=
    hread.member? "nodes" rfl
  have hnode : Decodes (decodeList Canvas.Node.layout.decode)
      (.list (canvas.nodes.map Canvas.Node.toJson)) (canvas.nodes.map id) := by
    refine decodes_list_map fun n hn => ?_
    have hn' : Readable n.toJson := hnodes.of_list_map hn
    exact decodes_canvas_node ((hn'.member? "id" rfl).nat_lt) (hplaced n hn)
  have hlinks : Readable (.list (canvas.graph.edges.map fun e => (Link.ofEdge id e).toJson)) :=
    hread.member? "edges" rfl
  have hlink : ∀ e ∈ canvas.graph.edges,
      Decodes Link.layout.decode (Link.ofEdge id e).toJson (Link.ofEdge id e) := fun e he =>
    decodes_link (hlinks.of_list_map he)
  have hscenes : Decodes (decodeDict (decodeNat 64)) (scenesJson canvas.scenes) canvas.scenes :=
    decodes_scenes (hread.member? "scenes" rfl)
  have hcharacters := decodes_list_map (d := characterLayout.decode) (g := id)
    (l := canvas.characters) fun c _ => decodes_character _ _ c
  rw [List.map_id] at hnode hcharacters
  refine decodes_record ?_ (by simp) (by simp [Canvas.GraphEntry.layout, Slot.of])
  exact ((decodes_text _).option (present_text _)).fills rfl <| (decodes_text _).fills rfl <|
    hnode.fills rfl <| (decodes_list_map hlink).fills rfl <|
    hscenes.fills rfl <| hcharacters.fills rfl .nil

lemma graph_entryOfCanvas (h : canvas.Sound) :
    (entryOfCanvas canvas).graph = .ok { canvas with graph := recounted canvas.graph } := by
  rw [Canvas.GraphEntry.graph, show (entryOfCanvas canvas).version = some schemaVersion from rfl,
    checkVersion_current]
  refine assembled (CanvasGraph.mk canvas.name) h.toHoused ?_ ?_ ?_ ?_
  · rw [entries_eq_values h.own, List.forall₂_map_right_iff]
    refine List.forall₂_same.2 fun n _ c c' hc => ?_
    rw [canvas_insert? hc]
  · rw [show (entryOfCanvas canvas).links = canvas.graph.edges.map (Link.ofEdge id) from rfl,
      List.forall₂_map_left_iff]
    refine List.forall₂_same.2 fun e he c c' hc => ?_
    have hjoined := h.stored.wired.joined e he
    rw [source_ofEdge hjoined.output, target_ofEdge hjoined.input,
      show (Link.ofEdge id e).label = e.data from rfl, CanvasGraph.connect, hc]
    rfl
  · rintro c d ⟨scene, start⟩ hstart
    dsimp only
    rw [CanvasGraph.addScene, if_pos hstart]
    rfl
  · exact fun _ _ _ _ => rfl

/-- A sound canvas comes back from its document. -/
theorem canvas_ofJson_toJson (h : canvas.Sound) (hplaced : ∀ n ∈ canvas.nodes, n.Placed)
    (hread : Readable canvas.document) :
    CanvasGraph.ofJson canvas.toJson = .ok { canvas with graph := recounted canvas.graph } := by
  rw [CanvasGraph.ofJson, CanvasGraph.toJson, readDocument_pretty (decodes_canvas hread hplaced) hread]
  exact graph_entryOfCanvas h

end Documents

end Novella.Proofs
