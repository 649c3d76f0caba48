import Novella.Graph.Document
import Novella.Proofs.Graph.Store
import Novella.Proofs.Json.Decoding

/-!
# What documents of graphs share

The connections, places and scene tables of a document come back from their values, and the
connections of a sound graph have the ports that they had.
-/

namespace Novella.Proofs

open Json
open Novella.Flow (Character)

/-! ## Connections -/

section Links

variable {ε : Type} {label : ε → String} {e : Edge ε}

lemma decodes_link {l : Link} (h : Readable l.toJson) : Decodes Link.layout.decode l.toJson l := by
  have hsource : l.sourceNode < 2 ^ 64 := (h.member? "sourceNode" rfl).nat_lt
  have htarget : l.targetNode < 2 ^ 64 := (h.member? "targetNode" rfl).nat_lt
  refine decodes_record ?_ (by simp) (by simp [Link.layout, Slot.of])
  exact (decodes_nat hsource).fills rfl <| (decodes_text _).fills rfl <|
    (decodes_nat htarget).fills rfl <| (decodes_text _).fills rfl <| (decodes_text _).fills rfl .nil

/-- A connection that is written with its two ports names them both. -/
lemma source_ofEdge (h : e.source.isOutput = true) : (Link.ofEdge label e).source = e.source := by
  rw [Link.source, Port.output, ← h]
  rfl

lemma target_ofEdge (h : e.target.isOutput = false) : (Link.ofEdge label e).target = e.target := by
  rw [Link.target, Port.input, ← h]
  rfl

lemma readable_links {edges : List (Edge ε)}
    (h : ∀ e ∈ edges, e.source.node < 2 ^ 64 ∧ e.target.node < 2 ^ 64) :
    Readable (.list (edges.map fun e => (Link.ofEdge label e).toJson)) := by
  refine .list fun v hv => ?_
  obtain ⟨e, he, rfl⟩ := List.mem_map.1 hv
  obtain ⟨hsource, htarget⟩ := h e he
  refine .record fun m hm => ?_
  simp only [List.mem_cons, List.not_mem_nil, or_false] at hm
  rcases hm with rfl | rfl | rfl | rfl | rfl
  · exact readable_nat hsource
  · exact .text
  · exact readable_nat htarget
  · exact .text
  · exact .text

end Links

/-! ## Places and tables -/

lemma decodes_location (loc : Script.Location) :
    Decodes Script.Location.layout.decode loc.toJson loc := by
  refine decodes_record ?_ (by simp) (by simp [Script.Location.layout, Slot.of])
  have hline : loc.line.toNat < 2 ^ 32 := loc.line.toNat_lt
  have hcolumn : loc.column.toNat < 2 ^ 32 := loc.column.toNat_lt
  refine (decodes_nat hline).fills rfl <| (decodes_nat hcolumn).fills rfl ?_
  simp only [UInt32.ofNat_toNat]
  exact .nil

lemma decodes_scenes {scenes : Dict String Nat} (h : Readable (scenesJson scenes)) :
    Decodes (decodeDict (decodeNat 64)) (scenesJson scenes) scenes :=
  decodes_dict fun e he => decodes_nat ((h.member e.1 (List.mem_map_of_mem he)).nat_lt)

lemma decodes_text? (s : Option String) : Decodes (decodeOption decodeText) (Json.text? s) s := by
  cases s with
  | none => exact decodes_none _
  | some s => exact (decodes_text s).option (present_text s)

/-- A character comes back, whether or not its color may be missing. -/
lemma decodes_character (name : String) (presence : Presence) (c : Character) :
    Decodes (Layout.mk name (⟨"", "", none⟩ : Character) [
      .of "id" .required decodeText fun c v => { c with id := v },
      .of "displayName" .required decodeText fun c v => { c with displayName := v },
      .of "color" presence (decodeOption decodeText) fun c v => { c with color := v }]).decode
      (.record [("id", .text c.id), ("displayName", .text c.displayName),
        ("color", Json.text? c.color)]) c := by
  refine decodes_record ?_ (by simp) (by simp [Slot.of])
  exact (decodes_text _).fills rfl <| (decodes_text _).fills rfl <| (decodes_text? _).fills rfl .nil

lemma checkVersion_current : checkVersion (some schemaVersion) = .ok () := by
  rw [checkVersion, if_pos rfl]

/-- What a document was written for is found in its text. -/
lemma readDocument_pretty {α : Type} {d : Decoder α} {v : Json} {a : α} (h : Decodes d v a)
    (hv : Readable v) : readDocument d v.pretty = .ok a := by
  rw [readDocument, h.pretty hv]
  rfl

end Novella.Proofs
