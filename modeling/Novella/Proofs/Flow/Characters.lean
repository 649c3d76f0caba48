import Mathlib.Data.List.Induction
import Mathlib.Data.List.Nodup
import Novella.Flow.Lowering
import Novella.Proofs.Graph.Store
import Novella.Proofs.Script.Layout

/-!
# Characters merged by their ids

A graph keeps one character for each id. Putting the declarations of a script into it one after
the other leaves each id at the place of its first declaration, with the data of its last.
-/

namespace Novella.Script

/-- The last declaration of a character. -/
def lastDeclared? (characters : List CharacterDecl) (id : String) : Option CharacterDecl :=
  (characters.reverse.find? (·.id = id)).map CharacterDecl.unplaced

/-- The last declaration of each character, in the order of the first ones. -/
def mergedCharacters (characters : List CharacterDecl) : List CharacterDecl :=
  (characters.map (·.id)).eraseDups.filterMap (lastDeclared? characters)

end Novella.Script

namespace Novella.Proofs

open Script Novella.Flow

/-- Characters after those of a list, of which each takes the place of the one with its id. -/
def putAll (characters : List CharacterDecl) (merged : List Character) : List Character :=
  characters.foldl (fun merged c => putCharacter ⟨c.id, c.displayName, c.color⟩ merged) merged

lemma foldl_addCharacter (characters : List CharacterDecl) (g : FlowGraph) :
    characters.foldl (fun (g : FlowGraph) c => g.addCharacter ⟨c.id, c.displayName, c.color⟩) g =
      { g with characters := putAll characters g.characters } := by
  induction characters generalizing g with
  | nil => rfl
  | cons c characters ih =>
    rw [List.foldl_cons, ih]
    rfl

lemma mem_putCharacter {c d : Character} {merged : List Character}
    (hnodup : (merged.map (·.id)).Nodup) (h : d ∈ putCharacter c merged) :
    d = c ∨ d ∈ merged ∧ d.id ≠ c.id := by
  induction merged with
  | nil => exact .inl (List.mem_singleton.1 h)
  | cons b merged ih =>
    obtain ⟨hb, hrest⟩ := List.nodup_cons.1 hnodup
    rw [putCharacter] at h
    split at h
    · next hbc =>
      rcases List.mem_cons.1 h with rfl | hd
      · exact .inl rfl
      · refine .inr ⟨List.mem_cons_of_mem _ hd, fun hdc => hb ?_⟩
        exact List.mem_map.2 ⟨d, hd, hdc.trans hbc.symm⟩
    · next hbc =>
      rcases List.mem_cons.1 h with rfl | hd
      · exact .inr ⟨List.mem_cons_self, hbc⟩
      · rcases ih hrest hd with rfl | ⟨hd, hdc⟩
        · exact .inl rfl
        · exact .inr ⟨List.mem_cons_of_mem _ hd, hdc⟩

/-- A character as a declaration that stands nowhere. -/
def declared (c : Character) : CharacterDecl :=
  { id := c.id, displayName := c.displayName, color := c.color }

lemma lastDeclared?_concat (characters : List CharacterDecl) (c : CharacterDecl) (id : String) :
    lastDeclared? (characters ++ [c]) id =
      if id = c.id then some c.unplaced else lastDeclared? characters id := by
  rw [lastDeclared?, lastDeclared?, List.reverse_append, List.reverse_singleton,
    List.singleton_append, List.find?_cons]
  by_cases h : id = c.id
  · simp [h]
  · have hne : ¬c.id = id := Ne.symm h
    simp [h, hne]

lemma putAll_concat (characters : List CharacterDecl) (c : CharacterDecl) :
    putAll (characters ++ [c]) [] =
      putCharacter ⟨c.id, c.displayName, c.color⟩ (putAll characters []) := by
  rw [putAll, putAll, List.foldl_append]
  rfl

lemma eraseDups_concat (ids : List String) (id : String) :
    (ids ++ [id]).eraseDups = if id ∈ ids then ids.eraseDups else ids.eraseDups ++ [id] := by
  rw [List.eraseDups_append, List.removeAll]
  by_cases h : id ∈ ids
  · simp [List.filter, h]
  · simp [List.filter, h, List.eraseDups_cons]

/-- Putting characters into a list leaves one with each id, that of the last declaration. -/
lemma putAll_spec (characters : List CharacterDecl) :
    (putAll characters []).map (·.id) = (characters.map (·.id)).eraseDups ∧
      ((putAll characters []).map (·.id)).Nodup ∧
      ∀ d ∈ putAll characters [], lastDeclared? characters d.id = some (declared d) := by
  induction characters using List.reverseRecOn with
  | nil => exact ⟨rfl, List.nodup_nil, fun _ h => absurd h List.not_mem_nil⟩
  | append_singleton characters c ih =>
    obtain ⟨hids, hnodup, hlast⟩ := ih
    have hids' := ids_putCharacter ⟨c.id, c.displayName, c.color⟩ (putAll characters [])
    rw [← putAll_concat] at hids'
    refine ⟨?_, ?_, fun d hd => ?_⟩
    · rw [hids', hids, List.map_append, List.map_singleton, eraseDups_concat]
      simp only [List.mem_eraseDups]
    · rw [putAll_concat]
      exact nodup_putCharacter _ hnodup
    · rw [putAll_concat] at hd
      rw [lastDeclared?_concat]
      rcases mem_putCharacter hnodup hd with rfl | ⟨hd, hne⟩
      · rw [if_pos rfl]
        rfl
      · rw [if_neg hne]
        exact hlast d hd

lemma map_declared_putAll (characters : List CharacterDecl) :
    (putAll characters []).map declared = mergedCharacters characters := by
  obtain ⟨hids, -, hlast⟩ := putAll_spec characters
  rw [mergedCharacters, ← hids, List.filterMap_map, ← List.filterMap_eq_map]
  exact List.filterMap_congr fun d hd => (hlast d hd).symm

/-- Merged characters stand nowhere. -/
lemma unplaced_mergedCharacters (characters : List CharacterDecl) :
    (mergedCharacters characters).map CharacterDecl.unplaced = mergedCharacters characters := by
  rw [← map_declared_putAll, List.map_map]
  rfl

lemma nodup_mergedCharacters (characters : List CharacterDecl) :
    ((mergedCharacters characters).map (·.id)).Nodup := by
  rw [← map_declared_putAll, List.map_map]
  exact (putAll_spec characters).2.1

/-! ## Characters declared once -/

/-- A list of ids loses none exactly if it repeats none. -/
lemma length_eraseDups_eq_iff (ids : List String) :
    ids.eraseDups.length = ids.length ↔ ids.Nodup := by
  have hle : ∀ ids : List String, ids.eraseDups.length ≤ ids.length := by
    intro ids
    induction ids using List.reverseRecOn with
    | nil => exact Nat.le_refl 0
    | append_singleton ids id ih =>
      rw [eraseDups_concat, List.length_append]
      split
      · exact ih.trans (Nat.le_add_right _ _)
      · rw [List.length_append]
        exact Nat.add_le_add_right ih _
  induction ids using List.reverseRecOn with
  | nil => exact ⟨fun _ => List.nodup_nil, fun _ => rfl⟩
  | append_singleton ids id ih =>
    have hnodup : (ids ++ [id]).Nodup ↔ id ∉ ids ∧ ids.Nodup := by
      rw [List.nodup_append_comm, List.singleton_append, List.nodup_cons]
    rw [hnodup, eraseDups_concat, List.length_append, List.length_singleton]
    by_cases h : id ∈ ids
    · have := hle ids
      simp only [h, if_true, not_true_eq_false, false_and, iff_false]
      omega
    · simp [h, ih]

lemma eraseDups_of_nodup {ids : List String} (h : ids.Nodup) : ids.eraseDups = ids := by
  induction ids using List.reverseRecOn with
  | nil => rfl
  | append_singleton ids id ih =>
    obtain ⟨hids, -, hid⟩ := List.nodup_append.1 h
    have hnew : id ∉ ids := fun hmem => hid id hmem id (List.mem_singleton_self id) rfl
    rw [eraseDups_concat, if_neg hnew, ih hids]

lemma length_mergedCharacters (characters : List CharacterDecl) :
    (mergedCharacters characters).length = (characters.map (·.id)).eraseDups.length := by
  rw [← map_declared_putAll, List.length_map, ← (putAll_spec characters).1, List.length_map]

lemma lastDeclared?_of_nodup {characters : List CharacterDecl}
    (h : (characters.map (·.id)).Nodup) {c : CharacterDecl} (hc : c ∈ characters) :
    lastDeclared? characters c.id = some c.unplaced := by
  induction characters using List.reverseRecOn with
  | nil => cases hc
  | append_singleton characters d ih =>
    rw [List.map_append, List.nodup_append] at h
    obtain ⟨hids, -, hid⟩ := h
    rw [lastDeclared?_concat]
    rcases List.mem_append.1 hc with hc | hc
    · have hne : c.id ≠ d.id := hid c.id (List.mem_map_of_mem hc) d.id List.mem_cons_self
      rw [if_neg hne]
      exact ih hids hc
    · rw [List.mem_singleton.1 hc, if_pos rfl]

/-- Characters that are declared once stay as they are. -/
lemma mergedCharacters_of_nodup {characters : List CharacterDecl}
    (h : (characters.map (·.id)).Nodup) :
    mergedCharacters characters = characters.map CharacterDecl.unplaced := by
  rw [mergedCharacters, eraseDups_of_nodup h, List.filterMap_map, ← List.filterMap_eq_map]
  exact List.filterMap_congr fun c hc => lastDeclared?_of_nodup h hc

end Novella.Proofs
