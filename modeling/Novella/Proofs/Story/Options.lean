import Mathlib.Data.List.Perm.Subperm
import Mathlib.Order.Bounds.Basic
import Novella.Proofs.Flow.Chains
import Novella.Proofs.Graph.Store
import Novella.Story.Graph

/-!
# Further options of a choice

A choice can always be given a further option. Of the names `option_0`, `option_1`, … one more is tried
than the node has outputs, and no two of them are the same, so one of them is free; the option takes the
first that is. Nothing else in the story changes (`addOption_takes_least`).
-/

namespace Novella.Story

/-- No output of the node has the name of the option with the number. -/
def Node.FreeAt (n : Node) (k : Nat) : Prop := ∀ p ∈ n.outputs, p.name ≠ Flow.optionPort k

instance (n : Node) (k : Nat) : Decidable (n.FreeAt k) :=
  inferInstanceAs (Decidable (∀ p ∈ n.outputs, p.name ≠ Flow.optionPort k))

/-- The node with a further option at the end of its outputs. -/
def Node.withOption (n : Node) (k : Nat) (text : String) : Node :=
  { n with outputs := n.outputs ++ [⟨Flow.optionPort k, .flow, text⟩] }

end Novella.Story

namespace Novella.Proofs

open Story Story.StoryGraph
open Novella.Flow (optionPort)

/-! ## Free numbers -/

section Numbers

variable {n : Story.Node}

lemma output?_eq_none_iff {k : Nat} : n.output? (optionPort k) = none ↔ n.FreeAt k := by
  simp [Story.Node.output?, Story.Node.FreeAt]

/-- There are more names than outputs, so a name is left over. -/
lemma exists_freeAt (n : Story.Node) : ∃ k ∈ List.range (n.outputs.length + 1), n.FreeAt k := by
  by_contra! htaken
  have hsub : (List.range (n.outputs.length + 1)).map optionPort ⊆ n.outputs.map (·.name) := by
    intro name hname
    obtain ⟨k, hk, rfl⟩ := List.mem_map.1 hname
    obtain ⟨p, hp, hpname⟩ : ∃ p ∈ n.outputs, p.name = optionPort k := by
      simpa [Story.Node.FreeAt] using htaken k hk
    exact hpname ▸ List.mem_map_of_mem hp
  have hnodup : ((List.range (n.outputs.length + 1)).map optionPort).Nodup :=
    List.nodup_range.map fun _ _ => optionPort_injective
  have hlength := (List.subperm_of_subset hnodup hsub).length_le
  simp only [List.length_map, List.length_range] at hlength
  omega

/-- The name of a further option is that of the least free number. -/
lemma exists_freeOption_eq (n : Story.Node) :
    ∃ k, IsLeast {k | n.FreeAt k} k ∧ n.freeOption = optionPort k := by
  have hfind : ∃ k, (List.range (n.outputs.length + 1)).find?
      (fun k => (n.output? (optionPort k)).isNone) = some k := by
    obtain ⟨k, hk, hfree⟩ := exists_freeAt n
    rw [← Option.isSome_iff_exists, List.find?_isSome]
    exact ⟨k, hk, Option.isNone_iff_eq_none.2 (output?_eq_none_iff.2 hfree)⟩
  obtain ⟨k, hfind⟩ := hfind
  obtain ⟨hfree, -, hbelow⟩ := List.find?_range_eq_some.1 hfind
  refine ⟨k, ⟨output?_eq_none_iff.1 (Option.isNone_iff_eq_none.1 hfree), fun j hj => ?_⟩, ?_⟩
  · by_contra! hlt
    have hnone : (n.output? (optionPort j)).isNone = true :=
      Option.isNone_iff_eq_none.2 (output?_eq_none_iff.2 hj)
    simpa [hnone] using hbelow j hlt
  · rw [Story.Node.freeOption, List.find?_map]
    exact congrArg (fun number : Option Nat => (number.map optionPort).getD "") hfind

lemma freeOption_ne_empty (n : Story.Node) : n.freeOption ≠ "" := by
  obtain ⟨k, -, hname⟩ := exists_freeOption_eq n
  exact hname ▸ optionPort_ne (by decide) k

lemma output?_freeOption (n : Story.Node) : n.output? n.freeOption = none := by
  obtain ⟨k, hleast, hname⟩ := exists_freeOption_eq n
  exact hname ▸ output?_eq_none_iff.2 hleast.1

end Numbers

/-! ## The new option -/

section Adding

variable {g : StoryGraph} {id : Nat} {n : Story.Node}

lemma addOption_of_choice (hn : g.node? id = some n) (hkind : n.kind = .choice) (text : String) :
    g.addOption id text = .ok (n.freeOption,
      g.modify id fun n' => { n' with outputs := n'.outputs ++ [⟨n.freeOption, .flow, text⟩] }) := by
  have hadded : g.addOutput id ⟨n.freeOption, .flow, text⟩ = .ok (true,
      g.modify id fun n' => { n' with outputs := n'.outputs ++ [⟨n.freeOption, .flow, text⟩] }) := by
    simp [StoryGraph.addOutput, hn, output?_freeOption]
  simp only [StoryGraph.addOption, hn, hkind, ne_eq, not_true_eq_false, if_false, hadded]
  rfl

/-- An option is refused for its node only: it is not there, or it is no choice. -/
lemma addOption_eq_error {text : String} {fault : Fault} (h : g.addOption id text = .error fault) :
    fault = .unknownNode id ∨ ∃ n, g.node? id = some n ∧ n.kind ≠ .choice ∧
      fault = .badProperty id "options" (.noOptions n.kind.tag) := by
  cases hn : g.node? id with
  | none =>
    simp only [StoryGraph.addOption, hn] at h
    exact .inl (Except.error.inj h).symm
  | some n =>
    by_cases hkind : n.kind = .choice
    · cases (addOption_of_choice hn hkind text).symm.trans h
    · simp only [StoryGraph.addOption, hn, ne_eq, hkind, not_false_eq_true, if_true] at h
      exact .inr ⟨n, rfl, hkind, (Except.error.inj h).symm⟩

/-- A choice takes a further option, whatever its outputs are: at their end, under the least number that
is free, with the given text. All other nodes, the connections and the start stay as they are. The name
that stands in for a missing one is never given, and no option is refused because its name is taken. -/
theorem addOption_takes_least (hn : g.node? id = some n) (hkind : n.kind = .choice) (text : String) :
    (∃ k g', IsLeast {k | n.FreeAt k} k ∧ g.addOption id text = .ok (optionPort k, g') ∧
      (∀ id', g'.node? id' = if id' = id then some (n.withOption k text) else g.node? id') ∧
      g'.graph.edges = g.graph.edges ∧ g'.graph.nextId = g.graph.nextId ∧
      g'.name = g.name ∧ g'.start? = g.start?) ∧
    (∀ m : Story.Node, m.freeOption ≠ "") ∧
    ∀ (f : StoryGraph) i t j name, f.addOption i t ≠ .error (.badPort j name .nameTaken) := by
  refine ⟨?_, freeOption_ne_empty, fun f i t j name htaken => ?_⟩
  · obtain ⟨k, hleast, hname⟩ := exists_freeOption_eq n
    have hadded := addOption_of_choice hn hkind text
    rw [hname] at hadded
    refine ⟨k, _, hleast, hadded, fun id' => ?_, rfl, rfl, rfl, rfl⟩
    by_cases hid : id' = id
    · subst hid
      rw [if_pos rfl]
      exact (node?_modify_of_some _ hn).trans (by rw [if_pos rfl]; rfl)
    · rw [if_neg hid]
      exact (node?_modify g.graph id id' _).trans (if_neg hid)
  · rcases addOption_eq_error htaken with heq | ⟨_, -, -, heq⟩ <;> cases heq

/-- A choice whose outputs have a gap, a name twice and a name of their own. -/
def crowded : Story.Node where
  id := 7
  kind := .choice
  outputs := [.flow "option_1", .flow "else", .flow "option_0", .data "option_1", .flow "option_3"]

def crossing : StoryGraph where
  graph := { nodes := .ofList [(7, crowded)], nextId := 8 }

theorem addOption_takes_least_crossing : crossing.node? 7 = some crowded ∧ crowded.kind = .choice ∧
    ∃ g', crossing.addOption 7 "More" = .ok ("option_2", g') ∧
      g'.node? 7 = some (crowded.withOption 2 "More") := by
  have hn : crossing.node? 7 = some crowded := rfl
  have hsecond : IsLeast {k | crowded.FreeAt k} 2 := by
    have htaken : ¬crowded.FreeAt 0 ∧ ¬crowded.FreeAt 1 ∧ crowded.FreeAt 2 := by decide
    refine ⟨htaken.2.2, fun k hk => ?_⟩
    match k with
    | 0 => exact absurd hk htaken.1
    | 1 => exact absurd hk htaken.2.1
    | k + 2 => exact Nat.le_add_left 2 k
  obtain ⟨⟨k, g', hleast, hadded, hnodes, -⟩, -⟩ := addOption_takes_least hn rfl "More"
  obtain rfl := hleast.unique hsecond
  exact ⟨hn, rfl, g', hadded, (hnodes 7).trans (if_pos rfl)⟩

end Adding

end Novella.Proofs
