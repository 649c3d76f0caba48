import Mathlib
import Novella.Conversion
import Novella.Proofs.Flow.RaisedNames
import Novella.Proofs.Flow.RoundTrip
import Novella.Proofs.Script.Differences

/-!
# Texts from graphs and from scripts

The text that is made from a graph always reads back as the script of the graph, whatever the
graph holds. A script that goes through its graph comes back without differences exactly if it
declares no character twice.
-/

namespace Novella.Proofs

open Script Novella.Flow

/-- A script with names where names belong has the core that its text has. -/
lemma parse_render_core {p : Program} (h : p.Named) (w : Nat) :
    ∃ q, parse (p.render w) = .ok q ∧ q.core = p.core := by
  obtain ⟨q, hq, hsame⟩ := parse_render h w
  refine ⟨q, hq, ?_⟩
  calc q.core = q.unplaced.core := (keepsCore_unplaceAct.core_rebuilt q).symm
    _ = p.reread.core := by rw [hsame]
    _ = p.core := keepsCore_rereadAct.core_rebuilt p

/-! ## From graphs -/

/-- Text that is made from a graph can be read, and what is read has no difference to the script
that the graph is raised to. -/
theorem textOfFlow_reads_back (s : Settings) (g : FlowGraph) {text : String}
    (h : Conversion.textOfFlow s g = .ok text) :
    ∃ p q, raise s.comments g = .ok p ∧ parse text = .ok q ∧ p.differences q = [] := by
  obtain ⟨p, hraise, rfl⟩ := exists_of_map h
  obtain ⟨q, hq, hcore⟩ := parse_render_core (named_of_raise hraise) s.indentWidth
  exact ⟨p, q, hraise, hq, differences_of_core hcore.symm⟩

/-- A graph with a loop, a second connection that leads nowhere, a comment of two lines and a
duration that is no number. -/
def looped : FlowGraph where
  graph := {
    nodes := .ofList [
      (1, { id := 1, kind := .sceneStart }),
      (2, ({ id := 2, kind := .comment } : Node).set "text" (.text "one\r\ntwo")),
      (3, ({ id := 3, kind := .wait } : Node).set "duration" (.float .invalid))]
    edges := [⟨.output 1 "out", .input 2 "in", ""⟩, ⟨.output 2 "out", .input 3 "in", ""⟩,
      ⟨.output 3 "out", .input 2 "in", ""⟩, ⟨.output 2 "out", .input 9 "elsewhere", ""⟩]
    nextId := 4 }

theorem looped_reads_back :
    Conversion.textOfFlow {} looped =
        .ok "scene scene_1 \x7b\n    // one\n    // two\n    wait 0.0\n\x7d\n" ∧
      ∃ p q, raise .preserve looped = .ok p ∧
        parse "scene scene_1 \x7b\n    // one\n    // two\n    wait 0.0\n\x7d\n" = .ok q ∧
        p.differences q = [] := by
  have htext : Conversion.textOfFlow {} looped =
      .ok "scene scene_1 \x7b\n    // one\n    // two\n    wait 0.0\n\x7d\n" := rfl
  exact ⟨htext, textOfFlow_reads_back {} looped htext⟩

/-! ## From scripts -/

lemma keepsCore_raisedAct (policy : CommentPolicy) : KeepsCore (raisedAct policy) := by
  intro loc act
  have hkept : rebuildBody coreAct [.mk loc (act.mapExpressions Expression.written)] =
      coreAct loc ((act.mapBodies (rebuildBody coreAct)).mapExpressions Expression.written) := by
    rw [rebuildBody_singleton, rebuild_mk, ← mapExpressions_mapBodies]
  cases act with
  | comment text => cases policy <;> rfl
  | block body => rfl
  | _ =>
    exact hkept.trans (congrArg (fun act => [Statement.bare act]) (written_mapExpressions _))

/-- What comes back of a script is the text of the script that its graph is raised to. -/
lemma roundTrip_eq (s : Settings) {source : String} {p : Program} (h : parse source = .ok p) :
    (p.merged (raisedAct s.comments)).Named ∧ Conversion.roundTrip s source =
      .ok ((p.merged (raisedAct s.comments)).render s.indentWidth) := by
  obtain ⟨g, hlower, hraise⟩ := raise_lower (named_of_parse h) s.placement s.comments
  refine ⟨named_of_raise hraise, ?_⟩
  rw [Conversion.roundTrip, Conversion.flowOfText, h]
  change (lower s.placement p >>= _) = _
  rw [hlower]
  change (raise s.comments g).map _ = _
  rw [hraise]
  rfl

/-- A script that goes through its graph keeps its scenes, and its characters are merged. -/
lemma roundTrip_spec (s : Settings) {source : String} {p : Program} (h : parse source = .ok p) :
    ∃ text q, Conversion.roundTrip s source = .ok text ∧ parse text = .ok q ∧
      q.core.scenes = p.core.scenes ∧
      q.characters.map CharacterDecl.unplaced = mergedCharacters p.characters := by
  obtain ⟨hnamed, htext⟩ := roundTrip_eq s h
  obtain ⟨q, hq, hcore⟩ := parse_render_core hnamed s.indentWidth
  refine ⟨_, q, htext, hq, ?_, ?_⟩
  · have hbody : ∀ body, rebuildBody coreAct (rebuildBody (raisedAct s.comments) body) =
        rebuildBody coreAct body := (keepsCore_raisedAct s.comments).core_eq
    rw [congrArg Program.scenes hcore]
    simp only [Program.core, Program.rebuilt, Program.merged, List.map_map, Function.comp_def, hbody]
  · exact (congrArg Program.characters hcore).trans (unplaced_mergedCharacters p.characters)

/-- The differences of a script to the one that comes back from its graph are those of the
characters to the merged characters. -/
lemma textDifferences_roundTrip (s : Settings) {source : String} {p : Program}
    (h : parse source = .ok p) :
    ∃ text, Conversion.roundTrip s source = .ok text ∧ textDifferences source text =
      countDifference "character" p.characters.length (mergedCharacters p.characters).length ++
        (p.characters.zip (mergedCharacters p.characters)).flatMap
          fun (a, b) => characterDifference a b := by
  obtain ⟨text, q, htext, hq, hscenes, hcharacters⟩ := roundTrip_spec s h
  refine ⟨text, htext, ?_⟩
  have hboth : textDifferences source text = p.differences q := by
    unfold textDifferences
    rw [h, hq]
  rw [hboth, differences_of_scenes hscenes.symm, ← hcharacters, List.length_map, List.zip_map_right,
    List.flatMap_map]
  rfl

/-- A script comes back from its graph, and it has no differences to the text that comes back
exactly if it declares no character twice. -/
theorem textDifferences_roundTrip_eq_nil_iff (s : Settings) {source : String} {p : Program}
    (h : parse source = .ok p) :
    ∃ text, Conversion.roundTrip s source = .ok text ∧
      (textDifferences source text = [] ↔ (p.characters.map (·.id)).Nodup) := by
  obtain ⟨text, htext, hdifferences⟩ := textDifferences_roundTrip s h
  refine ⟨text, htext, ?_⟩
  rw [hdifferences]
  constructor
  · intro hnil
    have hcount := (List.append_eq_nil_iff.1 hnil).1
    rw [countDifference] at hcount
    split at hcount
    · next hlength =>
      rw [length_mergedCharacters] at hlength
      exact (length_eraseDups_eq_iff _).1 (by rw [← hlength, List.length_map])
    · cases hcount
  · intro hnodup
    have hmerged : (mergedCharacters p.characters).map CharacterDecl.unplaced =
        p.characters.map CharacterDecl.unplaced := by
      rw [mergedCharacters_of_nodup hnodup, List.map_map]
      rfl
    rw [characterDifferences_of_unplaced hmerged.symm, mergedCharacters_of_nodup hnodup,
      List.length_map, countDifference, if_pos rfl]
    rfl

theorem textDifferences_roundTrip_single :
    parse "character a()\nscene s \x7b\x7d\n" =
        .ok ⟨[⟨"a", "a", none, ⟨1, 1⟩⟩], [⟨"s", [], ⟨2, 1⟩⟩]⟩ ∧
      ∃ text, Conversion.roundTrip {} "character a()\nscene s \x7b\x7d\n" = .ok text ∧
        (textDifferences "character a()\nscene s \x7b\x7d\n" text = [] ↔ ["a"].Nodup) := by
  have hparse : parse "character a()\nscene s \x7b\x7d\n" =
      .ok ⟨[⟨"a", "a", none, ⟨1, 1⟩⟩], [⟨"s", [], ⟨2, 1⟩⟩]⟩ := by cbv
  exact ⟨hparse, textDifferences_roundTrip_eq_nil_iff {} hparse⟩

/-- A script that declares a character twice. -/
def redeclared : String := "character a()\ncharacter a(name: \"B\")\nscene s \x7b\x7d\n"

/-- The second declaration takes the place of the first, which is then missing. -/
theorem redeclared_differs :
    (∃ p, parse redeclared = .ok p) ∧
      ∃ text, Conversion.roundTrip {} redeclared = .ok text ∧
        "character count differs: expected 2, found 1" ∈ textDifferences redeclared text := by
  have hparse : parse redeclared = .ok ⟨[⟨"a", "a", none, ⟨1, 1⟩⟩, ⟨"a", "B", none, ⟨2, 1⟩⟩],
      [⟨"s", [], ⟨3, 1⟩⟩]⟩ := by cbv
  obtain ⟨text, htext, hdifferences⟩ := textDifferences_roundTrip {} hparse
  have hcount : countDifference "character" 2 1 =
      ["character count differs: expected 2, found 1"] := by decide
  refine ⟨⟨_, hparse⟩, text, htext, ?_⟩
  rw [hdifferences]
  exact List.mem_append_left _ (hcount ▸ List.mem_singleton_self _)

end Novella.Proofs
