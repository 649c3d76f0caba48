import Novella.Proofs.Flow.LoweredScenes
import Novella.Proofs.Flow.RaisedChains
import Novella.Proofs.Results
import Novella.Proofs.Script.ProgramReading

/-!
# Scripts by way of their graphs

Lowering a script and raising the graph gives the script back in its normal form: nested blocks
are spliced into the statements around them, and of the declarations of one character there
remains the data of the last at the place of the first.
-/

namespace Novella.Script

/-- A nested block gives way to the statements in it. -/
def splicedAct (loc : Location) : Act Statement → List Statement
  | .block body => body
  | act => [.mk loc act]

/-- The script with the characters merged and every body rebuilt. -/
def Program.merged (f : Location → Act Statement → List Statement) (p : Program) : Program where
  characters := mergedCharacters p.characters
  scenes := p.scenes.map fun s => { s with body := rebuildBody f s.body }

/-- The script with the characters merged and the nested blocks spliced. -/
def Program.normal (p : Program) : Program := p.merged splicedAct

end Novella.Script

namespace Novella.Proofs

open Script Novella.Flow

lemma zip_unique {α β : Type} {l : List α} {l' : List β} (hl : l.Nodup) {a : α} {b b' : β}
    (h : (a, b) ∈ l.zip l') (h' : (a, b') ∈ l.zip l') : b = b' := by
  obtain ⟨i, hi, hab⟩ := List.mem_iff_getElem.1 h
  obtain ⟨j, hj, hab'⟩ := List.mem_iff_getElem.1 h'
  rw [List.getElem_zip] at hab hab'
  obtain ⟨hai, hbi⟩ := Prod.mk.inj hab
  obtain ⟨haj, hbj⟩ := Prod.mk.inj hab'
  obtain rfl : i = j := (List.Nodup.getElem_inj_iff hl).1 (hai.trans haj.symm)
  exact hbi.symm.trans hbj

/-! ## Scenes -/

section Scenes

variable {policy : CommentPolicy} {p : Program} {starts : List Nat} {g : FlowGraph}

lemma Lowered.mem_zip (h : Lowered p starts g) {start : Nat} {s : SceneDecl}
    (hs : (start, s) ∈ starts.zip p.scenes) : ∃ hi ≤ g.graph.nextId, SceneAt g s start hi := by
  have hle : ∀ (x : Nat × SceneDecl) lo hi, x.1 = lo ∧ SceneAt g x.2 lo hi → lo ≤ hi :=
    fun _ _ _ hx => (Nat.le_succ _).trans hx.2.lt.le
  obtain ⟨lo, hi, -, hhi, rfl, hscene⟩ := consecutive_mem hle h.found hs
  exact ⟨hi, hhi, hscene⟩

/-- There is a scene start at every start of a scene. -/
lemma Lowered.node_start (h : Lowered p starts g) {start : Nat} (hstart : start ∈ starts) :
    ∃ n, g.node? start = some n ∧ n.kind = .sceneStart := by
  obtain ⟨i, hi, rfl⟩ := List.mem_iff_getElem.1 hstart
  have hi' : i < p.scenes.length := h.length ▸ hi
  have hzip : (starts[i], p.scenes[i]) ∈ starts.zip p.scenes := by
    refine List.mem_iff_getElem.2 ⟨i, ?_, List.getElem_zip⟩
    rw [List.length_zip]
    exact Nat.lt_min.2 ⟨hi, hi'⟩
  obtain ⟨_, -, hscene⟩ := h.mem_zip hzip
  obtain ⟨n, hn, hmade⟩ := hscene.first
  exact ⟨n, hn, hmade.kind_eq⟩

/-- Scenes begin at their starts, whatever the table of scenes still knows of them. -/
lemma Lowered.entries_eq (h : Lowered p starts g) : g.entries = starts := by
  refine ascending_eq h.ascending fun id => ⟨fun hid => ?_, fun hid => ?_⟩
  · rcases List.mem_append.1 hid with hid | hid
    · obtain ⟨name, hget⟩ := (mem_values_iff _ _).1 (List.mem_of_mem_filter hid)
      obtain ⟨s, hs, -⟩ := h.table name id hget
      exact (List.of_mem_zip hs).1
    · obtain ⟨n, hn, rfl⟩ := List.mem_map.1 hid
      obtain ⟨hn, hkind⟩ := List.mem_filter.1 hn
      obtain ⟨id, hid⟩ := (mem_values_iff _ _).1 hn
      obtain ⟨hself, hstart⟩ := h.nodes id n hid
      exact hself ▸ hstart (of_decide_eq_true hkind)
  · obtain ⟨n, hn, hkind⟩ := h.node_start hid
    obtain ⟨hself, -⟩ := h.nodes id n hn
    refine List.mem_append_right _ (List.mem_map.2 ⟨n, List.mem_filter.2 ⟨?_, ?_⟩, hself⟩)
    · exact (mem_values_iff _ _).2 ⟨id, hn⟩
    · exact decide_eq_true hkind

/-- A scene keeps its name, also if the table of scenes has another scene under it. -/
lemma Lowered.sceneName_eq (h : Lowered p starts g) {start : Nat} {s : SceneDecl} {n : Node}
    (hs : (start, s) ∈ starts.zip p.scenes) (hname : isName s.name = true)
    (hmade : MadeFor start .sceneStart s.loc [("scene", .text s.name)] n) :
    sceneName g n = s.name := by
  have hne : s.name ≠ "" := by
    intro hempty
    obtain ⟨c, cs, hcs, -⟩ := isName_exists_cons hname
    rw [hempty] at hcs
    exact List.cons_ne_nil c cs hcs.symm
  have hkept : (some s.name).filter (· ≠ "") = some s.name := by simp [Option.filter, hne]
  rw [sceneName, hmade.id_eq]
  cases hfind : g.scenes.entries.find? (·.2 = start) with
  | some entry =>
    obtain ⟨name, id⟩ := entry
    have hid : id = start := by simpa using List.find?_some hfind
    have hget : g.scenes.get? name = some start :=
      (mem_entries_iff _ _ _).1 (hid ▸ List.mem_of_find?_eq_some hfind)
    obtain ⟨t, ht, rfl⟩ := h.table name start hget
    obtain rfl := zip_unique (h.ascending.imp Nat.ne_of_lt) ht hs
    dsimp only
    rw [hkept]
  | none =>
    have htext : n.text? "scene" = some s.name := by
      rw [Node.text?, hmade.property?]
      rfl
    rw [htext]
    dsimp only
    rw [hkept]

/-- A scene is read back from its start. -/
lemma Lowered.readScene_eq (h : Lowered p starts g) {start : Nat} {s : SceneDecl}
    (hs : (start, s) ∈ starts.zip p.scenes) (hname : isName s.name = true)
    (hbody : ∀ t ∈ s.body, t.All Act.Named) :
    readScene policy g start = .ok { s with body := rebuildBody (raisedAct policy) s.body } := by
  obtain ⟨after, hafter, ⟨n, hn, hmade⟩, hi, -, rfl, -, -, hleads⟩ := h.mem_zip hs
  have hsize := h.tidy.size
  have hvisited : ∀ v ∈ [start], v < start + 1 := by simp
  have hchain : ReadBack policy g true (.output start "out") s.body (start + 1) hi :=
    gives_chain hleads
  obtain ⟨visited, hread, -⟩ := hchain.gives hbody (g.graph.size + 1) (by omega) [start] hvisited
  rw [readScene, hn]
  dsimp only
  rw [h.sceneName_eq hs hname hmade, hname]
  change (readChain policy g (g.graph.size + 1) true start "out" [start] >>= _) = _
  rw [show readChain policy g (g.graph.size + 1) true start "out" [start] = _ from hread,
    hmade.loc_eq]
  rfl

end Scenes

/-! ## Scripts -/

/-- The script that is raised from the graph of a script. -/
theorem raise_lower {p : Program} (h : p.Named) (placement : Placement) (policy : CommentPolicy) :
    ∃ g, lower placement p = .ok g ∧ raise policy g = .ok (p.merged (raisedAct policy)) := by
  obtain ⟨g, starts, hlower, hlowered⟩ := lower_ok placement p
  refine ⟨g, hlower, ?_⟩
  have hcharacters : g.characters.mapM declare = .ok (mergedCharacters p.characters) := by
    rw [hlowered.characters, ← map_declared_putAll]
    refine mapM_of_forall fun c hc => ?_
    have hid : c.id ∈ p.characters.map (·.id) := by
      have hids : c.id ∈ (putAll p.characters []).map (·.id) := List.mem_map_of_mem hc
      rwa [(putAll_spec p.characters).1, List.mem_eraseDups] at hids
    obtain ⟨d, hd, hdc⟩ := List.mem_map.1 hid
    have hname : isName c.id = true := hdc ▸ h.characters d hd
    rw [declare, if_pos hname]
    rfl
  have hscenes : g.entries.mapM (readScene policy g) =
      .ok (p.scenes.map fun s => { s with body := rebuildBody (raisedAct policy) s.body }) := by
    rw [hlowered.entries_eq]
    refine mapM_of_forall₂ (List.forall₂_map_right_iff.2 (List.forall₂_iff_zip.2
      ⟨hlowered.length, fun {start s} hs => ?_⟩))
    have hmem := (List.of_mem_zip hs).2
    exact hlowered.readScene_eq hs (h.scenes s hmem) (h.statements s hmem)
  rw [raise, hcharacters]
  change (_ >>= fun scenes => _) = _
  rw [hscenes]
  rfl

/-- Where all comments are kept and all numbers in expressions finite, only the nested blocks and
the repeated declarations of characters are lost on the way through a graph. -/
lemma merged_raisedAct {p : Program}
    (h : ∀ s ∈ p.scenes, ∀ t ∈ s.body, t.All Act.FiniteExpressions) :
    p.merged (raisedAct .preserve) = p.normal := by
  have hbody : ∀ s ∈ p.scenes,
      rebuildBody (raisedAct .preserve) s.body = rebuildBody splicedAct s.body := by
    intro s hs
    refine rebuildBody_congr fun t ht => rebuild_congr (fun loc act g hact => ?_) (h s hs t ht)
    have hwritten : (act.mapBodies g).mapExpressions Expression.written = act.mapBodies g := by
      rw [mapExpressions_mapBodies, mapExpressions_written_of_finite hact]
    cases act with
    | comment text => rfl
    | block body => rfl
    | _ => exact congrArg (fun act => [Statement.mk loc act]) hwritten
  rw [Program.normal, Program.merged, Program.merged, Program.mk.injEq]
  exact ⟨rfl, List.map_congr_left fun s hs => by rw [hbody s hs]⟩

/-- Raising undoes lowering: the graph of a script whose names are names and whose expressions
are finite is raised to the normal form of the script. -/
theorem raise_lower_eq_normal {p : Program} (h : p.Named)
    (hfinite : ∀ s ∈ p.scenes, ∀ t ∈ s.body, t.All Act.FiniteExpressions) (placement : Placement) :
    ∃ g, lower placement p = .ok g ∧ raise .preserve g = .ok p.normal := by
  rw [← merged_raisedAct hfinite]
  exact raise_lower h placement .preserve

/-- Two scenes with one name, a character that is declared twice, and blocks in blocks. -/
def tangled : Program where
  characters := [{ id := "mia", displayName := "Mia", color := none },
    { id := "leo", displayName := "Leo", color := none },
    { id := "mia", displayName := "Mia", color := some "red" }]
  scenes := [
    { name := "start", body := [
      .bare (.block [.bare (.block [.bare (.comment "one\ntwo")]), .bare (.wait (Binary64.infinity false))]),
      .bare (.choice [⟨"Go", some (.var "x"), []⟩, ⟨"Stay", none, [.bare (.goto "start")]⟩])] },
    { name := "start", body := [
      .bare (.switch (.var "x") [⟨.literal (.int 1), [.bare .stopMusic]⟩] (some [])),
      .bare (.loop (.var "x") [.bare (.branch (.var "x") [] none)])] }]

theorem tangled_raised : tangled.Named ∧
    (∀ s ∈ tangled.scenes, ∀ t ∈ s.body, t.All Act.FiniteExpressions) ∧
    ∃ g, lower {} tangled = .ok g ∧ raise .preserve g = .ok tangled.normal := by
  have hnames : ∀ name ∈ ["x", "start"], isName name = true := by decide
  have hnamed : tangled.Named := by
    refine ⟨by decide, by decide, ?_⟩
    simp [tangled, Statement.bare, all_mk_iff, Act.bodies, Act.Named, Act.names, Act.expressions,
      Expression.Named, hnames]
  have hfinite : ∀ s ∈ tangled.scenes, ∀ t ∈ s.body, t.All Act.FiniteExpressions := by
    simp [tangled, Statement.bare, all_mk_iff, Act.bodies, Act.FiniteExpressions, Act.expressions,
      Expression.Finite, Literal.Finite]
  exact ⟨hnamed, hfinite, raise_lower_eq_normal hnamed hfinite {}⟩

end Novella.Proofs
