import Novella.Proofs.Script.BlockReading

/-!
# Reading the text of a script

The text of a script reads back as the script, up to what a text does not keep; and as the
script itself, up to places, if there is nothing else to lose.
-/

namespace Novella.Proofs

open Script Script.Parser

variable {w : Nat} {tail : List Char}

/-! ## Declarations -/

/-- A field of a character, with something after it that is no part of its word. -/
lemma reads_field {word : String} (hword : word ∈ ["name", "color"]) (text : String) :
    Reads characterField (word.toList ++ (":".toList ++ ' ' :: ((Text.quote text).toList ++ tail)))
      (unspaced tail)
      (· = if word.toList = "name".toList then .name text else .color text) := by
  have hnames : ∀ word ∈ ["name", "color"], word.toList.all isNameChar = true := by decide
  have hscan : scanWord ["name", "color"]
      (word.toList ++ (":".toList ++ ' ' :: ((Text.quote text).toList ++ tail))) =
      some (word.toList, ":".toList ++ ' ' :: ((Text.quote text).toList ++ tail)) :=
    scanWord_append hword (List.all_eq_true.1 (hnames word hword)) (notAhead_cons (by decide) _)
  refine ((reads_lexeme hscan).rule.bind ?_).rule
  rintro _ rfl
  have hcolon : unspaced (":".toList ++ ' ' :: ((Text.quote text).toList ++ tail)) =
      ":".toList ++ ' ' :: ((Text.quote text).toList ++ tail) := unspaced_cons (by decide) _
  rw [hcolon]
  refine (reads_word ":" _).bind fun _ _ => ?_
  rw [unspaced_quote]
  exact (reads_quotedText text tail).map fun _ h => by rw [h]

/-- The fields of a character as they are written. -/
def colorText : Option String → List Char
  | none => []
  | some color => ", ".toList ++ ("color".toList ++ (":".toList ++ ' ' :: (Text.quote color).toList))

lemma reads_otherFields (color : Option String) :
    ReadsMany (do token ","; characterField) (unspaced (colorText color ++ ')' :: tail)) (')' :: tail)
      (· = color.toList.map .color) := by
  have hcomma : ¬",".toList <+: ')' :: tail := not_prefix_of_head? (w := ',') (by simp)
  have hmiss : Misses (do token ","; characterField) (')' :: tail) := (misses_token hcomma).bind
  have hclose : unspaced (')' :: tail) = ')' :: tail := unspaced_cons (by decide) _
  cases color with
  | none =>
    rw [colorText, List.nil_append, hclose]
    exact hmiss.readsMany
  | some color =>
    have hfield : Reads (do token ","; characterField) (",".toList ++ ' ' :: ("color".toList ++
        (":".toList ++ ' ' :: ((Text.quote color).toList ++ ')' :: tail)))) (')' :: tail)
        (· = .color color) := by
      refine (reads_word "," _).bind fun _ _ => ?_
      rw [unspaced_word "color" (by decide), ← hclose]
      exact (reads_field (by decide) color).mono fun _ h => by rw [h]; rfl
    have hfront : unspaced (colorText (some color) ++ ')' :: tail) = ",".toList ++ ' ' ::
        ("color".toList ++ (":".toList ++ ' ' :: ((Text.quote color).toList ++ ')' :: tail))) := by
      simp only [colorText, List.append_assoc, List.cons_append]
      exact unspaced_cons (by decide) _
    rw [hfront]
    refine (hfield.readsMany_cons ?_ hmiss.readsMany).mono ?_
    · simp only [List.length_append, List.length_cons]
      omega
    · rintro _ ⟨_, _, rfl, rfl, rfl⟩
      rfl

lemma character_toList (c : CharacterDecl) : c.line.text.toList =
    "character".toList ++ ' ' :: (c.id.toList ++ '(' :: ("name".toList ++ (":".toList ++
      ' ' :: ((Text.quote c.displayName).toList ++ (colorText c.color ++ [')']))))) := by
  obtain ⟨id, displayName, color, loc⟩ := c
  cases color <;> simp [CharacterDecl.line, colorText]

lemma reads_character {c : CharacterDecl} (h : isName c.id = true) :
    Reads characterDecl (c.line.text.toList ++ '\n' :: tail) (unspaced tail)
      (·.unplaced = c.unplaced) := by
  have hfront : c.line.text.toList ++ '\n' :: tail = "character".toList ++ ' ' :: (c.id.toList ++
      '(' :: ("name".toList ++ (":".toList ++ ' ' :: ((Text.quote c.displayName).toList ++
        (colorText c.color ++ ')' :: '\n' :: tail))))) := by
    rw [character_toList]
    simp
  have hcomma : ¬",".toList <+: ')' :: '\n' :: tail := not_prefix_of_head? (w := ',') (by simp)
  have hopen : ∀ cs, Reads (token "(") ('(' :: cs) (unspaced cs) fun _ => True := reads_token "("
  rw [hfront]
  refine (reads_here.bind fun place _ => (reads_word "character" _).bind fun _ _ => ?_).rule
  rw [unspaced_name h]
  refine (reads_identifier h (notAhead_cons (by decide) _)).bind fun id hid => ?_
  rw [unspaced_cons (by decide)]
  refine (hopen _).bind fun _ _ => ?_
  rw [unspaced_word "name" (by decide)]
  have hfields : Reads (do
        let field ← characterField
        let others ← many do
          token ","
          characterField
        let _ ← Parser.optional (token ",")
        return field :: others)
      ("name".toList ++ (":".toList ++ ' ' :: ((Text.quote c.displayName).toList ++
        (colorText c.color ++ ')' :: '\n' :: tail)))) (')' :: '\n' :: tail)
      (· = .name c.displayName :: c.color.toList.map .color) := by
    refine (reads_field (by decide) c.displayName).bind fun field hfield => ?_
    refine (reads_otherFields c.color).many.bind fun others hothers => ?_
    refine (misses_token hcomma).optional.map fun _ _ => ?_
    rw [hfield, hothers]
    rfl
  refine hfields.optional.bind ?_
  rintro _ ⟨_, rfl, rfl⟩
  rw [← unspaced_lineEnd]
  refine (reads_token ")" _).map fun _ _ => ?_
  obtain ⟨id', displayName, color, loc⟩ := c
  subst hid
  cases color <;> rfl

lemma reads_scene {s : SceneDecl} (hname : isName s.name = true)
    (hbody : ∀ t ∈ s.body, t.All Act.Named) (more : List Line) :
    Reads sceneDecl (unspaced (layout w (s.lines ++ more) ++ tail)) (unspaced (layout w more ++ tail))
      fun read => read.name = s.name ∧ SameBody read.body s.body := by
  have htext : ("scene " ++ s.name ++ " \x7b").toList =
      "scene".toList ++ ' ' :: (s.name.toList ++ [' ', '\x7b']) := by simp
  have hfront : unspaced (layout w (s.lines ++ more) ++ tail) = "scene".toList ++ ' ' ::
      (s.name.toList ++ ' ' :: '\x7b' :: '\n' ::
        (layout w (bodyLines 1 s.body ++ ⟨0, "\x7d"⟩ :: more) ++ tail)) := by
    rw [SceneDecl.lines, List.cons_append, List.cons_append, unspaced_layout_cons, htext,
      List.append_assoc, unspaced_word "scene" (by decide)]
    simp
  rw [hfront]
  refine (reads_here.bind fun place _ => (reads_word "scene" _).bind fun _ _ => ?_).rule
  rw [unspaced_name hname]
  refine (reads_identifier hname (notAhead_cons (by decide) _)).bind fun name hn => ?_
  rw [unspaced_blank, unspaced_open]
  have hblock : Reads block ('\x7b' :: '\n' ::
      (layout w (bodyLines 1 s.body ++ ⟨0, "\x7d"⟩ :: more) ++ tail))
      (unspaced (layout w more ++ tail)) fun read => SameBody read s.body := by
    intro place overflow frontier
    refine reads_closedBlock (fun t ht => readable w (hbody t ht)) ?_ more place overflow frontier
    rw [layout_append]
    simp only [List.length_append, List.length_cons]
    omega
  exact hblock.map fun body hbody => ⟨hn, hbody⟩

/-! ## Scripts -/

def itemReader : Parser Item := first [
  do let _ ← comment; return .comment,
  do return .character (← characterDecl),
  do return .scene (← sceneDecl)]

lemma program_eq : program = rule .program (do
    spaces
    let items ← many itemReader
    endOfText
    return ⟨items.filterMap Item.character?, items.filterMap Item.scene?⟩) := rfl

lemma misses_characterDecl {cs : List Char} (h : ¬"character".toList <+: cs) :
    Misses characterDecl cs :=
  (reads_here.bind_misses fun _ _ => (misses_token h).bind).rule

lemma misses_sceneDecl {cs : List Char} (h : ¬"scene".toList <+: cs) : Misses sceneDecl cs :=
  (reads_here.bind_misses fun _ _ => (misses_token h).bind).rule

lemma misses_itemReader_nil : Misses itemReader [] := by
  refine misses_first ?_
  simp only [List.mem_cons, List.not_mem_nil, or_false, forall_eq_or_imp, forall_eq]
  exact ⟨(misses_comment (by simp)).bind, (misses_characterDecl (by simp)).bind,
    (misses_sceneDecl (by simp)).bind⟩

/-- The part of a script that was read is the character. -/
def SameCharacter (read : Item) (c : CharacterDecl) : Prop :=
  ∃ c', read = .character c' ∧ c'.unplaced = c.unplaced

/-- The part of a script that was read is the scene that the text of a scene stands for. -/
def SameScene (read : Item) (s : SceneDecl) : Prop :=
  ∃ s', read = .scene s' ∧ s'.name = s.name ∧ SameBody s'.body s.body

lemma unspaced_layout_character (c : CharacterDecl) (more : List Line) :
    unspaced (layout w (c.line :: more) ++ tail) =
      c.line.text.toList ++ '\n' :: (layout w more ++ tail) := by
  have hline : c.line = ⟨0, c.line.text⟩ := rfl
  rw [hline, unspaced_layout_cons, character_toList, List.append_assoc,
    unspaced_word "character" (by decide)]

lemma reads_characterItem {c : CharacterDecl} (h : isName c.id = true) (more : List Line) :
    Reads itemReader (unspaced (layout w (c.line :: more) ++ tail))
      (unspaced (layout w more ++ tail)) fun read => SameCharacter read c := by
  have hcomment : ¬['/', '/'] <+: c.line.text.toList ++ '\n' :: (layout w more ++ tail) := by
    rw [character_toList]
    exact not_prefix_of_head? (by simp)
  rw [unspaced_layout_character]
  refine (misses_comment hcomment).bind.orElse_reads (Reads.orElse ?_)
  exact (reads_character h).map fun c' hc' => ⟨c', rfl, hc'⟩

lemma unspaced_layout_scene (s : SceneDecl) (more : List Line) :
    ∃ cs, unspaced (layout w (s.lines ++ more) ++ tail) =
      "scene".toList ++ (cs ++ (layout w more ++ tail)) := by
  have htext : ("scene " ++ s.name ++ " \x7b").toList =
      "scene".toList ++ ' ' :: (s.name.toList ++ [' ', '\x7b']) := by simp
  refine ⟨' ' :: (s.name.toList ++ ' ' :: '\x7b' :: '\n' ::
    layout w (bodyLines 1 s.body ++ [⟨0, "\x7d"⟩])), ?_⟩
  rw [SceneDecl.lines, List.cons_append, List.cons_append, unspaced_layout_cons, htext,
    List.append_assoc, unspaced_word "scene" (by decide), layout_append]
  simp

lemma reads_sceneItem {s : SceneDecl} (hname : isName s.name = true)
    (hbody : ∀ t ∈ s.body, t.All Act.Named) (more : List Line) :
    Reads itemReader (unspaced (layout w (s.lines ++ more) ++ tail))
      (unspaced (layout w more ++ tail)) fun read => SameScene read s := by
  obtain ⟨cs, hfront⟩ : ∃ cs, unspaced (layout w (s.lines ++ more) ++ tail) =
      "scene".toList ++ (cs ++ (layout w more ++ tail)) := unspaced_layout_scene s more
  have hscene : Reads sceneDecl (unspaced (layout w (s.lines ++ more) ++ tail))
      (unspaced (layout w more ++ tail)) fun read => read.name = s.name ∧ SameBody read.body s.body :=
    reads_scene hname hbody more
  rw [hfront] at hscene ⊢
  have hcomment : ¬['/', '/'] <+: "scene".toList ++ (cs ++ (layout w more ++ tail)) :=
    not_prefix_append (by decide) _
  have hcharacter : ¬"character".toList <+: "scene".toList ++ (cs ++ (layout w more ++ tail)) :=
    not_prefix_append (by decide) _
  refine (misses_comment hcomment).bind.orElse_reads
    ((misses_characterDecl hcharacter).bind.orElse_reads (Reads.orElse ?_))
  exact hscene.map fun s' hs' => ⟨s', rfl, hs'⟩

/-- The empty lines between scenes are skipped. -/
lemma unspaced_layout_sceneLines (separated : Bool) (s : SceneDecl) (rest : List SceneDecl) :
    unspaced (layout w (sceneLines separated (s :: rest)) ++ tail) =
      unspaced (layout w (s.lines ++ sceneLines true rest) ++ tail) := by
  cases separated with
  | false => rfl
  | true =>
    change unspaced (layout w (⟨0, ""⟩ :: (s.lines ++ sceneLines true rest)) ++ tail) = _
    rw [unspaced_layout_cons]
    exact unspaced_lineEnd _

lemma unspaced_layout_separated (separated : Bool) (scenes : List SceneDecl) :
    unspaced (layout w (sceneLines separated scenes) ++ tail) =
      unspaced (layout w (sceneLines true scenes) ++ tail) := by
  cases scenes with
  | nil => rfl
  | cons s rest => rw [unspaced_layout_sceneLines, unspaced_layout_sceneLines]

lemma reads_scenes {scenes : List SceneDecl} (hnames : ∀ s ∈ scenes, isName s.name = true)
    (hbodies : ∀ s ∈ scenes, ∀ t ∈ s.body, t.All Act.Named) :
    ReadsMany itemReader (unspaced (layout w (sceneLines true scenes) ++ [])) []
      fun l => List.Forall₂ SameScene l scenes := by
  have hscenes : ReadsMany itemReader (unspaced (layout w (sceneLines true scenes) ++ [])) []
      fun l => ∃ read more, l = read ++ more ∧ List.Forall₂ SameScene read scenes ∧ more = [] := by
    refine reads_laidOut rfl (fun s hs more => ?_) (fun s more => ?_)
      misses_itemReader_nil.readsMany
    · rw [unspaced_layout_sceneLines]
      exact reads_sceneItem (hnames s hs) (hbodies s hs) _
    · obtain ⟨cs, hfront⟩ := unspaced_layout_scene (w := w) s (sceneLines true more)
      rw [unspaced_layout_sceneLines, hfront]
      simp only [List.length_append]
      have : 0 < "scene".toList.length := by decide
      omega
  refine hscenes.mono ?_
  rintro _ ⟨read, _, rfl, hread, rfl⟩
  rwa [List.append_nil]

lemma reads_items {p : Program} (h : p.Named) :
    ReadsMany itemReader (unspaced (layout w p.lines)) [] fun l => ∃ read more, l = read ++ more ∧
      List.Forall₂ SameCharacter read p.characters ∧ List.Forall₂ SameScene more p.scenes := by
  have hscenes := reads_scenes (w := w) h.scenes h.statements
  rw [← unspaced_layout_separated (!p.characters.isEmpty), List.append_nil] at hscenes
  rw [Program.lines, layout_append]
  refine reads_laidOut rfl (fun c hc more => ?_) (fun c more => ?_) hscenes
  · exact reads_characterItem (h.characters c hc) _
  · rw [List.map_cons, unspaced_layout_character]
    simp only [List.length_append, List.length_cons]
    omega

lemma filterMap_characters {read : List Item} {characters : List CharacterDecl}
    (h : List.Forall₂ SameCharacter read characters) :
    (read.filterMap Item.character?).map CharacterDecl.unplaced =
      characters.map CharacterDecl.unplaced ∧ read.filterMap Item.scene? = [] := by
  induction h with
  | nil => exact ⟨rfl, rfl⟩
  | cons hc _ ih =>
    obtain ⟨c', rfl, hc'⟩ := hc
    simp only [List.filterMap_cons, Item.character?, Item.scene?, List.map_cons, ih.1, ih.2, hc',
      and_self]

lemma filterMap_scenes {read : List Item} {scenes : List SceneDecl}
    (h : List.Forall₂ SameScene read scenes) :
    (read.filterMap Item.scene?).map
        (fun s => (⟨s.name, rebuildBody unplaceAct s.body, {}⟩ : SceneDecl)) =
      scenes.map (fun s => ⟨s.name, rebuildBody rereadAct s.body, {}⟩) ∧
    read.filterMap Item.character? = [] := by
  induction h with
  | nil => exact ⟨rfl, rfl⟩
  | cons hs _ ih =>
    obtain ⟨s', rfl, hname, hbody⟩ := hs
    simp only [List.filterMap_cons, Item.scene?, Item.character?, List.map_cons, ih.1, ih.2, hname]
    rw [hbody]
    exact ⟨rfl, trivial⟩

/-- The text of a script with names in it reads back as what the text keeps of the script. -/
theorem parse_render {p : Program} (h : p.Named) (w : Nat) :
    ∃ q, parse (p.render w) = .ok q ∧ q.unplaced = p.reread := by
  have hread : Reads program (p.render w).toList [] fun q => q.unplaced = p.reread := by
    rw [render_toList, program_eq]
    refine (reads_spaces.bind fun _ _ => (reads_items h).many.bind ?_).rule
    rintro _ ⟨read, more, rfl, hread, hmore⟩
    refine reads_endOfText.map fun _ _ => ?_
    obtain ⟨hcharacters, hnoScene⟩ := filterMap_characters hread
    obtain ⟨hscenes, hnoCharacter⟩ := filterMap_scenes hmore
    simp only [Program.unplaced, Program.reread, Program.rebuilt, List.filterMap_append, hnoScene,
      hnoCharacter, List.append_nil, List.nil_append, hcharacters, hscenes]
  exact run_of_reads hread

/-- Printing and then reading is the identity on scripts, up to places, and on expressions: a
script whose names are names, whose numbers are finite and whose comments are plain loses
nothing in its text, and neither does an expression. -/
theorem parse_render_of_plain (w : Nat) :
    (∀ p : Program, p.Named → p.Plain →
      ∃ q, parse (p.render w) = .ok q ∧ q.unplaced = p.unplaced) ∧
    ∀ e : Expression, e.Named → e.Finite → parseExpression e.render = .ok e := by
  refine ⟨fun p hnamed hplain => ?_, fun e hnamed hfinite => ?_⟩
  · rw [← reread_of_plain hplain]
    exact parse_render hnamed w
  · rw [parseExpression_render hnamed, expression_written_of_finite hfinite]

/-- A script with a choice, a chain of conditions and a nested block. -/
def specimen : Program where
  characters := [{ id := "mia", displayName := "Mia", color := some "red" }]
  scenes := [{ name := "start", body := [
    .bare (.comment "Once."),
    .bare (.set "x" (.binary .sub (.var "x") (.unary .neg (.literal (.int 1))))),
    .bare (.branch (.var "x") [.bare (.wait ⟨0x3ff8000000000000⟩)]
      (some [.bare (.branch (.unary .not (.var "y")) []
        (some [.bare (.block [.bare .stopMusic])]))])),
    .bare (.choice [⟨"Go", some (.literal (.bool true)), [.bare (.say (some "mia") "Hi.")]⟩])] }]

lemma specimen_named : specimen.Named where
  characters := by decide
  scenes := by decide
  statements := by
    have hnames : ∀ name ∈ ["x", "y", "mia"], isName name = true := by decide
    simp [specimen, Statement.bare, all_mk_iff, Act.bodies, Act.Named, Act.names, Act.expressions,
      Expression.Named, hnames]

lemma specimen_plain : specimen.Plain where
  expressions := by
    simp [specimen, Statement.bare, all_mk_iff, Act.bodies, Act.FiniteExpressions, Act.expressions,
      Expression.Finite, Literal.Finite]
  durations := by
    have hfinite : (⟨0x3ff8000000000000⟩ : Binary64).isFinite = true := by decide
    simp [specimen, Statement.bare, all_mk_iff, Act.bodies, Act.FiniteDurations, Act.durations,
      hfinite]
  comments := by
    have htrim : Text.trim "Once." = "Once." := by decide
    have hends : ∀ c ∈ "Once.".toList, endsComment c = false := by simp [endsComment]
    simpa [specimen, Statement.bare, all_mk_iff, Act.bodies, Act.PlainComment, htrim] using hends

theorem specimen_reads_back :
    (specimen.Named ∧ specimen.Plain ∧
      ∃ q, parse (specimen.render 4) = .ok q ∧ q.unplaced = specimen.unplaced) ∧
    ((Expression.var "x").Named ∧ (Expression.var "x").Finite ∧
      parseExpression (Expression.var "x").render = .ok (.var "x")) :=
  have hname : isName "x" = true := by decide
  ⟨⟨specimen_named, specimen_plain,
      (parse_render_of_plain 4).1 specimen specimen_named specimen_plain⟩,
    ⟨hname, trivial, (parse_render_of_plain 4).2 (.var "x") hname trivial⟩⟩

end Novella.Proofs
