import Novella.Proofs.Script.Places
import Novella.Proofs.Script.ProgramReading

/-!
# Keywords and the words after them

The keyword that introduces a declaration, a statement or a clause is matched letter by letter, and a
name may follow it without any white space: such a script is read like the one with white space
(`keywords_run_on`). Where a name is expected the same row of characters is one name, and the words that
are operators, truth values or fields end only where no character of a name follows.
-/

namespace Novella.Script

/-- A place of the grammar where a keyword introduces what comes after it. -/
inductive Head where
  | character
  | scene
  | say
  | background
  | figure
  | position
  | hide
  | branch
  | guard
  | switch
  | switchCase
  | loop
  | set
  | goto
  | transition
  deriving DecidableEq

namespace Head

def word : Head → String
  | character => "character"
  | scene => "scene"
  | say => "say"
  | background | figure => "show"
  | position => "at"
  | hide => "hide"
  | branch | guard => "if"
  | switch => "switch"
  | switchCase => "case"
  | loop => "while"
  | set => "set"
  | goto => "goto"
  | transition => "transition"

/-- What is found where the keyword stands. -/
def Found : Head → Type
  | character => CharacterDecl
  | scene => SceneDecl
  | position => String
  | guard => Expression
  | switchCase => SwitchCase Statement
  | say | background | figure | hide | branch | switch | loop | set | goto | transition =>
    Act Statement

/-- The part of the grammar that begins with the keyword, with blocks at most `n` deep. -/
def reader (n : Nat) : (h : Head) → Parser h.Found
  | character => characterDecl
  | scene => sceneDecl
  | say => sayStatement
  | background => showBackgroundStatement
  | figure => showCharacterStatement
  | position => do Parser.token "at"; identifier
  | hide => hideStatement
  | branch => ifStatement (blockWithin n) (ifWithin n)
  | guard => do Parser.token "if"; expression
  | switch => switchStatement (blockWithin n)
  | switchCase => Script.switchCase (blockWithin n)
  | loop => whileStatement (blockWithin n)
  | set => setStatement
  | goto => gotoStatement
  | transition => transitionStatement

/-- What is found, without the places that it keeps. -/
def unplaced : (h : Head) → h.Found → h.Found
  | character => CharacterDecl.unplaced
  | scene => SceneDecl.unplaced
  | position => id
  | guard => id
  | switchCase => SwitchCase.unplaced
  | say | background | figure | hide | branch | switch | loop | set | goto | transition =>
    Act.unplaced

/-- What stands before the keyword in a scene. -/
def opening : Head → String
  | position => "show a "
  | guard => "choice \x7b\n\"\" "
  | switchCase => "switch a \x7b\n"
  | _ => ""

/-- A script up to the keyword. -/
def front : Head → String
  | character | scene => ""
  | h => "scene s \x7b\n" ++ h.opening

/-- The rest of the script after a name. -/
def back : Head → String
  | character => "()"
  | scene => " \x7b\n\x7d"
  | say => " \"\"\n\x7d"
  | branch | switch | loop => " \x7b\n\x7d\n\x7d"
  | guard => " -> \x7b\n\x7d\n\x7d\n\x7d"
  | switchCase => " \x7b\n\x7d\n\x7d\n\x7d"
  | set => " = a\n\x7d"
  | transition => " 0.0\n\x7d"
  | _ => "\n\x7d"

/-- A script in which a gap stands between the keyword and a name. -/
def script (h : Head) (gap x : String) : String := h.front ++ h.word ++ gap ++ x ++ h.back

/-- The act that the script consists of. -/
def act (x : String) : Head → Act Statement
  | say => .say (some x) ""
  | position => .showCharacter "a" (some x)
  | hide => .hide x
  | branch => .branch (.var x) [] none
  | guard => .choice [⟨"", some (.var x), []⟩]
  | switch => .switch (.var x) [] none
  | switchCase => .switch (.var "a") [⟨.var x, []⟩] none
  | loop => .loop (.var x) []
  | set => .set x (.var "a")
  | goto => .goto x
  | transition => .transition x ⟨0⟩
  | _ => .showCharacter x none

/-- The script in which the keyword is followed by the name. -/
def program (x : String) : Head → Program
  | character => { characters := [⟨x, x, none, {}⟩] }
  | scene => { scenes := [⟨x, [], {}⟩] }
  | h => { scenes := [⟨"s", [.bare (h.act x)], {}⟩] }

end Head

end Novella.Script

namespace Novella.Proofs

open Script Script.Parser

/-- One case for each keyword: what comes after it is read without regard to places. -/
lemma led_reader (n : Nat) (h : Head) : Led h.unplaced h.word (h.reader n) (h.reader n) := by
  obtain ⟨hblock, hif⟩ := agree_within n
  cases h with
  | character => exact led_characterDecl
  | scene => exact led_sceneDecl
  | say => exact led_sayStatement
  | background => exact led_showBackgroundStatement
  | figure => exact led_showCharacterStatement
  | position => exact led_position
  | hide => exact led_hideStatement
  | branch => exact led_ifStatement hblock hif
  | guard => exact led_guard
  | switch => exact led_switchStatement hblock
  | switchCase => exact led_switchCase hblock
  | loop => exact led_whileStatement hblock
  | set => exact led_setStatement
  | goto => exact led_gotoStatement
  | transition => exact led_transitionStatement

/-! ## Names after keywords -/

section Names

variable {gap : List Char} {n : Nat}

lemma reads_gap (hgap : ∀ c ∈ gap, isSpace c = true) (word : String) {cs : List Char}
    (h : unspaced cs = cs) :
    Reads (token word) (word.toList ++ (gap ++ cs)) cs fun _ => True := by
  have hread := reads_token word (gap ++ cs)
  rwa [unspaced_append_of_forall hgap, h] at hread

lemma reads_emptyBlock (hn : 0 < n) (tail : List Char) :
    Reads (blockWithin n) ('\x7b' :: '\n' :: '\x7d' :: tail) (unspaced tail) (· = []) := by
  obtain ⟨n, rfl⟩ : ∃ m, n = m + 1 := ⟨n - 1, by omega⟩
  rw [blockWithin_succ]
  have hopen := reads_token "\x7b" ('\n' :: '\x7d' :: tail)
  rw [unspaced_lineEnd, unspaced_close] at hopen
  refine (hopen.bind fun _ _ => misses_statement_close.readsMany.many.bind ?_).rule
  rintro _ rfl
  exact (reads_token "\x7d" tail).map fun _ _ => rfl

end Names

/-! ## Statements with keywords and names -/

section Stages

/-- The statement in which the keyword stands, with a gap between the keyword and the name, is read as
the act. -/
def Stages (h : Head) (gap x : String) : Prop :=
  ∀ n, 1 < n → Reads (actWithin n)
    (h.opening.toList ++ (h.word.toList ++ (gap.toList ++ (x.toList ++ h.back.toList)))) ['\x7d']
    (·.unplaced = h.act x)

variable {gap x : String}

/-- The words of the script may be spelled out first. -/
lemma stages_of_spelled {h : Head} {opening back : List Char} (word : String) (hword : h.word = word)
    (hopening : h.opening.toList = opening) (hback : h.back.toList = back)
    (hread : ∀ n, 1 < n → Reads (actWithin n)
      (opening ++ (word.toList ++ (gap.toList ++ (x.toList ++ back)))) ['\x7d']
      (·.unplaced = h.act x)) : Stages h gap x := by
  subst hword hopening hback
  exact hread

lemma stages_of_first {h : Head} {back : List Char} (word : String) (hword : h.word = word)
    (hopening : h.opening = "") (hback : h.back.toList = back)
    (hread : ∀ n, 1 < n → Reads (actWithin n)
      (word.toList ++ (gap.toList ++ (x.toList ++ back))) ['\x7d'] (·.unplaced = h.act x)) :
    Stages h gap x :=
  stages_of_spelled word hword (congrArg String.toList hopening) hback hread

variable (hgap : ∀ c ∈ gap.toList, isSpace c = true) (hx : isName x = true)

include hgap hx

/-- A keyword that is the whole statement with a name. -/
lemma reads_wordGapName (word : String) (f : String → Act Statement) :
    Reads (do token word; return f (← identifier))
      (word.toList ++ (gap.toList ++ (x.toList ++ ['\n', '\x7d']))) ['\x7d'] (· = f x) := by
  refine (reads_gap hgap word (unspaced_name hx _)).bind fun _ _ => ?_
  have hread := reads_identifier hx (notAhead_cons (by decide : isNameChar '\n' = false) ['\x7d'])
  rw [unspaced_lineEnd, unspaced_close] at hread
  exact hread.map fun _ ha => by rw [ha]

/-- A keyword with a variable before a block. -/
lemma reads_wordGapVar {α : Type} {k : Expression → Parser α} {good : α → Prop} {rest : List Char}
    (word : String) (more : List Char) (hk : Reads (k (.var x)) ('\x7b' :: more) rest good) :
    Reads (token word >>= fun _ => expression >>= k)
      (word.toList ++ (gap.toList ++ (x.toList ++ ' ' :: '\x7b' :: more))) rest good := by
  refine (reads_gap hgap word (unspaced_name hx _)).bind fun _ _ => ?_
  refine Reads.bind (reads_beforeBlock (e := .var x) hx more) ?_
  rintro _ rfl
  exact hk

lemma stages_say : Stages .say gap x := by
  have hback : Head.say.back.toList = ' ' :: ((Text.quote "").toList ++ ['\n', '\x7d']) := by decide
  refine stages_of_first "say" rfl rfl hback fun n _ => ?_
  refine reads_act (k := 1) rfl (by simp [actReaders]) ?_
  refine ((reads_gap hgap "say" (unspaced_name hx _)).bind fun _ _ => ?_).rule
  refine (reads_identifier hx (notAhead_cons (by decide) _)).optional.bind ?_
  rintro _ ⟨_, rfl, rfl⟩
  rw [unspaced_blank, unspaced_quote]
  exact (reads_quotedText "" _).map fun _ ha => by rw [ha]; rfl

/-- No background can be shown where a name follows. -/
lemma misses_background {tail : List Char} (ht : NotAhead isNameChar tail) :
    Misses showBackgroundStatement ("show".toList ++ (gap.toList ++ (x.toList ++ tail))) := by
  have hrunsOn := led_showBackgroundStatement.runsOn
  have hblank : ∀ c ∈ [' '], isSpace c = true := by simp [isSpace]
  rw [← hrunsOn.misses_iff hgap, hrunsOn.misses_iff hblank]
  exact misses_showBackground hx ht

lemma stages_figure : Stages .figure gap x := by
  have hback : Head.figure.back.toList = ['\n', '\x7d'] := rfl
  have hend : NotAhead isNameChar ['\n', '\x7d'] := notAhead_cons (by decide) _
  refine stages_of_first "show" rfl rfl hback fun n _ => ?_
  refine reads_act (k := 3) rfl (by simpa [actReaders] using misses_background hgap hx hend) ?_
  refine ((reads_gap hgap "show" (unspaced_name hx _)).bind fun _ _ => ?_).rule
  refine (reads_identifier hx hend).bind ?_
  rintro _ rfl
  have hat : ¬"at".toList <+: ['\x7d'] := by decide
  rw [unspaced_lineEnd, unspaced_close]
  exact (misses_token hat).bind.optional.map fun _ ha => by rw [ha]; rfl

lemma stages_position : Stages .position gap x := by
  have hopening : Head.position.opening.toList = "show".toList ++ [' ', 'a', ' '] := rfl
  have hback : Head.position.back.toList = ['\n', '\x7d'] := rfl
  have ha : isName "a" = true := by decide
  have hread : Reads (do token "at"; identifier)
      ("at".toList ++ (gap.toList ++ (x.toList ++ ['\n', '\x7d']))) ['\x7d'] (· = x) :=
    (reads_gap hgap "at" (unspaced_name hx _)).bind fun _ _ =>
      reads_identifier hx (notAhead_cons (by decide) _)
  refine stages_of_spelled "at" rfl hopening hback fun n _ => ?_
  simp only [List.append_assoc, List.cons_append, List.nil_append]
  generalize hcs : gap.toList ++ (x.toList ++ ['\n', '\x7d']) = cs at hread ⊢
  have hend : NotAhead isNameChar (' ' :: ("at".toList ++ cs)) := notAhead_cons (by decide) _
  refine reads_act (k := 3) rfl (by simpa [actReaders] using misses_showBackground ha hend) ?_
  refine ((reads_word "show" _).bind fun _ _ => ?_).rule
  refine Reads.bind (reads_identifier ha hend) ?_
  rintro _ rfl
  rw [unspaced_blank, unspaced_word "at" (by decide)]
  refine hread.optional.map ?_
  rintro _ ⟨_, rfl, rfl⟩
  rfl

lemma stages_hide : Stages .hide gap x := by
  have hback : Head.hide.back.toList = ['\n', '\x7d'] := rfl
  refine stages_of_first "hide" rfl rfl hback fun n _ => ?_
  refine reads_act (k := 4) rfl (by simp [actReaders]) ?_
  exact (reads_wordGapName hgap hx "hide" .hide).rule.mono fun _ ha => by rw [ha]; rfl

lemma stages_goto : Stages .goto gap x := by
  have hback : Head.goto.back.toList = ['\n', '\x7d'] := rfl
  refine stages_of_first "goto" rfl rfl hback fun n _ => ?_
  refine reads_act (k := 10) rfl (by simp [actReaders]) ?_
  exact (reads_wordGapName hgap hx "goto" .goto).rule.mono fun _ ha => by rw [ha]; rfl

lemma stages_set : Stages .set gap x := by
  have hback : Head.set.back.toList = ' ' :: '=' :: ' ' :: ("a".toList ++ ['\n', '\x7d']) := rfl
  have ha : isName "a" = true := by decide
  have hclose : FollowsStatement (unspaced ['\x7d']) := followsStatement_close []
  refine stages_of_first "set" rfl rfl hback fun n _ => ?_
  refine reads_act (k := 9) rfl (by simp [actReaders]) ?_
  refine ((reads_gap hgap "set" (unspaced_name hx _)).bind fun _ _ => ?_).rule
  refine (reads_identifier hx (notAhead_cons (by decide) _)).bind ?_
  rintro _ rfl
  rw [unspaced_blank, unspaced_cons (by decide)]
  refine (reads_word "=" _).bind fun _ _ => ?_
  rw [unspaced_name ha]
  exact (reads_expression (e := .var "a") ha hclose.endsExpression).map fun _ hb => by rw [hb]; rfl

lemma stages_transition : Stages .transition gap x := by
  have hback : Head.transition.back.toList =
      ' ' :: ((Binary64.mk 0).literal.toList ++ ['\n', '\x7d']) := by decide +kernel
  refine stages_of_first "transition" rfl rfl hback fun n _ => ?_
  refine reads_act (k := 15) rfl (by simp [actReaders]) ?_
  refine ((reads_gap hgap "transition" (unspaced_name hx _)).bind fun _ _ => ?_).rule
  refine (reads_identifier hx (notAhead_cons (by decide) _)).bind ?_
  rintro _ rfl
  rw [unspaced_blank, unspaced_literal]
  exact (reads_number ⟨0⟩ (notAhead_cons (by decide) _)).map fun _ ha => by rw [ha]; rfl

lemma stages_loop : Stages .loop gap x := by
  have hback : Head.loop.back.toList = [' ', '\x7b', '\n', '\x7d', '\n', '\x7d'] := rfl
  refine stages_of_first "while" rfl rfl hback fun n hn => ?_
  refine reads_act (k := 8) rfl (by simp [actReaders]) ?_
  refine (reads_wordGapVar hgap hx "while" _ ?_).rule
  exact (reads_emptyBlock (by omega) ['\n', '\x7d']).map fun _ ha => by rw [ha]; rfl

lemma stages_branch : Stages .branch gap x := by
  have hback : Head.branch.back.toList = [' ', '\x7b', '\n', '\x7d', '\n', '\x7d'] := rfl
  have helse : ¬"else".toList <+: ['\x7d'] := by decide
  refine stages_of_first "if" rfl rfl hback fun n hn => ?_
  refine reads_act (k := 6) rfl (by simp [actReaders]) ?_
  obtain ⟨n, rfl⟩ : ∃ m, n = m + 1 := ⟨n - 1, by omega⟩
  rw [ifWithin_succ]
  refine (reads_wordGapVar hgap hx "if" _ ?_).rule
  refine (reads_emptyBlock (by omega) ['\n', '\x7d']).bind ?_
  rintro _ rfl
  rw [unspaced_lineEnd, unspaced_close]
  exact (misses_token helse).bind.rule.optional.map fun _ ha => by rw [ha]; rfl

lemma stages_switch : Stages .switch gap x := by
  have hback : Head.switch.back.toList = [' ', '\x7b', '\n', '\x7d', '\n', '\x7d'] := rfl
  have hcase : ¬"case".toList <+: ['\x7d', '\n', '\x7d'] := by decide
  have hdefault : ¬"default".toList <+: ['\x7d', '\n', '\x7d'] := by decide
  refine stages_of_first "switch" rfl rfl hback fun n hn => ?_
  refine reads_act (k := 7) rfl (by simp [actReaders]) ?_
  refine (reads_wordGapVar hgap hx "switch" _ ?_).rule
  refine (reads_token "\x7b" _).bind fun _ _ => ?_
  rw [unspaced_lineEnd, unspaced_close]
  refine (misses_token hcase).bind.rule.readsMany.many.bind ?_
  rintro _ rfl
  refine (misses_token hdefault).bind.rule.optional.bind ?_
  rintro _ rfl
  exact (reads_token "\x7d" ['\n', '\x7d']).map fun _ _ => rfl

lemma reads_gapCase {n : Nat} (hn : 0 < n) (tail : List Char) :
    Reads (switchCase (blockWithin n)) ("case".toList ++
      (gap.toList ++ (x.toList ++ ' ' :: '\x7b' :: '\n' :: '\x7d' :: tail)))
      (unspaced tail) (· = ⟨.var x, []⟩) :=
  (reads_wordGapVar hgap hx "case" _
    ((reads_emptyBlock hn tail).map fun _ hb => by rw [hb])).rule

lemma stages_switchCase : Stages .switchCase gap x := by
  have hopening : Head.switchCase.opening.toList =
      "switch".toList ++ ' ' :: ("a".toList ++ [' ', '\x7b', '\n']) := rfl
  have hback : Head.switchCase.back.toList =
      [' ', '\x7b', '\n', '\x7d', '\n', '\x7d', '\n', '\x7d'] := rfl
  have ha : isName "a" = true := by decide
  have hcase : ¬"case".toList <+: ['\x7d', '\n', '\x7d'] := by decide
  have hdefault : ¬"default".toList <+: ['\x7d', '\n', '\x7d'] := by decide
  refine stages_of_spelled "case" rfl hopening hback fun n hn => ?_
  have hread := reads_gapCase hgap hx (Nat.zero_lt_of_lt hn) ['\n', '\x7d', '\n', '\x7d']
  simp only [List.append_assoc, List.cons_append, List.nil_append]
  refine reads_act (k := 7) rfl (by simp [actReaders]) ?_
  refine ((reads_word "switch" _).bind fun _ _ => ?_).rule
  rw [unspaced_name ha]
  refine Reads.bind (reads_beforeBlock (e := .var "a") ha _) ?_
  rintro _ rfl
  refine (reads_token "\x7b" _).bind fun _ _ => ?_
  rw [unspaced_lineEnd, unspaced_word "case" (by decide)]
  rw [unspaced_lineEnd, unspaced_close] at hread
  refine ((hread.readsMany_cons (by simp) (misses_token hcase).bind.rule.readsMany).many.bind ?_)
  rintro _ ⟨_, _, rfl, rfl, rfl⟩
  refine (misses_token hdefault).bind.rule.optional.bind ?_
  rintro _ rfl
  exact (reads_token "\x7d" ['\n', '\x7d']).map fun _ _ => rfl

lemma reads_gapOption {n : Nat} (hn : 0 < n) (tail : List Char) :
    Reads (choiceOption (blockWithin n)) ((Text.quote "").toList ++ ' ' :: ("if".toList ++
      (gap.toList ++ (x.toList ++ ' ' :: ("->".toList ++ ' ' :: '\x7b' :: '\n' :: '\x7d' :: tail)))))
      (unspaced tail) (· = ⟨"", some (.var x), []⟩) := by
  have harrow : ∀ cs, unspaced (' ' :: ("->".toList ++ cs)) = "->".toList ++ cs := fun _ => rfl
  have hguard : ∀ cs, Reads (do token "if"; expression)
      ("if".toList ++ (gap.toList ++ (x.toList ++ ' ' :: ("->".toList ++ cs))))
      ("->".toList ++ cs) (· = .var x) := by
    intro cs
    refine (reads_gap hgap "if" (unspaced_name hx _)).bind fun _ _ => ?_
    have hends : EndsExpression (' ' :: ("->".toList ++ cs)) :=
      ⟨notAhead_cons (by decide) _, harrow cs ▸ .inr (.inr (List.prefix_append _ _))⟩
    exact harrow cs ▸ reads_expression (e := .var x) hx hends
  refine ((reads_quotedText "" _).bind ?_).rule
  rintro _ rfl
  rw [unspaced_blank, unspaced_word "if" (by decide)]
  refine (hguard _).optional.bind ?_
  rintro _ ⟨_, rfl, rfl⟩
  refine (reads_word "->" _).bind fun _ _ => ?_
  rw [unspaced_open]
  exact (reads_emptyBlock hn tail).map fun _ hb => by rw [hb]

lemma stages_guard : Stages .guard gap x := by
  have hopening : Head.guard.opening.toList =
      "choice".toList ++ ' ' :: '\x7b' :: '\n' :: ((Text.quote "").toList ++ [' ']) := by decide
  have hback : Head.guard.back.toList = ' ' :: ("->".toList ++
      [' ', '\x7b', '\n', '\x7d', '\n', '\x7d', '\n', '\x7d']) := rfl
  have hquote : ∀ n, Misses (choiceOption (blockWithin n)) ['\x7d', '\n', '\x7d'] :=
    fun n => (misses_quotedText (by simp)).bind.rule
  refine stages_of_spelled "if" rfl hopening hback fun n hn => ?_
  have hread := reads_gapOption hgap hx (Nat.zero_lt_of_lt hn) ['\n', '\x7d', '\n', '\x7d']
  rw [unspaced_lineEnd, unspaced_close] at hread
  simp only [List.append_assoc, List.cons_append, List.nil_append]
  refine reads_act (k := 5) rfl (by simp [actReaders]) ?_
  refine ((reads_word "choice" _).bind fun _ _ => ?_).rule
  rw [unspaced_open]
  refine (reads_token "\x7b" _).bind fun _ _ => ?_
  rw [unspaced_lineEnd, unspaced_quote]
  refine ((hread.readsMany_cons (by simp; omega) (hquote n).readsMany).many.bind ?_)
  rintro _ ⟨_, _, rfl, rfl, rfl⟩
  exact (reads_token "\x7d" ['\n', '\x7d']).map fun _ _ => rfl

end Stages

/-! ## Scripts with keywords and names -/

section Scripts

variable {source : String} {p : Program}

lemma reads_stagedBlock {word : String} (hword : word ∈ statementWords)
    (hlen : 1 < word.toList.length) {n : Nat} {cs : List Char} {act : Act Statement}
    (h : Reads (actWithin n) (word.toList ++ cs) ['\x7d'] (·.unplaced = act)) :
    Reads (blockWithin (n + 1)) ('\x7b' :: '\n' :: (word.toList ++ cs)) []
      fun body => rebuildBody unplaceAct body = [.bare act] := by
  have hstatement : Reads (statementWithin n) (word.toList ++ cs) ['\x7d']
      fun s => s.rebuild unplaceAct = [.bare act] := by
    rw [statementWithin_eq]
    refine (reads_here.bind fun place _ => h.map fun a ha => ?_).rule
    rw [rebuild_mk]
    exact congrArg (fun act => [Statement.bare act]) ha
  have hopen := reads_token "\x7b" ('\n' :: (word.toList ++ cs))
  rw [unspaced_lineEnd, BeginsStatement.unspaced ⟨word, hword, List.prefix_append _ _⟩] at hopen
  rw [blockWithin_succ]
  refine (hopen.bind fun _ _ => ?_).rule
  have hmore := hstatement.readsMany_cons (by simp; omega) misses_statement_close.readsMany
  refine hmore.many.bind ?_
  rintro _ ⟨s, _, rfl, hs, rfl⟩
  refine (reads_token "\x7d" []).map fun _ _ => ?_
  rw [rebuildBody_singleton, hs]

lemma reads_gapScene {gap : List Char} (hgap : ∀ c ∈ gap, isSpace c = true) {name : String}
    (hname : isName name = true) {cs : List Char} {body : List Statement}
    (h : Reads block ('\x7b' :: '\n' :: cs) [] fun read => rebuildBody unplaceAct read = body) :
    Reads sceneDecl ("scene".toList ++ (gap ++ (name.toList ++ ' ' :: '\x7b' :: '\n' :: cs))) []
      (·.unplaced = ⟨name, body, {}⟩) := by
  refine (reads_here.bind fun place _ => ?_).rule
  refine (reads_gap hgap "scene" (unspaced_name hname _)).bind fun _ _ => ?_
  refine (reads_identifier hname (notAhead_cons (by decide) _)).bind ?_
  rintro _ rfl
  rw [unspaced_blank, unspaced_open]
  exact h.map fun read hread => by rw [SceneDecl.unplaced, hread]

lemma parse_of_item {good : Item → Prop} (hne : source.toList ≠ [])
    (hfront : unspaced source.toList = source.toList) (h : Reads itemReader source.toList [] good)
    (hgood : ∀ item, good item →
      (⟨[item].filterMap Item.character?, [item].filterMap Item.scene?⟩ : Program).unplaced = p) :
    ∃ q, parse source = .ok q ∧ q.unplaced = p := by
  have hitems := h.readsMany_cons (List.length_pos_iff.2 hne) misses_itemReader_nil.readsMany
  have hread : Reads program source.toList [] (·.unplaced = p) := by
    rw [program_eq]
    refine (reads_spaces.bind fun _ _ => ?_).rule
    rw [hfront]
    refine hitems.many.bind ?_
    rintro _ ⟨item, _, rfl, hitem, rfl⟩
    exact reads_endOfText.map fun _ _ => hgood item hitem
  exact run_of_reads hread

lemma parse_of_scene {cs : List Char} {s : SceneDecl} (hsource : source.toList = "scene".toList ++ cs)
    (h : Reads sceneDecl source.toList [] (·.unplaced = s)) :
    ∃ q, parse source = .ok q ∧ q.unplaced = { scenes := [s] } := by
  rw [hsource] at h
  have hcomment : ¬['/', '/'] <+: "scene".toList ++ cs := not_prefix_append (by decide) _
  have hcharacter : ¬"character".toList <+: "scene".toList ++ cs := not_prefix_append (by decide) _
  have hitem : Reads itemReader source.toList [] fun item =>
      ∃ s', item = .scene s' ∧ s'.unplaced = s := by
    rw [hsource]
    exact (misses_comment hcomment).bind.orElse_reads
      ((misses_characterDecl hcharacter).bind.orElse_reads
        (Reads.orElse (h.map fun s' hs' => ⟨s', rfl, hs'⟩)))
  refine parse_of_item (by simp [hsource]) (by rw [hsource, unspaced_word "scene" (by decide)]) hitem ?_
  rintro _ ⟨s', rfl, rfl⟩
  rfl

/-- A scene with the keyword goes on with the word of a statement. -/
lemma front_of_statement {h : Head} (hcharacter : h ≠ .character) (hscene : h ≠ .scene) :
    h.front.toList = "scene s \x7b\n".toList ++ h.opening.toList ∧
      ∃ word ∈ statementWords, 1 < word.toList.length ∧
        word.toList <+: h.opening.toList ++ h.word.toList := by
  cases h with
  | character => exact absurd rfl hcharacter
  | scene => exact absurd rfl hscene
  | _ => decide

lemma parse_of_stages {h : Head} {gap x : String} (hcharacter : h ≠ .character) (hscene : h ≠ .scene)
    (hstages : Stages h gap x) :
    ∃ q, parse (h.script gap x) = .ok q ∧ q.unplaced = { scenes := [⟨"s", [.bare (h.act x)], {}⟩] } := by
  obtain ⟨hfront, word, hword, hlen, cs, hcs⟩ := front_of_statement hcharacter hscene
  have hact : ∀ n, 1 < n → Reads (actWithin n)
      (word.toList ++ (cs ++ (gap.toList ++ (x.toList ++ h.back.toList)))) ['\x7d']
      (·.unplaced = h.act x) := by
    intro n hn
    rw [← List.append_assoc, hcs, List.append_assoc]
    exact hstages n hn
  have hsource : (h.script gap x).toList = "scene".toList ++ ([' '] ++ ("s".toList ++ ' ' :: '\x7b' ::
      '\n' :: (word.toList ++ (cs ++ (gap.toList ++ (x.toList ++ h.back.toList)))))) := by
    rw [← List.append_assoc word.toList, hcs]
    simp [Head.script, hfront]
  refine parse_of_scene hsource (hsource ▸ reads_gapScene (by simp [isSpace]) (by decide) ?_)
  intro place overflow frontier
  exact reads_stagedBlock hword hlen (hact _ (by simp)) place overflow frontier

variable {gap x : String} (hgap : ∀ c ∈ gap.toList, isSpace c = true) (hx : isName x = true)

include hgap hx

lemma parse_character : ∃ q, parse (Head.character.script gap x) = .ok q ∧
    q.unplaced = Head.program x .character := by
  have hsource : (Head.character.script gap x).toList =
      "character".toList ++ (gap.toList ++ (x.toList ++ '(' :: [')'])) := by
    simp [Head.script, Head.front, Head.word, Head.back]
  have hcharacter : Reads characterDecl (Head.character.script gap x).toList []
      (·.unplaced = ⟨x, x, none, {}⟩) := by
    have hopen : ∀ cs, Reads (token "(") ('(' :: cs) (unspaced cs) fun _ => True := reads_token "("
    have hfield : Misses characterField [')'] :=
      (misses_lexeme (scanWord_eq_none (by decide))).rule.bind.rule
    rw [hsource]
    refine (reads_here.bind fun place _ => ?_).rule
    refine (reads_gap hgap "character" (unspaced_name hx _)).bind fun _ _ => ?_
    refine (reads_identifier hx (notAhead_cons (by decide) _)).bind ?_
    rintro _ rfl
    refine (hopen [')']).bind fun _ _ => ?_
    refine hfield.bind.optional.bind ?_
    rintro _ rfl
    exact (reads_token ")" []).map fun _ _ => rfl
  have hcomment : ¬['/', '/'] <+: (Head.character.script gap x).toList := by
    rw [hsource]
    exact not_prefix_append (by decide) _
  have hitem : Reads itemReader (Head.character.script gap x).toList [] fun item =>
      ∃ c, item = .character c ∧ c.unplaced = ⟨x, x, none, {}⟩ :=
    (misses_comment hcomment).bind.orElse_reads
      (Reads.orElse (hcharacter.map fun c hc => ⟨c, rfl, hc⟩))
  refine parse_of_item (by simp [hsource])
    (by rw [hsource, unspaced_word "character" (by decide)]) hitem ?_
  rintro _ ⟨c, rfl, hc⟩
  exact congrArg (fun c => (⟨[c], []⟩ : Program)) hc

lemma parse_scene : ∃ q, parse (Head.scene.script gap x) = .ok q ∧
    q.unplaced = Head.program x .scene := by
  have hsource : (Head.scene.script gap x).toList = "scene".toList ++
      (gap.toList ++ (x.toList ++ ' ' :: '\x7b' :: '\n' :: ['\x7d'])) := by
    simp [Head.script, Head.front, Head.word, Head.back]
  refine parse_of_scene hsource (hsource ▸ reads_gapScene hgap hx ?_)
  intro place overflow frontier
  exact (reads_emptyBlock (by simp) []).mono (fun _ h => by rw [h]; rfl) place overflow frontier

/-- Every script with a keyword and a name after it is read as this, with and without white space. -/
lemma parse_script (h : Head) :
    ∃ q, parse (h.script gap x) = .ok q ∧ q.unplaced = h.program x := by
  cases h with
  | character => exact parse_character hgap hx
  | scene => exact parse_scene hgap hx
  | say => exact parse_of_stages (by decide) (by decide) (stages_say hgap hx)
  | background => exact parse_of_stages (by decide) (by decide) (stages_figure hgap hx)
  | figure => exact parse_of_stages (by decide) (by decide) (stages_figure hgap hx)
  | position => exact parse_of_stages (by decide) (by decide) (stages_position hgap hx)
  | hide => exact parse_of_stages (by decide) (by decide) (stages_hide hgap hx)
  | branch => exact parse_of_stages (by decide) (by decide) (stages_branch hgap hx)
  | guard => exact parse_of_stages (by decide) (by decide) (stages_guard hgap hx)
  | switch => exact parse_of_stages (by decide) (by decide) (stages_switch hgap hx)
  | switchCase => exact parse_of_stages (by decide) (by decide) (stages_switchCase hgap hx)
  | loop => exact parse_of_stages (by decide) (by decide) (stages_loop hgap hx)
  | set => exact parse_of_stages (by decide) (by decide) (stages_set hgap hx)
  | goto => exact parse_of_stages (by decide) (by decide) (stages_goto hgap hx)
  | transition => exact parse_of_stages (by decide) (by decide) (stages_transition hgap hx)

end Scripts

/-! ## Words that end with the word -/

section Bounded

/-- The words of the grammar that are matched as a whole, those at one place together. -/
def boundedWords : List (List String) := [["true", "false"], ["not"], ["and"], ["or"], ["name", "color"]]

/-- A keyword with a name after it is a name. -/
lemma isName_glued (h : Head) {x : String} (hx : isName x = true) : isName (h.word ++ x) = true := by
  obtain ⟨hall, -⟩ := isName_iff.1 hx
  obtain ⟨c, cs, hcs, -⟩ := isName_exists_cons hx
  have hword : ∀ c ∈ h.word.toList, isNameChar c = true := by
    cases h <;> exact List.all_eq_true.1 rfl
  obtain ⟨d, ws, hws, hdigit⟩ : ∃ d ws, h.word.toList = d :: ws ∧ d.isDigit = false := by
    cases h <;> exact ⟨_, _, rfl, rfl⟩
  have honly : ∀ k ∈ keywords, h.word.toList <+: k.toList → k.toList = h.word.toList := by
    cases h <;> decide
  have hno : (keywords.any fun k => k.toList = d :: (ws ++ x.toList)) = false := by
    refine List.any_eq_false.2 fun k hk hkey => ?_
    have heq : k.toList = h.word.toList ++ x.toList := by rw [of_decide_eq_true hkey, hws]; rfl
    have hself := honly k hk (heq ▸ List.prefix_append _ _)
    rw [heq, hcs] at hself
    simp at hself
  refine isName_iff.2 ⟨fun c hc => ?_, ?_⟩
  · rw [String.toList_append] at hc
    exact (List.mem_append.1 hc).elim (hword c) (hall c)
  · rw [String.toList_append, hws, List.cons_append]
    simp [isNameWord, hdigit, hno]

/-- A word that is matched as a whole is not found in front of a name that is written against it. -/
lemma scanWord_glued {words : List String} (h : words ∈ boundedWords) {w : String} (hw : w ∈ words)
    {x : String} (hx : isName x = true) (tail : List Char) :
    scanWord words ((w ++ x).toList ++ tail) = none := by
  obtain ⟨hall, -⟩ := isName_iff.1 hx
  obtain ⟨c, cs, hcs, -⟩ := isName_exists_cons hx
  have hword : ∀ words ∈ boundedWords, ∀ w ∈ words, w.toList.all isNameChar = true := by decide
  have honly : ∀ words ∈ boundedWords, ∀ w ∈ words, ∀ v ∈ words, w.toList <+: v.toList →
      v.toList = w.toList := by
    decide
  have hglued : ∀ c ∈ (w ++ x).toList, isNameChar c = true := by
    intro c hc
    rw [String.toList_append] at hc
    exact (List.mem_append.1 hc).elim (List.all_eq_true.1 (hword words h w hw) c) (hall c)
  refine scanWord_eq_none fun v hv hfront => ?_
  rw [frontWord, List.takeWhile_append_of_pos hglued, String.toList_append, List.append_assoc] at hfront
  have hself := honly words h w hw v hv (hfront ▸ List.prefix_append _ _)
  rw [hfront, hcs] at hself
  simp at hself

end Bounded

/-- A keyword that introduces a declaration, a statement or a clause needs no white space after it:
what is read from there on is the same with and without, so it is refused without where it is refused
with. A script with a name right after the keyword is read as the keyword with this name. Only where a
name is expected are the two of them one name, and only the words that are matched as a whole are not
found in front of a name. -/
theorem keywords_run_on (h : Head) {gap x : String} (hgap : ∀ c ∈ gap.toList, isSpace c = true)
    (hx : isName x = true) :
    (∀ n, RunsOn h.unplaced h.word (h.reader n) (h.reader n)) ∧
    (∀ n cs, Misses (h.reader n) (h.word.toList ++ cs) ↔
      Misses (h.reader n) (h.word.toList ++ (gap.toList ++ cs))) ∧
    (∃ p, parse (h.script gap x) = .ok p ∧ p.unplaced = h.program x) ∧
    isName (h.word ++ x) = true ∧
    (∀ tail, NotAhead isNameChar tail →
      Reads identifier ((h.word ++ x).toList ++ tail) (unspaced tail) (· = h.word ++ x)) ∧
    (∀ words ∈ boundedWords, ∀ w ∈ words, ∀ tail,
      scanWord words ((w ++ x).toList ++ tail) = none) := by
  have hrunsOn : ∀ n, RunsOn h.unplaced h.word (h.reader n) (h.reader n) :=
    fun n => (led_reader n h).runsOn
  have hglued := isName_glued h hx
  exact ⟨hrunsOn, fun n cs => (hrunsOn n).misses_iff hgap, parse_script hgap hx h, hglued,
    fun tail ht => reads_identifier hglued ht,
    fun words hwords w hw tail => scanWord_glued hwords hw hx tail⟩

/-- A loop with no blank in front of its condition. -/
theorem keywords_run_on_ready :
    isName "ready" = true ∧
    Head.loop.script "" "ready" = "scene s \x7b\nwhileready \x7b\n\x7d\n\x7d" ∧
    (∃ p, parse (Head.loop.script "" "ready") = .ok p ∧ p.unplaced = Head.loop.program "ready") ∧
    Reads identifier ("whileready".toList ++ [' ']) [] (· = "whileready") ∧
    scanWord ["not"] "notready".toList = none := by
  have hgap : ∀ c ∈ "".toList, isSpace c = true := by simp
  have hx : isName "ready" = true := by decide
  obtain ⟨-, -, hparse, -, hreads, hbounded⟩ := keywords_run_on .loop hgap hx
  refine ⟨hx, by decide, hparse, hreads [' '] (notAhead_cons (by decide) []), ?_⟩
  exact hbounded ["not"] (by decide) "not" (by decide) []

/-- One name in the place of a statement, taken for a jump. -/
theorem gotoend_jumps : isName "gotoend" = true ∧
    ∃ p, parse "scene s \x7b\ngotoend\n\x7d" = .ok p ∧
      p.unplaced = { scenes := [⟨"s", [.bare (.goto "end")], {}⟩] } := by
  have hscript : Head.goto.script "" "end" = "scene s \x7b\ngotoend\n\x7d" := by decide
  refine ⟨by decide, ?_⟩
  rw [← hscript]
  exact parse_script (by simp) (by decide) .goto

end Novella.Proofs
