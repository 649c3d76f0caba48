import Novella.Proofs.Script.Layout

/-!
# Reading the text of a statement

The grammar tries one reader after another on a statement, and all but those for `show` and
`play` are told apart by the text that they begin with. Nothing but what comes next ends a
statement, so every theorem here speaks of the text with a rest that cannot be taken for a part
of the statement (`FollowsStatement`); the beginning of the next statement and the end of a
block are such rests.
-/

namespace Novella.Proofs

open Script Script.Parser

/-! ## The fronts of texts -/

section Fronts

@[simp]
lemma unspaced_blank (cs : List Char) : unspaced (' ' :: cs) = unspaced cs :=
  unspaced_cons_of_isSpace (by decide) cs

@[simp]
lemma unspaced_lineEnd (cs : List Char) : unspaced ('\n' :: cs) = unspaced cs :=
  unspaced_cons_of_isSpace (by decide) cs

@[simp]
lemma unspaced_open (cs : List Char) : unspaced ('\x7b' :: cs) = '\x7b' :: cs :=
  unspaced_cons (by decide) cs

@[simp]
lemma unspaced_close (cs : List Char) : unspaced ('\x7d' :: cs) = '\x7d' :: cs :=
  unspaced_cons (by decide) cs

lemma unspaced_name {name : String} (h : isName name = true) (tail : List Char) :
    unspaced (name.toList ++ tail) = name.toList ++ tail := by
  obtain ⟨c, rest, hname, hc, -⟩ := isName_exists_cons h
  exact unspaced_of_head ⟨c, rest, hname, by simp [beginsOperand, hc]⟩ tail

lemma unspaced_word (word : String) (h : word.toList.head?.any beginsOperand = true)
    (tail : List Char) : unspaced (word.toList ++ tail) = word.toList ++ tail := by
  refine unspaced_of_head ?_ tail
  cases hword : word.toList with
  | nil => simp [hword] at h
  | cons c cs => exact ⟨c, cs, rfl, by simpa [hword] using h⟩

@[simp]
lemma unspaced_quote (text : String) (tail : List Char) :
    unspaced ((Text.quote text).toList ++ tail) = (Text.quote text).toList ++ tail :=
  unspaced_of_head (literal_head (.text text)) tail

@[simp]
lemma unspaced_literal (x : Binary64) (tail : List Char) :
    unspaced (x.literal.toList ++ tail) = x.literal.toList ++ tail :=
  unspaced_of_head (literal_head (.float x)) tail

lemma unspaced_render {e : Expression} (h : e.Named) (tail : List Char) :
    unspaced (e.render.toList ++ tail) = e.render.toList ++ tail :=
  unspaced_of_head (render_head h) tail

lemma reads_word (word : String) (rest : List Char) :
    Reads (token word) (word.toList ++ ' ' :: rest) (unspaced rest) fun _ => True := by
  simpa using reads_token word (' ' :: rest)

/-- A text does not begin with a word that differs from the one at its front. -/
lemma not_prefix_append {w pre : List Char} (h : w.take pre.length ≠ pre.take w.length)
    (rest : List Char) : ¬w <+: pre ++ rest := by
  rintro ⟨t, ht⟩
  have htake := congrArg (List.take (min w.length pre.length)) ht
  rw [List.take_append_of_le_length (min_le_left _ _),
    List.take_append_of_le_length (min_le_right _ _)] at htake
  rcases le_total w.length pre.length with hle | hle
  · rw [min_eq_left hle, List.take_length] at htake
    exact h ((List.take_of_length_le hle).trans htake)
  · rw [min_eq_right hle, List.take_length] at htake
    exact h (htake.trans (List.take_of_length_le hle).symm)

end Fronts

/-! ## Telling the statements apart -/

/-- What reads the acts at a depth, and the text with which each begins. -/
def actReaders (n : Nat) : List (String × Parser (Act Statement)) := [
  ("//", do return .comment (← comment)),
  ("say", sayStatement),
  ("show", showBackgroundStatement),
  ("show", showCharacterStatement),
  ("hide", hideStatement),
  ("choice", choiceStatement (blockWithin n)),
  ("if", ifWithin n),
  ("switch", switchStatement (blockWithin n)),
  ("while", whileStatement (blockWithin n)),
  ("set", setStatement),
  ("goto", gotoStatement),
  ("wait", waitStatement),
  ("play", playMusicStatement),
  ("play", playSoundStatement),
  ("stop", stopMusicStatement),
  ("transition", transitionStatement),
  ("\x7b", rule .blockStatement do return .block (← blockWithin n))]

def actWithin (n : Nat) : Parser (Act Statement) := first ((actReaders n).map (·.2))

def statementWithin (n : Nat) : Parser Statement := statementOver (blockWithin n) (ifWithin n)

lemma statementWithin_eq (n : Nat) : statementWithin n = rule .statement (do
    let place ← here
    let act ← actWithin n
    return .mk place.location act) := rfl

lemma blockWithin_succ (n : Nat) : blockWithin (n + 1) = blockOf (statementWithin n) := by
  funext i f
  rw [blockWithin, statementWithin]

lemma ifWithin_succ (n : Nat) : ifWithin (n + 1) = ifStatement (blockWithin n) (ifWithin n) := by
  funext i f
  rw [ifWithin]

lemma misses_blockWithin (n : Nat) {cs : List Char} (h : ¬"\x7b".toList <+: cs) :
    Misses (blockWithin n) cs := by
  cases n with
  | zero =>
    have hmiss : blockWithin 0 = miss := by rw [blockWithin]
    exact hmiss ▸ misses_miss
  | succ n => exact blockWithin_succ n ▸ (misses_token h).bind.rule

lemma misses_ifWithin (n : Nat) {cs : List Char} (h : ¬"if".toList <+: cs) :
    Misses (ifWithin n) cs := by
  cases n with
  | zero =>
    have hmiss : ifWithin 0 = miss := by rw [ifWithin]
    exact hmiss ▸ misses_miss
  | succ n => exact ifWithin_succ n ▸ (misses_token h).bind.rule

/-- A reader finds nothing where its text is not at the front. -/
lemma misses_actReader {n : Nat} {cs : List Char} {r : String × Parser (Act Statement)}
    (hr : r ∈ actReaders n) (h : ¬r.1.toList <+: cs) : Misses r.2 cs := by
  simp only [actReaders, List.mem_cons, List.not_mem_nil, or_false] at hr
  rcases hr with rfl | rfl | rfl | rfl | rfl | rfl | rfl | rfl | rfl | rfl | rfl | rfl | rfl | rfl |
    rfl | rfl | rfl
  any_goals exact (misses_token h).bind.rule
  -- the readers that leave their first token to another one
  · exact (misses_comment h).bind
  · exact misses_ifWithin n h
  · exact (misses_blockWithin n h).bind.rule

/-- The texts with which statements begin. -/
def statementWords : List String := ["//", "say", "show", "hide", "choice", "if", "switch",
  "while", "set", "goto", "wait", "play", "stop", "transition", "\x7b"]

lemma statementWords_apart : ∀ v ∈ statementWords, ∀ w ∈ statementWords, v ≠ w →
    v.toList.take w.toList.length ≠ w.toList.take v.toList.length := by decide

lemma fst_mem_statementWords {n : Nat} {r : String × Parser (Act Statement)}
    (hr : r ∈ actReaders n) : r.1 ∈ statementWords := by
  simp only [actReaders, List.mem_cons, List.not_mem_nil, or_false] at hr
  rcases hr with rfl | rfl | rfl | rfl | rfl | rfl | rfl | rfl | rfl | rfl | rfl | rfl | rfl | rfl |
    rfl | rfl | rfl <;> simp [statementWords]

/-- The reader with the text at the front decides, if those before it with the same text miss. -/
lemma reads_act {n k : Nat} {word : String} {p : Parser (Act Statement)} {cs rest : List Char}
    {good : Act Statement → Prop} (hk : (actReaders n)[k]? = some (word, p))
    (hsame : ∀ r ∈ (actReaders n).take k, r.1 = word → Misses r.2 (word.toList ++ cs))
    (hp : Reads p (word.toList ++ cs) rest good) :
    Reads (actWithin n) (word.toList ++ cs) rest good := by
  obtain ⟨hlt, hget⟩ := List.getElem?_eq_some_iff.1 hk
  have hsplit : actReaders n = (actReaders n).take k ++ (word, p) :: (actReaders n).drop (k + 1) := by
    conv_lhs => rw [← List.take_append_drop k (actReaders n), List.drop_eq_getElem_cons hlt, hget]
  have hword : word ∈ statementWords := fst_mem_statementWords (List.mem_of_getElem? hk)
  rw [actWithin, hsplit, List.map_append, List.map_cons]
  refine reads_first (fun q hq => ?_) hp
  obtain ⟨r, hr, rfl⟩ := List.mem_map.1 hq
  have hmem : r ∈ actReaders n := List.mem_of_mem_take hr
  by_cases heq : r.1 = word
  · exact hsame r hr heq
  · exact misses_actReader hmem (not_prefix_append
      (statementWords_apart _ (fst_mem_statementWords hmem) _ hword heq) cs)

/-! ## What may follow a statement -/

/-- Nothing at the front can be taken for a part of the statement before. -/
structure FollowsStatement (cs : List Char) : Prop where
  stops : Stops 6 cs
  noPosition : ¬"at".toList <+: cs
  noElse : ¬"else".toList <+: cs

lemma FollowsStatement.of_cons {c : Char} (cs : List Char)
    (h : (∀ k < 6, c ∉ tierHeads k) ∧ c ≠ 'a' ∧ c ≠ 'e') : FollowsStatement (c :: cs) where
  stops := .inl fun k hk d hd hc => h.1 k hk (by
    obtain rfl : c = d := by simpa using hc
    exact hd)
  noPosition := not_prefix_of_head? (w := 'a') (by simpa using h.2.1)
  noElse := not_prefix_of_head? (w := 'e') (by simpa using h.2.2)

lemma followsStatement_close (cs : List Char) : FollowsStatement ('\x7d' :: cs) :=
  .of_cons cs (by decide)

lemma followsStatement_word {word : String} (h : word ∈ statementWords) (cs : List Char) :
    FollowsStatement (word.toList ++ cs) := by
  simp only [statementWords, List.mem_cons, List.not_mem_nil, or_false] at h
  rcases h with rfl | rfl | rfl | rfl | rfl | rfl | rfl | rfl | rfl | rfl | rfl | rfl | rfl | rfl | rfl
  · exact ⟨.inr (.inl (List.prefix_append _ cs)), not_prefix_append (by decide) cs,
      not_prefix_append (by decide) cs⟩
  all_goals exact .of_cons _ (by decide)

/-- An expression at the end of a line ends there if a statement does. -/
lemma FollowsStatement.endsExpression {tail : List Char} (h : FollowsStatement (unspaced tail)) :
    EndsExpression ('\n' :: tail) :=
  ⟨notAhead_cons (by decide) tail, by simpa using h.stops⟩

/-! ## Statements on one line -/

section OneLine

variable {n : Nat} {tail : List Char}

lemma reads_commentLine {line : String} (h : ∀ c ∈ line.toList, endsComment c = false) :
    Reads (actWithin n) (("// " ++ line).toList ++ '\n' :: tail) (unspaced tail)
      (· = .comment (Text.trim line)) := by
  have htext : ("// " ++ line).toList ++ '\n' :: tail =
      "//".toList ++ ((' ' :: line.toList) ++ '\n' :: tail) := by simp
  have hline : ∀ c ∈ ' ' :: line.toList, endsComment c = false := by
    intro c hc
    rcases List.mem_cons.1 hc with rfl | hc
    · decide
    · exact h c hc
  have htrim : String.ofList (Text.trimChars (' ' :: line.toList)) = Text.trim line := by
    simp [Text.trim, Text.trimChars, Text.isBlank]
  rw [htext]
  refine reads_act (k := 0) rfl (by simp) ?_
  exact (reads_comment hline tail).map fun _ ha => by rw [ha, htrim]

lemma reads_say {speaker : Option String} (h : ∀ name ∈ speaker, isName name = true)
    (text : String) :
    Reads (actWithin n) ("say".toList ++ ' ' :: (speaker.elim [] (fun name => name.toList ++ [' ']) ++
      ((Text.quote text).toList ++ '\n' :: tail))) (unspaced tail) (· = .say speaker text) := by
  refine reads_act (k := 1) rfl (by simp [actReaders]) ?_
  refine ((reads_word "say" _).bind fun _ _ => ?_).rule
  have hquote : Reads (quotedText >>= fun text => pure (Act.say (σ := Statement) speaker text)) _ _
      (· = .say speaker text) :=
    (reads_quotedText text ('\n' :: tail)).map fun _ ha => by rw [ha]
  rw [unspaced_lineEnd] at hquote
  cases speaker with
  | none =>
    have hmiss : Misses identifier ((Text.quote text).toList ++ '\n' :: tail) :=
      misses_identifier (quote_toList text ▸ notAhead_cons (by decide) _)
    rw [Option.elim, List.nil_append, unspaced_quote]
    refine hmiss.optional.bind ?_
    rintro _ rfl
    exact hquote
  | some name =>
    simp only [Option.elim, List.append_assoc, List.singleton_append]
    rw [unspaced_name (h name rfl)]
    refine (reads_identifier (h name rfl) (notAhead_cons (by decide) _)).optional.bind ?_
    rintro _ ⟨_, rfl, rfl⟩
    rw [unspaced_blank, unspaced_quote]
    exact hquote

/-- A name may begin with the word that introduces a background, but then goes on. -/
lemma misses_showBackground {name : String} (h : isName name = true) {rest : List Char}
    (hrest : NotAhead isNameChar rest) :
    Misses showBackgroundStatement ("show".toList ++ ' ' :: (name.toList ++ rest)) := by
  refine ((reads_word "show" _).bind_misses fun _ _ => ?_).rule
  rw [unspaced_name h]
  by_cases hword : "background".toList <+: name.toList ++ rest
  · obtain ⟨more, hmore⟩ := hword
    have hfront := ne_frontWord_of_isName h (w := "background") (by decide) hrest
    have hahead : ¬NotAhead isNameChar more := fun hend =>
      hfront (by rw [← hmore, frontWord_append (List.all_eq_true.1 rfl) hend])
    obtain ⟨c, cs, rfl, hname⟩ : ∃ c cs, more = c :: cs ∧ isNameChar c = true := by
      cases more with
      | nil => exact absurd notAhead_nil hahead
      | cons c cs => exact ⟨c, cs, rfl, by simpa [NotAhead] using hahead⟩
    have hquote : c ≠ '"' := by
      rintro rfl
      exact absurd hname (by decide)
    rw [← hmore]
    refine (reads_token _ _).bind_misses fun _ _ => Misses.bind (misses_quotedText ?_)
    rw [unspaced_cons (not_space_of_beginsOperand (by simp [beginsOperand, hname]))]
    simpa using hquote
  · exact (misses_token hword).bind

lemma reads_showCharacter {name : String} (h : isName name = true) {position : Option String}
    (hposition : ∀ name ∈ position, isName name = true) (ht : FollowsStatement (unspaced tail)) :
    Reads (actWithin n) ("show".toList ++ ' ' :: (name.toList ++
      (position.elim [] (fun name => " at ".toList ++ name.toList) ++ '\n' :: tail))) (unspaced tail)
      (· = .showCharacter name position) := by
  have hend : NotAhead isNameChar
      (position.elim [] (fun name => " at ".toList ++ name.toList) ++ '\n' :: tail) := by
    cases position <;> exact notAhead_cons (by decide) _
  refine reads_act (k := 3) rfl ?_ ?_
  · simpa [actReaders] using misses_showBackground h hend
  · refine ((reads_word "show" _).bind fun _ _ => ?_).rule
    rw [unspaced_name h]
    refine (reads_identifier h hend).bind fun a ha => ?_
    cases position with
    | none =>
      rw [Option.elim, List.nil_append, unspaced_lineEnd]
      refine ((misses_token ht.noPosition).bind.optional).map fun _ hb => ?_
      rw [ha, hb]
    | some place =>
      have htext : unspaced (Option.elim (some place) [] (fun name => " at ".toList ++ name.toList) ++
          '\n' :: tail) = "at".toList ++ ' ' :: (place.toList ++ '\n' :: tail) := by
        simp only [Option.elim, List.append_assoc]
        exact (unspaced_blank _).trans (unspaced_cons (by decide) _)
      rw [htext]
      have hread : Reads (do token "at"; identifier)
          ("at".toList ++ ' ' :: (place.toList ++ '\n' :: tail)) (unspaced tail) (· = place) := by
        refine (reads_word "at" _).bind fun _ _ => ?_
        rw [unspaced_name (hposition place rfl), ← unspaced_lineEnd]
        exact reads_identifier (hposition place rfl) (notAhead_cons (by decide) _)
      refine hread.optional.map ?_
      rintro _ ⟨_, rfl, rfl⟩
      rw [ha]

lemma reads_wordName {name : String} (h : isName name = true) (word : String)
    (f : String → Act Statement) :
    Reads (do token word; return f (← identifier))
      (word.toList ++ ' ' :: (name.toList ++ '\n' :: tail)) (unspaced tail) (· = f name) := by
  refine (reads_word word _).bind fun _ _ => ?_
  rw [unspaced_name h, ← unspaced_lineEnd]
  exact (reads_identifier h (notAhead_cons (by decide) _)).map fun _ ha => by rw [ha]

lemma reads_wordsQuote {word : String} (h : word.toList.head?.any beginsOperand = true)
    (first text : String) (f : String → Act Statement) :
    Reads (do token first; token word; return f (← quotedText))
      (first.toList ++ ' ' :: (word.toList ++ ' ' :: ((Text.quote text).toList ++ '\n' :: tail)))
      (unspaced tail) (· = f text) := by
  refine (reads_word first _).bind fun _ _ => ?_
  rw [unspaced_word word h]
  refine (reads_word word _).bind fun _ _ => ?_
  rw [unspaced_quote, ← unspaced_lineEnd]
  exact (reads_quotedText text _).map fun _ ha => by rw [ha]

lemma reads_set {name : String} (h : isName name = true) {e : Expression} (he : e.Named)
    (ht : FollowsStatement (unspaced tail)) :
    Reads (actWithin n) ("set".toList ++ ' ' :: (name.toList ++ ' ' :: '=' :: ' ' ::
      (e.render.toList ++ '\n' :: tail))) (unspaced tail) (· = .set name e.written) := by
  refine reads_act (k := 9) rfl (by simp [actReaders]) ?_
  refine ((reads_word "set" _).bind fun _ _ => ?_).rule
  rw [unspaced_name h]
  refine (reads_identifier h (notAhead_cons (by decide) _)).bind fun a ha => ?_
  rw [unspaced_blank, unspaced_cons (by decide)]
  refine (reads_word "=" _).bind fun _ _ => ?_
  rw [unspaced_render he, ← unspaced_lineEnd]
  exact (reads_expression he ht.endsExpression).map fun _ hb => by rw [ha, hb]

lemma reads_wait (x : Binary64) :
    Reads (actWithin n) ("wait".toList ++ ' ' :: (x.literal.toList ++ '\n' :: tail))
      (unspaced tail) (· = .wait x.written) := by
  refine reads_act (k := 11) rfl (by simp [actReaders]) ?_
  refine ((reads_word "wait" _).bind fun _ _ => ?_).rule
  rw [unspaced_literal, ← unspaced_lineEnd]
  exact (reads_number x (notAhead_cons (by decide) _)).map fun _ ha => by rw [ha]

lemma reads_transition {kind : String} (h : isName kind = true) (x : Binary64) :
    Reads (actWithin n) ("transition".toList ++ ' ' :: (kind.toList ++ ' ' ::
      (x.literal.toList ++ '\n' :: tail))) (unspaced tail) (· = .transition kind x.written) := by
  refine reads_act (k := 15) rfl (by simp [actReaders]) ?_
  refine ((reads_word "transition" _).bind fun _ _ => ?_).rule
  rw [unspaced_name h]
  refine (reads_identifier h (notAhead_cons (by decide) _)).bind fun a ha => ?_
  rw [unspaced_blank, unspaced_literal, ← unspaced_lineEnd]
  exact (reads_number x (notAhead_cons (by decide) _)).map fun _ hb => by rw [ha, hb]

lemma reads_stopMusic : Reads (actWithin n) ("stop".toList ++ ' ' :: ("music".toList ++ '\n' :: tail))
    (unspaced tail) (· = .stopMusic) := by
  refine reads_act (k := 14) rfl (by simp [actReaders]) ?_
  refine ((reads_word "stop" _).bind fun _ _ => ?_).rule
  rw [unspaced_word "music" (by decide), ← unspaced_lineEnd]
  exact (reads_token "music" _).map fun _ _ => rfl

lemma reads_playSound (asset : String) :
    Reads (actWithin n) ("play".toList ++ ' ' :: ("sound".toList ++ ' ' ::
      ((Text.quote asset).toList ++ '\n' :: tail))) (unspaced tail) (· = .playSound asset) := by
  -- the reader for music stands before this one and begins with the same word
  have hmusic : Misses playMusicStatement ("play".toList ++ ' ' :: ("sound".toList ++ ' ' ::
      ((Text.quote asset).toList ++ '\n' :: tail))) := by
    refine ((reads_word "play" _).bind_misses fun _ _ => Misses.bind (misses_token ?_)).rule
    rw [unspaced_word "sound" (by decide)]
    exact not_prefix_append (by decide) _
  exact reads_act (k := 13) rfl (by simpa [actReaders] using hmusic)
    (reads_wordsQuote (by decide) "play" asset .playSound).rule

/-- The text of an act on one line, with the rest of the script after it. -/
theorem reads_simple {act : Act Statement} (hact : act.Named) (hcomment : ∀ text, act ≠ .comment text)
    {text : String} (htext : act.simpleText = some text) (ht : FollowsStatement (unspaced tail)) :
    Reads (actWithin n) (text.toList ++ '\n' :: tail) (unspaced tail) (· = act.written) := by
  obtain ⟨hnames, hexpressions⟩ := hact
  cases act with
  | say speaker text' =>
    have hspeaker : ∀ name ∈ speaker, isName name = true :=
      fun name hname => hnames name (Option.mem_toList.2 hname)
    have hfront : text.toList ++ '\n' :: tail = "say".toList ++ ' ' ::
        (speaker.elim [] (fun name => name.toList ++ [' ']) ++
          ((Text.quote text').toList ++ '\n' :: tail)) := by
      cases speaker <;> obtain rfl := Option.some.inj htext <;> simp
    rw [hfront]
    exact reads_say hspeaker text'
  | showBackground asset =>
    obtain rfl := Option.some.inj htext
    have hfront : ("show background " ++ Text.quote asset).toList ++ '\n' :: tail =
        "show".toList ++ ' ' :: ("background".toList ++ ' ' ::
          ((Text.quote asset).toList ++ '\n' :: tail)) := by simp
    rw [hfront]
    exact reads_act (k := 2) rfl (by simp [actReaders])
      (reads_wordsQuote (by decide) "show" asset .showBackground).rule
  | showCharacter character position =>
    have hcharacter : isName character = true := hnames _ List.mem_cons_self
    have hposition : ∀ name ∈ position, isName name = true :=
      fun name hname => hnames name (List.mem_cons_of_mem _ (Option.mem_toList.2 hname))
    have hfront : text.toList ++ '\n' :: tail = "show".toList ++ ' ' :: (character.toList ++
        (position.elim [] (fun name => " at ".toList ++ name.toList) ++ '\n' :: tail)) := by
      cases position <;> obtain rfl := Option.some.inj htext <;> simp
    rw [hfront]
    exact reads_showCharacter hcharacter hposition ht
  | hide character =>
    obtain rfl := Option.some.inj htext
    have hfront : ("hide " ++ character).toList ++ '\n' :: tail =
        "hide".toList ++ ' ' :: (character.toList ++ '\n' :: tail) := by simp
    rw [hfront]
    exact reads_act (k := 4) rfl (by simp [actReaders])
      (reads_wordName (hnames _ List.mem_cons_self) "hide" .hide).rule
  | set target value =>
    obtain rfl := Option.some.inj htext
    have hfront : ("set " ++ target ++ " = " ++ value.render).toList ++ '\n' :: tail =
        "set".toList ++ ' ' :: (target.toList ++ ' ' :: '=' :: ' ' ::
          (value.render.toList ++ '\n' :: tail)) := by simp
    rw [hfront]
    exact reads_set (hnames _ List.mem_cons_self) (hexpressions _ List.mem_cons_self) ht
  | goto target =>
    obtain rfl := Option.some.inj htext
    have hfront : ("goto " ++ target).toList ++ '\n' :: tail =
        "goto".toList ++ ' ' :: (target.toList ++ '\n' :: tail) := by simp
    rw [hfront]
    exact reads_act (k := 10) rfl (by simp [actReaders])
      (reads_wordName (hnames _ List.mem_cons_self) "goto" .goto).rule
  | wait seconds =>
    obtain rfl := Option.some.inj htext
    have hfront : ("wait " ++ seconds.literal).toList ++ '\n' :: tail =
        "wait".toList ++ ' ' :: (seconds.literal.toList ++ '\n' :: tail) := by simp
    rw [hfront]
    exact reads_wait seconds
  | playMusic asset =>
    obtain rfl := Option.some.inj htext
    have hfront : ("play music " ++ Text.quote asset).toList ++ '\n' :: tail =
        "play".toList ++ ' ' :: ("music".toList ++ ' ' ::
          ((Text.quote asset).toList ++ '\n' :: tail)) := by simp
    rw [hfront]
    exact reads_act (k := 12) rfl (by simp [actReaders])
      (reads_wordsQuote (by decide) "play" asset .playMusic).rule
  | playSound asset =>
    obtain rfl := Option.some.inj htext
    have hfront : ("play sound " ++ Text.quote asset).toList ++ '\n' :: tail =
        "play".toList ++ ' ' :: ("sound".toList ++ ' ' ::
          ((Text.quote asset).toList ++ '\n' :: tail)) := by simp
    rw [hfront]
    exact reads_playSound asset
  | stopMusic =>
    obtain rfl := Option.some.inj htext
    have hfront : "stop music".toList ++ '\n' :: tail =
        "stop".toList ++ ' ' :: ("music".toList ++ '\n' :: tail) := by simp
    rw [hfront]
    exact reads_stopMusic
  | transition kind duration =>
    obtain rfl := Option.some.inj htext
    have hfront : ("transition " ++ kind ++ " " ++ duration.literal).toList ++ '\n' :: tail =
        "transition".toList ++ ' ' :: (kind.toList ++ ' ' ::
          (duration.literal.toList ++ '\n' :: tail)) := by simp
    rw [hfront]
    exact reads_transition (hnames _ List.mem_cons_self) duration
  | comment text' => exact absurd rfl (hcomment text')
  | _ => cases htext

end OneLine

end Novella.Proofs
