import Novella.Proofs.Script.StatementReading

/-!
# Reading statements in statements

The induction is on the statement: it is `Readable` if the statements nested in it are. A body is
read statement by statement up to the end of its block, so what is claimed of a statement is
that the repetition that reads a body can be continued over it. An `if` after an `else` is
claimed separately, since it is read without a statement around it.

Each block costs one step of the depth that is left, and takes two characters at least; so the
length of the text bounds the depth that is needed.
-/

namespace Novella.Proofs

open Script Script.Parser

/-- The statements read are those that the text of a body stands for. -/
def SameBody (read body : List Statement) : Prop :=
  rebuildBody unplaceAct read = rebuildBody rereadAct body

/-- The act read is the one that the text of an act stands for. -/
def SameAct (read act : Act Statement) : Prop :=
  read.mapBodies (rebuildBody unplaceAct) = act.written.mapBodies (rebuildBody rereadAct)

lemma SameAct.statement {read act : Act Statement} (h : SameAct read act)
    (hact : ∀ text, act ≠ .comment text) (loc loc' : Location) :
    SameBody [.mk loc read] [.mk loc' act] := by
  have hreread : rereadAct loc' (act.mapBodies (rebuildBody rereadAct)) =
      [.bare (act.mapBodies (rebuildBody rereadAct)).written] := by
    cases act with
    | comment text => exact absurd rfl (hact text)
    | _ => rfl
  rw [SameBody, rebuildBody_singleton, rebuildBody_singleton, rebuild_mk, rebuild_mk, hreread,
    written_mapBodies, ← h, unplaceAct]

lemma sameBody_nil : SameBody [] [] := rfl

lemma SameBody.append {read body read' body' : List Statement} (h : SameBody read body)
    (h' : SameBody read' body') : SameBody (read ++ read') (body ++ body') := by
  rw [SameBody, rebuildBody_append, rebuildBody_append, h, h']

/-! ## The lines of a statement -/

/-- A text that a statement can begin with is at the front. -/
def BeginsStatement (cs : List Char) : Prop := ∃ word ∈ statementWords, word.toList <+: cs

lemma BeginsStatement.append {cs : List Char} (h : BeginsStatement cs) (tail : List Char) :
    BeginsStatement (cs ++ tail) := by
  obtain ⟨word, hword, hpre⟩ := h
  exact ⟨word, hword, hpre.trans (List.prefix_append _ _)⟩

lemma BeginsStatement.followsStatement {cs : List Char} (h : BeginsStatement cs) :
    FollowsStatement cs := by
  obtain ⟨word, hword, rest, rfl⟩ := h
  exact followsStatement_word hword rest

lemma BeginsStatement.unspaced {cs : List Char} (h : BeginsStatement cs) : unspaced cs = cs := by
  obtain ⟨word, hword, rest, rfl⟩ := h
  have hspace : ∀ w ∈ statementWords, w.toList.head?.any (fun c => !isSpace c) = true := by decide
  have hhead := hspace word hword
  cases hcs : word.toList with
  | nil => simp [hcs] at hhead
  | cons c cs => exact unspaced_cons (by simpa [hcs] using hhead) _

lemma beginsStatement_simpleText {σ : Type} {act : Act σ} {text : String}
    (h : act.simpleText = some text) : BeginsStatement text.toList := by
  cases act with
  | say speaker text =>
    cases speaker <;> obtain rfl := Option.some.inj h <;> exact ⟨"say", by decide, by simp⟩
  | showBackground asset => obtain rfl := Option.some.inj h; exact ⟨"show", by decide, by simp⟩
  | showCharacter character position =>
    cases position <;> obtain rfl := Option.some.inj h <;> exact ⟨"show", by decide, by simp⟩
  | hide character => obtain rfl := Option.some.inj h; exact ⟨"hide", by decide, by simp⟩
  | set target value => obtain rfl := Option.some.inj h; exact ⟨"set", by decide, by simp⟩
  | goto target => obtain rfl := Option.some.inj h; exact ⟨"goto", by decide, by simp⟩
  | wait seconds => obtain rfl := Option.some.inj h; exact ⟨"wait", by decide, by simp⟩
  | playMusic asset => obtain rfl := Option.some.inj h; exact ⟨"play", by decide, by simp⟩
  | playSound asset => obtain rfl := Option.some.inj h; exact ⟨"play", by decide, by simp⟩
  | stopMusic => obtain rfl := Option.some.inj h; exact ⟨"stop", by decide, by simp⟩
  | transition kind duration =>
    obtain rfl := Option.some.inj h
    exact ⟨"transition", by decide, by simp⟩
  | comment text => obtain rfl := Option.some.inj h; exact ⟨"//", by decide, by simp⟩
  | _ => cases h

lemma lines_simple {loc : Location} {act : Act Statement} {text : String}
    (hcomment : ∀ text, act ≠ .comment text) (h : act.simpleText = some text) (depth : Nat) :
    (Statement.mk loc act).lines depth = [⟨depth, text⟩] := by
  cases act with
  | comment text => exact absurd rfl (hcomment text)
  | choice options => cases h
  | branch condition thenBody elseBody => cases h
  | switch subject cases default => cases h
  | loop condition body => cases h
  | block body => cases h
  | _ => simp [Statement.lines, h]

/-- The lines of a statement begin at their depth with a text that a statement can begin with. -/
lemma lines_front (s : Statement) (depth : Nat) :
    ∃ text more, s.lines depth = ⟨depth, text⟩ :: more ∧ BeginsStatement text.toList := by
  obtain ⟨loc, act⟩ := s
  have hsimple : ∀ text, (∀ text, act ≠ .comment text) → act.simpleText = some text →
      ∃ text more, (Statement.mk loc act).lines depth = ⟨depth, text⟩ :: more ∧
        BeginsStatement text.toList := fun text hcomment h =>
    ⟨text, [], lines_simple hcomment h depth, beginsStatement_simpleText h⟩
  cases act with
  | comment text =>
    obtain ⟨line, lines, hlines⟩ := List.exists_cons_of_ne_nil (commentLines_ne_nil text)
    refine ⟨"// " ++ line, lines.map fun line => ⟨depth, "// " ++ line⟩, ?_, "//", by decide, by simp⟩
    rw [Statement.lines, hlines, List.map_cons]
  | choice options => exact ⟨_, _, by rw [Statement.lines]; rfl, "choice", by decide, by decide⟩
  | branch condition thenBody elseBody =>
    exact ⟨_, _, by rw [Statement.lines]; rfl, "if", by decide, by simp⟩
  | switch subject cases default =>
    exact ⟨_, _, by rw [Statement.lines]; rfl, "switch", by decide, by simp⟩
  | loop condition body => exact ⟨_, _, by rw [Statement.lines]; rfl, "while", by decide, by simp⟩
  | block body => exact ⟨_, _, by rw [Statement.lines]; rfl, "\x7b", by decide, by decide⟩
  | say speaker text => cases speaker <;> exact hsimple _ (by simp) rfl
  | showCharacter character position => cases position <;> exact hsimple _ (by simp) rfl
  | _ => exact hsimple _ (by simp) rfl

section Lines

variable {w depth : Nat}

/-- What is left of the lines of a statement once the blanks before them are skipped. -/
lemma unspaced_layout_lines (s : Statement) (depth : Nat) (tail : List Char) :
    ∃ front, unspaced (layout w (s.lines depth) ++ tail) = front ++ tail ∧ BeginsStatement front ∧
      front.length ≤ (layout w (s.lines depth)).length := by
  obtain ⟨text, more, hlines, hbegins⟩ := lines_front s depth
  have hfront := hbegins.append ('\n' :: layout w more)
  refine ⟨text.toList ++ '\n' :: layout w more, ?_, hfront, ?_⟩
  · rw [hlines, unspaced_layout_cons, ← List.cons_append, ← List.append_assoc,
      (hfront.append tail).unspaced]
  · rw [hlines, layout_cons]
    simp only [List.length_append]
    omega

lemma length_unspaced_lt (s : Statement) (depth : Nat) (tail : List Char) :
    (unspaced tail).length < (unspaced (layout w (s.lines depth) ++ tail)).length := by
  obtain ⟨front, hfront, ⟨word, hword, hpre⟩, -⟩ := unspaced_layout_lines (w := w) s depth tail
  have hne : ∀ word ∈ statementWords, 0 < word.toList.length := by decide
  have := hne word hword
  have := hpre.length_le
  have := length_unspaced_le tail
  rw [hfront, List.length_append]
  omega

lemma followsStatement_lines (s : Statement) (depth : Nat) (tail : List Char) :
    FollowsStatement (unspaced (layout w (s.lines depth) ++ tail)) := by
  obtain ⟨front, hfront, hbegins, -⟩ := unspaced_layout_lines (w := w) s depth tail
  exact hfront ▸ (hbegins.append tail).followsStatement

end Lines

/-! ## Bodies -/

/-- The text of a statement reads back at every depth that is as large as the text. -/
structure Readable (w : Nat) (s : Statement) : Prop where
  inBody : ∀ {depth n tail rest goods}, (layout w (s.lines depth)).length ≤ n →
    FollowsStatement (unspaced tail) → ReadsMany (statementWithin n) (unspaced tail) rest goods →
    ReadsMany (statementWithin n) (unspaced (layout w (s.lines depth) ++ tail)) rest
      fun l => ∃ read more, l = read ++ more ∧ SameBody read [s] ∧ goods more
  afterElse : ∀ {condition thenBody elseBody}, s.act = .branch condition thenBody elseBody →
    ∀ {depth n tail}, (layout w (s.lines depth)).length ≤ n → FollowsStatement (unspaced tail) →
    Reads (ifWithin n) (unspaced (layout w (s.lines depth) ++ tail)) (unspaced tail)
      fun read => SameAct read s.act

section Bodies

variable {w n depth : Nat} {body : List Statement} {close tail : List Char}

lemma misses_statement_close : Misses (statementWithin n) ('\x7d' :: tail) := by
  rw [statementWithin_eq]
  refine (reads_here.bind_misses fun _ _ => Misses.bind ?_).rule
  refine misses_first fun p hp => ?_
  obtain ⟨r, hr, rfl⟩ := List.mem_map.1 hp
  have hword : ∀ w ∈ statementWords,
      w.toList.take "\x7d".toList.length ≠ "\x7d".toList.take w.toList.length := by decide
  have hpre : ¬r.1.toList <+: "\x7d".toList ++ tail :=
    not_prefix_append (hword _ (fst_mem_statementWords hr)) tail
  exact misses_actReader hr hpre

lemma reads_body (hbody : ∀ s ∈ body, Readable w s)
    (hlen : (layout w (bodyLines depth body)).length ≤ n) (hclose : unspaced close = '\x7d' :: tail) :
    ReadsMany (statementWithin n) (unspaced (layout w (bodyLines depth body) ++ close))
      ('\x7d' :: tail) fun read => SameBody read body := by
  induction body with
  | nil =>
    rw [bodyLines, layout_nil, List.nil_append, hclose]
    exact misses_statement_close.readsMany.mono fun _ h => h ▸ sameBody_nil
  | cons s body ih =>
    rw [bodyLines, layout_append, List.length_append] at hlen
    rw [bodyLines, layout_append, List.append_assoc]
    have hfollows : FollowsStatement (unspaced (layout w (bodyLines depth body) ++ close)) := by
      cases body with
      | nil => exact hclose ▸ followsStatement_close tail
      | cons t body =>
        rw [bodyLines, layout_append, List.append_assoc]
        exact followsStatement_lines t depth _
    have hmore := ih (fun t ht => hbody t (List.mem_cons_of_mem _ ht)) (by omega)
    refine ((hbody s List.mem_cons_self).inBody (by omega) hfollows hmore).mono ?_
    rintro _ ⟨read, more, rfl, hread, hmore⟩
    exact hread.append hmore

lemma reads_block (hbody : ∀ s ∈ body, Readable w s)
    (hlen : (layout w (bodyLines depth body)).length < n) (hclose : unspaced close = '\x7d' :: tail) :
    Reads (blockWithin n) ('\x7b' :: '\n' :: (layout w (bodyLines depth body) ++ close))
      (unspaced tail) fun read => SameBody read body := by
  obtain ⟨n, rfl⟩ : ∃ m, n = m + 1 := ⟨n - 1, by omega⟩
  rw [blockWithin_succ]
  have hopen := reads_token "\x7b" ('\n' :: (layout w (bodyLines depth body) ++ close))
  rw [unspaced_lineEnd] at hopen
  refine (hopen.bind fun _ _ => (reads_body hbody (by omega) hclose).many.bind fun read hread => ?_).rule
  exact (reads_token "\x7d" tail).map fun _ _ => hread

/-- A block whose closing line has more lines after it. -/
lemma reads_closedBlock {depth' : Nat} (hbody : ∀ s ∈ body, Readable w s)
    (hlen : (layout w (bodyLines depth body)).length < n) (more : List Line) :
    Reads (blockWithin n)
      ('\x7b' :: '\n' :: (layout w (bodyLines depth body ++ ⟨depth', "\x7d"⟩ :: more) ++ tail))
      (unspaced (layout w more ++ tail)) fun read => SameBody read body := by
  have hclose : unspaced (layout w (⟨depth', "\x7d"⟩ :: more) ++ tail) =
      '\x7d' :: '\n' :: (layout w more ++ tail) := by
    rw [unspaced_layout_cons]
    exact unspaced_close _
  have hblock := reads_block hbody hlen hclose
  rwa [unspaced_lineEnd, ← List.append_assoc, ← layout_append] at hblock

/-- A statement whose act is read by itself can be read in a body. -/
lemma reads_inBody {s : Statement} (hact : ∀ text, s.act ≠ .comment text)
    (h : Reads (actWithin n) (unspaced (layout w (s.lines depth) ++ tail)) (unspaced tail)
      fun read => SameAct read s.act) {rest : List Char} {goods : List Statement → Prop}
    (hmore : ReadsMany (statementWithin n) (unspaced tail) rest goods) :
    ReadsMany (statementWithin n) (unspaced (layout w (s.lines depth) ++ tail)) rest
      fun l => ∃ read more, l = read ++ more ∧ SameBody read [s] ∧ goods more := by
  obtain ⟨loc, act⟩ := s
  have hstatement : Reads (statementWithin n)
      (unspaced (layout w ((Statement.mk loc act).lines depth) ++ tail)) (unspaced tail) fun read => SameBody [read] [.mk loc act] := by
    rw [statementWithin_eq]
    refine (reads_here.bind fun place _ => h.map fun read hread => ?_).rule
    exact hread.statement hact place.location loc
  refine (hstatement.readsMany_cons (length_unspaced_lt _ depth tail) hmore).mono ?_
  rintro _ ⟨read, more, rfl, hread, hgoods⟩
  exact ⟨[read], more, rfl, hread, hgoods⟩

end Bodies

/-! ## Statements without others in them -/

lemma sameAct_simple {act : Act Statement} {text : String} (h : act.simpleText = some text) :
    SameAct act.written act := by
  cases act with
  | choice options => cases h
  | branch condition thenBody elseBody => cases h
  | switch subject cases default => cases h
  | loop condition body => cases h
  | block body => cases h
  | _ => rfl

lemma readable_simple {w : Nat} {loc : Location} {act : Act Statement} (hact : act.Named)
    (hcomment : ∀ text, act ≠ .comment text) {text : String} (h : act.simpleText = some text) :
    Readable w (.mk loc act) where
  inBody {depth n tail rest goods} _ ht hmore := by
    refine reads_inBody (s := .mk loc act) hcomment ?_ hmore
    rw [lines_simple hcomment h, unspaced_layout_cons, layout_nil, List.nil_append,
      ((beginsStatement_simpleText h).append _).unspaced]
    exact (reads_simple hact hcomment h ht).mono fun _ hread => hread ▸ sameAct_simple h
  afterElse {condition thenBody elseBody} hbranch := by
    obtain rfl : act = .branch condition thenBody elseBody := hbranch
    cases h

lemma reads_commentLines {w depth n : Nat} {lines : List String} {tail rest : List Char}
    {goods : List Statement → Prop} (hlines : ∀ line ∈ lines, ∀ c ∈ line.toList, endsComment c = false)
    (hmore : ReadsMany (statementWithin n) (unspaced tail) rest goods) :
    ReadsMany (statementWithin n)
      (unspaced (layout w (lines.map fun line => ⟨depth, "// " ++ line⟩) ++ tail)) rest
      fun l => ∃ read more, l = read ++ more ∧ goods more ∧ rebuildBody unplaceAct read =
        lines.map fun line => Statement.bare (.comment (Text.trim line)) := by
  induction lines with
  | nil => exact hmore.mono fun l hl => ⟨[], l, rfl, hl, rfl⟩
  | cons line lines ih =>
    have hbegins : BeginsStatement ("// " ++ line).toList := ⟨"//", by decide, by simp⟩
    have hread : Reads (statementWithin n) (unspaced (layout w
        (⟨depth, "// " ++ line⟩ :: lines.map fun line => ⟨depth, "// " ++ line⟩) ++ tail))
        (unspaced (layout w (lines.map fun line => ⟨depth, "// " ++ line⟩) ++ tail))
        fun read => ∃ loc, read = .mk loc (.comment (Text.trim line)) := by
      rw [statementWithin_eq, unspaced_layout_cons, (hbegins.append _).unspaced]
      refine (reads_here.bind fun place _ =>
        (reads_commentLine (hlines line List.mem_cons_self)).map fun read hread => ?_).rule
      exact ⟨place.location, by rw [hread]⟩
    have hlt : (unspaced (layout w (lines.map fun line => ⟨depth, "// " ++ line⟩) ++ tail)).length <
        (unspaced (layout w
          (⟨depth, "// " ++ line⟩ :: lines.map fun line => ⟨depth, "// " ++ line⟩) ++ tail)).length := by
      have := length_unspaced_le (layout w (lines.map fun line => ⟨depth, "// " ++ line⟩) ++ tail)
      rw [unspaced_layout_cons, (hbegins.append _).unspaced]
      simp only [List.length_append, List.length_cons] at this ⊢
      omega
    refine (hread.readsMany_cons hlt (ih fun l hl => hlines l (List.mem_cons_of_mem _ hl))).mono ?_
    rintro _ ⟨_, _, rfl, ⟨loc, rfl⟩, read, more, rfl, hgoods, hread⟩
    exact ⟨_ :: read, more, rfl, hgoods, by rw [rebuildBody_cons, hread, rebuild_mk]; rfl⟩

lemma readable_comment (w : Nat) (loc : Location) (text : String) :
    Readable w (.mk loc (.comment text)) where
  inBody {depth n tail rest goods} _ ht hmore := by
    rw [Statement.lines]
    refine (reads_commentLines (fun _ => endsComment_of_mem_commentLines) hmore).mono ?_
    rintro _ ⟨read, more, rfl, hgoods, hread⟩
    exact ⟨read, more, rfl, by rw [SameBody, hread, rebuildBody_singleton, rebuild_mk]; rfl, hgoods⟩
  afterElse hbranch := by cases hbranch

/-! ## Statements with others in them -/

section Nested

variable {w n depth : Nat} {loc : Location} {tail : List Char}

lemma reads_beforeBlock {e : Expression} (he : e.Named) (rest : List Char) :
    Reads expression (e.render.toList ++ ' ' :: '\x7b' :: rest) ('\x7b' :: rest) (· = e.written) := by
  have hends : EndsExpression (' ' :: '\x7b' :: rest) :=
    ⟨notAhead_cons (by decide) _, by
      rw [unspaced_blank, unspaced_open]
      exact stops_cons (by decide) le_rfl _⟩
  simpa using reads_expression he hends

lemma unspaced_layout_guarded {word : String} (hword : word ∈ statementWords) {e : Expression}
    {text : String} (htext : text.toList = word.toList ++ ' ' :: (e.render.toList ++ [' ', '\x7b']))
    (lines : List Line) :
    unspaced (layout w (⟨depth, text⟩ :: lines) ++ tail) = word.toList ++ ' ' ::
      (e.render.toList ++ ' ' :: '\x7b' :: '\n' :: (layout w lines ++ tail)) := by
  have hbegins : BeginsStatement text.toList := ⟨word, hword, by simp [htext]⟩
  rw [unspaced_layout_cons, (hbegins.append _).unspaced, htext]
  simp

lemma readable_loop {condition : Expression} {body : List Statement} (hc : condition.Named)
    (hbody : ∀ s ∈ body, Readable w s) : Readable w (.mk loc (.loop condition body)) where
  inBody {depth n tail rest goods} hlen ht hmore := by
    refine reads_inBody (by simp [Statement.act]) ?_ hmore
    rw [Statement.lines, List.cons_append, layout_cons, layout_append] at hlen
    simp only [List.length_append, List.length_cons] at hlen
    rw [Statement.lines, List.cons_append, unspaced_layout_guarded (w := w) (e := condition)
      (show "while" ∈ statementWords by decide) (by simp)]
    refine reads_act (k := 8) rfl (by simp [actReaders]) ?_
    refine ((reads_word "while" _).bind fun _ _ => ?_).rule
    rw [unspaced_render hc]
    refine (reads_beforeBlock hc _).bind fun a ha => ?_
    refine (reads_closedBlock hbody (by omega) []).map fun read hread => ?_
    rw [ha]
    exact congrArg (Act.loop condition.written) hread
  afterElse hbranch := by cases hbranch

lemma readable_block {body : List Statement} (hbody : ∀ s ∈ body, Readable w s) :
    Readable w (.mk loc (.block body)) where
  inBody {depth n tail rest goods} hlen ht hmore := by
    refine reads_inBody (by simp [Statement.act]) ?_ hmore
    rw [Statement.lines, List.cons_append, layout_cons, layout_append] at hlen
    simp only [List.length_append, List.length_cons] at hlen
    rw [Statement.lines, List.cons_append, unspaced_layout_cons]
    have hread : Reads (rule .blockStatement do return Act.block (← blockWithin n))
        ("\x7b".toList ++ '\n' :: (layout w (bodyLines (depth + 1) body ++ [⟨depth, "\x7d"⟩]) ++ tail))
        (unspaced tail) fun read => SameAct read (.block body) := by
      refine ((reads_closedBlock hbody ?_ []).map fun read hread => ?_).rule
      · omega
      · exact congrArg Act.block hread
    exact reads_act (k := 16) rfl (by simp [actReaders]) hread
  afterElse hbranch := by cases hbranch

/-! ### Branches -/

lemma elseLines_block (depth : Nat) {body : List Statement}
    (h : ∀ loc condition thenBody elseBody, body ≠ [.mk loc (.branch condition thenBody elseBody)]) :
    elseLines depth (some body) =
      ⟨depth, "\x7d else \x7b"⟩ :: (bodyLines (depth + 1) body ++ [⟨depth, "\x7d"⟩]) := by
  rw [elseLines]
  · rfl
  · exact h

/-- An `else` with a single `if` in it is written as that `if`; all others have a block. -/
lemma elseLines_some (depth : Nat) (body : List Statement) :
    (∃ s condition thenBody elseBody text more, body = [s] ∧
      s.act = .branch condition thenBody elseBody ∧ s.lines depth = ⟨depth, text⟩ :: more ∧
      elseLines depth (some body) = ⟨depth, "\x7d else " ++ text⟩ :: more) ∨
    elseLines depth (some body) =
      ⟨depth, "\x7d else \x7b"⟩ :: (bodyLines (depth + 1) body ++ [⟨depth, "\x7d"⟩]) := by
  by_cases h : ∃ loc condition thenBody elseBody,
      body = [.mk loc (.branch condition thenBody elseBody)]
  · obtain ⟨loc, condition, thenBody, elseBody, rfl⟩ := h
    refine .inl ⟨_, condition, thenBody, elseBody, "if " ++ condition.render ++ " \x7b",
      bodyLines (depth + 1) thenBody ++ elseLines depth elseBody, rfl, rfl, ?_, ?_⟩
    · rw [Statement.lines, List.cons_append]
    · have htext : "\x7d else if " = "\x7d else " ++ "if " := rfl
      rw [elseLines, htext, List.cons_append, String.append_assoc, String.append_assoc,
        String.append_assoc]
  · exact .inr (elseLines_block depth fun loc condition thenBody elseBody heq =>
      h ⟨loc, condition, thenBody, elseBody, heq⟩)

def elsePart (n : Nat) : Parser (Option (List Statement)) := optional (rule .elseClause do
  token "else"
  orElse (do
      let place ← here
      return [.mk place.location (← ifWithin n)])
    (blockWithin n))

/-- A clause with a body may be left out. -/
lemma reads_clause {r : Rule} {clause : Parser (List Statement)} {cs rest : List Char}
    {body : List Statement} (h : Reads clause cs rest fun read => SameBody read body) :
    Reads (optional (rule r clause)) cs rest fun read =>
      read.map (rebuildBody unplaceAct) = (some body).map (rebuildBody rereadAct) := by
  refine h.rule.optional.mono ?_
  rintro _ ⟨read, rfl, hread⟩
  exact congrArg some hread

/-- The `if` after an `else` is read as the only statement of its body. -/
lemma reads_elseIf {s : Statement} {condition : Expression} {thenBody : List Statement}
    {elseBody : Option (List Statement)} (hs : Readable w s)
    (hact : s.act = .branch condition thenBody elseBody)
    (hlen : (layout w (s.lines depth)).length ≤ n) (ht : FollowsStatement (unspaced tail)) :
    Reads (elsePart n) ("else".toList ++ ' ' :: unspaced (layout w (s.lines depth) ++ tail))
      (unspaced tail) fun read =>
        read.map (rebuildBody unplaceAct) = (some [s]).map (rebuildBody rereadAct) := by
  obtain ⟨text, more, hlines, hbegins⟩ := lines_front s depth
  have hfront : unspaced (layout w (s.lines depth) ++ tail) =
      text.toList ++ '
' :: (layout w more ++ tail) := by
    rw [hlines, unspaced_layout_cons, (hbegins.append _).unspaced]
  have hbranch := hs.afterElse hact hlen ht
  rw [hfront] at hbranch ⊢
  refine reads_clause ((reads_word "else" _).bind fun _ _ => Reads.orElse ?_)
  rw [(hbegins.append _).unspaced]
  refine reads_here.bind fun place _ => hbranch.map fun read hread => ?_
  obtain ⟨loc, act⟩ := s
  exact hread.statement (by rintro text rfl; cases hact) place.location loc

lemma reads_elseBlock {body : List Statement} (hbody : ∀ s ∈ body, Readable w s)
    (hlen : (layout w (bodyLines (depth + 1) body)).length < n) :
    Reads (elsePart n) ("else".toList ++ ' ' :: '\x7b' :: '\n' ::
        (layout w (bodyLines (depth + 1) body ++ [⟨depth, "\x7d"⟩]) ++ tail)) (unspaced tail)
      fun read => read.map (rebuildBody unplaceAct) = (some body).map (rebuildBody rereadAct) := by
  refine reads_clause ((reads_word "else" _).bind fun _ _ => Misses.orElse_reads ?_ ?_)
  · refine reads_here.bind_misses fun _ _ => (misses_ifWithin n ?_).bind
    rw [unspaced_open]
    exact not_prefix_of_head? (w := 'i') (by simp)
  · rw [unspaced_open]
    exact reads_closedBlock hbody hlen []

lemma reads_else {elseBody : Option (List Statement)}
    (helse : ∀ body ∈ elseBody, ∀ s ∈ body, Readable w s)
    (hlen : (layout w (elseLines depth elseBody)).length ≤ n) (ht : FollowsStatement (unspaced tail)) :
    ∃ close, unspaced (layout w (elseLines depth elseBody) ++ tail) = '\x7d' :: close ∧
      Reads (elsePart n) (unspaced close) (unspaced tail) fun read =>
        read.map (rebuildBody unplaceAct) = elseBody.map (rebuildBody rereadAct) := by
  cases elseBody with
  | none =>
    refine ⟨'\n' :: tail, ?_, ?_⟩
    · rw [elseLines, unspaced_layout_cons]
      exact unspaced_close _
    · rw [unspaced_lineEnd]
      exact ((misses_token ht.noElse).bind.rule.optional).mono fun _ h => by rw [h]; rfl
  | some body =>
    rcases elseLines_some depth body with
      ⟨s, condition, thenBody, elseBody, text, more, rfl, hact, hlines, helseLines⟩ | helseLines
    · have hshorter : (layout w (s.lines depth)).length ≤ n := by
        rw [helseLines, layout_cons] at hlen
        rw [hlines, layout_cons]
        simp only [List.length_append, String.toList_append] at hlen ⊢
        omega
      have hread := reads_elseIf (helse _ rfl s List.mem_cons_self) hact hshorter ht
      obtain ⟨text', more', hlines', hbegins⟩ := lines_front s depth
      obtain ⟨rfl, rfl⟩ : text' = text ∧ more' = more := by
        rw [hlines] at hlines'
        simpa [eq_comm] using hlines'
      rw [hlines, unspaced_layout_cons, (hbegins.append _).unspaced] at hread
      refine ⟨' ' :: ("else".toList ++ ' ' :: (text'.toList ++ '\n' :: (layout w more' ++ tail))),
        ?_, ?_⟩
      · rw [helseLines, unspaced_layout_cons, String.toList_append]
        exact unspaced_close _
      · rwa [unspaced_blank, unspaced_word "else" (by decide)]
    · have hshorter : (layout w (bodyLines (depth + 1) body)).length < n := by
        rw [helseLines, layout_cons, layout_append] at hlen
        simp only [List.length_append, List.length_cons] at hlen
        omega
      refine ⟨' ' :: ("else".toList ++ ' ' :: '\x7b' :: '\n' ::
        (layout w (bodyLines (depth + 1) body ++ [⟨depth, "\x7d"⟩]) ++ tail)), ?_, ?_⟩
      · rw [helseLines, unspaced_layout_cons]
        exact unspaced_close _
      · rw [unspaced_blank, unspaced_word "else" (by decide)]
        exact reads_elseBlock (helse body rfl) hshorter

lemma reads_branch {condition : Expression} {thenBody : List Statement}
    {elseBody : Option (List Statement)} (hc : condition.Named) (hthen : ∀ s ∈ thenBody, Readable w s)
    (helse : ∀ body ∈ elseBody, ∀ s ∈ body, Readable w s)
    (hlen : (layout w ((Statement.mk loc (.branch condition thenBody elseBody)).lines depth)).length ≤ n)
    (ht : FollowsStatement (unspaced tail)) :
    Reads (ifWithin n)
      (unspaced (layout w ((Statement.mk loc (.branch condition thenBody elseBody)).lines depth) ++ tail))
      (unspaced tail) fun read => SameAct read (.branch condition thenBody elseBody) := by
  rw [Statement.lines, List.cons_append, layout_cons, layout_append] at hlen
  simp only [List.length_append, List.length_cons] at hlen
  obtain ⟨n, rfl⟩ : ∃ m, n = m + 1 := ⟨n - 1, by omega⟩
  have hhead : 2 ≤ ("if " ++ condition.render ++ " \x7b").toList.length := by
    simp only [String.toList_append, List.length_append]
    exact Nat.le_add_right_of_le (Nat.le_add_right_of_le (by decide))
  have hthenLen : (layout w (bodyLines (depth + 1) thenBody)).length < n := by omega
  have helseLen : (layout w (elseLines depth elseBody)).length ≤ n := by omega
  obtain ⟨close, hclose, hpart⟩ := reads_else helse helseLen ht
  rw [Statement.lines, List.cons_append, unspaced_layout_guarded (w := w) (e := condition)
    (show "if" ∈ statementWords by decide) (by simp), layout_append, List.append_assoc, ifWithin_succ]
  refine ((reads_word "if" _).bind fun _ _ => ?_).rule
  rw [unspaced_render hc]
  refine (reads_beforeBlock hc _).bind fun a ha => ?_
  refine (reads_block hthen hthenLen hclose).bind fun read hread => ?_
  refine hpart.map fun read' hread' => ?_
  rw [ha]
  exact congrArg₂ (Act.branch condition.written) hread hread'

lemma readable_branch {condition : Expression} {thenBody : List Statement}
    {elseBody : Option (List Statement)} (hc : condition.Named) (hthen : ∀ s ∈ thenBody, Readable w s)
    (helse : ∀ body ∈ elseBody, ∀ s ∈ body, Readable w s) :
    Readable w (.mk loc (.branch condition thenBody elseBody)) where
  inBody {depth n tail rest goods} hlen ht hmore := by
    refine reads_inBody (by simp [Statement.act]) ?_ hmore
    have hbranch := reads_branch hc hthen helse hlen ht
    rw [Statement.lines, List.cons_append, unspaced_layout_guarded (w := w) (e := condition)
      (show "if" ∈ statementWords by decide) (by simp)] at hbranch ⊢
    exact reads_act (k := 6) rfl (by simp [actReaders]) hbranch
  afterElse _ := reads_branch hc hthen helse

/-! ### Arms -/

/-- Constructs that are laid out one after the other are read one after the other. -/
lemma reads_laidOut {α β : Type} {p : Parser β} {lines : List α → List Line} {same : β → α → Prop}
    {items : List α} {close rest : List Char} {goods : List β → Prop} (hnil : lines [] = [])
    (hitem : ∀ a ∈ items, ∀ more, Reads p (unspaced (layout w (lines (a :: more)) ++ close))
      (unspaced (layout w (lines more) ++ close)) fun read => same read a)
    (hlt : ∀ a more, (layout w (lines more) ++ close).length <
      (unspaced (layout w (lines (a :: more)) ++ close)).length)
    (hclose : ReadsMany p (unspaced close) rest goods) :
    ReadsMany p (unspaced (layout w (lines items) ++ close)) rest
      fun l => ∃ read more, l = read ++ more ∧ List.Forall₂ same read items ∧ goods more := by
  induction items with
  | nil =>
    rw [hnil, layout_nil, List.nil_append]
    exact hclose.mono fun l hl => ⟨[], l, rfl, .nil, hl⟩
  | cons a items ih =>
    have hmore := ih fun b hb => hitem b (List.mem_cons_of_mem _ hb)
    have hshorter := (length_unspaced_le _).trans_lt (hlt a items)
    refine ((hitem a List.mem_cons_self items).readsMany_cons hshorter hmore).mono ?_
    rintro _ ⟨b, _, rfl, hb, read, more, rfl, hread, hgoods⟩
    exact ⟨b :: read, more, rfl, .cons hb hread, hgoods⟩

/-- The arms of a statement are read up to the first text that is no arm. -/
lemma reads_arms {α : Type} {p : Parser α} {lines : List α → List Line} {same : α → α → Prop}
    {arms : List α} {close : List Char} (hnil : lines [] = [])
    (harm : ∀ a ∈ arms, ∀ more, Reads p (unspaced (layout w (lines (a :: more)) ++ close))
      (unspaced (layout w (lines more) ++ close)) fun read => same read a)
    (hlt : ∀ a more, (layout w (lines more) ++ close).length <
      (unspaced (layout w (lines (a :: more)) ++ close)).length)
    (hclose : Misses p (unspaced close)) :
    ReadsMany p (unspaced (layout w (lines arms) ++ close)) (unspaced close)
      fun read => List.Forall₂ same read arms := by
  refine (reads_laidOut hnil harm hlt hclose.readsMany).mono ?_
  rintro _ ⟨read, _, rfl, hread, rfl⟩
  rwa [List.append_nil]

lemma unspaced_layout_close (w depth : Nat) (tail : List Char) :
    unspaced (layout w [⟨depth, "\x7d"⟩] ++ tail) = '\x7d' :: '\n' :: tail := by
  rw [unspaced_layout_cons]
  exact unspaced_close _

/-! ### Choices -/

/-- The option read is the one that the text of an option stands for. -/
structure SameOption (read option : ChoiceOption Statement) : Prop where
  text : read.text = option.text
  condition : read.condition = option.condition.map Expression.written
  body : SameBody read.body option.body

lemma sameAct_choice {read options : List (ChoiceOption Statement)}
    (h : List.Forall₂ SameOption read options) : SameAct (.choice read) (.choice options) := by
  have hmap : read.map (fun o => { o with body := rebuildBody unplaceAct o.body }) =
      (options.map fun o => { o with condition := o.condition.map Expression.written }).map
        fun o => { o with body := rebuildBody rereadAct o.body } := by
    induction h with
    | nil => rfl
    | cons ho _ ih =>
      simp only [List.map_cons, ih, ho.text, ho.condition]
      rw [ho.body]
  exact congrArg Act.choice hmap

/-- The text between that of an option and its block. -/
def guardText : Option Expression → List Char
  | none => []
  | some condition => ' ' :: ("if".toList ++ ' ' :: condition.render.toList)

lemma layout_optionLines_cons (o : ChoiceOption Statement) (rest : List (ChoiceOption Statement)) :
    layout w (optionLines depth (o :: rest)) = List.replicate (depth * w) ' ' ++
      ((Text.quote o.text).toList ++ (guardText o.condition ++ ' ' :: ("->".toList ++ ' ' ::
        '\x7b' :: '\n' :: layout w (bodyLines (depth + 1) o.body ++
          ⟨depth, "\x7d"⟩ :: optionLines depth rest)))) := by
  obtain ⟨text, condition, body⟩ := o
  cases condition <;> rw [optionLines, List.cons_append, layout_cons] <;> simp [guardText]

lemma unspaced_layout_options (o : ChoiceOption Statement) (rest : List (ChoiceOption Statement)) :
    unspaced (layout w (optionLines depth (o :: rest)) ++ tail) =
      (Text.quote o.text).toList ++ (guardText o.condition ++ ' ' :: ("->".toList ++ ' ' ::
        '\x7b' :: '\n' :: (layout w (bodyLines (depth + 1) o.body ++
          ⟨depth, "\x7d"⟩ :: optionLines depth rest) ++ tail))) := by
  rw [layout_optionLines_cons, List.append_assoc,
    unspaced_append_of_forall fun c hc => by rw [(List.mem_replicate.1 hc).2]; rfl,
    List.append_assoc, unspaced_quote]
  simp

lemma reads_guard {condition : Option Expression} (h : ∀ e ∈ condition, e.Named) (rest : List Char) :
    Reads (optional do token "if"; expression)
      (unspaced (guardText condition ++ ' ' :: ("->".toList ++ ' ' :: rest)))
      ("->".toList ++ ' ' :: rest) (· = condition.map Expression.written) := by
  have harrow : unspaced (' ' :: ("->".toList ++ ' ' :: rest)) = "->".toList ++ ' ' :: rest := by
    rw [unspaced_blank]
    exact unspaced_cons (by decide) _
  cases condition with
  | none =>
    have hif : ¬"if".toList <+: "->".toList ++ ' ' :: rest := not_prefix_append (by decide) _
    rw [guardText, List.nil_append, harrow]
    exact (misses_token hif).bind.optional
  | some e =>
    have hends : EndsExpression (' ' :: ("->".toList ++ ' ' :: rest)) :=
      ⟨notAhead_cons (by decide) _, harrow ▸ .inr (.inr (List.prefix_append _ _))⟩
    have hread : Reads (do token "if"; expression)
        ("if".toList ++ ' ' :: (e.render.toList ++ ' ' :: ("->".toList ++ ' ' :: rest)))
        ("->".toList ++ ' ' :: rest) (· = e.written) := by
      refine (reads_word "if" _).bind fun _ _ => ?_
      rw [unspaced_render (h e rfl)]
      exact harrow ▸ reads_expression (h e rfl) hends
    have hfront : unspaced (guardText (some e) ++ ' ' :: ("->".toList ++ ' ' :: rest)) =
        "if".toList ++ ' ' :: (e.render.toList ++ ' ' :: ("->".toList ++ ' ' :: rest)) := by
      simp only [guardText, List.cons_append, List.append_assoc]
      rw [unspaced_blank, unspaced_word "if" (by decide)]
    rw [hfront]
    refine hread.optional.mono ?_
    rintro _ ⟨_, rfl, rfl⟩
    rfl

lemma reads_option {o : ChoiceOption Statement} (hc : ∀ e ∈ o.condition, e.Named)
    (hbody : ∀ s ∈ o.body, Readable w s) (hlen : (layout w (bodyLines (depth + 1) o.body)).length < n)
    (rest : List (ChoiceOption Statement)) :
    Reads (choiceOption (blockWithin n)) (unspaced (layout w (optionLines depth (o :: rest)) ++ tail))
      (unspaced (layout w (optionLines depth rest) ++ tail)) fun read => SameOption read o := by
  rw [unspaced_layout_options]
  refine ((reads_quotedText o.text _).bind fun text htext => ?_).rule
  refine (reads_guard hc _).bind fun condition hcondition => ?_
  refine (reads_word "->" _).bind fun _ _ => ?_
  rw [unspaced_open]
  refine (reads_closedBlock hbody hlen _).map fun body hbody => ?_
  exact ⟨htext, hcondition, hbody⟩

lemma length_option_le {options : List (ChoiceOption Statement)} {o : ChoiceOption Statement}
    (ho : o ∈ options) : (layout w (bodyLines (depth + 1) o.body)).length ≤
      (layout w (optionLines depth options)).length := by
  induction options with
  | nil => cases ho
  | cons o' rest ih =>
    rw [layout_optionLines_cons, layout_append, layout_cons]
    simp only [List.length_append, List.length_cons]
    rcases List.mem_cons.1 ho with rfl | ho
    · omega
    · have := ih ho
      omega

lemma reads_options {options : List (ChoiceOption Statement)}
    (hc : ∀ o ∈ options, ∀ e ∈ o.condition, e.Named)
    (hbody : ∀ o ∈ options, ∀ s ∈ o.body, Readable w s)
    (hlen : (layout w (optionLines depth options)).length < n) {close : List Char}
    (hclose : unspaced close = '\x7d' :: tail) :
    ReadsMany (choiceOption (blockWithin n)) (unspaced (layout w (optionLines depth options) ++ close))
      (unspaced close) fun read => List.Forall₂ SameOption read options := by
  refine reads_arms rfl (fun o ho rest => ?_) (fun o rest => ?_) ?_
  · exact reads_option (hc o ho) (hbody o ho) ((length_option_le ho).trans_lt hlen) rest
  · rw [unspaced_layout_options, layout_append, layout_cons]
    simp only [List.length_append, List.length_cons]
    omega
  · exact hclose ▸ (misses_quotedText (by simp)).bind.rule

lemma readable_choice {options : List (ChoiceOption Statement)}
    (hc : ∀ o ∈ options, ∀ e ∈ o.condition, e.Named)
    (hbody : ∀ o ∈ options, ∀ s ∈ o.body, Readable w s) : Readable w (.mk loc (.choice options)) where
  inBody {depth n tail rest goods} hlen ht hmore := by
    refine reads_inBody (by simp [Statement.act]) ?_ hmore
    rw [Statement.lines, List.cons_append, layout_cons, layout_append] at hlen
    simp only [List.length_append, List.length_cons] at hlen
    have hoptionsLen : (layout w (optionLines (depth + 1) options)).length < n := by omega
    have hoptions := reads_options hc hbody hoptionsLen (unspaced_layout_close w depth tail)
    have hbegins : BeginsStatement "choice \x7b".toList := ⟨"choice", by decide, by decide⟩
    have hfront : unspaced (layout w ((Statement.mk loc (.choice options)).lines depth) ++ tail) =
        "choice".toList ++ ' ' :: '\x7b' :: '\n' :: (layout w (optionLines (depth + 1) options) ++
          (layout w [⟨depth, "\x7d"⟩] ++ tail)) := by
      rw [Statement.lines, List.cons_append, unspaced_layout_cons, (hbegins.append _).unspaced,
        layout_append, List.append_assoc]
      simp
    rw [hfront]
    refine reads_act (k := 5) rfl (by simp [actReaders]) ?_
    refine ((reads_word "choice" _).bind fun _ _ => ?_).rule
    rw [unspaced_open]
    refine (reads_token "\x7b" _).bind fun _ _ => ?_
    rw [unspaced_lineEnd]
    refine hoptions.many.bind fun read hread => ?_
    rw [unspaced_layout_close, ← unspaced_lineEnd]
    refine (reads_token "\x7d" _).map fun _ _ => ?_
    exact sameAct_choice hread
  afterElse hbranch := by cases hbranch

/-! ### Switches -/

/-- The case read is the one that the text of a case stands for. -/
structure SameCase (read case : SwitchCase Statement) : Prop where
  value : read.value = case.value.written
  body : SameBody read.body case.body

lemma sameAct_switch {subject : Expression} {read cases : List (SwitchCase Statement)}
    {read' default : Option (List Statement)} (h : List.Forall₂ SameCase read cases)
    (h' : read'.map (rebuildBody unplaceAct) = default.map (rebuildBody rereadAct)) :
    SameAct (.switch subject.written read read') (.switch subject cases default) := by
  have hmap : read.map (fun c => { c with body := rebuildBody unplaceAct c.body }) =
      (cases.map fun c => { c with value := c.value.written }).map
        fun c => { c with body := rebuildBody rereadAct c.body } := by
    induction h with
    | nil => rfl
    | cons hc _ ih =>
      simp only [List.map_cons, ih, hc.value]
      rw [hc.body]
  exact congrArg₂ (Act.switch subject.written) hmap h'

lemma unspaced_layout_cases (c : SwitchCase Statement) (rest : List (SwitchCase Statement)) :
    unspaced (layout w (caseLines depth (c :: rest)) ++ tail) =
      "case".toList ++ ' ' :: (c.value.render.toList ++ ' ' :: '\x7b' :: '\n' ::
        (layout w (bodyLines (depth + 1) c.body ++ ⟨depth, "\x7d"⟩ :: caseLines depth rest) ++
          tail)) := by
  obtain ⟨value, body⟩ := c
  have htext : ("case " ++ value.render ++ " \x7b").toList =
      "case".toList ++ ' ' :: (value.render.toList ++ [' ', '\x7b']) := by simp
  rw [caseLines, List.cons_append, unspaced_layout_cons, htext, List.append_assoc,
    unspaced_word "case" (by decide)]
  simp

lemma length_case_le {cases : List (SwitchCase Statement)} {c : SwitchCase Statement}
    (hc : c ∈ cases) : (layout w (bodyLines (depth + 1) c.body)).length ≤
      (layout w (caseLines depth cases)).length := by
  induction cases with
  | nil => cases hc
  | cons c' rest ih =>
    rw [caseLines, List.cons_append, layout_cons, layout_append, layout_cons]
    simp only [List.length_append, List.length_cons]
    rcases List.mem_cons.1 hc with rfl | hc
    · omega
    · have := ih hc
      omega

lemma reads_cases {cases : List (SwitchCase Statement)} (hv : ∀ c ∈ cases, c.value.Named)
    (hbody : ∀ c ∈ cases, ∀ s ∈ c.body, Readable w s)
    (hlen : (layout w (caseLines depth cases)).length < n) {close : List Char}
    (hclose : ¬"case".toList <+: unspaced close) :
    ReadsMany (switchCase (blockWithin n)) (unspaced (layout w (caseLines depth cases) ++ close))
      (unspaced close) fun read => List.Forall₂ SameCase read cases := by
  refine reads_arms rfl (fun c hc rest => ?_) (fun c rest => ?_) ?_
  · rw [unspaced_layout_cases]
    refine ((reads_word "case" _).bind fun _ _ => ?_).rule
    rw [unspaced_render (hv c hc)]
    refine (reads_beforeBlock (hv c hc) _).bind fun value hvalue => ?_
    refine (reads_closedBlock (hbody c hc) ((length_case_le hc).trans_lt hlen) _).map ?_
    exact fun body hbody => ⟨hvalue, hbody⟩
  · rw [unspaced_layout_cases, layout_append, layout_cons]
    simp only [List.length_append, List.length_cons]
    omega
  · exact (misses_token hclose).bind.rule

lemma reads_default {default : Option (List Statement)}
    (hbody : ∀ body ∈ default, ∀ s ∈ body, Readable w s)
    (hlen : (layout w (defaultLines depth default)).length < n) {close : List Char}
    (hclose : unspaced close = '\x7d' :: tail) :
    ¬"case".toList <+: unspaced (layout w (defaultLines depth default) ++ close) ∧
    Reads (optional (rule .defaultCase do
        token "default"
        blockWithin n))
      (unspaced (layout w (defaultLines depth default) ++ close)) (unspaced close) fun read =>
        read.map (rebuildBody unplaceAct) = default.map (rebuildBody rereadAct) := by
  cases default with
  | none =>
    have hcase : ¬"case".toList <+: '\x7d' :: tail := not_prefix_of_head? (w := 'c') (by simp)
    have hdefault : ¬"default".toList <+: '\x7d' :: tail := not_prefix_of_head? (w := 'd') (by simp)
    rw [defaultLines, layout_nil, List.nil_append, hclose]
    exact ⟨hcase, ((misses_token hdefault).bind.rule.optional).mono fun _ h => by rw [h]; rfl⟩
  | some body =>
    have hfront : unspaced (layout w (defaultLines depth (some body)) ++ close) =
        "default".toList ++ ' ' :: '\x7b' :: '\n' ::
          (layout w (bodyLines (depth + 1) body ++ [⟨depth, "\x7d"⟩]) ++ close) := by
      rw [defaultLines, List.cons_append, unspaced_layout_cons]
      exact unspaced_cons (by decide) _
    have hbodyLen : (layout w (bodyLines (depth + 1) body)).length < n := by
      rw [defaultLines, List.cons_append, layout_cons, layout_append] at hlen
      simp only [List.length_append, List.length_cons] at hlen
      omega
    rw [hfront]
    refine ⟨not_prefix_append (by decide) _, ?_⟩
    refine reads_clause ((reads_word "default" _).bind fun _ _ => ?_)
    rw [unspaced_open]
    exact reads_closedBlock (hbody body rfl) hbodyLen []

lemma readable_switch {subject : Expression} {cases : List (SwitchCase Statement)}
    {default : Option (List Statement)} (hsubject : subject.Named)
    (hv : ∀ c ∈ cases, c.value.Named) (hcases : ∀ c ∈ cases, ∀ s ∈ c.body, Readable w s)
    (hdefault : ∀ body ∈ default, ∀ s ∈ body, Readable w s) :
    Readable w (.mk loc (.switch subject cases default)) where
  inBody {depth n tail rest goods} hlen ht hmore := by
    refine reads_inBody (by simp [Statement.act]) ?_ hmore
    rw [Statement.lines, List.cons_append, List.cons_append, layout_cons, layout_append, layout_append]
      at hlen
    simp only [List.length_append, List.length_cons] at hlen
    have hcasesLen : (layout w (caseLines (depth + 1) cases)).length < n := by omega
    have hdefaultLen : (layout w (defaultLines (depth + 1) default)).length < n := by omega
    have hclose := unspaced_layout_close w depth tail
    obtain ⟨hnoCase, hreadDefault⟩ := reads_default hdefault hdefaultLen hclose
    rw [Statement.lines, List.cons_append, List.cons_append,
      unspaced_layout_guarded (w := w) (e := subject) (show "switch" ∈ statementWords by decide)
        (by simp), layout_append, layout_append, List.append_assoc, List.append_assoc]
    refine reads_act (k := 7) rfl (by simp [actReaders]) ?_
    refine ((reads_word "switch" _).bind fun _ _ => ?_).rule
    rw [unspaced_render hsubject]
    refine (reads_beforeBlock hsubject _).bind fun a ha => ?_
    refine (reads_token "\x7b" _).bind fun _ _ => ?_
    rw [unspaced_lineEnd]
    refine (reads_cases hv hcases hcasesLen hnoCase).many.bind fun read hread => ?_
    refine hreadDefault.bind fun read' hread' => ?_
    rw [hclose, ← unspaced_lineEnd]
    refine (reads_token "\x7d" _).map fun _ _ => ?_
    rw [ha]
    exact sameAct_switch hread hread'
  afterElse hbranch := by cases hbranch

end Nested

/-- The text of every statement with names in it reads back, whatever is nested in it. -/
theorem readable (w : Nat) {s : Statement} (h : s.All Act.Named) : Readable w s := by
  induction h with
  | @mk loc act here _ ih =>
    obtain ⟨hnames, hexpressions⟩ := here
    cases act with
    | comment text => exact readable_comment w loc text
    | choice options =>
      exact readable_choice
        (fun o ho e he => hexpressions e (List.mem_filterMap.2 ⟨o, ho, he⟩))
        fun o ho => ih _ (List.mem_map_of_mem ho)
    | branch condition thenBody elseBody =>
      exact readable_branch (hexpressions _ List.mem_cons_self) (ih _ List.mem_cons_self)
        fun body hbody => ih _ (List.mem_cons_of_mem _ (Option.mem_toList.2 hbody))
    | switch subject cases default =>
      exact readable_switch (hexpressions _ List.mem_cons_self)
        (fun c hc => hexpressions _ (List.mem_cons_of_mem _ (List.mem_map_of_mem hc)))
        (fun c hc => ih _ (List.mem_append_left _ (List.mem_map_of_mem hc)))
        fun body hbody => ih _ (List.mem_append_right _ (Option.mem_toList.2 hbody))
    | loop condition body =>
      exact readable_loop (hexpressions _ List.mem_cons_self) (ih _ List.mem_cons_self)
    | block body => exact readable_block (ih _ List.mem_cons_self)
    | say speaker text => cases speaker <;> exact readable_simple ⟨hnames, hexpressions⟩ (by simp) rfl
    | showCharacter character position =>
      cases position <;> exact readable_simple ⟨hnames, hexpressions⟩ (by simp) rfl
    | _ => exact readable_simple ⟨hnames, hexpressions⟩ (by simp) rfl

end Novella.Proofs
