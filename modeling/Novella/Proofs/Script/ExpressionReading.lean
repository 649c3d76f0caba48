import Novella.Script.Reader
import Novella.Proofs.Script.Expressions

/-!
# Reading the text of an expression

The induction is on the expression: an operand is read by the tiers below its operator, and
what stands in parentheses by all of them, one level deeper. Operators of one tier group to
the left, so a chain of them is read off the left spine of the expression, where every step
to the left adds one operator to those that are still to come (`Spelled`).
-/

namespace Novella.Proofs

open Script Script.Parser

/-! ## The front of a text -/

/-- Whether an operand can begin with a character. -/
def beginsOperand (c : Char) : Bool := isNameChar c || c = '-' || c = '"' || c = '('

lemma not_space_of_beginsOperand {c : Char} (h : beginsOperand c = true) : isSpace c = false := by
  have hne : ∀ d : Char, beginsOperand d = false → c ≠ d := by
    rintro d hd rfl
    rw [h] at hd
    cases hd
  simp [isSpace, hne ' ' (by decide), hne '\t' (by decide), hne '\r' (by decide),
    hne '\n' (by decide)]

lemma digits_beginsOperand {c : Char} (h : c.isDigit = true) : beginsOperand c = true := by
  simp [beginsOperand, isNameChar_of_isDigit h]

lemma signed_head (negative : Bool) {cs : List Char} (h : Digits cs) (tail : List Char) :
    ∃ c rest, signText negative ++ (cs ++ tail) = c :: rest ∧ beginsOperand c = true := by
  cases negative with
  | true => exact ⟨'-', cs ++ tail, rfl, by decide⟩
  | false =>
    obtain ⟨c, rest, rfl, hc⟩ := h.exists_cons
    exact ⟨c, rest ++ tail, rfl, digits_beginsOperand hc⟩

lemma literal_head (l : Literal) : ∃ c cs, l.render.toList = c :: cs ∧ beginsOperand c = true := by
  cases l with
  | int n =>
    have hhead := signed_head (n.toInt < 0) (digits_decimalDigits n.toInt.natAbs) []
    rwa [List.append_nil, signText_decimalDigits] at hhead
  | float x =>
    obtain ⟨t, -⟩ := literal_floatText x
    obtain ⟨c, rest, hc, hbegins⟩ := signed_head t.negative t.whole_digits ('.' :: t.part)
    exact ⟨c, rest, t.eq.trans hc, hbegins⟩
  | bool b => cases b <;> exact ⟨_, _, rfl, by decide⟩
  | text s => exact ⟨'"', _, quote_toList s, by decide⟩

lemma wrapped_head (wrap : Bool) {text : String}
    (h : ∃ c cs, text.toList = c :: cs ∧ beginsOperand c = true) :
    ∃ c cs, (Expression.wrapped wrap text).toList = c :: cs ∧ beginsOperand c = true := by
  cases wrap with
  | true => exact ⟨'(', (text ++ ")").toList, by simp [Expression.wrapped], by decide⟩
  | false => exact h

lemma render_head {e : Expression} (h : e.Named) :
    ∃ c cs, e.render.toList = c :: cs ∧ beginsOperand c = true := by
  induction e with
  | literal l => exact literal_head l
  | var name =>
    obtain ⟨c, cs, hname, hc, -⟩ := isName_exists_cons h
    exact ⟨c, cs, hname, by simp [beginsOperand, hc]⟩
  | unary op e ih =>
    cases op with
    | not =>
      exact ⟨'n', ("ot " ++ Expression.wrapped (e.needsParentheses .not) e.render).toList,
        by simp [Expression.render, UnaryOp.render], by decide⟩
    | neg =>
      exact ⟨'-', (Expression.wrapped (e.needsParentheses .neg) e.render).toList,
        by simp [Expression.render, UnaryOp.render], by decide⟩
  | binary op l r ihl ihr =>
    obtain ⟨c, cs, hl, hc⟩ := wrapped_head (l.bindsLooser op false) (ihl h.1)
    exact ⟨c, cs ++ (" " ++ op.symbol ++ " " ++
      Expression.wrapped (r.bindsLooser op true) r.render).toList,
      by simp [Expression.render, hl], hc⟩

lemma unspaced_of_head {cs : List Char} (h : ∃ c rest, cs = c :: rest ∧ beginsOperand c = true)
    (tail : List Char) : unspaced (cs ++ tail) = cs ++ tail := by
  obtain ⟨c, rest, rfl, hc⟩ := h
  exact unspaced_cons (not_space_of_beginsOperand hc) _

/-! ## Operands -/

def Prefixed (inner : Parser Expression) (cs rest : List Char) (e : Expression) : Prop :=
  ∃ ops mid base, ReadsMany unaryOperator cs mid (· = ops) ∧
    Reads (primary inner) mid rest (· = base) ∧
    ops.foldr (fun op e => Expression.unary op e) base = e

lemma Prefixed.reads {inner : Parser Expression} {cs rest : List Char} {e : Expression}
    (h : Prefixed inner cs rest e) : Reads (tier inner 0) cs rest (· = e) := by
  obtain ⟨ops, mid, base, hops, hbase, rfl⟩ := h
  refine (hops.many.bind ?_).rule
  rintro _ rfl
  exact hbase.map fun _ hb => by rw [hb]

lemma Prefixed.of_primary {inner : Parser Expression} {cs rest : List Char} {e : Expression}
    (hops : Misses unaryOperator cs) (h : Reads (primary inner) cs rest (· = e)) :
    Prefixed inner cs rest e :=
  ⟨[], cs, e, hops.readsMany, h, rfl⟩

lemma Prefixed.cons {inner : Parser Expression} {cs mid rest : List Char} {op : UnaryOp}
    {e : Expression} (hop : Reads unaryOperator cs mid (· = op)) (hlt : mid.length < cs.length)
    (h : Prefixed inner mid rest e) : Prefixed inner cs rest (.unary op e) := by
  obtain ⟨ops, mid', base, hops, hbase, rfl⟩ := h
  refine ⟨op :: ops, mid', base, (hop.readsMany_cons hlt hops).mono ?_, hbase, rfl⟩
  rintro _ ⟨_, _, rfl, rfl, rfl⟩
  rfl

lemma reads_not (cs : List Char) : Reads unaryOperator ("not ".toList ++ cs) (unspaced cs)
    (· = .not) := by
  have hspace : unspaced (' ' :: cs) = unspaced cs := unspaced_cons_of_isSpace (by decide) _
  have hscan : scanWord ["not"] ("not".toList ++ ' ' :: cs) = some ("not".toList, ' ' :: cs) :=
    scanWord_append (by decide) (List.all_eq_true.1 rfl) (notAhead_cons (by decide) _)
  rw [← hspace]
  exact Reads.orElse (Reads.rule ((reads_lexeme hscan).map fun _ _ => rfl))

lemma reads_neg {cs : List Char} (h : NotAhead Char.isDigit cs) :
    Reads unaryOperator ('-' :: cs) (unspaced cs) (· = .neg) := by
  have hword : "not".toList ≠ frontWord ('-' :: cs) := ne_frontWord_of_head? (by decide) (by simp)
  have hnot : scanWord ["not"] ('-' :: cs) = none := scanWord_eq_none (by simpa using hword)
  have hscan : scanMinus ('-' :: cs) = some (['-'], cs) := by
    have hany : cs.head?.any Char.isDigit = false := by
      cases hcs : cs.head? with
      | none => rfl
      | some c => exact h c hcs
    simp [scanMinus, hany]
  exact (misses_lexeme hnot).bind.rule.orElse_reads
    (Reads.rule ((reads_lexeme hscan).map fun _ _ => rfl))

/-- No operator stands before a number, though it may begin with a minus. -/
lemma misses_unaryOperator_signed (negative : Bool) {cs : List Char} (h : Digits cs)
    (tail : List Char) : Misses unaryOperator (signText negative ++ (cs ++ tail)) := by
  obtain ⟨c, rest, rfl, hc⟩ := h.exists_cons
  have hn : c ≠ 'n' := ne_of_isDigit hc (by decide)
  cases negative with
  | true =>
    refine misses_unaryOperator ?_ (ne_frontWord_of_head? (by decide) (by simp [signText]))
    simp [signText, scanMinus, hc]
  | false =>
    refine misses_unaryOperator (scanMinus_of_head? (h.head_ne (by decide) tail))
      (ne_frontWord_of_head? (by decide) ?_)
    simpa [signText] using hn

lemma misses_numbers {cs : List Char} (hd : NotAhead Char.isDigit cs) (hm : cs.head? ≠ some '-') :
    Misses floatNumber cs ∧ Misses integer cs := by
  have hint := scanInteger_eq_none hd hm
  exact ⟨misses_floatNumber (scanFloat_eq_none hint), misses_integer hint⟩

lemma misses_boolean {cs : List Char} (ht : "true".toList ≠ frontWord cs)
    (hf : "false".toList ≠ frontWord cs) : Misses boolean cs :=
  (misses_lexeme (scanWord_eq_none (by simpa using ⟨ht, hf⟩))).bind.rule

section Literals

variable (inner : Parser Expression) {tail : List Char}

lemma prefixed_int (n : Int64) (ht : WordEnds tail) :
    Prefixed inner ((toString n.toInt).toList ++ tail) (unspaced tail) (.literal (.int n)) := by
  have htext : (toString n.toInt).toList ++ tail =
      signText (n.toInt < 0) ++ (decimalDigits n.toInt.natAbs ++ tail) := by
    rw [← signText_decimalDigits, List.append_assoc]
  have hdigits := digits_decimalDigits n.toInt.natAbs
  have hfloat : Misses floatNumber ((toString n.toInt).toList ++ tail) :=
    misses_floatNumber (htext ▸ scanFloat_whole _ hdigits ht)
  refine Prefixed.of_primary (htext ▸ misses_unaryOperator_signed _ hdigits tail) ?_
  exact hfloat.bind.orElse_reads
    ((reads_integer n ht.not_digit).map fun _ hn => by rw [hn]).orElse

lemma prefixed_float (x : Binary64) (ht : WordEnds tail) :
    Prefixed inner (x.literal.toList ++ tail) (unspaced tail) (.literal (.float x.written)) := by
  obtain ⟨t, -⟩ := literal_floatText x
  have htext : x.literal.toList ++ tail =
      signText t.negative ++ (t.whole ++ '.' :: (t.part ++ tail)) := by
    conv_lhs => rw [t.eq]
    simp [signText]
  refine Prefixed.of_primary (htext ▸ misses_unaryOperator_signed _ t.whole_digits _) ?_
  exact ((reads_floatNumber x ht.not_digit).map fun _ hx => by rw [hx]).orElse

lemma prefixed_bool (b : Bool) (ht : WordEnds tail) :
    Prefixed inner ((Literal.bool b).render.toList ++ tail) (unspaced tail)
      (.literal (.bool b)) := by
  have hword : ∀ c ∈ (Literal.bool b).render.toList, isNameChar c = true := by
    cases b <;> exact List.all_eq_true.1 rfl
  have hfront := frontWord_append hword ht.not_nameChar
  have hscan : scanWord ["true", "false"] ((Literal.bool b).render.toList ++ tail) =
      some ((Literal.bool b).render.toList, tail) :=
    scanWord_append (by cases b <;> decide) hword ht.not_nameChar
  have hbool : Reads boolean ((Literal.bool b).render.toList ++ tail) (unspaced tail) (· = b) :=
    ((reads_lexeme hscan).map fun _ hw => by rw [hw]; cases b <;> decide).rule
  obtain ⟨hfloat, hint⟩ : Misses floatNumber ((Literal.bool b).render.toList ++ tail) ∧
      Misses integer ((Literal.bool b).render.toList ++ tail) := by
    cases b <;> exact misses_numbers (notAhead_cons (by decide) _) (by simp [Literal.render])
  refine Prefixed.of_primary (misses_unaryOperator (scanMinus_of_head? ?_) ?_) ?_
  · cases b <;> simp [Literal.render]
  · rw [hfront]
    cases b <;> decide
  · exact hfloat.bind.orElse_reads (hint.bind.orElse_reads
      (hbool.map fun _ hb => by rw [hb]).orElse)

lemma prefixed_text (s : String) :
    Prefixed inner ((Text.quote s).toList ++ tail) (unspaced tail) (.literal (.text s)) := by
  have hquote : ((Text.quote s).toList ++ tail).head? = some '"' := by simp [quote_toList]
  have hword : ∀ w ∈ ["not", "true", "false"],
      w.toList ≠ frontWord ((Text.quote s).toList ++ tail) := by
    have hheads : ∀ w ∈ ["not", "true", "false"], w.toList ≠ [] ∧ some '"' ≠ w.toList.head? := by
      decide
    exact fun w hw => ne_frontWord_of_head? (hheads w hw).1 (hquote ▸ (hheads w hw).2)
  obtain ⟨hfloat, hint⟩ : Misses floatNumber ((Text.quote s).toList ++ tail) ∧
      Misses integer ((Text.quote s).toList ++ tail) :=
    misses_numbers (fun c hc => by rw [hquote] at hc; cases hc; decide) (by rw [hquote]; decide)
  have hbool : Misses boolean ((Text.quote s).toList ++ tail) :=
    misses_boolean (hword "true" (by decide)) (hword "false" (by decide))
  refine Prefixed.of_primary (misses_unaryOperator (scanMinus_of_head? (by rw [hquote]; decide))
    (hword "not" (by decide))) ?_
  exact hfloat.bind.orElse_reads (hint.bind.orElse_reads (hbool.bind.orElse_reads
    ((reads_quotedText s tail).map fun _ hs => by rw [hs]).orElse))

lemma prefixed_literal (l : Literal) (ht : WordEnds tail) :
    Prefixed inner (l.render.toList ++ tail) (unspaced tail) (.literal l.written) := by
  cases l with
  | int n => exact prefixed_int inner n ht
  | float x => exact prefixed_float inner x ht
  | bool b => exact prefixed_bool inner b ht
  | text s => exact prefixed_text inner s

end Literals

lemma prefixed_var (inner : Parser Expression) {name : String} (h : isName name = true)
    {tail : List Char} (ht : WordEnds tail) :
    Prefixed inner (name.toList ++ tail) (unspaced tail) (.var name) := by
  obtain ⟨c, rest, hname, hc, hdigit⟩ := isName_exists_cons h
  have hhead : (name.toList ++ tail).head? = some c := by rw [hname]; rfl
  have hne : ∀ d : Char, isNameChar d = false → c ≠ d := by
    rintro d hd rfl
    rw [hc] at hd
    cases hd
  have hminus : (name.toList ++ tail).head? ≠ some '-' := by
    rw [hhead]
    simpa using hne '-' (by decide)
  have hquote : (name.toList ++ tail).head? ≠ some '"' := by
    rw [hhead]
    simpa using hne '"' (by decide)
  obtain ⟨hfloat, hint⟩ := misses_numbers
    (fun d hd => by rw [hhead] at hd; cases hd; exact hdigit) hminus
  have hkeyword : ∀ w ∈ keywords, w.toList ≠ frontWord (name.toList ++ tail) :=
    fun w hw => ne_frontWord_of_isName h hw ht.not_nameChar
  have hbool : Misses boolean (name.toList ++ tail) :=
    misses_boolean (hkeyword "true" (by decide)) (hkeyword "false" (by decide))
  refine Prefixed.of_primary
    (misses_unaryOperator (scanMinus_of_head? hminus) (hkeyword "not" (by decide))) ?_
  exact hfloat.bind.orElse_reads (hint.bind.orElse_reads (hbool.bind.orElse_reads
    ((misses_quotedText hquote).bind.orElse_reads
      ((reads_identifier h ht.not_nameChar).map fun _ hn => by rw [hn]).orElse)))

/-! ## Tiers -/

lemma reads_tier_of_le {inner : Parser Expression} {m n : Nat} {cs rest : List Char}
    {e : Expression} (h : Reads (tier inner m) cs rest (· = e)) (hmn : m ≤ n)
    (hs : Stops n rest) : Reads (tier inner n) cs rest (· = e) := by
  induction n, hmn using Nat.le_induction with
  | base => exact h
  | succ n _ ih =>
    have hlink : Misses (link inner n) rest := hs.misses_link (Nat.lt_succ_self n)
    refine ((ih (hs.of_le (Nat.le_succ n))).bind fun first hfirst => ?_).rule
    refine hlink.readsMany.many.map fun _ hothers => ?_
    rw [hothers, hfirst]
    rfl

/-- An operand and then operators with operands group to `e` with `more` to its right. -/
def Spelled (inner : Parser Expression) (n : Nat) (cs rest : List Char) (e : Expression)
    (more : List (BinaryOp × Expression)) : Prop :=
  ∃ first others mid, Reads (tier inner n) cs mid (· = first) ∧
    ReadsMany (link inner n) mid rest (· = others) ∧
    others.foldl (fun left (op, right) => Expression.binary op left right) first =
      more.foldl (fun left (op, right) => Expression.binary op left right) e

lemma Spelled.reads {inner : Parser Expression} {n : Nat} {cs rest : List Char} {e : Expression}
    (h : Spelled inner n cs rest e []) : Reads (tier inner (n + 1)) cs rest (· = e) := by
  obtain ⟨first, others, mid, hfirst, hothers, hfold⟩ := h
  refine (hfirst.bind fun a ha => ?_).rule
  refine hothers.many.map fun b hb => ?_
  rw [ha, hb]
  exact hfold

/-- The text of an expression reads back at every depth that is as large as the text. -/
structure Legible (e : Expression) : Prop where
  operand : tierOf e = 0 → ∀ {depth tail}, e.render.toList.length ≤ depth → WordEnds tail →
    Prefixed (expressionWithin depth) (e.render.toList ++ tail) (unspaced tail) e.written
  atTier : ∀ {depth m tail}, e.render.toList.length ≤ depth → tierOf e ≤ m → m ≤ 6 →
    WordEnds tail → Stops m (unspaced tail) →
    Reads (tier (expressionWithin depth) m) (e.render.toList ++ tail) (unspaced tail) (· = e.written)
  spelled : ∀ {depth n tail rest more}, e.render.toList.length ≤ depth → tierOf e ≤ n + 1 → n < 6 →
    WordEnds tail → Stops n (unspaced tail) →
    ReadsMany (link (expressionWithin depth) n) (unspaced tail) rest (· = more) →
    Spelled (expressionWithin depth) n (e.render.toList ++ tail) rest e.written more

/-- An expression without operators between operands is legible if it is read as an operand. -/
lemma Legible.of_operand {e : Expression}
    (h : ∀ {depth tail}, e.render.toList.length ≤ depth → WordEnds tail →
      Prefixed (expressionWithin depth) (e.render.toList ++ tail) (unspaced tail) e.written) :
    Legible e where
  operand _ := h
  atTier hlen _ _ ht hs := reads_tier_of_le (h hlen ht).reads (Nat.zero_le _) hs
  spelled hlen _ _ ht hs hmore :=
    ⟨_, _, _, reads_tier_of_le (h hlen ht).reads (Nat.zero_le _) hs, hmore, rfl⟩

lemma tierOf_le (e : Expression) : tierOf e ≤ 6 := by
  cases e with
  | binary op l r =>
    have := precedence_bounds op
    simp only [tierOf]
    omega
  | _ => exact Nat.zero_le _

lemma stops_cons {c : Char} (h : ∀ k < 6, c ∉ tierHeads k) {n : Nat} (hn : n ≤ 6)
    (cs : List Char) : Stops n (c :: cs) := by
  refine .inl fun k hk d hd heq => h k (by omega) ?_
  simp only [List.head?_cons, Option.some.injEq] at heq
  rwa [heq]

lemma expressionWithin_succ (depth : Nat) : expressionWithin (depth + 1) =
    rule .expression (tier (expressionWithin depth) 6) := rfl

lemma Legible.within {e : Expression} (h : Legible e) {depth : Nat} {tail : List Char}
    (hlen : e.render.toList.length ≤ depth) (ht : WordEnds tail) (hs : Stops 6 (unspaced tail)) :
    Reads (expressionWithin (depth + 1)) (e.render.toList ++ tail) (unspaced tail)
      (· = e.written) := by
  rw [expressionWithin_succ]
  exact (h.atTier hlen (tierOf_le e) le_rfl ht hs).rule

lemma wrapped_toList (text : String) (tail : List Char) :
    (Expression.wrapped true text).toList ++ tail = '(' :: (text.toList ++ ')' :: tail) := by
  simp [Expression.wrapped]

lemma wrapped_false (text : String) : Expression.wrapped false text = text := rfl

lemma Legible.wrapped {e : Expression} (h : Legible e) (hn : e.Named) {depth : Nat}
    (hlen : (Expression.wrapped true e.render).toList.length ≤ depth) (tail : List Char) :
    Prefixed (expressionWithin depth) ((Expression.wrapped true e.render).toList ++ tail)
      (unspaced tail) e.written := by
  have hlong : e.render.toList.length + 2 ≤ depth := by
    have := congrArg List.length (wrapped_toList e.render [])
    simp only [List.append_nil, List.length_cons, List.length_append, List.length_nil] at this
    omega
  obtain ⟨depth, rfl⟩ : ∃ d, depth = d + 1 := ⟨depth - 1, by omega⟩
  rw [wrapped_toList]
  obtain ⟨hfloat, hint⟩ : Misses floatNumber ('(' :: (e.render.toList ++ ')' :: tail)) ∧
      Misses integer ('(' :: (e.render.toList ++ ')' :: tail)) :=
    misses_numbers (notAhead_cons (by decide) _) (by simp)
  have hword : ∀ w : List Char, w ≠ [] → w.head? ≠ some '(' →
      w ≠ frontWord ('(' :: (e.render.toList ++ ')' :: tail)) :=
    fun w hw hhead => ne_frontWord_of_head? hw hhead.symm
  have hclose : unspaced (')' :: tail) = ')' :: tail := unspaced_cons (by decide) _
  have hinner : Reads (expressionWithin (depth + 1)) (e.render.toList ++ ')' :: tail)
      (unspaced (')' :: tail)) (· = e.written) :=
    h.within (by omega) (notAhead_cons (by decide) _) (hclose ▸ stops_cons (by decide) le_rfl _)
  rw [hclose] at hinner
  refine Prefixed.of_primary (misses_unaryOperator (scanMinus_of_head? (by simp))
    (hword _ (by decide) (by decide))) ?_
  refine hfloat.bind.orElse_reads (hint.bind.orElse_reads
    ((misses_boolean (hword _ (by decide) (by decide)) (hword _ (by decide) (by decide))).bind.orElse_reads
    ((misses_quotedText (by simp)).bind.orElse_reads
    ((misses_identifier (notAhead_cons (by decide) _)).bind.orElse_reads (Reads.orElse ?_)))))
  refine (reads_token "(" (e.render.toList ++ ')' :: tail)).bind fun _ _ => ?_
  rw [unspaced_of_head (render_head hn)]
  refine hinner.bind fun a ha => ?_
  exact (reads_token ")" tail).map fun _ _ => ha

/-- An operand with the parentheses that it needs is read by the tiers below its operator. -/
lemma Legible.atTier_wrapped {e : Expression} (h : Legible e) (hn : e.Named) {wrap : Bool}
    {depth m : Nat} {tail : List Char} (hwrap : wrap = false → tierOf e ≤ m) (hm : m ≤ 6)
    (hlen : (Expression.wrapped wrap e.render).toList.length ≤ depth) (ht : WordEnds tail)
    (hs : Stops m (unspaced tail)) :
    Reads (tier (expressionWithin depth) m) ((Expression.wrapped wrap e.render).toList ++ tail)
      (unspaced tail) (· = e.written) := by
  cases wrap with
  | true => exact reads_tier_of_le (h.wrapped hn hlen tail).reads (Nat.zero_le _) hs
  | false => exact h.atTier hlen (hwrap rfl) hm ht hs

lemma binary_toList (op : BinaryOp) (l r : Expression) (tail : List Char) :
    (Expression.binary op l r).render.toList ++ tail =
      (Expression.wrapped (l.bindsLooser op false) l.render).toList ++
        ' ' :: (op.symbol.toList ++ ' ' ::
          ((Expression.wrapped (r.bindsLooser op true) r.render).toList ++ tail)) := by
  simp [Expression.render]

lemma unspaced_symbol (op : BinaryOp) (cs : List Char) :
    unspaced (' ' :: (op.symbol.toList ++ cs)) = op.symbol.toList ++ cs := by
  rw [unspaced_cons_of_isSpace (by decide)]
  cases op <;> exact unspaced_cons (by decide) _

lemma tierOf_left {op : BinaryOp} {l : Expression} {n : Nat} (hop : op.precedence + n = 6)
    (h : l.bindsLooser op false = false) : tierOf l ≤ n + 1 := by
  cases l with
  | binary op' _ _ =>
    simp only [Expression.bindsLooser, Bool.false_eq_true, if_false, decide_eq_false_iff_not] at h
    simp only [tierOf]
    omega
  | _ => exact Nat.zero_le _

lemma tierOf_right {op : BinaryOp} {r : Expression} {n : Nat} (hop : op.precedence + n = 6)
    (h : r.bindsLooser op true = false) : tierOf r ≤ n := by
  cases r with
  | binary op' _ _ =>
    simp only [Expression.bindsLooser, if_true, decide_eq_false_iff_not] at h
    simp only [tierOf]
    omega
  | _ => exact Nat.zero_le _

lemma Legible.reads_link {op : BinaryOp} {r : Expression} (hr : Legible r) (hrn : r.Named)
    {depth n : Nat} {tail : List Char} (hop : op.precedence + n = 6)
    (hlen : (Expression.wrapped (r.bindsLooser op true) r.render).toList.length ≤ depth)
    (ht : WordEnds tail) (hs : Stops n (unspaced tail)) :
    Reads (link (expressionWithin depth) n)
      (op.symbol.toList ++ ' ' ::
        ((Expression.wrapped (r.bindsLooser op true) r.render).toList ++ tail))
      (unspaced tail) (· = (op, r.written)) := by
  have hright := hr.atTier_wrapped hrn (tierOf_right hop) (by omega) hlen ht hs
  refine (reads_tierOperator hop _).bind fun a ha => ?_
  rw [unspaced_of_head (wrapped_head _ (render_head hrn))]
  refine hright.map fun b hb => ?_
  rw [ha, hb]

/-- An operation is read off its left spine: the operator and its right operand come before
whatever follows the operation. -/
lemma Legible.spelled_binary {op : BinaryOp} {l r : Expression} (hl : Legible l) (hr : Legible r)
    (hln : l.Named) (hrn : r.Named) {depth n : Nat} {tail rest : List Char}
    {more : List (BinaryOp × Expression)} (hop : op.precedence + n = 6)
    (hlen : (Expression.binary op l r).render.toList.length ≤ depth) (ht : WordEnds tail)
    (hs : Stops n (unspaced tail))
    (hmore : ReadsMany (link (expressionWithin depth) n) (unspaced tail) rest (· = more)) :
    Spelled (expressionWithin depth) n ((Expression.binary op l r).render.toList ++ tail) rest
      (Expression.binary op l r).written more := by
  have hn : n < 6 := by
    have := precedence_bounds op
    omega
  have hsize := congrArg List.length (binary_toList op l r [])
  simp only [List.append_nil, List.length_cons, List.length_append] at hsize
  have hrlen : (Expression.wrapped (r.bindsLooser op true) r.render).toList.length ≤ depth := by
    omega
  have hlink := hr.reads_link hrn hop hrlen ht hs
  have hshorter : (unspaced tail).length < (op.symbol.toList ++ ' ' ::
      ((Expression.wrapped (r.bindsLooser op true) r.render).toList ++ tail)).length := by
    have := length_unspaced_le tail
    simp only [List.length_append, List.length_cons]
    omega
  have hmore' : ReadsMany (link (expressionWithin depth) n) (op.symbol.toList ++ ' ' ::
      ((Expression.wrapped (r.bindsLooser op true) r.render).toList ++ tail)) rest
      (· = (op, r.written) :: more) := by
    refine (hlink.readsMany_cons hshorter hmore).mono ?_
    rintro _ ⟨_, _, rfl, rfl, rfl⟩
    rfl
  have hstop : Stops n (op.symbol.toList ++ ' ' ::
      ((Expression.wrapped (r.bindsLooser op true) r.render).toList ++ tail)) :=
    stops_symbol (by omega) _
  rw [← unspaced_symbol] at hmore' hstop
  have htail : WordEnds (' ' :: (op.symbol.toList ++ ' ' ::
      ((Expression.wrapped (r.bindsLooser op true) r.render).toList ++ tail))) :=
    notAhead_cons (by decide) _
  rw [binary_toList]
  cases hwrap : l.bindsLooser op false with
  | true =>
    rw [hwrap] at hsize
    have hllen : (Expression.wrapped true l.render).toList.length ≤ depth := by omega
    exact ⟨_, _, _, hl.atTier_wrapped hln (by simp) (by omega) hllen htail hstop, hmore', rfl⟩
  | false =>
    rw [hwrap, wrapped_false] at hsize
    have hllen : l.render.toList.length ≤ depth := by omega
    exact hl.spelled hllen (tierOf_left hop hwrap) hn htail hstop hmore'

lemma Legible.binary {op : BinaryOp} {l r : Expression} (hl : Legible l) (hr : Legible r)
    (hln : l.Named) (hrn : r.Named) : Legible (.binary op l r) := by
  have hbounds := precedence_bounds op
  have hchain : ∀ {depth n tail}, (Expression.binary op l r).render.toList.length ≤ depth →
      op.precedence + n = 6 → WordEnds tail → Stops (n + 1) (unspaced tail) →
      Reads (tier (expressionWithin depth) (n + 1))
        ((Expression.binary op l r).render.toList ++ tail) (unspaced tail)
        (· = (Expression.binary op l r).written) := fun hlen hop ht hs =>
    (hl.spelled_binary hr hln hrn hop hlen ht (hs.of_le (Nat.le_succ _))
      (hs.misses_link (Nat.lt_succ_self _)).readsMany).reads
  have htier : ∀ {depth m tail}, (Expression.binary op l r).render.toList.length ≤ depth →
      tierOf (.binary op l r) ≤ m → m ≤ 6 → WordEnds tail → Stops m (unspaced tail) →
      Reads (tier (expressionWithin depth) m) ((Expression.binary op l r).render.toList ++ tail)
        (unspaced tail) (· = (Expression.binary op l r).written) := by
    intro depth m tail hlen htier hm ht hs
    simp only [tierOf] at htier
    exact reads_tier_of_le (hchain (n := 6 - op.precedence) hlen (by omega) ht
      (hs.of_le (by omega))) (by omega) hs
  refine ⟨fun h0 => ?_, htier, fun {depth n tail rest more} hlen htop hn ht hs hmore => ?_⟩
  · simp only [tierOf] at h0
    omega
  · simp only [tierOf] at htop
    by_cases hop : op.precedence + n = 6
    · exact hl.spelled_binary hr hln hrn hop hlen ht hs hmore
    · exact ⟨_, _, _, htier hlen (by simp only [tierOf]; omega) (by omega) ht hs, hmore, rfl⟩

lemma unary_toList (op : UnaryOp) (e : Expression) (tail : List Char) :
    (Expression.unary op e).render.toList ++ tail =
      op.render.toList ++ ((Expression.wrapped (e.needsParentheses op) e.render).toList ++ tail) := by
  simp [Expression.render]

/-- What follows a minus without parentheses is no number. -/
lemma notAhead_digit_of_neg {e : Expression} (h : e.Named) (tail : List Char) :
    NotAhead Char.isDigit
      ((Expression.wrapped (e.needsParentheses .neg) e.render).toList ++ tail) := by
  have hcons : ∀ (c : Char) (cs : List Char), c.isDigit = false →
      NotAhead Char.isDigit (c :: cs) := fun c cs hc => notAhead_cons hc cs
  cases hwrap : e.needsParentheses .neg with
  | true => exact wrapped_toList e.render tail ▸ hcons _ _ (by decide)
  | false =>
    change NotAhead Char.isDigit (e.render.toList ++ tail)
    cases e with
    | literal l =>
      cases l with
      | int n => cases hwrap
      | float x => cases hwrap
      | bool b => cases b <;> exact hcons _ _ (by decide)
      | text s =>
        rw [Expression.render, Literal.render, quote_toList]
        exact hcons _ _ (by decide)
    | var name =>
      obtain ⟨c, rest, hname, -, hc⟩ := isName_exists_cons h
      rw [Expression.render, hname]
      exact hcons _ _ hc
    | unary op e =>
      rw [unary_toList]
      cases op <;> exact hcons _ _ (by decide)
    | binary op l r => cases hwrap

lemma Legible.unary {op : UnaryOp} {e : Expression} (he : Legible e) (hn : e.Named) :
    Legible (.unary op e) := by
  refine .of_operand fun {depth tail} hlen ht => ?_
  have hsize := congrArg List.length (unary_toList op e [])
  simp only [List.append_nil, List.length_append] at hsize
  have hoperand : Prefixed (expressionWithin depth)
      ((Expression.wrapped (e.needsParentheses op) e.render).toList ++ tail) (unspaced tail)
      e.written := by
    cases hwrap : e.needsParentheses op with
    | true =>
      rw [hwrap] at hsize
      exact he.wrapped hn (by omega) tail
    | false =>
      rw [hwrap, wrapped_false] at hsize
      refine he.operand ?_ (by omega) ht
      cases e with
      | binary op l r => cases hwrap
      | _ => rfl
  rw [unary_toList]
  have hspaces := unspaced_of_head
    (wrapped_head (e.needsParentheses op) (render_head hn)) tail
  cases op with
  | not =>
    have hop := reads_not
      ((Expression.wrapped (e.needsParentheses .not) e.render).toList ++ tail)
    rw [hspaces] at hop
    refine Prefixed.cons hop ?_ hoperand
    simp only [UnaryOp.render, List.length_append]
    exact Nat.lt_add_of_pos_left (by decide)
  | neg =>
    have hop := reads_neg (notAhead_digit_of_neg hn tail)
    rw [hspaces] at hop
    exact Prefixed.cons hop (Nat.lt_succ_self _) hoperand

theorem legible {e : Expression} (h : e.Named) : Legible e := by
  induction e with
  | literal l => exact .of_operand fun _ ht => prefixed_literal _ l ht
  | var name => exact .of_operand fun _ ht => prefixed_var _ h ht
  | unary op e ih => exact (ih h).unary h
  | binary op l r ihl ihr => exact (ihl h.1).binary (ihr h.2) h.1 h.2

/-! ## Whole expressions -/

/-- Where a text goes on so that an expression before it is read up to there. -/
def EndsExpression (tail : List Char) : Prop := WordEnds tail ∧ Stops 6 (unspaced tail)

lemma endsExpression_nil : EndsExpression [] :=
  ⟨notAhead_nil, .inl fun _ _ _ _ => by simp [unspaced]⟩

lemma reads_expression {e : Expression} (h : e.Named) {tail : List Char}
    (ht : EndsExpression tail) :
    Reads expression (e.render.toList ++ tail) (unspaced tail) (· = e.written) :=
  fun place overflow frontier =>
    (legible h).within (by rw [List.length_append]; exact Nat.le_add_right _ _) ht.1 ht.2
      place overflow frontier

lemma run_of_reads {α : Type} {p : Parser α} {source : String} {rest : List Char}
    {good : α → Prop} (h : Reads p source.toList rest good) :
    ∃ a, p.run source = .ok a ∧ good a := by
  obtain ⟨a, place, frontier, hp, ha⟩ := h {} none {}
  exact ⟨a, by simp only [Parser.run, hp], ha⟩

/-- The text of an expression reads back as the expression, up to numbers without a literal. -/
theorem parseExpression_render {e : Expression} (h : e.Named) :
    parseExpression e.render = .ok e.written := by
  have hread : Reads expressionOnly e.render.toList [] (· = e.written) := by
    refine Reads.rule (reads_spaces.bind fun _ _ => ?_)
    have hexpression := reads_expression h endsExpression_nil
    rw [List.append_nil] at hexpression
    have hspaces := unspaced_of_head (render_head h) []
    rw [List.append_nil] at hspaces
    rw [hspaces]
    exact hexpression.bind fun a ha => reads_endOfText.bind fun _ _ => reads_pure ha
  obtain ⟨a, hrun, rfl⟩ := run_of_reads hread
  exact hrun

end Novella.Proofs
