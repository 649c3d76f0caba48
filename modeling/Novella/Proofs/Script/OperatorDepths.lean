import Novella.Proofs.Script.ExpressionReading
import Novella.Proofs.Script.Findings

/-!
# The depths of the operators in a text

How deep in parentheses the operators between operands stand can be seen in a text without grouping
it (`operatorDepths`). An expression in turn says which depths its operators can have
(`Expression.OperatorsAt`): an operand that binds too loosely for its place stands deeper than the
operator beside it. Whatever is read from a text has its operators at the depths that are seen in the
text (`operatorsAt_of_parseExpression`).

The proof follows the grammar. `Takes p R` relates what is left of the text before and after `p` and
the value that `p` found in between.
-/

namespace Novella.Script

open Proofs (eq_of_spanQuoted)

/-- The characters with which operators between operands begin, words excepted. -/
def operatorSigns : List Char := ['+', '-', '*', '/', '%', '<', '>', '=', '!']

/-- The depths of parentheses at which the operators between operands stand. Only where an operand
has `ended` can there be one: elsewhere a minus is a sign, and another sign belongs to the operator
before it. -/
def operatorDepths (ended : Bool) (depth : Nat) : List Char → List Nat
  | [] => []
  | c :: cs =>
    if c.isDigit then operatorDepths true depth cs
    else if isNameChar c then
      let word := c :: cs.takeWhile isNameChar
      let rest := cs.dropWhile isNameChar
      if ended && (word = "and".toList || word = "or".toList) then
        depth :: operatorDepths false depth rest
      else operatorDepths (ended || word ≠ "not".toList) depth rest
    else if c = '"' && !ended then
      match _ : Text.spanQuoted cs with
      | some (_, rest) => operatorDepths true depth rest
      | none => []
    else if ended then
      if c = ')' then operatorDepths true (depth - 1) cs
      else if c ∈ operatorSigns then depth :: operatorDepths false depth cs
      else operatorDepths true depth cs
    else operatorDepths false (if c = '(' then depth + 1 else depth) cs
termination_by cs => cs.length
decreasing_by
  all_goals simp only [List.length_cons]
  all_goals first
    | exact Nat.lt_succ_self _
    | exact Nat.lt_succ_of_le (List.dropWhile_sublist _).length_le
    | next h =>
      have := congrArg List.length (eq_of_spanQuoted h)
      simp only [List.length_append, List.length_cons] at this
      omega

/-- The highest tier of operators in an operand without parentheses. -/
def BinaryOp.operandTier (op : BinaryOp) (onRight : Bool) : Nat :=
  if onRight then 6 - op.precedence else 7 - op.precedence

/-- The expression can be read with the operators of the first `n` tiers outside of parentheses from
a text at `depth` whose operators stand at the depths `ds`. An operation beyond these tiers stands
deeper. -/
def Expression.OperatorsAt : Expression → Nat → Nat → List Nat → Prop
  | .literal _, _, _, ds => ds = []
  | .var _, _, _, ds => ds = []
  | .unary _ e, _, depth, ds => e.OperatorsAt 0 depth ds
  | .binary op l r, n, depth, ds =>
    ∃ k left right, ds = left ++ k :: right ∧ depth ≤ k ∧ (n < 7 - op.precedence → depth < k) ∧
      l.OperatorsAt (op.operandTier false) k left ∧ r.OperatorsAt (op.operandTier true) k right

/-- How many operators between operands there are. -/
def Expression.operators : Expression → Nat
  | .literal _ => 0
  | .var _ => 0
  | .unary _ e => e.operators
  | .binary _ l r => l.operators + 1 + r.operators

end Novella.Script

namespace Novella.Proofs

open Script Script.Parser

/-! ## Operators of an expression -/

section Expressions

variable {e : Expression} {m n depth : Nat} {ds : List Nat}

lemma operandTier_left (op : BinaryOp) : op.operandTier false = 7 - op.precedence := rfl

lemma operandTier_right (op : BinaryOp) : op.operandTier true = 6 - op.precedence := rfl

lemma length_of_operatorsAt (h : e.OperatorsAt n depth ds) : ds.length = e.operators := by
  induction e generalizing n depth ds with
  | literal l => rw [h]; rfl
  | var name => rw [h]; rfl
  | unary op e ih => exact ih h
  | binary op l r ihl ihr =>
    obtain ⟨k, left, right, rfl, -, -, hl, hr⟩ := h
    rw [List.length_append, List.length_cons, ihl hl, ihr hr, Expression.operators]
    omega

lemma operatorsAt_of_le (h : e.OperatorsAt m depth ds) (hmn : m ≤ n) : e.OperatorsAt n depth ds := by
  cases e with
  | binary op l r =>
    obtain ⟨k, left, right, hds, hk, hlt, hl, hr⟩ := h
    exact ⟨k, left, right, hds, hk, fun hn => hlt (hmn.trans_lt hn), hl, hr⟩
  | _ => exact h

/-- What is read in parentheses can stand anywhere. -/
lemma operatorsAt_enclosed (h : e.OperatorsAt m (depth + 1) ds) : e.OperatorsAt n depth ds := by
  induction e generalizing m n with
  | binary op l r =>
    obtain ⟨k, left, right, hds, hk, -, hl, hr⟩ := h
    exact ⟨k, left, right, hds, by omega, fun _ => by omega, hl, hr⟩
  | unary op e ih => exact ih h
  | _ => exact h

/-- An operation that is read where operators of its tier cannot stand is read in parentheses. -/
lemma operatorsAt_deeper (h : e.OperatorsAt n depth ds) (hn : n < tierOf e) :
    e.OperatorsAt 6 (depth + 1) ds := by
  cases e with
  | binary op l r =>
    obtain ⟨k, left, right, hds, -, hlt, hl, hr⟩ := h
    have hop := precedence_bounds op
    exact ⟨k, left, right, hds, hlt hn, fun h6 => by omega, hl, hr⟩
  | _ => exact absurd hn (Nat.not_lt_zero n)

/-- The operators of an expression are where those of an expression with the same value are. -/
lemma operatorsAt_of_sameValue {e' : Expression} (hsame : e.sameValue e' = true)
    (h : e.OperatorsAt n depth ds) : e'.OperatorsAt n depth ds := by
  induction e generalizing e' n depth ds with
  | literal l =>
    cases e' with
    | literal _ => exact h
    | _ => cases hsame
  | var name =>
    cases e' with
    | var _ => exact h
    | _ => cases hsame
  | unary op e ih =>
    cases e' with
    | unary op' f =>
      simp only [Expression.sameValue, Bool.and_eq_true] at hsame
      change f.OperatorsAt 0 depth ds
      exact ih hsame.2 h
    | _ => cases hsame
  | binary op l r ihl ihr =>
    cases e' with
    | binary op' l' r' =>
      simp only [Expression.sameValue, Bool.and_eq_true, decide_eq_true_eq] at hsame
      obtain ⟨⟨rfl, hleft⟩, hright⟩ := hsame
      obtain ⟨k, left, right, hds, hk, hlt, hl, hr⟩ := h
      exact ⟨k, left, right, hds, hk, hlt, ihl hleft hl, ihr hright hr⟩
    | _ => cases hsame

/-- The printer puts parentheses around the operands that bind too loosely for their places. -/
lemma bindsLooser_iff {op : BinaryOp} {onRight : Bool} :
    e.bindsLooser op onRight = true ↔ op.operandTier onRight < tierOf e := by
  have hop := precedence_bounds op
  cases e with
  | binary op' l r =>
    have hop' := precedence_bounds op'
    cases onRight with
    | false =>
      simp only [Expression.bindsLooser, operandTier_left, tierOf, Bool.false_eq_true, if_false,
        decide_eq_true_eq]
      omega
    | true =>
      simp only [Expression.bindsLooser, operandTier_right, tierOf, if_true, decide_eq_true_eq]
      omega
  | _ => simp [Expression.bindsLooser, tierOf]

end Expressions

/-! ## Operators of a text -/

section Texts

variable {ended : Bool} {depth : Nat} {cs rest : List Char}

lemma operatorDepths_digits {ds : List Char} (h : ∀ c ∈ ds, c.isDigit = true) :
    operatorDepths true depth (ds ++ rest) = operatorDepths true depth rest := by
  induction ds with
  | nil => rfl
  | cons c ds ih =>
    rw [List.cons_append, operatorDepths, if_pos (h c List.mem_cons_self)]
    exact ih fun d hd => h d (List.mem_cons_of_mem _ hd)

lemma operatorDepths_minus :
    operatorDepths false depth ('-' :: cs) = operatorDepths false depth cs := by
  rw [operatorDepths, if_neg (by decide), if_neg (by decide), if_neg (by decide),
    if_neg (by decide), if_neg (by decide)]

lemma operatorDepths_numeral {ds : List Char} (negative : Bool) (h : Digits ds) :
    operatorDepths false depth (signText negative ++ (ds ++ rest)) =
      operatorDepths true depth rest := by
  obtain ⟨c, ds, rfl, hc⟩ := h.exists_cons
  have hunsigned : operatorDepths false depth (c :: ds ++ rest) = operatorDepths true depth rest := by
    rw [List.cons_append, operatorDepths, if_pos hc]
    exact operatorDepths_digits fun d hd => h.isDigit d (List.mem_cons_of_mem _ hd)
  cases negative with
  | false => exact hunsigned
  | true => exact operatorDepths_minus.trans hunsigned

/-- A character that is no part of a name or number and neither sign, quote nor parenthesis. -/
lemma operatorDepths_cons {c : Char} (hname : isNameChar c = false) (hsign : c ∉ operatorSigns)
    (hc : c ≠ '"' ∧ c ≠ '(' ∧ c ≠ ')') :
    operatorDepths ended depth (c :: cs) = operatorDepths ended depth cs := by
  have hdigit : c.isDigit = false := by
    cases hd : c.isDigit with
    | false => rfl
    | true => rw [isNameChar_of_isDigit hd] at hname; cases hname
  obtain ⟨hquote, hopen, hclose⟩ := hc
  rw [operatorDepths]
  cases ended <;> simp [hdigit, hname, hsign, hquote, hopen, hclose]

lemma operatorDepths_unspaced :
    operatorDepths ended depth (unspaced cs) = operatorDepths ended depth cs := by
  induction cs with
  | nil => rfl
  | cons c cs ih =>
    by_cases hc : isSpace c = true
    · have hspace : c = ' ' ∨ c = '\t' ∨ c = '\r' ∨ c = '\n' := by
        simpa [isSpace, or_assoc] using hc
      rw [unspaced_cons_of_isSpace hc, ih]
      rcases hspace with rfl | rfl | rfl | rfl <;>
        exact (operatorDepths_cons (by decide) (by decide) (by decide)).symm
    · rw [unspaced_cons (by simpa using hc)]

lemma operatorDepths_open :
    operatorDepths false depth ('(' :: cs) = operatorDepths false (depth + 1) cs := by
  rw [operatorDepths, if_neg (by decide), if_neg (by decide), if_neg (by decide),
    if_neg (by decide), if_pos rfl]

lemma operatorDepths_close :
    operatorDepths true (depth + 1) (')' :: cs) = operatorDepths true depth cs := by
  rw [operatorDepths, if_neg (by decide), if_neg (by decide), if_neg (by decide), if_pos rfl,
    if_pos rfl, Nat.add_sub_cancel]

lemma operatorDepths_quoted {inside : List Char} (h : Text.spanQuoted cs = some (inside, rest)) :
    operatorDepths false depth ('"' :: cs) = operatorDepths true depth rest := by
  rw [operatorDepths, if_neg (by decide), if_neg (by decide), if_pos (by decide)]
  split
  · next heq =>
    obtain ⟨-, rfl⟩ := Prod.mk.inj (Option.some.inj (h.symm.trans heq))
    rfl
  · next heq =>
    rw [h] at heq
    cases heq

/-- A word at the front is an operator or an operand, whatever it is made of. -/
lemma operatorDepths_word {c : Char} {word : List Char} (hword : frontWord cs = c :: word)
    (hdigit : c.isDigit = false) :
    operatorDepths ended depth cs =
      if ended && (c :: word = "and".toList || c :: word = "or".toList) then
        depth :: operatorDepths false depth (cs.dropWhile isNameChar)
      else operatorDepths (ended || c :: word ≠ "not".toList) depth (cs.dropWhile isNameChar) := by
  cases cs with
  | nil => cases hword
  | cons d cs =>
    rw [frontWord, List.takeWhile_cons] at hword
    split at hword
    · next hname =>
      obtain ⟨rfl, rfl⟩ := List.cons.inj hword
      rw [operatorDepths, if_neg (by simp [hdigit]), if_pos hname, List.dropWhile_cons_of_pos hname]
    · cases hword

end Texts

/-! ## What a parser takes -/

/-- Where `p` finds a value, the text before it, the text after it and the value are related by `R`. -/
def Takes {α : Type} (p : Parser α) (R : List Char → List Char → α → Prop) : Prop :=
  ∀ i frontier a i' frontier', p i frontier = (some (a, i'), frontier') → R i.rest i'.rest a

/-- Values that are found one after the other, each related by `R` to the text around it. -/
inductive Row {α : Type} (R : List Char → List Char → α → Prop) :
    List Char → List Char → List α → Prop
  | nil {cs : List Char} : Row R cs cs []
  | cons {cs mid rest : List Char} {a : α} {as : List α} (ha : R cs mid a) (has : Row R mid rest as) :
    Row R cs rest (a :: as)

section Combinators

variable {α β : Type} {p : Parser α} {R : List Char → List Char → α → Prop}
  {S : List Char → List Char → β → Prop}

lemma takes_pure {a : α} (h : ∀ cs, R cs cs a) : Takes (Pure.pure a : Parser α) R :=
  relates_pure fun i => h i.rest

lemma Takes.bind {k : α → Parser β} (hp : Takes p R)
    (hk : ∀ a, Takes (k a) fun mid rest b => ∀ cs, R cs mid a → S cs rest b) :
    Takes (p >>= k) S :=
  Relates.bind hp fun a => Relates.mono (hk a) fun _ _ _ h i => h i.rest

lemma Takes.map {f : α → β} (hp : Takes p R) (hf : ∀ cs rest a, R cs rest a → S cs rest (f a)) :
    Takes (p >>= fun a => Pure.pure (f a)) S :=
  hp.bind fun a => takes_pure fun rest cs h => hf cs rest a h

lemma takes_miss : Takes (miss : Parser α) R := relates_miss

lemma Takes.orElse {q : Parser α} (hp : Takes p R) (hq : Takes q R) : Takes (p.orElse q) R :=
  Relates.orElse hp hq

lemma takes_first {ps : List (Parser α)} (h : ∀ p ∈ ps, Takes p R) : Takes (first ps) R :=
  relates_first h

lemma Takes.rule {r : Rule} (hp : Takes p R) : Takes (rule r p) R := Relates.rule hp

lemma Takes.many (hp : Takes p R) : Takes (many p) (Row R) :=
  Relates.many hp (fun _ => .nil) fun _ _ _ _ _ => .cons

lemma takes_here : Takes here fun cs rest _ => cs = rest := relates_step fun _ => rfl

lemma takes_noteOverflow (offset length : Nat) :
    Takes (noteOverflow offset length) fun cs rest _ => cs = rest :=
  relates_step fun _ => rfl

lemma takes_spaces : Takes spaces fun cs rest _ => rest = unspaced cs := relates_step fun _ => rfl

lemma takes_endOfText : Takes endOfText fun cs _ _ => cs = [] := relates_endOfText fun _ h => h

lemma takes_lexeme (scan : Scanner) : Takes (lexeme scan) fun cs rest text =>
    ∃ after, scan cs = some (text, after) ∧ rest = unspaced after :=
  relates_lexeme fun _ _ after h => ⟨after, h, rfl⟩

lemma takes_token (word : String) : Takes (token word) fun cs rest _ =>
    ∃ after, cs = word.toList ++ after ∧ rest = unspaced after := by
  refine (takes_lexeme _).map fun cs rest text h => ?_
  obtain ⟨after, hscan, hrest⟩ := h
  obtain ⟨rfl, hcs⟩ := eq_of_scanText hscan
  exact ⟨after, hcs, hrest⟩

lemma Takes.run {source : String} {Q : α → Prop}
    (hp : Takes p fun cs _ a => cs = source.toList → Q a) {a : α} (h : p.run source = .ok a) :
    Q a := by
  obtain ⟨_, hfound, -⟩ := Relates.run hp h
  exact hfound rfl

end Combinators

/-! ## Operators of what is read -/

section Reading

/-- Reading on from one text to the other passes no operator between operands. -/
def Passes (before after : Bool) (cs rest : List Char) : Prop :=
  ∀ depth, operatorDepths before depth cs = operatorDepths after depth rest

/-- The expression is read between the texts, with its operators where they are seen. -/
def GroupedBetween (n : Nat) (cs rest : List Char) (e : Expression) : Prop :=
  ∀ depth, ∃ ds, operatorDepths false depth cs = ds ++ operatorDepths true depth rest ∧
    e.OperatorsAt n depth ds

variable {inner : Parser Expression} {cs rest after : List Char}

lemma passes_unspaced {ended : Bool} (h : Passes false ended cs after) :
    Passes false ended cs (unspaced after) :=
  fun depth => (h depth).trans operatorDepths_unspaced.symm

lemma takes_floatNumber : Takes floatNumber fun cs rest _ => Passes false true cs rest := by
  refine Takes.rule ((takes_lexeme scanFloat).map fun cs rest text h => ?_)
  obtain ⟨after, hscan, rfl⟩ := h
  refine passes_unspaced fun depth => ?_
  obtain ⟨t, hpart, rfl, rfl, -⟩ := numeral_of_scanFloat hscan
  rw [Numeral.text, if_neg hpart, List.append_assoc, List.append_assoc,
    operatorDepths_numeral _ t.whole_digits, List.cons_append,
    operatorDepths_cons (by decide) (by decide) (by decide), operatorDepths_digits t.part_isDigit]

lemma takes_integerText : Takes integerText fun cs rest _ => Passes false true cs rest := by
  refine Takes.rule (takes_here.bind fun place =>
    (takes_lexeme scanInteger).map fun cs rest text h => ?_)
  obtain ⟨after, hscan, rfl⟩ := h
  rintro _ rfl
  refine passes_unspaced fun depth => ?_
  obtain ⟨negative, whole, hwhole, rfl, rfl, -⟩ := digits_of_scanInteger hscan
  rw [List.append_assoc, operatorDepths_numeral _ hwhole]

lemma takes_integer : Takes integer fun cs rest _ => Passes false true cs rest := by
  refine takes_integerText.bind fun found => ?_
  dsimp only
  split
  · exact takes_pure fun _ _ h => h
  · exact (takes_noteOverflow _ _).map fun mid rest _ heq cs h => heq ▸ h

lemma word_of_scanWord {words : List String} {word : List Char}
    (h : scanWord words cs = some (word, rest)) :
    ∃ w ∈ words, frontWord cs = w.toList ∧ rest = cs.dropWhile isNameChar := by
  simp only [scanWord] at h
  split at h
  · next hmem =>
    obtain ⟨-, rfl⟩ := Prod.mk.inj (Option.some.inj h)
    obtain ⟨w, hw, hword⟩ := List.any_eq_true.1 hmem
    exact ⟨w, hw, (of_decide_eq_true hword).symm, rfl⟩
  · cases h

/-- A word that is no operator is an operand. -/
lemma passes_word {word : List Char} (hword : frontWord cs = word) (hne : word ≠ [])
    (hdigit : ∀ c ∈ word.head?, c.isDigit = false) (hnot : word ≠ "not".toList) :
    Passes false true cs (cs.dropWhile isNameChar) := by
  obtain ⟨c, word, rfl⟩ := List.exists_cons_of_ne_nil hne
  intro depth
  rw [operatorDepths_word hword (hdigit c rfl), if_neg (by simp), Bool.false_or,
    decide_eq_true hnot]

lemma takes_boolean : Takes boolean fun cs rest _ => Passes false true cs rest := by
  refine Takes.rule ((takes_lexeme _).map fun cs rest text h => ?_)
  obtain ⟨after, hscan, rfl⟩ := h
  refine passes_unspaced ?_
  obtain ⟨w, hw, hword, rfl⟩ := word_of_scanWord hscan
  simp only [List.mem_cons, List.not_mem_nil, or_false] at hw
  rcases hw with rfl | rfl <;> exact passes_word hword (by decide) (by simp) (by decide)

lemma takes_identifier : Takes identifier fun cs rest _ => Passes false true cs rest := by
  refine Takes.rule ((takes_lexeme _).map fun cs rest text h => ?_)
  obtain ⟨after, hscan, rfl⟩ := h
  refine passes_unspaced ?_
  rw [scanName] at hscan
  split at hscan
  · next hname =>
    obtain ⟨-, rfl⟩ := Prod.mk.inj (Option.some.inj hscan)
    refine passes_word rfl ?_ ?_ ?_
    · intro hnil
      rw [hnil] at hname
      cases hname
    · intro c hc
      obtain ⟨word, hword⟩ := List.head?_eq_some_iff.1 (Option.mem_def.1 hc)
      rw [hword] at hname
      simp only [isNameWord, Bool.and_eq_true, Bool.not_eq_true'] at hname
      exact hname.1
    · intro hnot
      rw [hnot] at hname
      exact absurd hname (by decide)
  · cases hscan

lemma takes_quotedText : Takes quotedText fun cs rest _ => Passes false true cs rest := by
  refine Takes.rule ((takes_lexeme _).map fun cs rest text h => ?_)
  obtain ⟨after, hscan, rfl⟩ := h
  refine passes_unspaced fun depth => ?_
  unfold scanQuoted at hscan
  split at hscan
  · obtain ⟨⟨inside, after'⟩, hinside, heq⟩ := Option.map_eq_some_iff.1 hscan
    obtain ⟨-, rfl⟩ := Prod.mk.inj heq
    exact operatorDepths_quoted hinside
  · cases hscan

lemma takes_unaryOperator : Takes unaryOperator fun cs rest _ => Passes false false cs rest := by
  refine .orElse (.rule ((takes_lexeme _).map fun cs rest text h => ?_))
    (.rule ((takes_lexeme _).map fun cs rest text h => ?_))
  · obtain ⟨after, hscan, rfl⟩ := h
    refine passes_unspaced fun depth => ?_
    obtain ⟨w, hw, hword, rfl⟩ := word_of_scanWord hscan
    obtain rfl := List.mem_singleton.1 hw
    rw [operatorDepths_word hword (by decide)]
    rfl
  · obtain ⟨after, hscan, rfl⟩ := h
    refine passes_unspaced fun depth => ?_
    obtain ⟨rfl, -⟩ := splits_scanMinus _ _ _ hscan
    obtain rfl : text = ['-'] := by
      unfold scanMinus at hscan
      split at hscan
      · split at hscan
        · cases hscan
        · exact (Prod.mk.inj (Option.some.inj hscan)).1.symm
      · cases hscan
    exact operatorDepths_minus

lemma GroupedBetween.of_passes {n : Nat} {e : Expression} (h : Passes false true cs rest)
    (he : ∀ depth, e.OperatorsAt n depth []) : GroupedBetween n cs rest e :=
  fun depth => ⟨[], h depth, he depth⟩

lemma GroupedBetween.after_passes {n : Nat} {e : Expression} (h : Passes false false cs after)
    (he : GroupedBetween n after rest e) : GroupedBetween n cs rest e := by
  intro depth
  rw [h depth]
  exact he depth

/-- What stands in parentheses is read one level deeper. -/
lemma GroupedBetween.enclosed {e : Expression} (h : GroupedBetween 6 (unspaced cs) (')' :: rest) e)
    (n : Nat) : GroupedBetween n ('(' :: cs) (unspaced rest) e := by
  intro depth
  obtain ⟨ds, hds, he⟩ := h (depth + 1)
  rw [operatorDepths_unspaced] at hds
  refine ⟨ds, ?_, operatorsAt_enclosed he⟩
  rw [operatorDepths_open, hds, operatorDepths_close, operatorDepths_unspaced]

lemma takes_primary (h : Takes inner (GroupedBetween 6)) :
    Takes (primary inner) (GroupedBetween 0) := by
  refine takes_first fun p hp => ?_
  simp only [List.mem_cons, List.not_mem_nil, or_false] at hp
  rcases hp with rfl | rfl | rfl | rfl | rfl | rfl
  · exact takes_floatNumber.map fun _ _ _ hpasses => .of_passes hpasses fun _ => rfl
  · exact takes_integer.map fun _ _ _ hpasses => .of_passes hpasses fun _ => rfl
  · exact takes_boolean.map fun _ _ _ hpasses => .of_passes hpasses fun _ => rfl
  · exact takes_quotedText.map fun _ _ _ hpasses => .of_passes hpasses fun _ => rfl
  · exact takes_identifier.map fun _ _ _ hpasses => .of_passes hpasses fun _ => rfl
  · refine (takes_token "(").bind fun _ => h.bind fun e => (takes_token ")").map ?_
    rintro _ _ _ ⟨after, rfl, rfl⟩ _ he _ ⟨within, rfl, rfl⟩
    exact he.enclosed 0

lemma takes_unaryExpression (h : Takes inner (GroupedBetween 6)) :
    Takes (unaryExpression inner) (GroupedBetween 0) := by
  refine .rule (takes_unaryOperator.many.bind fun ops => (takes_primary h).map ?_)
  intro mid rest e he cs hops
  induction hops with
  | nil => exact he
  | cons hop _ ih => exact (ih he).after_passes hop

/-- Reading on over an operator sees that operator and no other. -/
def PassesOperator (cs rest : List Char) : Prop :=
  ∀ depth, operatorDepths true depth cs = depth :: operatorDepths false depth rest

lemma operatorDepths_sign {depth : Nat} {op : BinaryOp} (h : 3 ≤ op.precedence) :
    operatorDepths true depth (op.symbol.toList ++ rest) =
      depth :: operatorDepths false depth rest := by
  have hone : ∀ c ∈ operatorSigns, ∀ cs,
      operatorDepths true depth (c :: cs) = depth :: operatorDepths false depth cs := by
    intro c hc cs
    have hplain : ∀ c ∈ operatorSigns, c.isDigit = false ∧ isNameChar c = false ∧ c ≠ ')' := by
      simp [operatorSigns, isNameChar]
    obtain ⟨hdigit, hname, hclose⟩ := hplain c hc
    rw [operatorDepths, hdigit, hname, if_neg (by decide), if_neg (by decide), if_neg (by simp),
      if_pos rfl, if_neg hclose, if_pos hc]
  have hequals : operatorDepths false depth ('=' :: rest) = operatorDepths false depth rest := by
    rw [operatorDepths, if_neg (by decide), if_neg (by decide), if_neg (by decide),
      if_neg (by decide), if_neg (by decide)]
  cases op with
  | or | and => exact absurd h (by decide)
  | eq | ne | le | ge => exact (hone _ (by decide) _).trans (congrArg _ hequals)
  | _ => exact hone _ (by decide) _

lemma takes_operator {r : Rule} {scan : Scanner} {ops : List BinaryOp} {n : Nat}
    (hops : ∀ op ∈ ops, op.precedence + n = 6)
    (h : ∀ (op : BinaryOp) cs after, op.precedence + n = 6 → scan cs = some (op.symbol.toList, after) →
      PassesOperator cs after) :
    Takes (operator r scan ops) fun cs rest op => op.precedence + n = 6 ∧ PassesOperator cs rest := by
  refine .rule ((takes_lexeme scan).bind fun text => ?_)
  split
  · next op hop =>
    refine takes_pure fun rest cs hread => ?_
    obtain ⟨after, hscan, rfl⟩ := hread
    obtain rfl : op.symbol.toList = text := by simpa using List.find?_some hop
    have hn := hops op (List.mem_of_find?_eq_some hop)
    refine ⟨hn, fun depth => ?_⟩
    rw [operatorDepths_unspaced]
    exact h op cs after hn hscan depth
  · exact takes_miss

lemma passesOperator_sign {texts : List String} {op : BinaryOp} (hop : 3 ≤ op.precedence)
    (h : scanAny texts cs = some (op.symbol.toList, after)) : PassesOperator cs after := by
  obtain ⟨text, -, hscan⟩ := List.exists_of_findSome?_eq_some h
  obtain ⟨-, rfl⟩ := eq_of_scanText hscan
  exact fun depth => operatorDepths_sign hop

lemma passesOperator_word {word : String} {text : List Char} (hword : word = "and" ∨ word = "or")
    (h : scanWord [word] cs = some (text, after)) : PassesOperator cs after := by
  obtain ⟨w, hw, hfront, rfl⟩ := word_of_scanWord h
  obtain rfl := List.mem_singleton.1 hw
  intro depth
  rcases hword with rfl | rfl
  · rw [operatorDepths_word hfront (by decide)]
    rfl
  · rw [operatorDepths_word hfront (by decide)]
    rfl

lemma takes_tierOperator {n : Nat} (hn : n < 6) :
    Takes (tierOperator n) fun cs rest op => op.precedence + n = 6 ∧ PassesOperator cs rest := by
  match n, hn with
  | 0, _ | 1, _ | 2, _ | 3, _ =>
    exact takes_operator (by decide) fun op cs after hn h => passesOperator_sign (by omega) h
  | 4, _ | 5, _ => exact takes_operator (by decide) fun _ _ _ _ h => passesOperator_word (by decide) h

/-- An operator of the next tier and its right operand group to the left with what was read before. -/
lemma GroupedBetween.binary {n : Nat} {mid : List Char} {op : BinaryOp} {l r : Expression}
    (hl : GroupedBetween (n + 1) cs after l) (hn : op.precedence + n = 6)
    (hop : PassesOperator after mid) (hr : GroupedBetween n mid rest r) :
    GroupedBetween (n + 1) cs rest (.binary op l r) := by
  intro depth
  obtain ⟨left, hleft, hl⟩ := hl depth
  obtain ⟨right, hright, hr⟩ := hr depth
  refine ⟨left ++ depth :: right, by rw [hleft, hop, hright]; simp, depth, left, right, rfl,
    le_rfl, fun hlt => by omega, ?_, ?_⟩
  · rwa [operandTier_left, show 7 - op.precedence = n + 1 by omega]
  · rwa [operandTier_right, show 6 - op.precedence = n by omega]

lemma GroupedBetween.chain {n : Nat} {first : Expression} {others : List (BinaryOp × Expression)}
    (hfirst : GroupedBetween (n + 1) cs after first)
    (h : Row (fun cs rest other => ∃ mid, (other.1.precedence + n = 6 ∧ PassesOperator cs mid) ∧
      GroupedBetween n mid rest other.2) after rest others) :
    GroupedBetween (n + 1) cs rest
      (others.foldl (fun left (op, right) => .binary op left right) first) := by
  induction h generalizing first with
  | nil => exact hfirst
  | cons hother _ ih =>
    obtain ⟨mid, ⟨hn, hop⟩, hright⟩ := hother
    exact ih (hfirst.binary hn hop hright)

lemma takes_tier (h : Takes inner (GroupedBetween 6)) {n : Nat} (hn : n ≤ 6) :
    Takes (tier inner n) (GroupedBetween n) := by
  induction n with
  | zero => exact takes_unaryExpression h
  | succ n ih =>
    have htier := ih (Nat.le_of_succ_le hn)
    have hlink : Takes (link inner n) fun cs rest other => ∃ mid,
        (other.1.precedence + n = 6 ∧ PassesOperator cs mid) ∧ GroupedBetween n mid rest other.2 :=
      (takes_tierOperator hn).bind fun op => htier.map fun mid _ _ hright cs hop => ⟨mid, hop, hright⟩
    refine .rule (htier.bind fun first => hlink.many.map ?_)
    intro mid rest others hothers cs hfirst
    have hfirst : GroupedBetween (n + 1) cs mid first := fun depth =>
      (hfirst depth).imp fun ds hds => ⟨hds.1, operatorsAt_of_le hds.2 (Nat.le_succ n)⟩
    exact hfirst.chain hothers

lemma takes_expressionWithin (depth : Nat) :
    Takes (expressionWithin depth) (GroupedBetween 6) := by
  induction depth with
  | zero => exact takes_miss
  | succ depth ih =>
    rw [expressionWithin_succ]
    exact (takes_tier ih le_rfl).rule

lemma takes_expression : Takes expression (GroupedBetween 6) :=
  fun i => takes_expressionWithin (i.rest.length + 1) i

/-- What a text is read as has its operators at the depths at which they stand in the text. -/
theorem operatorsAt_of_parseExpression {source : String} {e : Expression}
    (h : parseExpression source = .ok e) :
    e.OperatorsAt 6 0 (operatorDepths false 0 source.toList) := by
  refine Takes.run (Q := fun e => e.OperatorsAt 6 0 (operatorDepths false 0 source.toList)) ?_ h
  refine .rule (takes_spaces.bind fun _ => takes_expression.bind fun e => takes_endOfText.map ?_)
  rintro _ _ _ rfl _ he _ rfl rfl
  obtain ⟨ds, hds, he⟩ := he 0
  rw [operatorDepths_unspaced, operatorDepths, List.append_nil] at hds
  rw [hds]
  exact he

end Reading

end Novella.Proofs
