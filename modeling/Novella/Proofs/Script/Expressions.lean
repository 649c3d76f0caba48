import Novella.Script.Printer
import Novella.Proofs.Script.Lexemes

/-!
# Expressions and their texts

The text of an expression reads back as the expression: the parentheses that are written are
enough for the grammar to find the same grouping. Numbers that are not finite are the one
exception, since they have no literal and are written as zero; `Expression.written` is the
expression with these replaced.

The grammar reads an expression in tiers, one for each strength of operators. What a tier
reads ends where no operator of the tier or of a lower one goes on, which is what `Stops` says.
-/

namespace Novella.Script

/-- All variables of an expression are names. -/
def Expression.Named : Expression → Prop
  | .literal _ => True
  | .var name => isName name = true
  | .unary _ e => e.Named
  | .binary _ l r => l.Named ∧ r.Named

/-- The constant is no infinite number and no invalid one. -/
def Literal.Finite : Literal → Prop
  | .float x => x.isFinite = true
  | _ => True

/-- All numbers of an expression are finite. -/
def Expression.Finite : Expression → Prop
  | .literal l => l.Finite
  | .var _ => True
  | .unary _ e => e.Finite
  | .binary _ l r => l.Finite ∧ r.Finite

instance : (l : Literal) → Decidable l.Finite
  | .float x => inferInstanceAs (Decidable (x.isFinite = true))
  | .int _ => isTrue trivial
  | .bool _ => isTrue trivial
  | .text _ => isTrue trivial

instance Expression.decidableFinite : (e : Expression) → Decidable e.Finite
  | .literal l => inferInstanceAs (Decidable l.Finite)
  | .var _ => isTrue trivial
  | .unary _ e => e.decidableFinite
  | .binary _ l r =>
    haveI := l.decidableFinite
    haveI := r.decidableFinite
    inferInstanceAs (Decidable (l.Finite ∧ r.Finite))

/-- The constant that the text of a constant stands for. -/
def Literal.written : Literal → Literal
  | .float x => .float x.written
  | l => l

/-- The expression that the text of an expression stands for. -/
def Expression.written : Expression → Expression
  | .literal l => .literal l.written
  | .var name => .var name
  | .unary op e => .unary op e.written
  | .binary op l r => .binary op l.written r.written

end Novella.Script

namespace Novella.Proofs

open Script Script.Parser

lemma expression_written_of_finite {e : Expression} (h : e.Finite) : e.written = e := by
  induction e with
  | literal l =>
    cases l with
    | float x => rw [Expression.written, Literal.written, written_of_finite h]
    | _ => rfl
  | var name => rfl
  | unary op e ih => rw [Expression.written, ih h]
  | binary op l r ihl ihr => rw [Expression.written, ihl h.1, ihr h.2]

lemma expression_written_written (e : Expression) : e.written.written = e.written := by
  induction e with
  | literal l =>
    cases l with
    | float x => simp only [Expression.written, Literal.written, written_written]
    | _ => rfl
  | var name => rfl
  | unary op e ih => simp only [Expression.written, ih]
  | binary op l r ihl ihr => simp only [Expression.written, ihl, ihr]

lemma literal_render_written (l : Literal) : l.written.render = l.render := by
  cases l with
  | float x => exact literal_written x
  | _ => rfl

lemma needsParentheses_written (op : UnaryOp) (e : Expression) :
    e.written.needsParentheses op = e.needsParentheses op := by
  cases e with
  | literal l => cases l <;> rfl
  | _ => rfl

lemma bindsLooser_written (op : BinaryOp) (onRight : Bool) (e : Expression) :
    e.written.bindsLooser op onRight = e.bindsLooser op onRight := by
  cases e <;> rfl

/-- An expression and the one that its text stands for have one text. -/
lemma render_written (e : Expression) : e.written.render = e.render := by
  induction e with
  | literal l => exact literal_render_written l
  | var name => rfl
  | unary op e ih => simp only [Expression.written, Expression.render, needsParentheses_written, ih]
  | binary op l r ihl ihr =>
    simp only [Expression.written, Expression.render, bindsLooser_written, ihl, ihr]

/-! ## Tiers of operators -/

/-- The rule that reads the operators of a tier, the strongest first. -/
def tierRule : Nat → Rule
  | 0 => .multiplicative
  | 1 => .additive
  | 2 => .comparison
  | 3 => .equality
  | 4 => .andExpression
  | _ => .orExpression

def tierOperator : Nat → Parser BinaryOp
  | 0 => operator .multiplicativeOperator (scanAny ["*", "/", "%"]) [.mul, .div, .rem]
  | 1 => operator .additiveOperator (scanAny ["+", "-"]) [.add, .sub]
  | 2 => operator .comparisonOperator (scanAny ["<=", ">=", "<", ">"]) [.le, .ge, .lt, .gt]
  | 3 => operator .equalityOperator (scanAny ["==", "!="]) [.eq, .ne]
  | 4 => operator .andOperator (scanWord ["and"]) [.and]
  | _ => operator .orOperator (scanWord ["or"]) [.or]

/-- The characters with which the operators of a tier begin. -/
def tierHeads : Nat → List Char
  | 0 => ['*', '/', '%']
  | 1 => ['+', '-']
  | 2 => ['<', '>']
  | 3 => ['=', '!']
  | 4 => ['a']
  | _ => ['o']

/-- Reads an expression with operators of the first `n` tiers outside of parentheses. -/
def tier (inner : Parser Expression) : Nat → Parser Expression
  | 0 => unaryExpression inner
  | n + 1 => chain (tierRule n) (tierOperator n) (tier inner n)

def link (inner : Parser Expression) (n : Nat) : Parser (BinaryOp × Expression) := do
  let op ← tierOperator n
  let right ← tier inner n
  return (op, right)

/-- Number of tiers that are needed to read an expression without parentheses around it. -/
def tierOf : Expression → Nat
  | .binary op _ _ => 7 - op.precedence
  | _ => 0

lemma precedence_bounds (op : BinaryOp) : 1 ≤ op.precedence ∧ op.precedence ≤ 6 := by
  cases op <;> decide

/-- Operators that begin with different characters are told apart by the first one. -/
lemma scanAny_eq_none {texts : List String} {cs : List Char}
    (h : ∀ t ∈ texts, ¬t.toList <+: cs) : scanAny texts cs = none := by
  simp only [scanAny, List.findSome?_eq_none_iff]
  exact fun t ht => scanText_eq_none (h t ht)

lemma not_prefix_of_head? {w : Char} {ws cs : List Char} (h : cs.head? ≠ some w) :
    ¬(w :: ws) <+: cs := by
  rintro ⟨t, rfl⟩
  exact h rfl

lemma misses_operator {r : Rule} {scan : Scanner} {ops : List BinaryOp} {cs : List Char}
    (h : scan cs = none) : Misses (operator r scan ops) cs :=
  (misses_lexeme h).bind.rule

lemma reads_operator {r : Rule} {scan : Scanner} {ops : List BinaryOp} {op : BinaryOp}
    {cs rest : List Char} (h : scan cs = some (op.symbol.toList, rest))
    (hop : ops.find? (fun o => o.symbol.toList = op.symbol.toList) = some op) :
    Reads (operator r scan ops) cs (unspaced rest) (· = op) := by
  refine ((reads_lexeme h).bind ?_).rule
  rintro _ rfl
  rw [hop]
  exact reads_pure rfl

lemma misses_tierOperator {n : Nat} {cs : List Char} (h : ∀ c ∈ tierHeads n, cs.head? ≠ some c) :
    Misses (tierOperator n) cs := by
  match n, h with
  | 0, h =>
    refine misses_operator (scanAny_eq_none ?_)
    simpa using ⟨not_prefix_of_head? (h '*' (by decide)), not_prefix_of_head? (h '/' (by decide)),
      not_prefix_of_head? (h '%' (by decide))⟩
  | 1, h =>
    refine misses_operator (scanAny_eq_none ?_)
    simpa using ⟨not_prefix_of_head? (h '+' (by decide)), not_prefix_of_head? (h '-' (by decide))⟩
  | 2, h =>
    refine misses_operator (scanAny_eq_none ?_)
    simpa using ⟨not_prefix_of_head? (h '<' (by decide)), not_prefix_of_head? (h '>' (by decide)),
      not_prefix_of_head? (h '<' (by decide)), not_prefix_of_head? (h '>' (by decide))⟩
  | 3, h =>
    refine misses_operator (scanAny_eq_none ?_)
    simpa using ⟨not_prefix_of_head? (h '=' (by decide)), not_prefix_of_head? (h '!' (by decide))⟩
  | 4, h =>
    refine misses_operator (scanWord_eq_none ?_)
    simpa using ne_frontWord_of_head? (w := "and".toList) (by decide) (h 'a' (by decide))
  | n + 5, h =>
    refine misses_operator (scanWord_eq_none ?_)
    simpa using ne_frontWord_of_head? (w := "or".toList) (by decide) (h 'o' (by simp [tierHeads]))

lemma reads_tierOperator {n : Nat} {op : BinaryOp} (h : op.precedence + n = 6) (rest : List Char) :
    Reads (tierOperator n) (op.symbol.toList ++ ' ' :: rest) (unspaced rest) (· = op) := by
  have hspace : unspaced (' ' :: rest) = unspaced rest := unspaced_cons_of_isSpace (by decide) _
  rw [← hspace]
  have hword : NotAhead isNameChar (' ' :: rest) := notAhead_cons (by decide) _
  obtain rfl : n = 6 - op.precedence := by omega
  cases op with
  | or => exact reads_operator (scanWord_append (by decide) (List.all_eq_true.1 rfl) hword) (by decide)
  | and => exact reads_operator (scanWord_append (by decide) (List.all_eq_true.1 rfl) hword) (by decide)
  | _ => exact reads_operator rfl (by decide)

/-! ## Where an expression ends -/

/-- No operator of the first `n` tiers goes on into the text. A comment and the arrow of an
option begin like operators, but no operand follows. -/
def Stops (n : Nat) (cs : List Char) : Prop :=
  (∀ k < n, ∀ c ∈ tierHeads k, cs.head? ≠ some c) ∨ ['/', '/'] <+: cs ∨ ['-', '>'] <+: cs

lemma Stops.of_le {m n : Nat} {cs : List Char} (h : Stops n cs) (hmn : m ≤ n) : Stops m cs := by
  rcases h with h | h
  · exact .inl fun k hk => h k (hk.trans_le hmn)
  · exact .inr h

/-- An operator of a higher tier ends what a tier reads. -/
lemma stops_symbol {n : Nat} {op : BinaryOp} (h : op.precedence + n ≤ 6) (rest : List Char) :
    Stops n (op.symbol.toList ++ rest) := by
  refine .inl fun k hk => ?_
  have hk6 : k < 6 := by omega
  have htier : k + op.precedence < 6 := by omega
  have hheads : ∀ op : BinaryOp, ∀ k < 6, k + op.precedence < 6 →
      (tierHeads k).all (fun c => op.symbol.toList.head? ≠ some c) = true := by
    intro op
    cases op <;> decide
  have hnil : op.symbol.toList ≠ [] := by cases op <;> decide
  intro c hc
  have hne : op.symbol.toList.head? ≠ some c :=
    of_decide_eq_true (List.all_eq_true.1 (hheads op k hk6 htier) c hc)
  cases hsymbol : op.symbol.toList with
  | nil => exact absurd hsymbol hnil
  | cons d ds =>
    rw [hsymbol] at hne
    exact hne

/-- Characters with which no operand begins. -/
def NoOperand (c : Char) : Prop :=
  isNameChar c = false ∧ c ≠ '-' ∧ c ≠ '"' ∧ c ≠ '('

lemma misses_unaryOperator {cs : List Char} (hm : scanMinus cs = none)
    (hw : "not".toList ≠ frontWord cs) : Misses unaryOperator cs := by
  have hnot : scanWord ["not"] cs = none := scanWord_eq_none (by simpa using hw)
  exact (misses_lexeme hnot).bind.rule.orElse (misses_lexeme hm).bind.rule

lemma scanMinus_of_head? {cs : List Char} (h : cs.head? ≠ some '-') : scanMinus cs = none := by
  unfold scanMinus
  split
  · exact absurd rfl h
  · rfl

lemma misses_tier {inner : Parser Expression} {c : Char} (hc : NoOperand c) (n : Nat)
    (cs : List Char) : Misses (tier inner n) (c :: cs) := by
  obtain ⟨hname, hminus, hquote, hparen⟩ := hc
  have hfront : frontWord (c :: cs) = [] := by simp [frontWord, hname]
  have hdigit : NotAhead Char.isDigit (c :: cs) := notAhead_cons (by
    cases hd : c.isDigit with
    | false => rfl
    | true => rw [isNameChar_of_isDigit hd] at hname; cases hname) _
  induction n with
  | zero =>
    have hunary : Misses unaryOperator (c :: cs) :=
      misses_unaryOperator (scanMinus_of_head? (by simpa using hminus)) (by rw [hfront]; decide)
    have hint := scanInteger_eq_none hdigit (by simpa using hminus)
    have hbool : scanWord ["true", "false"] (c :: cs) = none :=
      scanWord_eq_none (by rw [hfront]; decide)
    have hparenthesis : ¬"(".toList <+: c :: cs :=
      not_prefix_of_head? (w := '(') (by simpa using hparen)
    refine (hunary.readsMany.many.bind_misses ?_).rule
    rintro _ rfl
    refine Misses.bind (misses_first ?_)
    simp only [List.mem_cons, List.not_mem_nil, or_false, forall_eq_or_imp, forall_eq]
    exact ⟨(misses_floatNumber (scanFloat_eq_none hint)).bind, (misses_integer hint).bind,
      (misses_lexeme hbool).bind.rule.bind, (misses_quotedText (by simpa using hquote)).bind,
      (misses_identifier (notAhead_cons hname _)).bind,
      (misses_token hparenthesis).bind⟩
  | succ n ih => exact ih.bind.rule

lemma Stops.misses_link {inner : Parser Expression} {m n : Nat} {cs : List Char}
    (h : Stops m cs) (hn : n < m) : Misses (link inner n) cs := by
  rcases h with h | ⟨rest, rfl⟩ | ⟨rest, rfl⟩
  · exact (misses_tierOperator (h n hn)).bind
  · match n with
    | 0 =>
      have hop : Reads (tierOperator 0) ('/' :: '/' :: rest) (unspaced ('/' :: rest)) (· = .div) :=
        reads_operator rfl (by decide)
      refine hop.bind_misses fun _ _ => Misses.bind ?_
      rw [unspaced_cons (by decide)]
      exact misses_tier ⟨by decide, by decide, by decide, by decide⟩ _ _
    | 1 | 2 | 3 | 4 | n + 5 => exact (misses_tierOperator (by simp [tierHeads])).bind
  · match n with
    | 1 =>
      have hop : Reads (tierOperator 1) ('-' :: '>' :: rest) (unspaced ('>' :: rest)) (· = .sub) :=
        reads_operator rfl (by decide)
      refine hop.bind_misses fun _ _ => Misses.bind ?_
      rw [unspaced_cons (by decide)]
      exact misses_tier ⟨by decide, by decide, by decide, by decide⟩ _ _
    | 0 | 2 | 3 | 4 | n + 5 => exact (misses_tierOperator (by simp [tierHeads])).bind

end Novella.Proofs
