import Novella.Proofs.Script.OperatorDepths

/-!
# Parentheses that cannot be left out

The printer writes no parentheses around an operation that could be left out: without any one pair the
text of an expression is refused or read as another expression (`parentheses_needed`). The operators of
an operand without its parentheses stand less deep than the place of the operand allows, whatever stands
around it, and the depths at which the operators of a text stand decide how it can be grouped.

Parentheses around a number after a minus are another matter. They keep the minus from being the sign of
the number.
-/

namespace Novella.Script.Expression

def isNumber : Expression → Bool
  | .literal (.int _) => true
  | .literal (.float _) => true
  | _ => false

/-- The texts of an operand with one pair of parentheses left out: its own, unless it is a number, or one
of those inside. -/
def operandTexts (wrap : Bool) (e : Expression) (inside : List String) : List String :=
  (if wrap && !e.isNumber then [e.render] else []) ++ inside.map (wrapped wrap)

/-- The texts of an expression with one pair of parentheses left out that is not around a number. -/
def lessOnePair : Expression → List String
  | .literal _ => []
  | .var _ => []
  | .unary op e =>
    (operandTexts (e.needsParentheses op) e e.lessOnePair).map fun operand => op.render ++ operand
  | .binary op l r =>
    ((operandTexts (l.bindsLooser op false) l l.lessOnePair).map fun left =>
      left ++ " " ++ op.symbol ++ " " ++ wrapped (r.bindsLooser op true) r.render) ++
    ((operandTexts (r.bindsLooser op true) r r.lessOnePair).map fun right =>
      wrapped (l.bindsLooser op false) l.render ++ " " ++ op.symbol ++ " " ++ right)

end Novella.Script.Expression

namespace Novella.Proofs

open Script Script.Parser

/-! ## One pair less -/

section Pairs

/-- The second text is the first without one pair of parentheses. -/
def LacksPair (whole text : String) : Prop :=
  ∃ front inside back, whole = front ++ "(" ++ inside ++ ")" ++ back ∧ text = front ++ inside ++ back

variable {whole text : String} {e : Expression}

lemma LacksPair.append (h : LacksPair whole text) (before after : String) :
    LacksPair (before ++ whole ++ after) (before ++ text ++ after) := by
  obtain ⟨front, inside, back, rfl, rfl⟩ := h
  exact ⟨before ++ front, inside, back ++ after, by simp only [String.append_assoc],
    by simp only [String.append_assoc]⟩

lemma lacksPair_wrapped (text : String) : LacksPair (Expression.wrapped true text) text :=
  ⟨"", text, "", by simp [Expression.wrapped], by simp⟩

lemma LacksPair.wrapped (h : LacksPair whole text) (wrap : Bool) :
    LacksPair (Expression.wrapped wrap whole) (Expression.wrapped wrap text) := by
  cases wrap with
  | false => exact h
  | true => exact h.append "(" ")"

lemma lacksPair_operandTexts {wrap : Bool} (hinside : ∀ text ∈ e.lessOnePair, LacksPair e.render text)
    (h : text ∈ e.operandTexts wrap e.lessOnePair) :
    LacksPair (Expression.wrapped wrap e.render) text := by
  rcases List.mem_append.1 h with hown | hpart
  · split at hown
    · next hwrap =>
      obtain rfl := List.mem_singleton.1 hown
      rw [Bool.and_elim_left hwrap]
      exact lacksPair_wrapped _
    · cases hown
  · obtain ⟨text, htext, rfl⟩ := List.mem_map.1 hpart
    exact (hinside text htext).wrapped wrap

lemma lacksPair_lessOnePair (h : text ∈ e.lessOnePair) : LacksPair e.render text := by
  induction e generalizing text with
  | literal l => cases h
  | var name => cases h
  | unary op e ih =>
    obtain ⟨operand, hoperand, rfl⟩ := List.mem_map.1 h
    have happend := (lacksPair_operandTexts (fun _ => ih) hoperand).append op.render ""
    rw [Expression.render]
    simpa only [String.append_empty] using happend
  | binary op l r ihl ihr =>
    rw [Expression.render]
    rcases List.mem_append.1 h with h | h
    · obtain ⟨left, hleft, rfl⟩ := List.mem_map.1 h
      have happend := (lacksPair_operandTexts (fun _ => ihl) hleft).append ""
        (" " ++ op.symbol ++ " " ++ Expression.wrapped (r.bindsLooser op true) r.render)
      simpa only [String.empty_append, String.append_assoc] using happend
    · obtain ⟨right, hright, rfl⟩ := List.mem_map.1 h
      have happend := (lacksPair_operandTexts (fun _ => ihr) hright).append
        (Expression.wrapped (l.bindsLooser op false) l.render ++ " " ++ op.symbol ++ " ") ""
      simpa only [String.append_empty] using happend

end Pairs

/-! ## Operators of printed texts -/

section Printed

/-- The operators of the text stand at the depths `ds`, wherever it stands at `depth`. -/
def Shows (text : String) (depth : Nat) (ds : List Nat) : Prop :=
  ∀ tail, WordEnds tail →
    operatorDepths false depth (text.toList ++ tail) = ds ++ operatorDepths true depth tail

variable {text : String} {e : Expression} {depth : Nat} {ds : List Nat}

lemma Shows.wrapped {wrap : Bool} (h : Shows text (if wrap then depth + 1 else depth) ds) :
    Shows (Expression.wrapped wrap text) depth ds := by
  cases wrap with
  | false => exact h
  | true =>
    intro tail _
    rw [wrapped_toList, operatorDepths_open, ← operatorDepths_close]
    exact h (')' :: tail) (notAhead_cons (by decide) tail)

/-- What a parser is known to take can be told from a text that it reads. -/
lemma Takes.of_reads {α : Type} {p : Parser α} {R : List Char → List Char → α → Prop} {a : α}
    {cs rest : List Char} (hp : Takes p R) (h : Reads p cs rest (· = a)) : R cs rest a := by
  obtain ⟨_, place, frontier, hread, rfl⟩ := h {} none {}
  exact hp _ _ _ _ _ hread

lemma Shows.unary (h : Shows text depth ds) (op : UnaryOp) : Shows (op.render ++ text) depth ds := by
  intro tail ht
  rw [← h tail ht, String.toList_append, List.append_assoc]
  cases op with
  | neg => exact operatorDepths_minus
  | not =>
    have hpasses := takes_unaryOperator.of_reads (reads_not (text.toList ++ tail))
    exact (hpasses depth).trans operatorDepths_unspaced

lemma Shows.binary {left right : String} {dl dr : List Nat} (hl : Shows left depth dl)
    (hr : Shows right depth dr) (op : BinaryOp) :
    Shows (left ++ " " ++ op.symbol ++ " " ++ right) depth (dl ++ depth :: dr) := by
  intro tail ht
  have hbounds := precedence_bounds op
  have hop : op.precedence + (6 - op.precedence) = 6 := by omega
  obtain ⟨-, hpasses⟩ := (takes_tierOperator (by omega)).of_reads
    (reads_tierOperator hop (right.toList ++ tail))
  have htext : (left ++ " " ++ op.symbol ++ " " ++ right).toList ++ tail =
      left.toList ++ ' ' :: (op.symbol.toList ++ ' ' :: (right.toList ++ tail)) := by
    simp
  rw [htext, hl _ (notAhead_cons (by decide) _),
    operatorDepths_cons (by decide) (by decide) (by decide), hpasses, operatorDepths_unspaced,
    hr tail ht, List.append_assoc, List.cons_append]

lemma shows_of_prefixed
    (h : ∀ tail, WordEnds tail → Prefixed miss (text.toList ++ tail) (unspaced tail) e)
    (hleaf : ∀ ds, e.OperatorsAt 0 depth ds → ds = []) : Shows text depth [] := by
  intro tail ht
  obtain ⟨ds, hds, hat⟩ := (takes_unaryExpression takes_miss).of_reads (h tail ht).reads depth
  rw [hds, hleaf ds hat, operatorDepths_unspaced]

/-- Where the operands of an operation have as many operators as depths, they can be told apart. -/
lemma operatorsAt_binary {op : BinaryOp} {l r : Expression} {n k : Nat} {dl dr : List Nat}
    (hl : dl.length = l.operators)
    (h : (Expression.binary op l r).OperatorsAt n depth (dl ++ k :: dr)) :
    depth ≤ k ∧ (n < 7 - op.precedence → depth < k) ∧
      l.OperatorsAt (op.operandTier false) k dl ∧ r.OperatorsAt (op.operandTier true) k dr := by
  obtain ⟨k', dl', dr', hds, hk, hlt, hleft, hright⟩ := h
  obtain ⟨rfl, htail⟩ := List.append_inj hds (hl.trans (length_of_operatorsAt hleft).symm)
  obtain ⟨rfl, rfl⟩ := List.cons.inj htail
  exact ⟨hk, hlt, hleft, hright⟩

lemma length_binary {op : BinaryOp} {l r : Expression} {k : Nat} {dl dr : List Nat}
    (hl : dl.length = l.operators) (hr : dr.length = r.operators) :
    (dl ++ k :: dr).length = (Expression.binary op l r).operators := by
  rw [List.length_append, List.length_cons, hl, hr, Expression.operators]
  omega

/-- The operator of a printed operation stands as deep as the operation, which is not deep enough where
operators of its tier cannot stand. -/
lemma shows_render (h : e.Named) (depth : Nat) : ∃ ds, Shows e.render depth ds ∧
    ds.length = e.operators ∧ ∀ n < tierOf e, ¬e.OperatorsAt n depth ds := by
  induction e generalizing depth with
  | literal l =>
    exact ⟨[], shows_of_prefixed (fun _ ht => prefixed_literal miss l ht) fun _ hds => hds, rfl,
      fun n hn => absurd hn (Nat.not_lt_zero n)⟩
  | var name =>
    exact ⟨[], shows_of_prefixed (fun _ ht => prefixed_var miss h ht) fun _ hds => hds, rfl,
      fun n hn => absurd hn (Nat.not_lt_zero n)⟩
  | unary op e ih =>
    obtain ⟨ds, hshows, hlength, -⟩ := ih h (if e.needsParentheses op then depth + 1 else depth)
    exact ⟨ds, hshows.wrapped.unary op, hlength, fun n hn => absurd hn (Nat.not_lt_zero n)⟩
  | binary op l r ihl ihr =>
    obtain ⟨dl, hl, hllength, -⟩ :=
      ihl h.1 (if l.bindsLooser op false then depth + 1 else depth)
    obtain ⟨dr, hr, hrlength, -⟩ :=
      ihr h.2 (if r.bindsLooser op true then depth + 1 else depth)
    refine ⟨dl ++ depth :: dr, hl.wrapped.binary hr.wrapped op, length_binary hllength hrlength,
      fun n hn hat => ?_⟩
    exact absurd ((operatorsAt_binary hllength hat).2.1 hn) (Nat.lt_irrefl depth)

lemma shows_operand (h : e.Named) (wrap : Bool) (depth : Nat) : ∃ ds,
    Shows (Expression.wrapped wrap e.render) depth ds ∧ ds.length = e.operators := by
  obtain ⟨ds, hshows, hlength, -⟩ := shows_render h (if wrap then depth + 1 else depth)
  exact ⟨ds, hshows.wrapped, hlength⟩

/-- The text has the operators of the expression at depths from which the first `n` tiers cannot group
them to the expression. -/
def Ungroups (e : Expression) (n : Nat) (text : String) : Prop :=
  ∀ depth, ∃ ds, Shows text depth ds ∧ ds.length = e.operators ∧ ¬e.OperatorsAt n depth ds

lemma ungroups_operandTexts {wrap : Bool} {n : Nat} (h : e.Named) (hn : n ≤ 6)
    (hwrap : wrap = true → e.isNumber = true ∨ n < tierOf e)
    (hinside : ∀ text ∈ e.lessOnePair, Ungroups e 6 text)
    (htext : text ∈ e.operandTexts wrap e.lessOnePair) : Ungroups e n text := by
  intro depth
  rcases List.mem_append.1 htext with hown | hpart
  · split at hown
    · next hremoved =>
      obtain rfl := List.mem_singleton.1 hown
      simp only [Bool.and_eq_true, Bool.not_eq_true'] at hremoved
      have htier : n < tierOf e := (hwrap hremoved.1).resolve_left (by simp [hremoved.2])
      obtain ⟨ds, hshows, hlength, hnot⟩ := shows_render h depth
      exact ⟨ds, hshows, hlength, hnot n htier⟩
    · cases hown
  · obtain ⟨part, hmem, rfl⟩ := List.mem_map.1 hpart
    obtain ⟨ds, hshows, hlength, hnot⟩ := hinside part hmem (if wrap then depth + 1 else depth)
    refine ⟨ds, hshows.wrapped, hlength, fun hat => hnot ?_⟩
    cases wrap with
    | false => exact operatorsAt_of_le hat hn
    | true =>
      have hnumber : e.isNumber ≠ true := by
        cases e with
        | literal l => cases hmem
        | _ => simp [Expression.isNumber]
      exact operatorsAt_deeper hat ((hwrap rfl).resolve_left hnumber)

lemma isNumber_or_tierOf {op : UnaryOp} (h : e.needsParentheses op = true) :
    e.isNumber = true ∨ 0 < tierOf e := by
  cases e with
  | literal l =>
    cases l with
    | int n => exact .inl rfl
    | float x => exact .inl rfl
    | _ => cases h
  | binary op l r =>
    have hbounds := precedence_bounds op
    exact .inr (by simp only [tierOf]; omega)
  | _ => cases h

lemma ungroups_lessOnePair (h : e.Named) (htext : text ∈ e.lessOnePair) : Ungroups e 6 text := by
  induction e generalizing text with
  | literal l => cases htext
  | var name => cases htext
  | unary op e ih =>
    obtain ⟨operand, hoperand, rfl⟩ := List.mem_map.1 htext
    have hungroups : Ungroups e 0 operand :=
      ungroups_operandTexts h (Nat.zero_le 6) isNumber_or_tierOf (fun _ => ih h) hoperand
    intro depth
    obtain ⟨ds, hshows, hlength, hnot⟩ := hungroups depth
    exact ⟨ds, hshows.unary op, hlength, hnot⟩
  | binary op l r ihl ihr =>
    have hbounds := precedence_bounds op
    rcases List.mem_append.1 htext with htext | htext
    · obtain ⟨left, hleft, rfl⟩ := List.mem_map.1 htext
      have hungroups : Ungroups l (op.operandTier false) left :=
        ungroups_operandTexts h.1 (by rw [operandTier_left]; omega)
          (fun hw => .inr (bindsLooser_iff.1 hw)) (fun _ => ihl h.1) hleft
      intro depth
      obtain ⟨dl, hl, hllength, hnot⟩ := hungroups depth
      obtain ⟨dr, hr, hrlength⟩ := shows_operand h.2 (r.bindsLooser op true) depth
      exact ⟨dl ++ depth :: dr, hl.binary hr op, length_binary hllength hrlength,
        fun hat => hnot (operatorsAt_binary hllength hat).2.2.1⟩
    · obtain ⟨right, hright, rfl⟩ := List.mem_map.1 htext
      have hungroups : Ungroups r (op.operandTier true) right :=
        ungroups_operandTexts h.2 (by rw [operandTier_right]; omega)
          (fun hw => .inr (bindsLooser_iff.1 hw)) (fun _ => ihr h.2) hright
      intro depth
      obtain ⟨dr, hr, hrlength, hnot⟩ := hungroups depth
      obtain ⟨dl, hl, hllength⟩ := shows_operand h.1 (l.bindsLooser op false) depth
      exact ⟨dl ++ depth :: dr, hl.binary hr op, length_binary hllength hrlength,
        fun hat => hnot (operatorsAt_binary hllength hat).2.2.2⟩

end Printed

/-- Where one pair of parentheses is left out of the text of an expression, and the pair is not around a
number after a minus, the rest is not a text of the expression: it is refused, or it is read as an
expression that is another one also by value. -/
theorem parentheses_needed {e : Expression} (hnamed : e.Named) {text : String}
    (h : text ∈ e.lessOnePair) : LacksPair e.render text ∧
      ∀ e', parseExpression text = .ok e' → e' ≠ e ∧ e'.sameValue e = false := by
  refine ⟨lacksPair_lessOnePair h, fun e' hparse => ?_⟩
  obtain ⟨ds, hshows, -, hnot⟩ := ungroups_lessOnePair hnamed h 0
  have hdepths : operatorDepths false 0 text.toList = ds := by
    have htext := hshows [] notAhead_nil
    rwa [operatorDepths, List.append_nil, List.append_nil] at htext
  have hat := operatorsAt_of_parseExpression hparse
  rw [hdepths] at hat
  refine ⟨?_, Bool.eq_false_iff.2 fun hsame => hnot (operatorsAt_of_sameValue hsame hat)⟩
  rintro rfl
  exact hnot hat

/-- A product of a sum after a minus and a difference whose right side is a difference. -/
def product : Expression :=
  .binary .mul (.unary .neg (.binary .add (.var "a") (.var "b")))
    (.binary .sub (.var "c") (.binary .sub (.var "d") (.literal (.int 2))))

/-- The text that is left without the inner pair of the difference. -/
def flatProduct : String := "-(a + b) * (c - d - 2)"

theorem parentheses_needed_product : product.Named ∧ flatProduct ∈ product.lessOnePair ∧
    product.lessOnePair.length = 3 ∧ LacksPair product.render flatProduct ∧
    ∃ e', parseExpression flatProduct = .ok e' ∧ e' ≠ product ∧ e'.sameValue product = false := by
  have hnamed : product.Named :=
    ⟨⟨(by decide : isName "a" = true), (by decide : isName "b" = true)⟩,
      (by decide : isName "c" = true), (by decide : isName "d" = true), trivial⟩
  have hmem : flatProduct ∈ product.lessOnePair := by decide +kernel
  have hread : (parseExpression flatProduct).isOk = true := by decide +kernel
  obtain ⟨hlacks, hneeded⟩ := parentheses_needed hnamed hmem
  refine ⟨hnamed, hmem, by decide +kernel, hlacks, ?_⟩
  cases hparse : parseExpression flatProduct with
  | error fault =>
    rw [hparse] at hread
    cases hread
  | ok e' => exact ⟨e', rfl, hneeded e' hparse⟩

end Novella.Proofs
