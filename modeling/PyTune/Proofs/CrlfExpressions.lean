import PyTune.Proofs.CrlfWindows

/-!
# Expressions read alike in a source and its CRLF form

Every expression rule reads the tapes of a source and of its CRLF form alike (`Grammar.Twin`), by
induction on the depth bound the rules share; the items of expression lists keep spans that
correspond (`Span.Crlf`).
-/

namespace PyTune

open Text (OffsetsMatch StartsMatch)

namespace Grammar

variable {p : CrlfTapes}

mutual

theorem starExpressions_twin : ∀ n,
    Twin p (List.Forall₂ (Span.Crlf p.src)) (starExpressions n) (starExpressions n)
  | 0 => Twin.exhausted
  | n + 1 => by
    rw [starExpressions.eq_2]
    exact starExpressionsFrom_twin n [] [] .nil
termination_by structural n => n

theorem starExpressionsFrom_twin : ∀ n (acc₁ acc₂ : List Span),
    List.Forall₂ (Span.Crlf p.src) acc₁ acc₂ →
    Twin p (List.Forall₂ (Span.Crlf p.src)) (starExpressionsFrom n acc₁)
      (starExpressionsFrom n acc₂)
  | 0, _, _, _ => Twin.exhausted
  | n + 1, acc₁, acc₂, hacc => by
    rw [starExpressionsFrom.eq_2, starExpressionsFrom.eq_2]
    refine Twin.bind peekStart_twin fun a₁ a₂ starts => ?_
    refine Twin.peek_bind (fun _ => rfl) (fun _ => rfl) fun _ => ?_
    extract_lets jp₁ jp₂
    have more : ∀ r, Twin p (List.Forall₂ (Span.Crlf p.src)) (jp₁ r) (jp₂ r) := by
      intro r
      simp only [jp₁, jp₂]
      refine Twin.bind lastEnd_twin fun b₁ b₂ stops => ?_
      have items : List.Forall₂ (Span.Crlf p.src) (⟨a₁, b₁⟩ :: acc₁) (⟨a₂, b₂⟩ :: acc₂) :=
        .cons ⟨starts, stops⟩ hacc
      refine Twin.peek_bind (fun _ => rfl) (fun _ => rfl) fun _ => ?_
      split
      · exact Twin.pure (List.forall₂_reverse_iff.2 items)
      · refine Twin.skip_bind (Twin.bind_eq startsExpression_twin fun _ => ?_)
        split
        · exact Twin.pure (List.forall₂_reverse_iff.2 items)
        · exact starExpressionsFrom_twin n _ _ items
    split
    · exact Twin.skip_bind (Twin.bind_eq (comparison_twin n) more)
    · exact Twin.bind_eq (expression_twin n) more
termination_by structural n => n

theorem starNamedExpressions_twin : ∀ n,
    Twin p Eq (starNamedExpressions n) (starNamedExpressions n)
  | 0 => Twin.exhausted
  | n + 1 => by
    rw [starNamedExpressions.eq_2]
    refine Twin.bind_eq (starNamedItem_twin n) fun _ => ?_
    refine Twin.peek_bind (fun _ => rfl) (fun _ => rfl) fun _ => ?_
    split
    · exact Twin.pure rfl
    · refine Twin.skip_bind (Twin.bind_eq startsExpression_twin fun _ => ?_)
      split
      · exact Twin.pure rfl
      · exact starNamedExpressions_twin n
termination_by structural n => n

theorem starNamedItem_twin : ∀ n, Twin p Eq (starNamedItem n) (starNamedItem n)
  | 0 => Twin.exhausted
  | n + 1 => by
    rw [starNamedItem.eq_2]
    refine Twin.peek_bind (fun _ => rfl) (fun _ => rfl) fun _ => ?_
    split
    · exact Twin.skip_bind (comparison_twin n)
    · exact namedExpression_twin n
termination_by structural n => n

theorem targetList_twin : ∀ n, Twin p Eq (targetList n) (targetList n)
  | 0 => Twin.exhausted
  | n + 1 => by
    rw [targetList.eq_2]
    refine Twin.peek_bind (fun _ => rfl) (fun _ => rfl) fun _ => ?_
    extract_lets jp
    have target : ∀ r, Twin p Eq (jp r) (jp r) := by
      intro r
      simp only [jp]
      refine Twin.bind_eq (primary_twin n) fun _ => ?_
      refine Twin.peek_bind (fun _ => rfl) (fun _ => rfl) fun _ => ?_
      split
      · exact Twin.pure rfl
      · refine Twin.skip_bind (Twin.bind_eq startsExpression_twin fun _ => ?_)
        split
        · exact Twin.pure rfl
        · exact targetList_twin n
    split
    · exact Twin.bind_eq skip_twin target
    · exact target ()
termination_by structural n => n

theorem namedExpression_twin : ∀ n, Twin p Eq (namedExpression n) (namedExpression n)
  | 0 => Twin.exhausted
  | n + 1 => by
    rw [namedExpression.eq_2]
    refine Twin.bind peekStart_twin fun a₁ a₂ starts => ?_
    refine Twin.bind_eq (expression_twin n) fun _ => ?_
    refine Twin.peek_bind (fun _ => rfl) (fun _ => rfl) fun _ => ?_
    split
    · -- the target's texts agree up to line endings, so both are names or neither is
      refine Twin.bind lastEnd_twin fun b₁ b₂ stops => ?_
      refine Twin.bind (text_twin starts stops) fun x₁ x₂ alike => ?_
      extract_lets jp
      have assigned : ∀ r, Twin p Eq (jp r) (jp r) := by
        intro r
        simp only [jp]
        exact Twin.skip_bind (expression_twin n)
      refine Twin.ite (by rw [Text.isIdentifier_crlf_eq alike]) ?_ (assigned ())
      exact Twin.bind_eq Twin.fail fun _ => assigned ()
    · exact Twin.pure rfl
termination_by structural n => n

theorem expression_twin : ∀ n, Twin p Eq (expression n) (expression n)
  | 0 => Twin.exhausted
  | n + 1 => by
    rw [expression.eq_2]
    refine Twin.peek_bind (fun _ => rfl) (fun _ => rfl) fun _ => ?_
    split
    · refine Twin.skip_bind (Twin.bind_eq (parameters_twin n _ _ rfl) fun _ => ?_)
      exact Twin.bind_eq (expect_twin rfl _) fun _ => expression_twin n
    · refine Twin.bind_eq (disjunction_twin n) fun _ => ?_
      refine Twin.peek_bind (fun _ => rfl) (fun _ => rfl) fun _ => ?_
      split
      · refine Twin.skip_bind (Twin.bind_eq (disjunction_twin n) fun _ => ?_)
        exact Twin.bind_eq (expect_twin rfl _) fun _ => expression_twin n
      · exact Twin.pure rfl
termination_by structural n => n

theorem disjunction_twin : ∀ n, Twin p Eq (disjunction n) (disjunction n)
  | 0 => Twin.exhausted
  | n + 1 => by
    rw [disjunction.eq_2]
    exact Twin.bind_eq (inversion_twin n) fun _ => disjunctionRest_twin n
termination_by structural n => n

theorem disjunctionRest_twin : ∀ n, Twin p Eq (disjunctionRest n) (disjunctionRest n)
  | 0 => Twin.exhausted
  | n + 1 => by
    rw [disjunctionRest.eq_2]
    refine Twin.peek_bind (fun _ => rfl) (fun _ => rfl) fun _ => ?_
    split
    · exact Twin.skip_bind (Twin.bind_eq (inversion_twin n) fun _ => disjunctionRest_twin n)
    · exact Twin.pure rfl
termination_by structural n => n

theorem inversion_twin : ∀ n, Twin p Eq (inversion n) (inversion n)
  | 0 => Twin.exhausted
  | n + 1 => by
    rw [inversion.eq_2]
    refine Twin.peek_bind (fun _ => rfl) (fun _ => rfl) fun _ => ?_
    split
    · exact Twin.skip_bind (inversion_twin n)
    · exact comparison_twin n
termination_by structural n => n

theorem comparison_twin : ∀ n, Twin p Eq (comparison n) (comparison n)
  | 0 => Twin.exhausted
  | n + 1 => by
    rw [comparison.eq_2]
    exact Twin.bind_eq (factor_twin n) fun _ => comparisonRest_twin n
termination_by structural n => n

theorem comparisonRest_twin : ∀ n, Twin p Eq (comparisonRest n) (comparisonRest n)
  | 0 => Twin.exhausted
  | n + 1 => by
    rw [comparisonRest.eq_2]
    refine Twin.peek_bind (fun _ => rfl) (fun _ => rfl) fun _ => ?_
    extract_lets jp
    have operand : ∀ r, Twin p Eq (jp r) (jp r) := by
      intro r
      simp only [jp]
      exact Twin.bind_eq (factor_twin n) fun _ => comparisonRest_twin n
    split
    · exact Twin.bind_eq skip_twin operand
    · exact Twin.bind_eq skip_twin operand
    · exact Twin.bind_eq skip_twin operand
    · exact Twin.bind_eq skip_twin operand
    · split
      · exact Twin.pure rfl
      · exact Twin.bind_eq skip_twin operand
    · refine Twin.skip_bind (Twin.peek_bind (fun _ => rfl) (fun _ => rfl) fun _ => ?_)
      split
      · exact Twin.bind_eq skip_twin operand
      · exact operand ()
    · exact Twin.skip_bind (Twin.bind_eq (expect_twin rfl _) operand)
    · exact Twin.pure rfl
termination_by structural n => n

theorem factor_twin : ∀ n, Twin p Eq (factor n) (factor n)
  | 0 => Twin.exhausted
  | n + 1 => by
    rw [factor.eq_2]
    refine Twin.peek_bind (fun _ => rfl) (fun _ => rfl) fun _ => ?_
    split
    · exact Twin.skip_bind (factor_twin n)
    · refine Twin.peek_bind (fun _ => rfl) (fun _ => rfl) fun _ => ?_
      extract_lets jp
      have operand : ∀ r, Twin p Eq (jp r) (jp r) := by
        intro r
        simp only [jp]
        exact primary_twin n
      split
      · exact Twin.bind_eq skip_twin operand
      · exact operand ()
termination_by structural n => n

theorem primary_twin : ∀ n, Twin p Eq (primary n) (primary n)
  | 0 => Twin.exhausted
  | n + 1 => by
    rw [primary.eq_2]
    exact Twin.bind_eq (atom_twin n) fun _ => primaryRest_twin n
termination_by structural n => n

theorem primaryRest_twin : ∀ n, Twin p Eq (primaryRest n) (primaryRest n)
  | 0 => Twin.exhausted
  | n + 1 => by
    rw [primaryRest.eq_2]
    refine Twin.peek_bind (fun _ => rfl) (fun _ => rfl) fun _ => ?_
    extract_lets jp
    have rest : ∀ r, Twin p Eq (jp r) (jp r) := by
      intro r
      simp only [jp]
      exact primaryRest_twin n
    split
    · exact Twin.skip_bind (Twin.bind_eq (Twin.discard (expectName_twin _)) rest)
    · refine Twin.skip_bind (Twin.bind_eq (callArguments_twin n) fun _ => ?_)
      exact Twin.bind_eq (expect_twin rfl _) rest
    · refine Twin.skip_bind (Twin.bind_eq (subscript_twin n) fun _ => ?_)
      exact Twin.bind_eq (expect_twin rfl _) rest
    · exact Twin.pure rfl
termination_by structural n => n

theorem atom_twin : ∀ n, Twin p Eq (atom n) (atom n)
  | 0 => Twin.exhausted
  | n + 1 => by
    rw [atom.eq_2]
    -- a string literal is skipped with those after it, whatever its text
    have strings : Twin p Eq
        (read >>= fun t => skipWhile (fun tok => tok.isStr || tok matches .fstr _) t.lexemes.size)
        (read >>= fun t => skipWhile (fun tok => tok.isStr || tok matches .fstr _) t.lexemes.size) := by
      refine Twin.read_bind ?_
      rw [p.size_eq]
      exact skipWhile_twin (fun _ => rfl) (fun _ => rfl) _
    refine Twin.peek_bind (fun _ => rfl) (fun _ => rfl) fun _ => ?_
    split
    · exact strings
    · exact strings
    · exact skip_twin
    · exact skip_twin
    · exact skip_twin
    · exact skip_twin
    · exact skip_twin
    · refine Twin.skip_bind (Twin.peek_bind (fun _ => rfl) (fun _ => rfl) fun _ => ?_)
      extract_lets jp
      have close : ∀ r, Twin p Eq (jp r) (jp r) := by
        intro r
        simp only [jp]
        exact expect_twin rfl _
      split
      · exact close ()
      · exact Twin.bind_eq (yieldExpr_twin n) close
      · exact Twin.bind_eq (sequenceBody_twin n _ rfl) close
    · refine Twin.skip_bind (Twin.peek_bind (fun _ => rfl) (fun _ => rfl) fun _ => ?_)
      extract_lets jp
      have close : ∀ r, Twin p Eq (jp r) (jp r) := by
        intro r
        simp only [jp]
        exact expect_twin rfl _
      split
      · exact Twin.bind_eq (sequenceBody_twin n _ rfl) close
      · exact close ()
    · refine Twin.skip_bind (Twin.peek_bind (fun _ => rfl) (fun _ => rfl) fun _ => ?_)
      extract_lets jp
      have close : ∀ r, Twin p Eq (jp r) (jp r) := by
        intro r
        simp only [jp]
        exact expect_twin rfl _
      split
      · exact Twin.bind_eq (braceBody_twin n) close
      · exact close ()
    · split
      · exact skip_twin
      · exact Twin.fail
termination_by structural n => n

theorem sequenceBody_twin : ∀ n close, close.isString = false →
    Twin p Eq (sequenceBody n close) (sequenceBody n close)
  | 0, _, _ => Twin.exhausted
  | n + 1, close, hc => by
    rw [sequenceBody.eq_2]
    refine Twin.bind_eq (starNamedItem_twin n) fun _ => ?_
    refine Twin.bind_eq comprehensionFollows_twin fun _ => ?_
    split
    · exact comprehension_twin n
    · exact restOfList_twin n close _ hc
termination_by structural n => n

theorem braceBody_twin : ∀ n, Twin p Eq (braceBody n) (braceBody n)
  | 0 => Twin.exhausted
  | n + 1 => by
    rw [braceBody.eq_2]
    refine Twin.peek_bind (fun _ => rfl) (fun _ => rfl) fun _ => ?_
    extract_lets jp
    have items : ∀ isDict, Twin p Eq (jp isDict) (jp isDict) := by
      intro isDict
      simp only [jp]
      refine Twin.bind_eq comprehensionFollows_twin fun _ => ?_
      split
      · exact comprehension_twin n
      · exact restOfList_twin n _ _ rfl
    split
    · refine Twin.skip_bind (Twin.bind_eq (comparison_twin n) fun _ => ?_)
      exact Twin.bind_eq (Twin.pure rfl) items
    · exact Twin.bind_eq (starNamedItem_twin n) fun _ => Twin.bind_eq (Twin.pure rfl) items
    · refine Twin.bind_eq (namedExpression_twin n) fun _ => ?_
      refine Twin.peek_bind (fun _ => rfl) (fun _ => rfl) fun _ => ?_
      split
      · refine Twin.skip_bind (Twin.bind_eq (expression_twin n) fun _ => ?_)
        exact Twin.bind_eq (Twin.pure rfl) items
      · exact Twin.bind_eq (Twin.pure rfl) items
termination_by structural n => n

theorem dictItem_twin : ∀ n, Twin p Eq (dictItem n) (dictItem n)
  | 0 => Twin.exhausted
  | n + 1 => by
    rw [dictItem.eq_2]
    refine Twin.peek_bind (fun _ => rfl) (fun _ => rfl) fun _ => ?_
    split
    · exact Twin.skip_bind (comparison_twin n)
    · refine Twin.bind_eq (expression_twin n) fun _ => ?_
      exact Twin.bind_eq (expect_twin rfl _) fun _ => expression_twin n
termination_by structural n => n

theorem restOfList_twin : ∀ n close item, close.isString = false →
    Twin p Eq (restOfList n close item) (restOfList n close item)
  | 0, _, _, _ => Twin.exhausted
  | n + 1, close, item, hc => by
    rw [restOfList.eq_2]
    refine Twin.peek_bind (fun _ => rfl) (fun _ => rfl) fun _ => ?_
    split
    · exact Twin.pure rfl
    · refine Twin.skip_bind (Twin.peek_bind_crlf (fun tok => by simp only [Token.crlf_beq tok hc])
        fun _ => ?_)
      split
      · exact Twin.pure rfl
      · extract_lets jp
        have rest : ∀ r, Twin p Eq (jp r) (jp r) := by
          intro r
          simp only [jp]
          exact restOfList_twin n close item hc
        cases item
        · exact Twin.bind_eq (starNamedItem_twin n) rest
        · exact Twin.bind_eq (dictItem_twin n) rest
termination_by structural n => n

theorem comprehension_twin : ∀ n, Twin p Eq (comprehension n) (comprehension n)
  | 0 => Twin.exhausted
  | n + 1 => by
    rw [comprehension.eq_2]
    refine Twin.bind_eq comprehensionFollows_twin fun _ => ?_
    split
    · exact Twin.pure rfl
    · refine Twin.peek_bind (fun _ => rfl) (fun _ => rfl) fun _ => ?_
      extract_lets jp
      have clause : ∀ r, Twin p Eq (jp r) (jp r) := by
        intro r
        simp only [jp]
        refine Twin.bind_eq (expect_twin rfl _) fun _ => ?_
        refine Twin.bind_eq (targetList_twin n) fun _ => ?_
        refine Twin.bind_eq (expect_twin rfl _) fun _ => ?_
        refine Twin.bind_eq (disjunction_twin n) fun _ => ?_
        exact Twin.bind_eq (conditions_twin n) fun _ => comprehension_twin n
      split
      · exact Twin.bind_eq skip_twin clause
      · exact clause ()
termination_by structural n => n

theorem conditions_twin : ∀ n, Twin p Eq (conditions n) (conditions n)
  | 0 => Twin.exhausted
  | n + 1 => by
    rw [conditions.eq_2]
    refine Twin.peek_bind (fun _ => rfl) (fun _ => rfl) fun _ => ?_
    split
    · exact Twin.skip_bind (Twin.bind_eq (disjunction_twin n) fun _ => conditions_twin n)
    · exact Twin.pure rfl
termination_by structural n => n

theorem callArguments_twin : ∀ n, Twin p Eq (callArguments n) (callArguments n)
  | 0 => Twin.exhausted
  | n + 1 => by
    rw [callArguments.eq_2]
    exact callArgumentsFrom_twin n true
termination_by structural n => n

theorem callArgumentsFrom_twin : ∀ n first,
    Twin p Eq (callArgumentsFrom n first) (callArgumentsFrom n first)
  | 0, _ => Twin.exhausted
  | n + 1, first => by
    rw [callArgumentsFrom.eq_2]
    refine Twin.peek_bind (fun _ => rfl) (fun _ => rfl) fun _ => ?_
    split
    · exact Twin.pure rfl
    · refine Twin.peek_bind (fun _ => rfl) (fun _ => rfl) fun _ => ?_
      extract_lets jp value
      have more : ∀ r, Twin p Eq (jp r) (jp r) := by
        intro r
        simp only [jp]
        refine Twin.peek_bind (fun _ => rfl) (fun _ => rfl) fun _ => ?_
        split
        · exact Twin.pure rfl
        · exact Twin.skip_bind (callArgumentsFrom_twin n false)
      have keyword : ∀ r, Twin p Eq (value r) (value r) := by
        intro r
        simp only [value]
        exact Twin.skip_bind (Twin.bind_eq (expression_twin n) more)
      split
      · exact Twin.skip_bind (Twin.bind_eq (expression_twin n) more)
      · exact Twin.skip_bind (Twin.bind_eq (expression_twin n) more)
      · refine Twin.bind peekStart_twin fun a₁ a₂ starts => ?_
        refine Twin.bind_eq (namedExpression_twin n) fun _ => ?_
        refine Twin.peek_bind (fun _ => rfl) (fun _ => rfl) fun _ => ?_
        split
        · -- a keyword argument: its name's texts agree up to line endings
          refine Twin.bind lastEnd_twin fun b₁ b₂ stops => ?_
          refine Twin.bind (text_twin starts stops) fun x₁ x₂ alike => ?_
          refine Twin.ite (by rw [Text.isIdentifier_crlf_eq alike]) ?_ (keyword ())
          exact Twin.bind_eq Twin.fail fun _ => keyword ()
        · refine Twin.bind_eq comprehensionFollows_twin fun _ => ?_
          split
          · exact Twin.bind_eq (comprehension_twin n) fun _ => Twin.pure rfl
          · exact more ()
termination_by structural n => n

theorem subscript_twin : ∀ n, Twin p Eq (subscript n) (subscript n)
  | 0 => Twin.exhausted
  | n + 1 => by
    rw [subscript.eq_2]
    refine Twin.bind_eq (sliceItem_twin n) fun _ => ?_
    refine Twin.peek_bind (fun _ => rfl) (fun _ => rfl) fun _ => ?_
    split
    · exact Twin.pure rfl
    · refine Twin.skip_bind (Twin.peek_bind (fun _ => rfl) (fun _ => rfl) fun _ => ?_)
      split
      · exact Twin.pure rfl
      · exact subscript_twin n
termination_by structural n => n

theorem sliceItem_twin : ∀ n, Twin p Eq (sliceItem n) (sliceItem n)
  | 0 => Twin.exhausted
  | n + 1 => by
    rw [sliceItem.eq_2]
    refine Twin.peek_bind (fun _ => rfl) (fun _ => rfl) fun _ => ?_
    split
    · exact Twin.skip_bind (comparison_twin n)
    · refine Twin.peek_bind (fun _ => rfl) (fun _ => rfl) fun _ => ?_
      extract_lets jp
      have bounds : ∀ r, Twin p Eq (jp r) (jp r) := by
        intro r
        simp only [jp]
        exact Twin.bind_eq (sliceBound_twin n) fun _ => sliceBound_twin n
      split
      · exact Twin.bind_eq (namedExpression_twin n) bounds
      · exact bounds ()
termination_by structural n => n

theorem sliceBound_twin : ∀ n, Twin p Eq (sliceBound n) (sliceBound n)
  | 0 => Twin.exhausted
  | n + 1 => by
    rw [sliceBound.eq_2]
    refine Twin.peek_bind (fun _ => rfl) (fun _ => rfl) fun _ => ?_
    split
    · refine Twin.skip_bind (Twin.bind_eq startsExpression_twin fun _ => ?_)
      split
      · exact expression_twin n
      · exact Twin.pure rfl
    · exact Twin.pure rfl
termination_by structural n => n

theorem yieldExpr_twin : ∀ n, Twin p Eq (yieldExpr n) (yieldExpr n)
  | 0 => Twin.exhausted
  | n + 1 => by
    rw [yieldExpr.eq_2]
    refine Twin.skip_bind (Twin.peek_bind (fun _ => rfl) (fun _ => rfl) fun _ => ?_)
    split
    · exact Twin.skip_bind (expression_twin n)
    · refine Twin.bind_eq startsExpression_twin fun _ => ?_
      split
      · exact Twin.discard (starExpressions_twin n)
      · exact Twin.pure rfl
termination_by structural n => n

theorem parameters_twin : ∀ n close annotated, close.isString = false →
    Twin p Eq (parameters n close annotated) (parameters n close annotated)
  | 0, _, _, _ => Twin.exhausted
  | n + 1, close, annotated, hc => by
    rw [parameters.eq_2]
    refine Twin.peek_bind_crlf (fun tok => by simp only [Token.crlf_beq tok hc]) fun _ => ?_
    split
    · exact Twin.pure rfl
    · refine Twin.peek_bind (fun _ => rfl) (fun _ => rfl) fun _ => ?_
      extract_lets jp
      have more : ∀ r, Twin p Eq (jp r) (jp r) := by
        intro r
        simp only [jp]
        refine Twin.peek_bind (fun _ => rfl) (fun _ => rfl) fun _ => ?_
        split
        · exact Twin.pure rfl
        · exact Twin.skip_bind (parameters_twin n close annotated hc)
      split
      · exact Twin.bind_eq skip_twin more
      · refine Twin.skip_bind (Twin.peek_bind (fun _ => rfl) (fun _ => rfl) fun _ => ?_)
        split
        · exact Twin.bind_eq (parameter_twin n annotated false) more
        · exact more ()
      · exact Twin.skip_bind (Twin.bind_eq (parameter_twin n annotated false) more)
      · exact Twin.bind_eq (parameter_twin n annotated true) more
termination_by structural n => n

theorem parameter_twin : ∀ n annotated default,
    Twin p Eq (parameter n annotated default) (parameter n annotated default)
  | 0, _, _ => Twin.exhausted
  | n + 1, annotated, default => by
    rw [parameter.eq_2]
    refine Twin.bind_eq (Twin.discard (expectName_twin _)) fun _ => ?_
    refine Twin.peek_bind (fun _ => rfl) (fun _ => rfl) fun _ => ?_
    extract_lets jp₁ jp₂
    have withDefault : ∀ r, Twin p Eq (jp₁ r) (jp₁ r) := by
      intro r
      simp only [jp₁]
      refine Twin.peek_bind (fun _ => rfl) (fun _ => rfl) fun _ => ?_
      split
      · exact Twin.skip_bind (expression_twin n)
      · exact Twin.pure rfl
    have annotation : ∀ r, Twin p Eq (jp₂ r) (jp₂ r) := by
      intro r
      simp only [jp₂]
      exact Twin.bind_eq (expression_twin n) withDefault
    split
    · refine Twin.skip_bind (Twin.peek_bind (fun _ => rfl) (fun _ => rfl) fun _ => ?_)
      split
      · exact Twin.bind_eq skip_twin annotation
      · exact annotation ()
    · exact withDefault ()
termination_by structural n => n

theorem typeParamList_twin : ∀ n, Twin p Eq (typeParamList n) (typeParamList n)
  | 0 => Twin.exhausted
  | n + 1 => by
    rw [typeParamList.eq_2]
    refine Twin.peek_bind (fun _ => rfl) (fun _ => rfl) fun _ => ?_
    extract_lets jp₁ jp₂ jp₃ jp₄
    have more : ∀ r, Twin p Eq (jp₁ r) (jp₁ r) := by
      intro r
      simp only [jp₁]
      refine Twin.peek_bind (fun _ => rfl) (fun _ => rfl) fun _ => ?_
      split
      · exact Twin.pure rfl
      · refine Twin.skip_bind (Twin.peek_bind (fun _ => rfl) (fun _ => rfl) fun _ => ?_)
        split
        · exact Twin.pure rfl
        · exact typeParamList_twin n
    have bound : ∀ r, Twin p Eq (jp₂ r) (jp₂ r) := by
      intro r
      simp only [jp₂]
      exact Twin.bind_eq (expression_twin n) more
    have withDefault : ∀ r, Twin p Eq (jp₃ r) (jp₃ r) := by
      intro r
      simp only [jp₃]
      refine Twin.peek_bind (fun _ => rfl) (fun _ => rfl) fun _ => ?_
      split
      · refine Twin.skip_bind (Twin.peek_bind (fun _ => rfl) (fun _ => rfl) fun _ => ?_)
        split
        · exact Twin.bind_eq skip_twin bound
        · exact bound ()
      · exact more ()
    have param : ∀ r, Twin p Eq (jp₄ r) (jp₄ r) := by
      intro r
      simp only [jp₄]
      refine Twin.bind_eq (Twin.discard (expectName_twin _)) fun _ => ?_
      refine Twin.peek_bind (fun _ => rfl) (fun _ => rfl) fun _ => ?_
      split
      · exact Twin.skip_bind (Twin.bind_eq (expression_twin n) withDefault)
      · exact withDefault ()
    split
    · exact Twin.bind_eq skip_twin param
    · exact param ()
termination_by structural n => n

theorem withItemList_twin : ∀ n parenthesized,
    Twin p Eq (withItemList n parenthesized) (withItemList n parenthesized)
  | 0, _ => Twin.exhausted
  | n + 1, parenthesized => by
    rw [withItemList.eq_2]
    refine Twin.bind_eq (expression_twin n) fun _ => ?_
    refine Twin.peek_bind (fun _ => rfl) (fun _ => rfl) fun _ => ?_
    extract_lets jp₁ jp₂
    have more : ∀ r, Twin p Eq (jp₁ r) (jp₁ r) := by
      intro r
      simp only [jp₁]
      refine Twin.peek_bind (fun _ => rfl) (fun _ => rfl) fun _ => ?_
      split
      · exact Twin.pure rfl
      · refine Twin.skip_bind (Twin.peek_bind (fun _ => rfl) (fun _ => rfl) fun _ => ?_)
        split
        · exact Twin.pure rfl
        · exact withItemList_twin n parenthesized
    have target : ∀ r, Twin p Eq (jp₂ r) (jp₂ r) := by
      intro r
      simp only [jp₂]
      exact Twin.bind_eq (primary_twin n) more
    split
    · refine Twin.skip_bind (Twin.peek_bind (fun _ => rfl) (fun _ => rfl) fun _ => ?_)
      split
      · exact Twin.bind_eq Twin.fail fun _ => target ()
      · exact target ()
    · exact more ()
termination_by structural n => n

theorem moreExpressions_twin : ∀ n, Twin p Eq (moreExpressions n) (moreExpressions n)
  | 0 => Twin.exhausted
  | n + 1 => by
    rw [moreExpressions.eq_2]
    refine Twin.peek_bind (fun _ => rfl) (fun _ => rfl) fun _ => ?_
    split
    · exact Twin.skip_bind (Twin.bind_eq (expression_twin n) fun _ => moreExpressions_twin n)
    · exact Twin.pure rfl
termination_by structural n => n

end

theorem typeParams_twin : ∀ n, Twin p Eq (typeParams n) (typeParams n)
  | 0 => Twin.exhausted
  | n + 1 => by
    rw [typeParams.eq_2]
    refine Twin.skip_bind (Twin.bind_eq (typeParamList_twin n) fun _ => ?_)
    exact expect_twin rfl _

theorem withItems_twin : ∀ n, Twin p Eq (withItems n) (withItems n)
  | 0 => Twin.exhausted
  | n + 1 => by
    rw [withItems.eq_2]
    -- a parenthesized list of items is told by the tokens ahead, which the two tapes share
    refine Twin.bind peek_twin fun tok₁ tok₂ same => Twin.bind upcoming_twin fun ts₁ ts₂ ahead => ?_
    have group : (tok₂ == .lParen && withItemsGroup ts₂ 0 false) =
        (tok₁ == .lParen && withItemsGroup ts₁ 0 false) := by
      rw [same, ahead, Token.crlf_beq tok₁ rfl, withItemsGroup_crlf]
    rw [group]
    extract_lets parenthesized jp
    have items : ∀ r, Twin p Eq (jp r) (jp r) := by
      intro r
      simp only [jp]
      refine Twin.bind_eq (withItemList_twin n _) fun _ => ?_
      split
      · exact expect_twin rfl _
      · exact Twin.pure rfl
    split
    · exact Twin.bind_eq skip_twin items
    · exact items ()

theorem exceptHeader_twin : ∀ n, Twin p Eq (exceptHeader n) (exceptHeader n)
  | 0 => Twin.exhausted
  | n + 1 => by
    rw [exceptHeader.eq_2]
    refine Twin.peek_bind (fun _ => rfl) (fun _ => rfl) fun _ => ?_
    extract_lets jp
    have header : ∀ r, Twin p Eq (jp r) (jp r) := by
      intro r
      simp only [jp]
      refine Twin.bind_eq startsExpression_twin fun _ => ?_
      split
      · exact Twin.pure rfl
      · refine Twin.bind_eq (expression_twin n) fun _ => ?_
        refine Twin.bind_eq (moreExpressions_twin n) fun _ => ?_
        refine Twin.peek_bind (fun _ => rfl) (fun _ => rfl) fun _ => ?_
        split
        · exact Twin.skip_bind (Twin.discard (expectName_twin _))
        · exact Twin.pure rfl
    split
    · exact Twin.bind_eq skip_twin header
    · exact header ()

end Grammar

end PyTune
