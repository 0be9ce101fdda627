import PyTune.Proofs.Reading

/-!
# Reading consumes lexemes one at a time

Every reading of every rule moves the cursor through a chain of `bump` steps (`Grammar.Walks`), so
the end of code a cursor carries is always where the last lexeme of code before it ends
(`Cursor.Tracks`, `Tape.endOfCode`).
-/

namespace PyTune

/-! ### Consuming lexemes one at a time -/

namespace Tape

variable (t : Tape)

/-- One lexeme consumed: the cursor moves past the lexeme at its index. -/
def Step (c c' : Cursor) : Prop :=
  c' = c.past (t.lexemeAt c.index)

/-- Lexemes consumed one at a time, any number of them. -/
def Steps : Cursor → Cursor → Prop :=
  Relation.ReflTransGen t.Step

end Tape

/-- Where the last lexeme of code before index `i` ends; `0` if there is none. -/
def Tape.endOfCode (t : Tape) : Nat → Nat
  | 0 => 0
  | i + 1 => if (t.lexemeAt i).token.isLayout then t.endOfCode i else (t.lexemeAt i).span.stop

/-- Lexeme `k` is the last lexeme of code before lexeme `j`: only layout lexemes come between. -/
structure Tape.LastCode (t : Tape) (k j : Nat) : Prop where
  lt : k < j
  code : (t.lexemeAt k).token.isLayout = false
  after : ∀ m, k < m → m < j → (t.lexemeAt m).token.isLayout = true

/-- Past a lexeme of code `i`, the end of code is where the last lexeme of code from `i` on
ends. -/
theorem Tape.endOfCode_last {t : Tape} {i : Nat} (hi : (t.lexemeAt i).token.isLayout = false) :
    ∀ {j}, i < j → ∃ k, i ≤ k ∧ t.LastCode k j ∧ t.endOfCode j = (t.lexemeAt k).span.stop := by
  intro j
  induction j with
  | zero => exact fun h => absurd h (Nat.not_lt_zero _)
  | succ j ih =>
    intro hij
    cases hj : (t.lexemeAt j).token.isLayout with
    | false =>
      refine ⟨j, Nat.le_of_lt_succ hij, ⟨Nat.lt_succ_self j, hj, fun m lo hi => by omega⟩, ?_⟩
      simp only [Tape.endOfCode, hj, Bool.false_eq_true, if_false]
    | true =>
      -- a layout lexeme leaves the end of code where it was
      have lt : i < j := by
        rcases Nat.lt_or_eq_of_le (Nat.le_of_lt_succ hij) with lt | rfl
        · exact lt
        · rw [hi] at hj
          cases hj
      obtain ⟨k, lo, last, stop⟩ := ih lt
      refine ⟨k, lo, ⟨Nat.lt_succ_of_lt last.lt, last.code, fun m km mj => ?_⟩, ?_⟩
      · rcases Nat.lt_or_eq_of_le (Nat.le_of_lt_succ mj) with lt' | rfl
        · exact last.after m km lt'
        · exact hj
      · simp only [Tape.endOfCode, hj, if_true, stop]

/-- The cursor remembers as the end of code where the last lexeme of code before it ends. -/
def Cursor.Tracks (t : Tape) (c : Cursor) : Prop :=
  c.lastEnd = t.endOfCode c.index

theorem Cursor.tracks_start (t : Tape) : Cursor.Tracks t ⟨0, 0⟩ := rfl

/-- Consuming a lexeme keeps the end of code in step with the lexemes consumed. -/
theorem Cursor.Tracks.past {t : Tape} {c : Cursor} (h : c.Tracks t) :
    (c.past (t.lexemeAt c.index)).Tracks t := by
  unfold Cursor.Tracks Cursor.past Tape.endOfCode
  dsimp only
  split
  · exact h
  · rfl

theorem Tape.Steps.tracks {t : Tape} {c c' : Cursor} (h : t.Steps c c') (hc : c.Tracks t) :
    c'.Tracks t := by
  induction h with
  | refl => exact hc
  | tail _ step ih =>
    rw [step]
    exact ih.past

namespace Grammar

variable {α β : Type} {t : Tape}

/-- Every reading of `g` moves the cursor from where it starts to where it stops by consuming
lexemes one at a time. -/
def Walks (g : Grammar α) (t : Tape) : Prop :=
  ∀ c a c', g.Reads t c a c' → t.Steps c c'

namespace Walks

theorem of_not_reads {g : Grammar α} (h : ∀ {c a c'}, ¬ g.Reads t c a c') : Walks g t :=
  fun _ _ _ hr => absurd hr h

theorem fail {f : GrammarFault} : Walks (Grammar.fail f : Grammar α) t :=
  of_not_reads Reads.not_fail

theorem exhausted : Walks (Grammar.exhausted : Grammar α) t :=
  of_not_reads Reads.not_fail

theorem pure {a : α} : Walks (Pure.pure a : Grammar α) t := by
  intro c b c' h
  obtain ⟨-, rfl⟩ := h.pure
  exact .refl

theorem fail_bind {f : GrammarFault} {k : α → Grammar β} : Walks (Grammar.fail f >>= k) t :=
  of_not_reads fun h => Reads.fail_bind h

theorem look {f : Tape → Cursor → α} : Walks (Grammar.look f) t := by
  intro c a c' h
  obtain ⟨-, rfl⟩ := h.look
  exact .refl

/-- A reading in two parts walks if each part does, whatever the first gives. -/
theorem bind {x : Grammar α} {k : α → Grammar β} (hx : Walks x t) (hk : ∀ a, Walks (k a) t) :
    Walks (x >>= k) t := by
  intro c b c' h
  obtain ⟨a, c₁, hr, hf⟩ := h.bind
  exact (hx c a c₁ hr).trans (hk a c₁ b c' hf)

theorem look_bind {f : Tape → Cursor → α} {k : α → Grammar β} (hk : ∀ a, Walks (k a) t) :
    Walks (Grammar.look f >>= k) t :=
  bind look hk

theorem bump : Walks Grammar.bump t := by
  intro c l c' h
  obtain ⟨rfl, rfl, -⟩ := h.bump
  exact .single rfl

theorem skip : Walks Grammar.skip t := by
  rw [skip_eq]
  exact bind bump fun _ => pure

theorem skip_bind {k : Unit → Grammar α} (hk : Walks (k ()) t) : Walks (Grammar.skip >>= k) t :=
  bind skip fun _ => hk

theorem map {x : Grammar α} {f : α → β} (hx : Walks x t) : Walks (f <$> x) t :=
  bind hx fun _ => pure

theorem discard {x : Grammar α} (hx : Walks x t) : Walks (Functor.discard x) t := by
  rw [discard_eq]
  exact bind hx fun _ => pure

/-- A reading that walks keeps the end of code in step. -/
theorem tracks {g : Grammar α} {c c' : Cursor} {a : α} (hw : Walks g t) (h : g.Reads t c a c')
    (hc : c.Tracks t) : c'.Tracks t :=
  (hw c a c' h).tracks hc

end Walks

theorem expect_walks {tok : Token} {e : Expectation} : Walks (expect tok e) t := by
  unfold expect
  refine Walks.look_bind fun _ => ?_
  split
  · exact Walks.skip
  · exact Walks.fail

theorem expectName_walks {e : Expectation} : Walks (expectName e) t := by
  unfold expectName
  refine Walks.look_bind fun _ => ?_
  split
  · exact Walks.skip_bind Walks.pure
  · exact Walks.fail

theorem skipWhile_walks {p : Token → Bool} : ∀ fuel, Walks (skipWhile p fuel) t
  | 0 => Walks.pure
  | fuel + 1 => by
    rw [skipWhile.eq_2]
    refine Walks.look_bind fun _ => ?_
    split
    · exact Walks.skip_bind (skipWhile_walks fuel)
    · exact Walks.pure

theorem text_walks {a b : Nat} : Walks (text a b) t :=
  Walks.look_bind fun _ => Walks.pure

theorem startsExpression_walks : Walks startsExpression t :=
  Walks.look_bind fun _ => Walks.pure

theorem comprehensionFollows_walks : Walks comprehensionFollows t :=
  Walks.look_bind fun _ => Walks.pure

/-! ### Expressions -/

mutual

theorem starExpressions_walks : ∀ n, Walks (starExpressions n) t
  | 0 => Walks.exhausted
  | n + 1 => by
    rw [starExpressions.eq_2]
    exact starExpressionsFrom_walks n []
termination_by structural n => n

theorem starExpressionsFrom_walks : ∀ n (acc : List Span), Walks (starExpressionsFrom n acc) t
  | 0, _ => Walks.exhausted
  | n + 1, acc => by
    rw [starExpressionsFrom.eq_2]
    refine Walks.look_bind fun _ => Walks.look_bind fun _ => ?_
    extract_lets jp
    have more : ∀ r, Walks (jp r) t := by
      intro r
      simp only [jp]
      refine Walks.look_bind fun _ => Walks.look_bind fun _ => ?_
      split
      · exact Walks.pure
      · refine Walks.skip_bind (Walks.bind startsExpression_walks fun _ => ?_)
        split
        · exact Walks.pure
        · exact starExpressionsFrom_walks n _
    split
    · exact Walks.skip_bind (Walks.bind (comparison_walks n) more)
    · exact Walks.bind (expression_walks n) more
termination_by structural n => n

theorem starNamedExpressions_walks : ∀ n, Walks (starNamedExpressions n) t
  | 0 => Walks.exhausted
  | n + 1 => by
    rw [starNamedExpressions.eq_2]
    refine Walks.bind (starNamedItem_walks n) fun _ => Walks.look_bind fun _ => ?_
    split
    · exact Walks.pure
    · refine Walks.skip_bind (Walks.bind startsExpression_walks fun _ => ?_)
      split
      · exact Walks.pure
      · exact starNamedExpressions_walks n
termination_by structural n => n

theorem starNamedItem_walks : ∀ n, Walks (starNamedItem n) t
  | 0 => Walks.exhausted
  | n + 1 => by
    rw [starNamedItem.eq_2]
    refine Walks.look_bind fun _ => ?_
    split
    · exact Walks.skip_bind (comparison_walks n)
    · exact namedExpression_walks n
termination_by structural n => n

theorem targetList_walks : ∀ n, Walks (targetList n) t
  | 0 => Walks.exhausted
  | n + 1 => by
    rw [targetList.eq_2]
    refine Walks.look_bind fun _ => ?_
    extract_lets jp
    have target : ∀ r, Walks (jp r) t := by
      intro r
      simp only [jp]
      refine Walks.bind (primary_walks n) fun _ => Walks.look_bind fun _ => ?_
      split
      · exact Walks.pure
      · refine Walks.skip_bind (Walks.bind startsExpression_walks fun _ => ?_)
        split
        · exact Walks.pure
        · exact targetList_walks n
    split
    · exact Walks.bind Walks.skip target
    · exact target ()
termination_by structural n => n

theorem namedExpression_walks : ∀ n, Walks (namedExpression n) t
  | 0 => Walks.exhausted
  | n + 1 => by
    rw [namedExpression.eq_2]
    refine Walks.look_bind fun _ => Walks.bind (expression_walks n) fun _ =>
      Walks.look_bind fun _ => ?_
    split
    · refine Walks.look_bind fun _ => Walks.bind text_walks fun _ => ?_
      extract_lets jp
      split
      · exact Walks.fail_bind
      · exact Walks.skip_bind (expression_walks n)
    · exact Walks.pure
termination_by structural n => n

theorem expression_walks : ∀ n, Walks (expression n) t
  | 0 => Walks.exhausted
  | n + 1 => by
    rw [expression.eq_2]
    refine Walks.look_bind fun _ => ?_
    split
    · exact Walks.skip_bind <| Walks.bind (parameters_walks n _ _) fun _ =>
        Walks.bind expect_walks fun _ => expression_walks n
    · refine Walks.bind (disjunction_walks n) fun _ => Walks.look_bind fun _ => ?_
      split
      · exact Walks.skip_bind <| Walks.bind (disjunction_walks n) fun _ =>
          Walks.bind expect_walks fun _ => expression_walks n
      · exact Walks.pure
termination_by structural n => n

theorem disjunction_walks : ∀ n, Walks (disjunction n) t
  | 0 => Walks.exhausted
  | n + 1 => by
    rw [disjunction.eq_2]
    exact Walks.bind (inversion_walks n) fun _ => disjunctionRest_walks n
termination_by structural n => n

theorem disjunctionRest_walks : ∀ n, Walks (disjunctionRest n) t
  | 0 => Walks.exhausted
  | n + 1 => by
    rw [disjunctionRest.eq_2]
    refine Walks.look_bind fun _ => ?_
    split
    · exact Walks.skip_bind (Walks.bind (inversion_walks n) fun _ => disjunctionRest_walks n)
    · exact Walks.pure
termination_by structural n => n

theorem inversion_walks : ∀ n, Walks (inversion n) t
  | 0 => Walks.exhausted
  | n + 1 => by
    rw [inversion.eq_2]
    refine Walks.look_bind fun _ => ?_
    split
    · exact Walks.skip_bind (inversion_walks n)
    · exact comparison_walks n
termination_by structural n => n

theorem comparison_walks : ∀ n, Walks (comparison n) t
  | 0 => Walks.exhausted
  | n + 1 => by
    rw [comparison.eq_2]
    exact Walks.bind (factor_walks n) fun _ => comparisonRest_walks n
termination_by structural n => n

theorem comparisonRest_walks : ∀ n, Walks (comparisonRest n) t
  | 0 => Walks.exhausted
  | n + 1 => by
    rw [comparisonRest.eq_2]
    refine Walks.look_bind fun _ => ?_
    extract_lets jp
    have operand : ∀ r, Walks (jp r) t := by
      intro r
      simp only [jp]
      exact Walks.bind (factor_walks n) fun _ => comparisonRest_walks n
    split
    case h_5 =>
      split
      · exact Walks.pure
      · exact Walks.skip_bind (operand ())
    case h_6 =>
      refine Walks.skip_bind (Walks.look_bind fun _ => ?_)
      split
      · exact Walks.bind Walks.skip operand
      · exact operand ()
    case h_7 => exact Walks.skip_bind (Walks.bind expect_walks operand)
    case h_8 => exact Walks.pure
    all_goals exact Walks.skip_bind (operand ())
termination_by structural n => n

theorem factor_walks : ∀ n, Walks (factor n) t
  | 0 => Walks.exhausted
  | n + 1 => by
    rw [factor.eq_2]
    refine Walks.look_bind fun _ => ?_
    split
    · exact Walks.skip_bind (factor_walks n)
    · refine Walks.look_bind fun _ => ?_
      extract_lets jp
      have operand : ∀ r, Walks (jp r) t := by
        intro r
        simp only [jp]
        exact primary_walks n
      split
      · exact Walks.bind Walks.skip operand
      · exact operand ()
termination_by structural n => n

theorem primary_walks : ∀ n, Walks (primary n) t
  | 0 => Walks.exhausted
  | n + 1 => by
    rw [primary.eq_2]
    exact Walks.bind (atom_walks n) fun _ => primaryRest_walks n
termination_by structural n => n

theorem primaryRest_walks : ∀ n, Walks (primaryRest n) t
  | 0 => Walks.exhausted
  | n + 1 => by
    rw [primaryRest.eq_2]
    refine Walks.look_bind fun _ => ?_
    extract_lets jp
    have rest : ∀ r, Walks (jp r) t := by
      intro r
      simp only [jp]
      exact primaryRest_walks n
    split
    · exact Walks.skip_bind (Walks.bind (Walks.discard expectName_walks) rest)
    · exact Walks.skip_bind <| Walks.bind (callArguments_walks n) fun _ =>
        Walks.bind expect_walks rest
    · exact Walks.skip_bind <| Walks.bind (subscript_walks n) fun _ =>
        Walks.bind expect_walks rest
    · exact Walks.pure
termination_by structural n => n

theorem atom_walks : ∀ n, Walks (atom n) t
  | 0 => Walks.exhausted
  | n + 1 => by
    rw [atom.eq_2]
    refine Walks.look_bind fun _ => ?_
    split
    case h_1 | h_2 => exact Walks.look_bind fun _ => skipWhile_walks _
    case h_8 =>
      refine Walks.skip_bind (Walks.look_bind fun _ => ?_)
      extract_lets jp
      have close : ∀ r, Walks (jp r) t := by
        intro r
        simp only [jp]
        exact expect_walks
      split
      · exact close ()
      · exact Walks.bind (yieldExpr_walks n) close
      · exact Walks.bind (sequenceBody_walks n _) close
    case h_9 =>
      refine Walks.skip_bind (Walks.look_bind fun _ => ?_)
      extract_lets jp
      have close : ∀ r, Walks (jp r) t := by
        intro r
        simp only [jp]
        exact expect_walks
      split
      · exact Walks.bind (sequenceBody_walks n _) close
      · exact close ()
    case h_10 =>
      refine Walks.skip_bind (Walks.look_bind fun _ => ?_)
      extract_lets jp
      have close : ∀ r, Walks (jp r) t := by
        intro r
        simp only [jp]
        exact expect_walks
      split
      · exact Walks.bind (braceBody_walks n) close
      · exact close ()
    case h_11 =>
      split
      · exact Walks.skip
      · exact Walks.fail
    all_goals exact Walks.skip
termination_by structural n => n

theorem sequenceBody_walks : ∀ n close, Walks (sequenceBody n close) t
  | 0, _ => Walks.exhausted
  | n + 1, close => by
    rw [sequenceBody.eq_2]
    refine Walks.bind (starNamedItem_walks n) fun _ =>
      Walks.bind comprehensionFollows_walks fun _ => ?_
    split
    · exact comprehension_walks n
    · exact restOfList_walks n close _
termination_by structural n => n

theorem braceBody_walks : ∀ n, Walks (braceBody n) t
  | 0 => Walks.exhausted
  | n + 1 => by
    rw [braceBody.eq_2]
    refine Walks.look_bind fun _ => ?_
    extract_lets jp
    have items : ∀ isDict, Walks (jp isDict) t := by
      intro isDict
      simp only [jp]
      refine Walks.bind comprehensionFollows_walks fun _ => ?_
      split
      · exact comprehension_walks n
      · exact restOfList_walks n _ _
    split
    · exact Walks.skip_bind <| Walks.bind (comparison_walks n) fun _ =>
        Walks.bind Walks.pure items
    · exact Walks.bind (starNamedItem_walks n) fun _ => Walks.bind Walks.pure items
    · refine Walks.bind (namedExpression_walks n) fun _ => Walks.look_bind fun _ => ?_
      split
      · exact Walks.skip_bind <| Walks.bind (expression_walks n) fun _ =>
          Walks.bind Walks.pure items
      · exact Walks.bind Walks.pure items
termination_by structural n => n

theorem dictItem_walks : ∀ n, Walks (dictItem n) t
  | 0 => Walks.exhausted
  | n + 1 => by
    rw [dictItem.eq_2]
    refine Walks.look_bind fun _ => ?_
    split
    · exact Walks.skip_bind (comparison_walks n)
    · exact Walks.bind (expression_walks n) fun _ =>
        Walks.bind expect_walks fun _ => expression_walks n
termination_by structural n => n

theorem restOfList_walks : ∀ n close item, Walks (restOfList n close item) t
  | 0, _, _ => Walks.exhausted
  | n + 1, close, item => by
    rw [restOfList.eq_2]
    refine Walks.look_bind fun _ => ?_
    split
    · exact Walks.pure
    · refine Walks.skip_bind (Walks.look_bind fun _ => ?_)
      split
      · exact Walks.pure
      · extract_lets jp
        have rest : ∀ r, Walks (jp r) t := by
          intro r
          simp only [jp]
          exact restOfList_walks n close item
        cases item
        · exact Walks.bind (starNamedItem_walks n) rest
        · exact Walks.bind (dictItem_walks n) rest
termination_by structural n => n

theorem comprehension_walks : ∀ n, Walks (comprehension n) t
  | 0 => Walks.exhausted
  | n + 1 => by
    rw [comprehension.eq_2]
    refine Walks.bind comprehensionFollows_walks fun _ => ?_
    split
    · exact Walks.pure
    · refine Walks.look_bind fun _ => ?_
      extract_lets jp
      have clause : ∀ r, Walks (jp r) t := by
        intro r
        simp only [jp]
        exact Walks.bind expect_walks fun _ => Walks.bind (targetList_walks n) fun _ =>
          Walks.bind expect_walks fun _ => Walks.bind (disjunction_walks n) fun _ =>
            Walks.bind (conditions_walks n) fun _ => comprehension_walks n
      split
      · exact Walks.bind Walks.skip clause
      · exact clause ()
termination_by structural n => n

theorem conditions_walks : ∀ n, Walks (conditions n) t
  | 0 => Walks.exhausted
  | n + 1 => by
    rw [conditions.eq_2]
    refine Walks.look_bind fun _ => ?_
    split
    · exact Walks.skip_bind (Walks.bind (disjunction_walks n) fun _ => conditions_walks n)
    · exact Walks.pure
termination_by structural n => n

theorem callArguments_walks : ∀ n, Walks (callArguments n) t
  | 0 => Walks.exhausted
  | n + 1 => by
    rw [callArguments.eq_2]
    exact callArgumentsFrom_walks n true
termination_by structural n => n

theorem callArgumentsFrom_walks : ∀ n first, Walks (callArgumentsFrom n first) t
  | 0, _ => Walks.exhausted
  | n + 1, first => by
    rw [callArgumentsFrom.eq_2]
    refine Walks.look_bind fun _ => ?_
    split
    · exact Walks.pure
    · refine Walks.look_bind fun _ => ?_
      extract_lets jp value
      have more : ∀ r, Walks (jp r) t := by
        intro r
        simp only [jp]
        refine Walks.look_bind fun _ => ?_
        split
        · exact Walks.pure
        · exact Walks.skip_bind (callArgumentsFrom_walks n false)
      split
      · exact Walks.skip_bind (Walks.bind (expression_walks n) more)
      · exact Walks.skip_bind (Walks.bind (expression_walks n) more)
      · refine Walks.look_bind fun _ => Walks.bind (namedExpression_walks n) fun _ =>
          Walks.look_bind fun _ => ?_
        split
        · refine Walks.look_bind fun _ => Walks.bind text_walks fun _ => ?_
          split
          · exact Walks.fail_bind
          · simp only [value]
            exact Walks.skip_bind (Walks.bind (expression_walks n) more)
        · refine Walks.bind comprehensionFollows_walks fun _ => ?_
          split
          · exact Walks.bind (comprehension_walks n) fun _ => Walks.pure
          · exact more ()
termination_by structural n => n

theorem subscript_walks : ∀ n, Walks (subscript n) t
  | 0 => Walks.exhausted
  | n + 1 => by
    rw [subscript.eq_2]
    refine Walks.bind (sliceItem_walks n) fun _ => Walks.look_bind fun _ => ?_
    split
    · exact Walks.pure
    · refine Walks.skip_bind (Walks.look_bind fun _ => ?_)
      split
      · exact Walks.pure
      · exact subscript_walks n
termination_by structural n => n

theorem sliceItem_walks : ∀ n, Walks (sliceItem n) t
  | 0 => Walks.exhausted
  | n + 1 => by
    rw [sliceItem.eq_2]
    refine Walks.look_bind fun _ => ?_
    split
    · exact Walks.skip_bind (comparison_walks n)
    · refine Walks.look_bind fun _ => ?_
      extract_lets jp
      have bounds : ∀ r, Walks (jp r) t := by
        intro r
        simp only [jp]
        exact Walks.bind (sliceBound_walks n) fun _ => sliceBound_walks n
      split
      · exact Walks.bind (namedExpression_walks n) bounds
      · exact bounds ()
termination_by structural n => n

theorem sliceBound_walks : ∀ n, Walks (sliceBound n) t
  | 0 => Walks.exhausted
  | n + 1 => by
    rw [sliceBound.eq_2]
    refine Walks.look_bind fun _ => ?_
    split
    · refine Walks.skip_bind (Walks.bind startsExpression_walks fun _ => ?_)
      split
      · exact expression_walks n
      · exact Walks.pure
    · exact Walks.pure
termination_by structural n => n

theorem yieldExpr_walks : ∀ n, Walks (yieldExpr n) t
  | 0 => Walks.exhausted
  | n + 1 => by
    rw [yieldExpr.eq_2]
    refine Walks.skip_bind (Walks.look_bind fun _ => ?_)
    split
    · exact Walks.skip_bind (expression_walks n)
    · refine Walks.bind startsExpression_walks fun _ => ?_
      split
      · exact Walks.discard (starExpressions_walks n)
      · exact Walks.pure
termination_by structural n => n

theorem parameters_walks : ∀ n close annotated, Walks (parameters n close annotated) t
  | 0, _, _ => Walks.exhausted
  | n + 1, close, annotated => by
    rw [parameters.eq_2]
    refine Walks.look_bind fun _ => ?_
    split
    · exact Walks.pure
    · refine Walks.look_bind fun _ => ?_
      extract_lets jp
      have more : ∀ r, Walks (jp r) t := by
        intro r
        simp only [jp]
        refine Walks.look_bind fun _ => ?_
        split
        · exact Walks.pure
        · exact Walks.skip_bind (parameters_walks n close annotated)
      split
      · exact Walks.bind Walks.skip more
      · refine Walks.skip_bind (Walks.look_bind fun _ => ?_)
        split
        · exact Walks.bind (parameter_walks n annotated false) more
        · exact more ()
      · exact Walks.skip_bind (Walks.bind (parameter_walks n annotated false) more)
      · exact Walks.bind (parameter_walks n annotated true) more
termination_by structural n => n

theorem parameter_walks : ∀ n annotated default, Walks (parameter n annotated default) t
  | 0, _, _ => Walks.exhausted
  | n + 1, annotated, default => by
    rw [parameter.eq_2]
    refine Walks.bind (Walks.discard expectName_walks) fun _ => Walks.look_bind fun _ => ?_
    extract_lets jp₁ jp₂
    have withDefault : ∀ r, Walks (jp₁ r) t := by
      intro r
      simp only [jp₁]
      refine Walks.look_bind fun _ => ?_
      split
      · exact Walks.skip_bind (expression_walks n)
      · exact Walks.pure
    have annotation : ∀ r, Walks (jp₂ r) t := by
      intro r
      simp only [jp₂]
      exact Walks.bind (expression_walks n) withDefault
    split
    · refine Walks.skip_bind (Walks.look_bind fun _ => ?_)
      split
      · exact Walks.bind Walks.skip annotation
      · exact annotation ()
    · exact withDefault ()
termination_by structural n => n

theorem typeParamList_walks : ∀ n, Walks (typeParamList n) t
  | 0 => Walks.exhausted
  | n + 1 => by
    rw [typeParamList.eq_2]
    refine Walks.look_bind fun _ => ?_
    extract_lets jp₁ jp₂ jp₃ jp₄
    have more : ∀ r, Walks (jp₁ r) t := by
      intro r
      simp only [jp₁]
      refine Walks.look_bind fun _ => ?_
      split
      · exact Walks.pure
      · refine Walks.skip_bind (Walks.look_bind fun _ => ?_)
        split
        · exact Walks.pure
        · exact typeParamList_walks n
    have bound : ∀ r, Walks (jp₂ r) t := by
      intro r
      simp only [jp₂]
      exact Walks.bind (expression_walks n) more
    have withDefault : ∀ r, Walks (jp₃ r) t := by
      intro r
      simp only [jp₃]
      refine Walks.look_bind fun _ => ?_
      split
      · refine Walks.skip_bind (Walks.look_bind fun _ => ?_)
        split
        · exact Walks.bind Walks.skip bound
        · exact bound ()
      · exact more ()
    have param : ∀ r, Walks (jp₄ r) t := by
      intro r
      simp only [jp₄]
      refine Walks.bind (Walks.discard expectName_walks) fun _ => Walks.look_bind fun _ => ?_
      split
      · exact Walks.skip_bind (Walks.bind (expression_walks n) withDefault)
      · exact withDefault ()
    split
    · exact Walks.bind Walks.skip param
    · exact param ()
termination_by structural n => n

theorem withItemList_walks : ∀ n parenthesized, Walks (withItemList n parenthesized) t
  | 0, _ => Walks.exhausted
  | n + 1, parenthesized => by
    rw [withItemList.eq_2]
    refine Walks.bind (expression_walks n) fun _ => Walks.look_bind fun _ => ?_
    extract_lets jp₁ jp₂
    have more : ∀ r, Walks (jp₁ r) t := by
      intro r
      simp only [jp₁]
      refine Walks.look_bind fun _ => ?_
      split
      · exact Walks.pure
      · refine Walks.skip_bind (Walks.look_bind fun _ => ?_)
        split
        · exact Walks.pure
        · exact withItemList_walks n parenthesized
    have target : ∀ r, Walks (jp₂ r) t := by
      intro r
      simp only [jp₂]
      exact Walks.bind (primary_walks n) more
    split
    · refine Walks.skip_bind (Walks.look_bind fun _ => ?_)
      split
      · exact Walks.bind Walks.fail target
      · exact target ()
    · exact more ()
termination_by structural n => n

theorem moreExpressions_walks : ∀ n, Walks (moreExpressions n) t
  | 0 => Walks.exhausted
  | n + 1 => by
    rw [moreExpressions.eq_2]
    refine Walks.look_bind fun _ => ?_
    split
    · exact Walks.skip_bind (Walks.bind (expression_walks n) fun _ => moreExpressions_walks n)
    · exact Walks.pure
termination_by structural n => n

end

/-! ### Headers, lines and names -/

theorem typeParams_walks (n : Nat) : Walks (typeParams n) t := by
  cases n with
  | zero => exact Walks.exhausted
  | succ n =>
    rw [typeParams.eq_2]
    exact Walks.skip_bind (Walks.bind (typeParamList_walks n) fun _ => expect_walks)

theorem withItems_walks (n : Nat) : Walks (withItems n) t := by
  cases n with
  | zero => exact Walks.exhausted
  | succ n =>
    rw [withItems.eq_2]
    refine Walks.look_bind fun _ => Walks.look_bind fun _ => ?_
    extract_lets parenthesized jp
    have items : ∀ r, Walks (jp r) t := by
      intro r
      simp only [jp]
      refine Walks.bind (withItemList_walks n _) fun _ => ?_
      split
      · exact expect_walks
      · exact Walks.pure
    split
    · exact Walks.bind Walks.skip items
    · exact items ()

theorem exceptHeader_walks (n : Nat) : Walks (exceptHeader n) t := by
  cases n with
  | zero => exact Walks.exhausted
  | succ n =>
    rw [exceptHeader.eq_2]
    refine Walks.look_bind fun _ => ?_
    extract_lets jp
    have header : ∀ r, Walks (jp r) t := by
      intro r
      simp only [jp]
      refine Walks.bind startsExpression_walks fun _ => ?_
      split
      · exact Walks.pure
      · refine Walks.bind (expression_walks n) fun _ => Walks.bind (moreExpressions_walks n) fun _ =>
          Walks.look_bind fun _ => ?_
        split
        · exact Walks.skip_bind (Walks.discard expectName_walks)
        · exact Walks.pure
    split
    · exact Walks.bind Walks.skip header
    · exact header ()

theorem skipNewlines_walks : Walks skipNewlines t :=
  Walks.look_bind fun _ => skipWhile_walks _

theorem eatSemicolon_walks : Walks eatSemicolon t := by
  unfold eatSemicolon
  refine Walks.look_bind fun _ => ?_
  split
  · exact Walks.pure
  · exact Walks.skip_bind (Walks.look_bind fun _ => by split <;> exact Walks.pure)

theorem endLine_walks : Walks endLine t := by
  unfold endLine
  refine Walks.look_bind fun _ => ?_
  split
  · exact Walks.skip
  · exact Walks.pure
  · exact Walks.pure
  · exact Walks.fail

theorem asName_walks : Walks asName t := by
  unfold asName
  refine Walks.look_bind fun _ => ?_
  split
  · exact Walks.skip_bind (Walks.bind expectName_walks fun _ => Walks.pure)
  · exact Walks.pure

theorem dottedTail_walks : ∀ fuel, Walks (dottedTail fuel) t
  | 0 => Walks.exhausted
  | fuel + 1 => by
    rw [dottedTail.eq_2]
    refine Walks.look_bind fun _ => ?_
    split
    · exact Walks.skip_bind (Walks.bind (Walks.discard expectName_walks) fun _ =>
        dottedTail_walks fuel)
    · exact Walks.pure

theorem dottedName_walks : Walks dottedName t := by
  unfold dottedName
  exact Walks.look_bind fun _ => Walks.bind (Walks.discard expectName_walks) fun _ =>
    Walks.look_bind fun _ => Walks.bind (dottedTail_walks _) fun _ =>
      Walks.look_bind fun _ => text_walks

/-! ### Simple statements -/

theorem importedNames_walks : ∀ fuel parens (acc : Array ImportAlias),
    Walks (importedNames fuel parens acc) t
  | 0, _, _ => Walks.exhausted
  | fuel + 1, parens, acc => by
    rw [importedNames.eq_2]
    refine Walks.look_bind fun _ => ?_
    split
    · exact Walks.pure
    · refine Walks.bind expectName_walks fun _ => Walks.bind asName_walks fun _ =>
        Walks.look_bind fun _ => ?_
      split
      · exact Walks.pure
      · exact Walks.skip_bind (importedNames_walks fuel parens _)

theorem importList_walks : ∀ fuel (acc : Array ImportAlias), Walks (importList fuel acc) t
  | 0, _ => Walks.exhausted
  | fuel + 1, acc => by
    rw [importList.eq_2]
    refine Walks.bind dottedName_walks fun _ => Walks.bind asName_walks fun _ =>
      Walks.look_bind fun _ => ?_
    split
    · exact Walks.pure
    · exact Walks.skip_bind (importList_walks fuel _)

theorem relativeLevel_walks : ∀ fuel level, Walks (relativeLevel fuel level) t
  | 0, _ => Walks.exhausted
  | fuel + 1, level => by
    rw [relativeLevel.eq_2]
    refine Walks.look_bind fun _ => ?_
    split
    · exact Walks.skip_bind (relativeLevel_walks fuel _)
    · exact Walks.skip_bind (relativeLevel_walks fuel _)
    · exact Walks.pure

theorem nameList_walks : ∀ fuel, Walks (nameList fuel) t
  | 0 => Walks.exhausted
  | fuel + 1 => by
    rw [nameList.eq_2]
    refine Walks.bind (Walks.discard expectName_walks) fun _ => Walks.look_bind fun _ => ?_
    split
    · exact Walks.skip_bind (nameList_walks fuel)
    · exact Walks.pure

theorem skipPattern_walks : ∀ fuel depth lambdas, Walks (skipPattern fuel depth lambdas) t
  | 0, _, _ => Walks.exhausted
  | fuel + 1, depth, lambdas => by
    rw [skipPattern.eq_2]
    refine Walks.look_bind fun _ => ?_
    split
    · exact Walks.pure
    · extract_lets jp
      split
      case h_5 =>
        simp only [jp]
        split <;> exact Walks.skip_bind (skipPattern_walks fuel _ _)
      all_goals exact Walks.fail_bind

theorem importStmt_walks : Walks importStmt t := by
  unfold importStmt
  exact Walks.skip_bind (Walks.look_bind fun _ => Walks.bind (importList_walks _ _) fun _ =>
    Walks.pure)

theorem fromImportStmt_walks : Walks fromImportStmt t := by
  unfold fromImportStmt
  refine Walks.skip_bind (Walks.look_bind fun _ => Walks.bind (relativeLevel_walks _ _) fun _ =>
    Walks.look_bind fun _ => ?_)
  extract_lets jp
  have names : ∀ module, Walks (jp module) t := by
    intro module
    simp only [jp]
    split
    · exact Walks.fail_bind
    · refine Walks.bind expect_walks fun _ => Walks.look_bind fun _ => ?_
      split
      · exact Walks.skip_bind Walks.pure
      · refine Walks.look_bind fun _ => ?_
        split
        · exact Walks.bind Walks.skip fun _ => Walks.bind (importedNames_walks _ _ _) fun _ =>
            Walks.bind expect_walks fun _ => Walks.pure
        · exact Walks.bind (importedNames_walks _ _ _) fun _ => Walks.pure
  split
  · exact Walks.bind (Walks.map dottedName_walks) names
  · exact Walks.bind Walks.pure names

theorem assignedValue_walks (n : Nat) : Walks (assignedValue n) t := by
  cases n with
  | zero => exact Walks.exhausted
  | succ n =>
    rw [assignedValue.eq_2]
    refine Walks.look_bind fun _ => ?_
    split
    · exact Walks.bind (yieldExpr_walks n) fun _ => Walks.pure
    · exact starExpressions_walks n

theorem assignChain_walks : ∀ n names, Walks (assignChain n names) t
  | 0, _ => Walks.exhausted
  | n + 1, names => by
    rw [assignChain.eq_2]
    refine Walks.look_bind fun _ => ?_
    split
    · exact Walks.pure
    · exact Walks.skip_bind (Walks.bind (assignedValue_walks n) fun _ => Walks.look_bind fun _ =>
        Walks.look_bind fun _ => assignChain_walks n _)

theorem expressionStmt_walks (n : Nat) : Walks (expressionStmt n) t := by
  cases n with
  | zero => exact Walks.exhausted
  | succ n =>
    rw [expressionStmt.eq_2]
    refine Walks.bind (assignedValue_walks n) fun _ => Walks.look_bind fun _ => ?_
    split
    · exact Walks.look_bind fun _ => assignChain_walks n _
    · extract_lets jp
      split
      · exact Walks.fail_bind
      · simp only [jp]
        exact Walks.skip_bind (Walks.bind (Walks.discard (assignedValue_walks n)) fun _ =>
          Walks.pure)
    · extract_lets jp
      split
      · exact Walks.fail_bind
      · simp only [jp]
        refine Walks.skip_bind (Walks.bind (expression_walks n) fun _ => Walks.look_bind fun _ => ?_)
        split
        · exact Walks.pure
        · exact Walks.skip_bind (Walks.bind (Walks.discard (assignedValue_walks n)) fun _ =>
            Walks.look_bind fun _ => Walks.pure)
    · exact Walks.pure

theorem typeAlias_walks (n : Nat) : Walks (typeAlias n) t := by
  cases n with
  | zero => exact Walks.exhausted
  | succ n =>
    rw [typeAlias.eq_2]
    refine Walks.skip_bind (Walks.bind (Walks.discard expectName_walks) fun _ =>
      Walks.look_bind fun _ => ?_)
    extract_lets jp
    have value : ∀ r, Walks (jp r) t := by
      intro r
      simp only [jp]
      exact Walks.bind expect_walks fun _ => expression_walks n
    split
    · exact Walks.bind (typeParams_walks n) value
    · exact value ()

theorem simpleStmt_walks (n : Nat) : Walks (simpleStmt n) t := by
  cases n with
  | zero => exact Walks.exhausted
  | succ n =>
    rw [simpleStmt.eq_2]
    refine Walks.look_bind fun _ => Walks.look_bind fun _ => ?_
    extract_lets jp jp₁ jp₂ jp₃
    have finish : ∀ kind, Walks (jp kind) t := by
      intro kind
      simp only [jp]
      exact Walks.look_bind fun _ => Walks.pure
    have finish₁ : ∀ r, Walks (jp₁ r) t := by
      intro r
      simp only [jp₁]
      exact Walks.bind Walks.pure finish
    have finish₂ : ∀ r, Walks (jp₂ r) t := by
      intro r
      simp only [jp₂]
      exact Walks.bind Walks.pure finish
    have finish₃ : ∀ r, Walks (jp₃ r) t := by
      intro r
      simp only [jp₃]
      exact Walks.bind Walks.pure finish
    split
    case h_1 => exact Walks.bind importStmt_walks finish
    case h_2 => exact Walks.bind fromImportStmt_walks finish
    case h_3 | h_4 | h_5 | h_6 => exact Walks.fail_bind
    case h_7 | h_8 | h_9 => exact Walks.skip_bind (Walks.bind Walks.pure finish)
    case h_10 =>
      refine Walks.skip_bind (Walks.bind startsExpression_walks fun _ => ?_)
      split
      · exact Walks.bind (Walks.discard (starExpressions_walks n)) finish₁
      · exact finish₁ ()
    case h_11 =>
      refine Walks.skip_bind (Walks.bind startsExpression_walks fun _ => ?_)
      split
      · refine Walks.bind (expression_walks n) fun _ => Walks.look_bind fun _ => ?_
        split
        · exact Walks.skip_bind (Walks.bind (expression_walks n) finish₂)
        · exact finish₂ ()
      · exact finish₂ ()
    case h_12 | h_13 =>
      exact Walks.skip_bind (Walks.look_bind fun _ => Walks.bind (nameList_walks _) fun _ =>
        Walks.bind Walks.pure finish)
    case h_14 =>
      exact Walks.skip_bind (Walks.bind (targetList_walks n) fun _ => Walks.bind Walks.pure finish)
    case h_15 =>
      refine Walks.skip_bind (Walks.bind (expression_walks n) fun _ => Walks.look_bind fun _ => ?_)
      split
      · exact Walks.skip_bind (Walks.bind (expression_walks n) finish₃)
      · exact finish₃ ()
    case h_16 =>
      refine Walks.look_bind fun _ => ?_
      split
      · exact Walks.bind (typeAlias_walks n) fun _ => Walks.bind Walks.pure finish
      · exact Walks.bind (expressionStmt_walks n) finish
    case h_17 =>
      exact Walks.look_bind fun _ => Walks.bind (expressionStmt_walks n) fun _ =>
        Walks.look_bind fun _ => Walks.bind Walks.pure finish
    case h_18 => exact Walks.bind (expressionStmt_walks n) finish

theorem simpleLine_walks : ∀ n (acc : Array Stmt), Walks (simpleLine n acc) t
  | 0, _ => Walks.exhausted
  | n + 1, acc => by
    rw [simpleLine.eq_2]
    refine Walks.bind (simpleStmt_walks n) fun _ => Walks.bind eatSemicolon_walks fun _ => ?_
    split
    · exact simpleLine_walks n _
    · exact Walks.bind endLine_walks fun _ => Walks.pure

/-! ### Statements -/

mutual

theorem statements_walks : ∀ n inBlock (acc : Array Stmt), Walks (statements n inBlock acc) t
  | 0, _, _ => by
    rw [statements.eq_1]
    exact Walks.exhausted
  | n + 1, inBlock, acc => by
    rw [statements.eq_2]
    refine Walks.bind skipNewlines_walks fun _ => Walks.look_bind fun _ => ?_
    split
    · exact Walks.pure
    · split
      · exact Walks.skip_bind Walks.pure
      · exact Walks.fail
    · exact Walks.fail
    · exact Walks.bind (stmtLine_walks n acc) fun _ => statements_walks n inBlock _
termination_by structural n => n

theorem stmtLine_walks : ∀ n (acc : Array Stmt), Walks (stmtLine n acc) t
  | 0, _ => by
    rw [stmtLine.eq_1]
    exact Walks.exhausted
  | n + 1, acc => by
    rw [stmtLine.eq_2]
    refine Walks.look_bind fun _ => Walks.look_bind fun _ => ?_
    split
    case h_1 => exact Walks.bind (decorated_walks n _) fun _ => Walks.pure
    case h_2 => exact Walks.bind (functionDef_walks n _ _) fun _ => Walks.pure
    case h_3 => exact Walks.bind (classDef_walks n _ _) fun _ => Walks.pure
    case h_4 =>
      refine Walks.skip_bind (Walks.look_bind fun _ => ?_)
      split
      · exact Walks.bind (functionDef_walks n _ _) fun _ => Walks.pure
      · exact Walks.bind (compound_walks n _) fun _ => Walks.pure
      · exact Walks.bind (compound_walks n _) fun _ => Walks.pure
      · exact Walks.fail
    case h_10 | h_11 =>
      refine Walks.look_bind fun _ => ?_
      split
      · exact Walks.bind (softBlock_walks n _) fun _ => Walks.pure
      · exact simpleLine_walks n acc
    case h_12 | h_13 | h_14 | h_15 => exact Walks.fail
    case h_16 => exact simpleLine_walks n acc
    all_goals exact Walks.bind (compound_walks n _) fun _ => Walks.pure
termination_by structural n => n

theorem suite_walks : ∀ n owner, Walks (suite n owner) t
  | 0, _ => by
    rw [suite.eq_1]
    exact Walks.exhausted
  | n + 1, owner => by
    rw [suite.eq_2]
    extract_lets block jp
    refine Walks.bind expect_walks fun _ => Walks.look_bind fun _ => ?_
    split
    case h_1 =>
      simp only [jp]
      refine Walks.skip_bind (Walks.look_bind fun _ => ?_)
      split
      · exact Walks.fail_bind
      · simp only [block]
        exact Walks.skip_bind (Walks.look_bind fun _ => Walks.look_bind fun _ =>
          Walks.bind (statements_walks n true #[]) fun _ => Walks.pure)
    all_goals first
      | exact Walks.fail_bind
      | exact Walks.bind (simpleLine_walks n #[]) fun _ => Walks.pure
termination_by structural n => n

theorem decorated_walks : ∀ n start, Walks (decorated n start) t
  | 0, _ => by
    rw [decorated.eq_1]
    exact Walks.exhausted
  | n + 1, start => by
    rw [decorated.eq_2]
    extract_lets finish
    have done : ∀ s, Walks (finish s) t := by
      intro s
      simp only [finish]
      exact Walks.look_bind fun _ => Walks.pure
    refine Walks.bind (decoratorList_walks n #[]) fun _ =>
      Walks.look_bind fun _ => Walks.look_bind fun _ => ?_
    split
    · exact Walks.bind (functionDef_walks n _ _) done
    · refine Walks.skip_bind (Walks.look_bind fun _ => ?_)
      extract_lets afterAsync
      split
      · exact Walks.fail_bind
      · simp only [afterAsync]
        exact Walks.bind (functionDef_walks n _ _) done
    · exact Walks.bind (classDef_walks n _ _) done
    · exact Walks.fail_bind
termination_by structural n => n

theorem decoratorList_walks : ∀ n (acc : Array Decorator), Walks (decoratorList n acc) t
  | 0, _ => by
    rw [decoratorList.eq_1]
    exact Walks.exhausted
  | n + 1, acc => by
    rw [decoratorList.eq_2]
    refine Walks.look_bind fun _ => ?_
    split
    · exact Walks.pure
    · exact Walks.bind Walks.bump fun _ => Walks.look_bind fun _ =>
        Walks.bind (namedExpression_walks n) fun _ => Walks.look_bind fun _ =>
          Walks.bind endLine_walks fun _ => Walks.look_bind fun _ => Walks.look_bind fun _ =>
            Walks.bind skipNewlines_walks fun _ => decoratorList_walks n _
termination_by structural n => n

theorem functionDef_walks : ∀ n start (ds : List Decorator), Walks (functionDef n start ds) t
  | 0, _, _ => by
    rw [functionDef.eq_1]
    exact Walks.exhausted
  | n + 1, start, ds => by
    rw [functionDef.eq_2]
    refine Walks.skip_bind (Walks.bind expectName_walks fun _ => Walks.look_bind fun _ => ?_)
    extract_lets rest₂ rest₁
    have body : ∀ r, Walks (rest₂ r) t := by
      intro r
      simp only [rest₂]
      exact Walks.bind (suite_walks n _) fun _ => Walks.look_bind fun _ =>
        Walks.look_bind fun _ => Walks.pure
    have signature : ∀ r, Walks (rest₁ r) t := by
      intro r
      simp only [rest₁]
      refine Walks.bind expect_walks fun _ => Walks.bind (parameters_walks n _ _) fun _ =>
        Walks.bind expect_walks fun _ => Walks.look_bind fun _ => ?_
      split
      · exact Walks.skip_bind (Walks.bind (expression_walks n) body)
      · exact body ()
    split
    · exact Walks.bind (typeParams_walks n) signature
    · exact signature ()
termination_by structural n => n

theorem classDef_walks : ∀ n start (ds : List Decorator), Walks (classDef n start ds) t
  | 0, _, _ => by
    rw [classDef.eq_1]
    exact Walks.exhausted
  | n + 1, start, ds => by
    rw [classDef.eq_2]
    refine Walks.skip_bind (Walks.bind expectName_walks fun _ => Walks.look_bind fun _ => ?_)
    extract_lets rest₂ rest₁
    have body : ∀ r, Walks (rest₂ r) t := by
      intro r
      simp only [rest₂]
      exact Walks.bind (suite_walks n _) fun _ => Walks.look_bind fun _ =>
        Walks.look_bind fun _ => Walks.pure
    have bases : ∀ r, Walks (rest₁ r) t := by
      intro r
      simp only [rest₁]
      refine Walks.look_bind fun _ => ?_
      split
      · exact Walks.skip_bind (Walks.bind (callArguments_walks n) fun _ =>
          Walks.bind expect_walks body)
      · exact body ()
    split
    · exact Walks.bind (typeParams_walks n) bases
    · exact bases ()
termination_by structural n => n

theorem compound_walks : ∀ n start, Walks (compound n start) t
  | 0, _ => by
    rw [compound.eq_1]
    exact Walks.exhausted
  | n + 1, start => by
    rw [compound.eq_2]
    refine Walks.bind (clause_walks n) fun _ => Walks.bind (moreClauses_walks n _ _ _) fun _ => ?_
    extract_lets jp
    split
    · exact Walks.fail_bind
    · simp only [jp]
      exact Walks.look_bind fun _ => Walks.pure
termination_by structural n => n

theorem moreClauses_walks : ∀ n first last (acc : Array Clause),
    Walks (moreClauses n first last acc) t
  | 0, _, _, _ => by
    rw [moreClauses.eq_1]
    exact Walks.exhausted
  | n + 1, first, last, acc => by
    rw [moreClauses.eq_2]
    refine Walks.look_bind fun _ => ?_
    split
    · split
      · exact Walks.bind (clause_walks n) fun _ => moreClauses_walks n first _ _
      · exact Walks.pure
    · exact Walks.pure
termination_by structural n => n

theorem clause_walks : ∀ n, Walks (clause n) t
  | 0 => by
    rw [clause.eq_1]
    exact Walks.exhausted
  | n + 1 => by
    rw [clause.eq_2]
    refine Walks.bind Walks.bump fun _ => Walks.look_bind fun _ => Walks.look_bind fun _ => ?_
    extract_lets jp
    have body : ∀ r, Walks (jp r) t := by
      intro r
      simp only [jp]
      exact Walks.look_bind fun _ => Walks.look_bind fun _ =>
        Walks.bind (suite_walks n _) fun _ => Walks.pure
    split
    case h_4 =>
      exact Walks.bind (targetList_walks n) fun _ => Walks.bind expect_walks fun _ =>
        Walks.bind (Walks.discard (starExpressions_walks n)) body
    case h_5 => exact Walks.bind (withItems_walks n) body
    case h_6 => exact Walks.bind (exceptHeader_walks n) body
    case h_7 => exact body ()
    all_goals exact Walks.bind (namedExpression_walks n) body
termination_by structural n => n

theorem softBlock_walks : ∀ n start, Walks (softBlock n start) t
  | 0, _ => by
    rw [softBlock.eq_1]
    exact Walks.exhausted
  | n + 1, start => by
    rw [softBlock.eq_2]
    refine Walks.bind Walks.bump fun _ => Walks.look_bind fun _ => Walks.look_bind fun _ => ?_
    extract_lets jp
    have body : ∀ r, Walks (jp r) t := by
      intro r
      simp only [jp]
      exact Walks.look_bind fun _ => Walks.look_bind fun _ =>
        Walks.bind (suite_walks n _) fun _ => Walks.look_bind fun _ => Walks.pure
    split
    · exact Walks.bind (starNamedExpressions_walks n) body
    · exact Walks.look_bind fun _ => Walks.bind (skipPattern_walks _ _ _) body
termination_by structural n => n

end

end Grammar

end PyTune
