import PyTune.Proofs.Nesting

/-!
# Reading never runs out of depth: the weights, and expressions

A rule called with depth `n` does not run out while its weight and `32` for each lexeme ahead add
up to at most `n` (`Tape.fuelFor`). `Grammar.Bounded` says so of a reading, and its combinators
(`Bounded.bind_fuel`, `Bounded.skip_fuel`) let each rule's lemma follow the rule's own text.
-/

namespace PyTune

namespace Tape

variable {t : Tape} {w w' n m fuel : Nat} {c c' : Cursor}

/-- The lexemes of the tape from the cursor on. -/
def ahead (t : Tape) (c : Cursor) : Nat :=
  t.lexemes.size - c.index

theorem ahead_le (hc : c.index ≤ c'.index) : t.ahead c' ≤ t.ahead c := by
  unfold ahead
  omega

/-- Consuming a lexeme that does not end the input leaves fewer lexemes ahead. -/
theorem ahead_past (hm : c.index ≤ m) (he : (t.lexemeAt m).token ≠ .eof) (hc : m < c'.index) :
    t.ahead c' < t.ahead c := by
  have size := Tape.lexemeAt_lt_size he
  unfold ahead
  omega

/-- Past a lexeme that does not end the input, fewer lexemes are ahead than the tape holds. -/
theorem ahead_past_lt_size {l : Lexeme} (he : (t.lexemeAt c.index).token ≠ .eof) :
    t.ahead (c.past l) < t.lexemes.size := by
  have size := Tape.lexemeAt_lt_size he
  unfold ahead Cursor.past
  dsimp only
  omega

/-- The depth that reading from `c` on may need: the weight `w` of the rule, and `32` for each
lexeme ahead. The weights run from 1 (`atom`, `primaryRest` and the other tails) through 7
(`expression`) to 10 (`starNamedExpressions`, `callArguments`, `subscript`): before it consumes
a lexeme a rule calls only lighter rules, and after, rules at most `31` heavier. -/
def fuelFor (t : Tape) (w : Nat) (c : Cursor) : Nat :=
  w + 32 * t.ahead c

theorem not_fuelFor_le_zero (hw : 0 < w) : ¬ t.fuelFor w c ≤ 0 := by
  unfold fuelFor
  omega

theorem fuel_le (hf : t.fuelFor w c ≤ n) (hw : w' ≤ w) : t.fuelFor w' c ≤ n := by
  unfold fuelFor at *
  omega

theorem fuel_advance (hf : t.fuelFor w c ≤ n) (hc : c.index ≤ c'.index) : t.fuelFor w c' ≤ n := by
  have := ahead_le (t := t) hc
  unfold fuelFor at *
  omega

/-- A call made before anything is consumed, to a rule of smaller weight. -/
theorem fuel_down (hf : t.fuelFor w c ≤ n + 1) (hw : w' < w) : t.fuelFor w' c ≤ n := by
  unfold fuelFor at *
  omega

/-- A call made after the lexeme at `m` is consumed, to a rule at most `31` heavier. -/
theorem fuel_past (hf : t.fuelFor w c ≤ n + 1) (hw : w' < w + 32) (hm : c.index ≤ m)
    (he : (t.lexemeAt m).token ≠ .eof) (hc : m < c'.index) : t.fuelFor w' c' ≤ n := by
  have := ahead_past hm he hc
  unfold fuelFor at *
  omega

theorem fuel_weaken (hf : t.fuelFor w' c ≤ n) (hw : w ≤ w' + 1) : t.fuelFor w c ≤ n + 1 := by
  unfold fuelFor at *
  omega

end Tape

namespace Token

variable {tok other x : Token}

theorem ne_of_eq (h : tok = other) (ho : other ≠ x) : tok ≠ x := by
  rw [h]
  exact ho

theorem ne_of_beq (h : (tok == other) = true) (ho : other ≠ x) : tok ≠ x :=
  ne_of_eq (beq_iff_eq.mp h) ho

theorem ne_of_not_bne (h : ¬ (tok != other) = true) (ho : other ≠ x) : tok ≠ x := by
  simp only [bne_iff_ne, ne_eq, Decidable.not_not] at h
  exact ne_of_eq h ho

theorem ne_of_beq_or {a b : Token} (h : (tok == a || tok == b) = true) (ha : a ≠ x) (hb : b ≠ x) :
    tok ≠ x := by
  rcases Bool.or_eq_true_iff.mp h with h | h
  · exact ne_of_beq h ha
  · exact ne_of_beq h hb

theorem ne_of_and_beq {b : Bool} (h : (b && tok == other) = true) (ho : other ≠ x) : tok ≠ x :=
  ne_of_beq (Bool.and_eq_true_iff.mp h).2 ho

/-- The end of input stands for no name. -/
theorem ne_eof_of_nameText (h : tok.nameText?.isSome = true) : tok ≠ .eof := by
  rintro rfl
  simp [nameText?] at h

theorem ne_eof_of_isUnary (h : Grammar.isUnary tok = true) : tok ≠ .eof := by
  rintro rfl
  simp [Grammar.isUnary] at h

theorem ne_eof_of_clauseKeyword {k : String} (h : tok.clauseKeyword? = some k) : tok ≠ .eof := by
  rintro rfl
  simp [clauseKeyword?] at h

end Token

namespace Grammar

variable {α β : Type} {t : Tape} {c c' : Cursor} {w n fuel : Nat}

/-- The run of `g` from `c` does not run out of depth: it reads, or it stops at a fault of
the text. -/
def Bounded (g : Grammar α) (t : Tape) (c : Cursor) : Prop :=
  ∀ h : { h : Halt // t.Stops c h }, g t c = .error h → h.1.fault ≠ .grammar .tooDeep

namespace Bounded

theorem pure {a : α} : Bounded (Pure.pure a : Grammar α) t c := by
  intro e he
  cases he

theorem look {f : Tape → Cursor → α} : Bounded (Grammar.look f) t c := by
  intro e he
  cases he

/-- A reading in two parts: the first does not run out, and the second does not wherever the
first leaves the cursor. -/
theorem bind {x : Grammar α} {k : α → Grammar β} (hx : Bounded x t c)
    (hk : ∀ a c₁, x.Reads t c a c₁ → Bounded (k a) t c₁) : Bounded (x >>= k) t c := by
  intro e he
  rw [bind_run] at he
  split at he
  · next _ _ first =>
    cases he
    exact hx _ first
  · next _ a c₁ h₁ first =>
    split at he
    · next _ _ _ rest =>
      cases he
      exact hk a c₁ ⟨h₁, first⟩ _ rest
    · cases he

theorem look_bind {f : Tape → Cursor → α} {k : α → Grammar β} (h : Bounded (k (f t c)) t c) :
    Bounded (Grammar.look f >>= k) t c :=
  bind look fun _ _ r => by
    obtain ⟨rfl, rfl⟩ := r.look
    exact h

theorem read_bind {k : Tape → Grammar β} (h : Bounded (k t) t c) : Bounded (read >>= k) t c :=
  look_bind h

theorem fail {g : GrammarFault} (hg : g ≠ .tooDeep) : Bounded (Grammar.fail g : Grammar α) t c := by
  intro e he
  unfold Grammar.fail at he
  dsimp only at he
  split at he
  · cases he
    exact fun h => by cases h
  · cases he
    exact fun h => hg (SyntaxFault.grammar.inj h)

theorem fail_bind {g : GrammarFault} {k : α → Grammar β} (hg : g ≠ .tooDeep) :
    Bounded (Grammar.fail g >>= k) t c :=
  bind (fail hg) fun _ _ r => absurd r Reads.not_fail

theorem bump : Bounded Grammar.bump t c := by
  intro e he
  unfold Grammar.bump at he
  split at he
  · cases he
    exact fun h => by cases h
  · cases he

theorem skip : Bounded Grammar.skip t c := by
  rw [skip_eq]
  exact bind bump fun _ _ _ => pure

theorem skip_bind {k : Unit → Grammar α} (h : Bounded (k ()) t (c.past (t.lexemeAt c.index))) :
    Bounded (Grammar.skip >>= k) t c :=
  bind skip fun _ _ r => by
    obtain ⟨rfl, -⟩ := r.skip
    exact h

theorem map {x : Grammar α} {f : α → β} (hx : Bounded x t c) : Bounded (f <$> x) t c :=
  bind hx fun _ _ _ => pure

theorem discard {x : Grammar α} (hx : Bounded x t c) : Bounded (Functor.discard x) t c := by
  rw [discard_eq]
  exact bind hx fun _ _ _ => pure

theorem text_bind {a b : Nat} {k : String → Grammar β}
    (h : Bounded (k (Span.text ⟨a, b⟩ t.source)) t c) : Bounded (text a b >>= k) t c := by
  unfold text
  refine bind (read_bind pure) fun s c₁ r => ?_
  obtain ⟨rfl, rfl⟩ := r.read_bind.pure
  exact h

theorem expect {tok : Token} {e : Expectation} : Bounded (Grammar.expect tok e) t c := by
  unfold Grammar.expect
  refine look_bind ?_
  split
  · exact skip
  · exact fail fun h => by cases h

theorem expectName {e : Expectation} : Bounded (Grammar.expectName e) t c := by
  unfold Grammar.expectName
  refine look_bind ?_
  split
  · exact skip_bind pure
  · exact fail fun h => by cases h

theorem skipWhile {p : Token → Bool} (fuel : Nat) (c : Cursor) :
    Bounded (Grammar.skipWhile p fuel) t c := by
  induction fuel generalizing c with
  | zero => exact pure
  | succ fuel ih =>
    rw [Grammar.skipWhile.eq_2]
    refine look_bind ?_
    split
    · exact skip_bind (ih _)
    · exact pure

theorem startsExpression : Bounded Grammar.startsExpression t c := by
  unfold Grammar.startsExpression
  exact look_bind pure

theorem comprehensionFollows : Bounded Grammar.comprehensionFollows t c := by
  unfold Grammar.comprehensionFollows
  exact look_bind pure

/-! #### Threading the depth through a reading -/

/-- A reading in two parts, where the depth left for the second is that for the first: the
cursor only moves forward. -/
theorem bind_fuel {x : Grammar α} {k : α → Grammar β} (hx : Bounded x t c)
    (hf : t.fuelFor w c ≤ n) (hk : ∀ a c₁, t.fuelFor w c₁ ≤ n → Bounded (k a) t c₁) :
    Bounded (x >>= k) t c :=
  bind hx fun a c₁ r => hk a c₁ (Tape.fuel_advance hf r.advance.index_le)

/-- Past a consumed lexeme, one call deeper, the rule weighs up to `31` more. -/
theorem skip_fuel {k : Unit → Grammar α} (hf : t.fuelFor w c ≤ n + 1)
    (he : (t.lexemeAt c.index).token ≠ .eof)
    (hk : ∀ c₁, t.fuelFor (w + 31) c₁ ≤ n → Bounded (k ()) t c₁) : Bounded (Grammar.skip >>= k) t c :=
  skip_bind (hk _ (Tape.fuel_past hf (by omega) (Nat.le_refl _) he (Nat.lt_succ_self _)))

/-- An expected token is consumed when it is there. -/
theorem expect_fuel {tok : Token} {e : Expectation} {k : Unit → Grammar α}
    (hf : t.fuelFor w c ≤ n + 1) (ht : tok ≠ .eof)
    (hk : ∀ c₁, t.fuelFor (w + 31) c₁ ≤ n → Bounded (k ()) t c₁) :
    Bounded (Grammar.expect tok e >>= k) t c :=
  bind expect fun _ c₁ r => by
    obtain ⟨same, rfl⟩ := r.expect
    exact hk _ (Tape.fuel_past hf (by omega) (Nat.le_refl _) (Token.ne_of_eq same ht)
      (Nat.lt_succ_self _))

theorem bump_fuel {k : Lexeme → Grammar α} (hf : t.fuelFor w c ≤ n + 1)
    (he : (t.lexemeAt c.index).token ≠ .eof)
    (hk : t.fuelFor (w + 31) (c.past (t.lexemeAt c.index)) ≤ n →
      Bounded (k (t.lexemeAt c.index)) t (c.past (t.lexemeAt c.index))) :
    Bounded (Grammar.bump >>= k) t c :=
  bind bump fun _ _ r => by
    obtain ⟨rfl, rfl, -⟩ := r.bump
    exact hk (Tape.fuel_past hf (by omega) (Nat.le_refl _) he (Nat.lt_succ_self _))

/-- A loop over lexemes, given one step for each: the steps left outnumber the lexemes. -/
theorem bind_ahead {x : Grammar α} {k : α → Grammar β} (hx : Bounded x t c)
    (hf : t.ahead c < fuel) (hk : ∀ a c₁, t.ahead c₁ < fuel → Bounded (k a) t c₁) :
    Bounded (x >>= k) t c :=
  bind hx fun a c₁ r => hk a c₁ (Nat.lt_of_le_of_lt (Tape.ahead_le r.advance.index_le) hf)

theorem skip_ahead {k : Unit → Grammar α} (hf : t.ahead c < fuel + 1)
    (he : (t.lexemeAt c.index).token ≠ .eof)
    (hk : ∀ c₁, t.ahead c₁ < fuel → Bounded (k ()) t c₁) : Bounded (Grammar.skip >>= k) t c :=
  skip_bind (hk _ (Nat.lt_of_lt_of_le (Tape.ahead_past (Nat.le_refl _) he (Nat.lt_succ_self _))
    (Nat.le_of_lt_succ hf)))

end Bounded


/-! ### Expressions -/

mutual

theorem starExpressions_bounded : ∀ n c, t.fuelFor 9 c ≤ n → Bounded (starExpressions n) t c
  | 0, _, hf => absurd hf (Tape.not_fuelFor_le_zero (by decide))
  | n + 1, c, hf => by
    rw [starExpressions.eq_2]
    exact starExpressionsFrom_bounded n [] c (Tape.fuel_down hf (by decide))
termination_by structural n => n

theorem starExpressionsFrom_bounded : ∀ n (acc : List Span) c, t.fuelFor 8 c ≤ n →
    Bounded (starExpressionsFrom n acc) t c
  | 0, _, _, hf => absurd hf (Tape.not_fuelFor_le_zero (by decide))
  | n + 1, acc, c, hf => by
    rw [starExpressionsFrom.eq_2]
    apply Bounded.look_bind
    apply Bounded.look_bind
    extract_lets jp
    have more : ∀ r c₁, t.fuelFor 8 c₁ ≤ n + 1 → Bounded (jp r) t c₁ := by
      intro r c₁ h₁
      simp only [jp]
      apply Bounded.look_bind
      apply Bounded.look_bind
      split
      next => exact Bounded.pure
      next comma =>
        refine Bounded.skip_fuel h₁ (Token.ne_of_not_bne comma (by decide)) fun c₂ h₂ => ?_
        refine Bounded.bind_fuel Bounded.startsExpression h₂ fun b c₃ h₃ => ?_
        split
        next => exact Bounded.pure
        next => exact starExpressionsFrom_bounded n _ c₃ (Tape.fuel_le h₃ (by decide))
    split
    next star =>
      exact Bounded.skip_fuel hf (Token.ne_of_beq star (by decide)) fun c₁ h₁ =>
        Bounded.bind_fuel (comparison_bounded n c₁ (Tape.fuel_le h₁ (by decide)))
          (Tape.fuel_weaken h₁ (by decide)) more
    next => exact Bounded.bind_fuel (expression_bounded n c (Tape.fuel_down hf (by decide))) hf more
termination_by structural n => n

theorem starNamedExpressions_bounded : ∀ n c, t.fuelFor 10 c ≤ n →
    Bounded (starNamedExpressions n) t c
  | 0, _, hf => absurd hf (Tape.not_fuelFor_le_zero (by decide))
  | n + 1, c, hf => by
    rw [starNamedExpressions.eq_2]
    refine Bounded.bind_fuel (starNamedItem_bounded n c (Tape.fuel_down hf (by decide))) hf
      fun _ c₁ h₁ => ?_
    apply Bounded.look_bind
    split
    next => exact Bounded.pure
    next comma =>
      refine Bounded.skip_fuel h₁ (Token.ne_of_not_bne comma (by decide)) fun c₂ h₂ => ?_
      refine Bounded.bind_fuel Bounded.startsExpression h₂ fun b c₃ h₃ => ?_
      split
      next => exact Bounded.pure
      next => exact starNamedExpressions_bounded n c₃ (Tape.fuel_le h₃ (by decide))
termination_by structural n => n

theorem starNamedItem_bounded : ∀ n c, t.fuelFor 9 c ≤ n → Bounded (starNamedItem n) t c
  | 0, _, hf => absurd hf (Tape.not_fuelFor_le_zero (by decide))
  | n + 1, c, hf => by
    rw [starNamedItem.eq_2]
    apply Bounded.look_bind
    split
    next star =>
      exact Bounded.skip_fuel hf (Token.ne_of_beq star (by decide)) fun c₁ h₁ =>
        comparison_bounded n c₁ (Tape.fuel_le h₁ (by decide))
    next => exact namedExpression_bounded n c (Tape.fuel_down hf (by decide))
termination_by structural n => n

theorem targetList_bounded : ∀ n c, t.fuelFor 3 c ≤ n → Bounded (targetList n) t c
  | 0, _, hf => absurd hf (Tape.not_fuelFor_le_zero (by decide))
  | n + 1, c, hf => by
    rw [targetList.eq_2]
    apply Bounded.look_bind
    extract_lets jp
    have target : ∀ r c₁, t.fuelFor 3 c₁ ≤ n + 1 → Bounded (jp r) t c₁ := by
      intro r c₁ h₁
      simp only [jp]
      refine Bounded.bind_fuel (primary_bounded n c₁ (Tape.fuel_down h₁ (by decide))) h₁
        fun _ c₂ h₂ => ?_
      apply Bounded.look_bind
      split
      next => exact Bounded.pure
      next comma =>
        refine Bounded.skip_fuel h₂ (Token.ne_of_not_bne comma (by decide)) fun c₃ h₃ => ?_
        refine Bounded.bind_fuel Bounded.startsExpression h₃ fun b c₄ h₄ => ?_
        split
        next => exact Bounded.pure
        next => exact targetList_bounded n c₄ (Tape.fuel_le h₄ (by decide))
    split
    next => exact Bounded.bind_fuel Bounded.skip hf target
    next => exact target () c hf
termination_by structural n => n

theorem namedExpression_bounded : ∀ n c, t.fuelFor 8 c ≤ n → Bounded (namedExpression n) t c
  | 0, _, hf => absurd hf (Tape.not_fuelFor_le_zero (by decide))
  | n + 1, c, hf => by
    rw [namedExpression.eq_2]
    apply Bounded.look_bind
    refine Bounded.bind_fuel (expression_bounded n c (Tape.fuel_down hf (by decide))) hf
      fun _ c₁ h₁ => ?_
    apply Bounded.look_bind
    split
    next walrus =>
      apply Bounded.look_bind
      apply Bounded.text_bind
      extract_lets jp
      split
      next => exact Bounded.fail_bind (by decide)
      next =>
        simp only [jp]
        exact Bounded.skip_fuel h₁ (Token.ne_of_beq walrus (by decide)) fun c₂ h₂ =>
          expression_bounded n c₂ (Tape.fuel_le h₂ (by decide))
    next => exact Bounded.pure
termination_by structural n => n

theorem expression_bounded : ∀ n c, t.fuelFor 7 c ≤ n → Bounded (expression n) t c
  | 0, _, hf => absurd hf (Tape.not_fuelFor_le_zero (by decide))
  | n + 1, c, hf => by
    rw [expression.eq_2]
    apply Bounded.look_bind
    split
    next lambda =>
      refine Bounded.skip_fuel hf (Token.ne_of_beq lambda (by decide)) fun c₁ h₁ => ?_
      refine Bounded.bind_fuel (parameters_bounded n _ _ c₁ (Tape.fuel_le h₁ (by decide))) h₁
        fun _ c₂ h₂ => ?_
      exact Bounded.bind_fuel Bounded.expect h₂ fun _ c₃ h₃ =>
        expression_bounded n c₃ (Tape.fuel_le h₃ (by decide))
    next =>
      refine Bounded.bind_fuel (disjunction_bounded n c (Tape.fuel_down hf (by decide))) hf
        fun _ c₁ h₁ => ?_
      apply Bounded.look_bind
      split
      next cond =>
        refine Bounded.skip_fuel h₁ (Token.ne_of_beq cond (by decide)) fun c₂ h₂ => ?_
        refine Bounded.bind_fuel (disjunction_bounded n c₂ (Tape.fuel_le h₂ (by decide))) h₂
          fun _ c₃ h₃ => ?_
        exact Bounded.bind_fuel Bounded.expect h₃ fun _ c₄ h₄ =>
          expression_bounded n c₄ (Tape.fuel_le h₄ (by decide))
      next => exact Bounded.pure
termination_by structural n => n

theorem disjunction_bounded : ∀ n c, t.fuelFor 6 c ≤ n → Bounded (disjunction n) t c
  | 0, _, hf => absurd hf (Tape.not_fuelFor_le_zero (by decide))
  | n + 1, c, hf => by
    rw [disjunction.eq_2]
    exact Bounded.bind_fuel (inversion_bounded n c (Tape.fuel_down hf (by decide))) hf
      fun _ c₁ h₁ => disjunctionRest_bounded n c₁ (Tape.fuel_down h₁ (by decide))
termination_by structural n => n

theorem disjunctionRest_bounded : ∀ n c, t.fuelFor 1 c ≤ n → Bounded (disjunctionRest n) t c
  | 0, _, hf => absurd hf (Tape.not_fuelFor_le_zero (by decide))
  | n + 1, c, hf => by
    rw [disjunctionRest.eq_2]
    apply Bounded.look_bind
    split
    next op =>
      refine Bounded.skip_fuel hf (Token.ne_of_beq_or op (by decide) (by decide)) fun c₁ h₁ => ?_
      exact Bounded.bind_fuel (inversion_bounded n c₁ (Tape.fuel_le h₁ (by decide))) h₁
        fun _ c₂ h₂ => disjunctionRest_bounded n c₂ (Tape.fuel_le h₂ (by decide))
    next => exact Bounded.pure
termination_by structural n => n

theorem inversion_bounded : ∀ n c, t.fuelFor 5 c ≤ n → Bounded (inversion n) t c
  | 0, _, hf => absurd hf (Tape.not_fuelFor_le_zero (by decide))
  | n + 1, c, hf => by
    rw [inversion.eq_2]
    apply Bounded.look_bind
    split
    next negated =>
      exact Bounded.skip_fuel hf (Token.ne_of_beq negated (by decide)) fun c₁ h₁ =>
        inversion_bounded n c₁ (Tape.fuel_le h₁ (by decide))
    next => exact comparison_bounded n c (Tape.fuel_down hf (by decide))
termination_by structural n => n

theorem comparison_bounded : ∀ n c, t.fuelFor 4 c ≤ n → Bounded (comparison n) t c
  | 0, _, hf => absurd hf (Tape.not_fuelFor_le_zero (by decide))
  | n + 1, c, hf => by
    rw [comparison.eq_2]
    exact Bounded.bind_fuel (factor_bounded n c (Tape.fuel_down hf (by decide))) hf
      fun _ c₁ h₁ => comparisonRest_bounded n c₁ (Tape.fuel_down h₁ (by decide))
termination_by structural n => n

theorem comparisonRest_bounded : ∀ n c, t.fuelFor 1 c ≤ n → Bounded (comparisonRest n) t c
  | 0, _, hf => absurd hf (Tape.not_fuelFor_le_zero (by decide))
  | n + 1, c, hf => by
    rw [comparisonRest.eq_2]
    apply Bounded.look_bind
    extract_lets jp
    have operand : ∀ r c₁, t.fuelFor 32 c₁ ≤ n → Bounded (jp r) t c₁ := by
      intro r c₁ h₁
      simp only [jp]
      exact Bounded.bind_fuel (factor_bounded n c₁ (Tape.fuel_le h₁ (by decide))) h₁
        fun _ c₂ h₂ => comparisonRest_bounded n c₂ (Tape.fuel_le h₂ (by decide))
    split
    next op => exact Bounded.skip_fuel hf (Token.ne_of_eq op (by decide)) (operand ())
    next op => exact Bounded.skip_fuel hf (Token.ne_of_eq op (by decide)) (operand ())
    next op => exact Bounded.skip_fuel hf (Token.ne_of_eq op (by decide)) (operand ())
    next op => exact Bounded.skip_fuel hf (Token.ne_of_eq op (by decide)) (operand ())
    next o op =>
      split
      next => exact Bounded.pure
      next => exact Bounded.skip_fuel hf (Token.ne_of_eq op Token.noConfusion) (operand ())
    next is =>
      refine Bounded.skip_fuel hf (Token.ne_of_eq is (by decide)) fun c₁ h₁ => ?_
      apply Bounded.look_bind
      split
      next => exact Bounded.bind_fuel Bounded.skip h₁ operand
      next => exact operand () c₁ h₁
    next negated =>
      refine Bounded.skip_fuel hf (Token.ne_of_eq negated (by decide)) fun c₁ h₁ => ?_
      exact Bounded.bind_fuel Bounded.expect h₁ operand
    next => exact Bounded.pure
termination_by structural n => n

theorem factor_bounded : ∀ n c, t.fuelFor 3 c ≤ n → Bounded (factor n) t c
  | 0, _, hf => absurd hf (Tape.not_fuelFor_le_zero (by decide))
  | n + 1, c, hf => by
    rw [factor.eq_2]
    apply Bounded.look_bind
    split
    next unary =>
      exact Bounded.skip_fuel hf (Token.ne_eof_of_isUnary unary) fun c₁ h₁ =>
        factor_bounded n c₁ (Tape.fuel_le h₁ (by decide))
    next =>
      apply Bounded.look_bind
      extract_lets jp
      have operand : ∀ r c₁, t.fuelFor 3 c₁ ≤ n + 1 → Bounded (jp r) t c₁ := by
        intro r c₁ h₁
        simp only [jp]
        exact primary_bounded n c₁ (Tape.fuel_down h₁ (by decide))
      split
      next => exact Bounded.bind_fuel Bounded.skip hf operand
      next => exact operand () c hf
termination_by structural n => n

theorem primary_bounded : ∀ n c, t.fuelFor 2 c ≤ n → Bounded (primary n) t c
  | 0, _, hf => absurd hf (Tape.not_fuelFor_le_zero (by decide))
  | n + 1, c, hf => by
    rw [primary.eq_2]
    exact Bounded.bind_fuel (atom_bounded n c (Tape.fuel_down hf (by decide))) hf
      fun _ c₁ h₁ => primaryRest_bounded n c₁ (Tape.fuel_down h₁ (by decide))
termination_by structural n => n

theorem primaryRest_bounded : ∀ n c, t.fuelFor 1 c ≤ n → Bounded (primaryRest n) t c
  | 0, _, hf => absurd hf (Tape.not_fuelFor_le_zero (by decide))
  | n + 1, c, hf => by
    rw [primaryRest.eq_2]
    apply Bounded.look_bind
    extract_lets jp
    have rest : ∀ r c₁, t.fuelFor 32 c₁ ≤ n → Bounded (jp r) t c₁ := by
      intro r c₁ h₁
      simp only [jp]
      exact primaryRest_bounded n c₁ (Tape.fuel_le h₁ (by decide))
    split
    next dot =>
      refine Bounded.skip_fuel hf (Token.ne_of_eq dot (by decide)) fun c₁ h₁ => ?_
      exact Bounded.bind_fuel (Bounded.discard Bounded.expectName) h₁ rest
    next call =>
      refine Bounded.skip_fuel hf (Token.ne_of_eq call (by decide)) fun c₁ h₁ => ?_
      refine Bounded.bind_fuel (callArguments_bounded n c₁ (Tape.fuel_le h₁ (by decide))) h₁
        fun _ c₂ h₂ => ?_
      exact Bounded.bind_fuel Bounded.expect h₂ rest
    next subscripted =>
      refine Bounded.skip_fuel hf (Token.ne_of_eq subscripted (by decide)) fun c₁ h₁ => ?_
      refine Bounded.bind_fuel (subscript_bounded n c₁ (Tape.fuel_le h₁ (by decide))) h₁
        fun _ c₂ h₂ => ?_
      exact Bounded.bind_fuel Bounded.expect h₂ rest
    next => exact Bounded.pure
termination_by structural n => n

theorem atom_bounded : ∀ n c, t.fuelFor 1 c ≤ n → Bounded (atom n) t c
  | 0, _, hf => absurd hf (Tape.not_fuelFor_le_zero (by decide))
  | n + 1, c, hf => by
    rw [atom.eq_2]
    apply Bounded.look_bind
    split
    next => exact Bounded.read_bind (Bounded.skipWhile _ c)
    next => exact Bounded.read_bind (Bounded.skipWhile _ c)
    next => exact Bounded.skip
    next => exact Bounded.skip
    next => exact Bounded.skip
    next => exact Bounded.skip
    next => exact Bounded.skip
    next opening =>
      refine Bounded.skip_fuel hf (Token.ne_of_eq opening (by decide)) fun c₁ h₁ => ?_
      apply Bounded.look_bind
      extract_lets jp
      have close : ∀ r c₂, Bounded (jp r) t c₂ := by
        intro r c₂
        simp only [jp]
        exact Bounded.expect
      split
      next => exact close () c₁
      next yield =>
        exact Bounded.bind (yieldExpr_bounded n c₁ (Token.ne_of_eq yield (by decide))
          (Tape.fuel_le h₁ (by decide))) fun r c₂ _ => close r c₂
      next =>
        exact Bounded.bind (sequenceBody_bounded n _ c₁ (Tape.fuel_le h₁ (by decide)))
          fun r c₂ _ => close r c₂
    next opening =>
      refine Bounded.skip_fuel hf (Token.ne_of_eq opening (by decide)) fun c₁ h₁ => ?_
      apply Bounded.look_bind
      extract_lets jp
      have close : ∀ r c₂, Bounded (jp r) t c₂ := by
        intro r c₂
        simp only [jp]
        exact Bounded.expect
      split
      next =>
        exact Bounded.bind (sequenceBody_bounded n _ c₁ (Tape.fuel_le h₁ (by decide)))
          fun r c₂ _ => close r c₂
      next => exact close () c₁
    next opening =>
      refine Bounded.skip_fuel hf (Token.ne_of_eq opening (by decide)) fun c₁ h₁ => ?_
      apply Bounded.look_bind
      extract_lets jp
      have close : ∀ r c₂, Bounded (jp r) t c₂ := by
        intro r c₂
        simp only [jp]
        exact Bounded.expect
      split
      next =>
        exact Bounded.bind (braceBody_bounded n c₁ (Tape.fuel_le h₁ (by decide)))
          fun r c₂ _ => close r c₂
      next => exact close () c₁
    next =>
      split
      next => exact Bounded.skip
      next => exact Bounded.fail (by decide)
termination_by structural n => n

theorem sequenceBody_bounded : ∀ n close c, t.fuelFor 10 c ≤ n → Bounded (sequenceBody n close) t c
  | 0, _, _, hf => absurd hf (Tape.not_fuelFor_le_zero (by decide))
  | n + 1, close, c, hf => by
    rw [sequenceBody.eq_2]
    refine Bounded.bind_fuel (starNamedItem_bounded n c (Tape.fuel_down hf (by decide))) hf
      fun _ c₁ h₁ => ?_
    refine Bounded.bind_fuel Bounded.comprehensionFollows h₁ fun b c₂ h₂ => ?_
    split
    next => exact comprehension_bounded n c₂ (Tape.fuel_down h₂ (by decide))
    next => exact restOfList_bounded n close _ c₂ (Tape.fuel_down h₂ (by decide))
termination_by structural n => n

theorem braceBody_bounded : ∀ n c, t.fuelFor 10 c ≤ n → Bounded (braceBody n) t c
  | 0, _, hf => absurd hf (Tape.not_fuelFor_le_zero (by decide))
  | n + 1, c, hf => by
    rw [braceBody.eq_2]
    apply Bounded.look_bind
    extract_lets jp
    have items : ∀ isDict c₁, t.fuelFor 10 c₁ ≤ n + 1 → Bounded (jp isDict) t c₁ := by
      intro isDict c₁ h₁
      simp only [jp]
      refine Bounded.bind_fuel Bounded.comprehensionFollows h₁ fun b c₂ h₂ => ?_
      split
      next => exact comprehension_bounded n c₂ (Tape.fuel_down h₂ (by decide))
      next => exact restOfList_bounded n _ _ c₂ (Tape.fuel_down h₂ (by decide))
    split
    next mapping =>
      refine Bounded.skip_fuel hf (Token.ne_of_eq mapping (by decide)) fun c₁ h₁ => ?_
      exact Bounded.bind_fuel (comparison_bounded n c₁ (Tape.fuel_le h₁ (by decide)))
        (Tape.fuel_weaken h₁ (by decide)) fun _ c₂ h₂ => Bounded.bind_fuel Bounded.pure h₂ items
    next =>
      exact Bounded.bind_fuel (starNamedItem_bounded n c (Tape.fuel_down hf (by decide))) hf
        fun _ c₁ h₁ => Bounded.bind_fuel Bounded.pure h₁ items
    next =>
      refine Bounded.bind_fuel (namedExpression_bounded n c (Tape.fuel_down hf (by decide))) hf
        fun _ c₁ h₁ => ?_
      apply Bounded.look_bind
      split
      next colon =>
        refine Bounded.skip_fuel h₁ (Token.ne_of_beq colon (by decide)) fun c₂ h₂ => ?_
        exact Bounded.bind_fuel (expression_bounded n c₂ (Tape.fuel_le h₂ (by decide)))
          (Tape.fuel_weaken h₂ (by decide)) fun _ c₃ h₃ => Bounded.bind_fuel Bounded.pure h₃ items
      next => exact Bounded.bind_fuel Bounded.pure h₁ items
termination_by structural n => n

theorem dictItem_bounded : ∀ n c, t.fuelFor 8 c ≤ n → Bounded (dictItem n) t c
  | 0, _, hf => absurd hf (Tape.not_fuelFor_le_zero (by decide))
  | n + 1, c, hf => by
    rw [dictItem.eq_2]
    apply Bounded.look_bind
    split
    next mapping =>
      exact Bounded.skip_fuel hf (Token.ne_of_beq mapping (by decide)) fun c₁ h₁ =>
        comparison_bounded n c₁ (Tape.fuel_le h₁ (by decide))
    next =>
      refine Bounded.bind_fuel (expression_bounded n c (Tape.fuel_down hf (by decide))) hf
        fun _ c₁ h₁ => ?_
      exact Bounded.bind_fuel Bounded.expect h₁ fun _ c₂ h₂ =>
        expression_bounded n c₂ (Tape.fuel_down h₂ (by decide))
termination_by structural n => n

theorem restOfList_bounded : ∀ n close item c, t.fuelFor 1 c ≤ n →
    Bounded (restOfList n close item) t c
  | 0, _, _, _, hf => absurd hf (Tape.not_fuelFor_le_zero (by decide))
  | n + 1, close, item, c, hf => by
    rw [restOfList.eq_2]
    apply Bounded.look_bind
    split
    next => exact Bounded.pure
    next comma =>
      refine Bounded.skip_fuel hf (Token.ne_of_not_bne comma (by decide)) fun c₁ h₁ => ?_
      apply Bounded.look_bind
      split
      next => exact Bounded.pure
      next =>
        extract_lets jp
        have rest : ∀ r c₂, t.fuelFor 32 c₂ ≤ n → Bounded (jp r) t c₂ := by
          intro r c₂ h₂
          simp only [jp]
          exact restOfList_bounded n close item c₂ (Tape.fuel_le h₂ (by decide))
        cases item
        · exact Bounded.bind_fuel (starNamedItem_bounded n c₁ (Tape.fuel_le h₁ (by decide))) h₁ rest
        · exact Bounded.bind_fuel (dictItem_bounded n c₁ (Tape.fuel_le h₁ (by decide))) h₁ rest
termination_by structural n => n

theorem comprehension_bounded : ∀ n c, t.fuelFor 1 c ≤ n → Bounded (comprehension n) t c
  | 0, _, hf => absurd hf (Tape.not_fuelFor_le_zero (by decide))
  | n + 1, c, hf => by
    rw [comprehension.eq_2]
    refine Bounded.bind_fuel Bounded.comprehensionFollows hf fun b c₁ h₁ => ?_
    split
    next => exact Bounded.pure
    next =>
      apply Bounded.look_bind
      extract_lets jp
      have clause : ∀ r c₂, t.fuelFor 1 c₂ ≤ n + 1 → Bounded (jp r) t c₂ := by
        intro r c₂ h₂
        simp only [jp]
        refine Bounded.expect_fuel h₂ (by decide) fun c₃ h₃ => ?_
        refine Bounded.bind_fuel (targetList_bounded n c₃ (Tape.fuel_le h₃ (by decide))) h₃
          fun _ c₄ h₄ => ?_
        refine Bounded.bind_fuel Bounded.expect h₄ fun _ c₅ h₅ => ?_
        refine Bounded.bind_fuel (disjunction_bounded n c₅ (Tape.fuel_le h₅ (by decide))) h₅
          fun _ c₆ h₆ => ?_
        exact Bounded.bind_fuel (conditions_bounded n c₆ (Tape.fuel_le h₆ (by decide))) h₆
          fun _ c₇ h₇ => comprehension_bounded n c₇ (Tape.fuel_le h₇ (by decide))
      split
      next => exact Bounded.bind_fuel Bounded.skip h₁ clause
      next => exact clause () c₁ h₁
termination_by structural n => n

theorem conditions_bounded : ∀ n c, t.fuelFor 1 c ≤ n → Bounded (conditions n) t c
  | 0, _, hf => absurd hf (Tape.not_fuelFor_le_zero (by decide))
  | n + 1, c, hf => by
    rw [conditions.eq_2]
    apply Bounded.look_bind
    split
    next cond =>
      refine Bounded.skip_fuel hf (Token.ne_of_beq cond (by decide)) fun c₁ h₁ => ?_
      exact Bounded.bind_fuel (disjunction_bounded n c₁ (Tape.fuel_le h₁ (by decide))) h₁
        fun _ c₂ h₂ => conditions_bounded n c₂ (Tape.fuel_le h₂ (by decide))
    next => exact Bounded.pure
termination_by structural n => n

theorem callArguments_bounded : ∀ n c, t.fuelFor 10 c ≤ n → Bounded (callArguments n) t c
  | 0, _, hf => absurd hf (Tape.not_fuelFor_le_zero (by decide))
  | n + 1, c, hf => by
    rw [callArguments.eq_2]
    exact callArgumentsFrom_bounded n true c (Tape.fuel_down hf (by decide))
termination_by structural n => n

theorem callArgumentsFrom_bounded : ∀ n first c, t.fuelFor 9 c ≤ n →
    Bounded (callArgumentsFrom n first) t c
  | 0, _, _, hf => absurd hf (Tape.not_fuelFor_le_zero (by decide))
  | n + 1, first, c, hf => by
    rw [callArgumentsFrom.eq_2]
    apply Bounded.look_bind
    split
    next => exact Bounded.pure
    next =>
      apply Bounded.look_bind
      extract_lets jp value
      have more : ∀ r c₁, t.fuelFor 9 c₁ ≤ n + 1 → Bounded (jp r) t c₁ := by
        intro r c₁ h₁
        simp only [jp]
        apply Bounded.look_bind
        split
        next => exact Bounded.pure
        next comma =>
          exact Bounded.skip_fuel h₁ (Token.ne_of_not_bne comma (by decide)) fun c₂ h₂ =>
            callArgumentsFrom_bounded n false c₂ (Tape.fuel_le h₂ (by decide))
      split
      next star =>
        exact Bounded.skip_fuel hf (Token.ne_of_eq star (by decide)) fun c₁ h₁ =>
          Bounded.bind_fuel (expression_bounded n c₁ (Tape.fuel_le h₁ (by decide)))
            (Tape.fuel_weaken h₁ (by decide)) more
      next star =>
        exact Bounded.skip_fuel hf (Token.ne_of_eq star (by decide)) fun c₁ h₁ =>
          Bounded.bind_fuel (expression_bounded n c₁ (Tape.fuel_le h₁ (by decide)))
            (Tape.fuel_weaken h₁ (by decide)) more
      next =>
        apply Bounded.look_bind
        refine Bounded.bind_fuel (namedExpression_bounded n c (Tape.fuel_down hf (by decide))) hf
          fun _ c₁ h₁ => ?_
        apply Bounded.look_bind
        split
        next keyword =>
          apply Bounded.look_bind
          apply Bounded.text_bind
          split
          next => exact Bounded.fail_bind (by decide)
          next =>
            simp only [value]
            exact Bounded.skip_fuel h₁ (Token.ne_of_beq keyword (by decide)) fun c₂ h₂ =>
              Bounded.bind_fuel (expression_bounded n c₂ (Tape.fuel_le h₂ (by decide)))
                (Tape.fuel_weaken h₂ (by decide)) more
        next =>
          refine Bounded.bind_fuel Bounded.comprehensionFollows h₁ fun b c₂ h₂ => ?_
          split
          next =>
            exact Bounded.bind (comprehension_bounded n c₂ (Tape.fuel_down h₂ (by decide)))
              fun _ _ _ => Bounded.pure
          next => exact more () c₂ h₂
termination_by structural n => n

theorem subscript_bounded : ∀ n c, t.fuelFor 10 c ≤ n → Bounded (subscript n) t c
  | 0, _, hf => absurd hf (Tape.not_fuelFor_le_zero (by decide))
  | n + 1, c, hf => by
    rw [subscript.eq_2]
    refine Bounded.bind_fuel (sliceItem_bounded n c (Tape.fuel_down hf (by decide))) hf
      fun _ c₁ h₁ => ?_
    apply Bounded.look_bind
    split
    next => exact Bounded.pure
    next comma =>
      refine Bounded.skip_fuel h₁ (Token.ne_of_not_bne comma (by decide)) fun c₂ h₂ => ?_
      apply Bounded.look_bind
      split
      next => exact Bounded.pure
      next => exact subscript_bounded n c₂ (Tape.fuel_le h₂ (by decide))
termination_by structural n => n

theorem sliceItem_bounded : ∀ n c, t.fuelFor 9 c ≤ n → Bounded (sliceItem n) t c
  | 0, _, hf => absurd hf (Tape.not_fuelFor_le_zero (by decide))
  | n + 1, c, hf => by
    rw [sliceItem.eq_2]
    apply Bounded.look_bind
    split
    next star =>
      exact Bounded.skip_fuel hf (Token.ne_of_beq star (by decide)) fun c₁ h₁ =>
        comparison_bounded n c₁ (Tape.fuel_le h₁ (by decide))
    next =>
      apply Bounded.look_bind
      extract_lets jp
      have bounds : ∀ r c₁, t.fuelFor 9 c₁ ≤ n + 1 → Bounded (jp r) t c₁ := by
        intro r c₁ h₁
        simp only [jp]
        exact Bounded.bind_fuel (sliceBound_bounded n c₁ (Tape.fuel_down h₁ (by decide))) h₁
          fun _ c₂ h₂ => sliceBound_bounded n c₂ (Tape.fuel_down h₂ (by decide))
      split
      next =>
        exact Bounded.bind_fuel (namedExpression_bounded n c (Tape.fuel_down hf (by decide))) hf
          bounds
      next => exact bounds () c hf
termination_by structural n => n

theorem sliceBound_bounded : ∀ n c, t.fuelFor 1 c ≤ n → Bounded (sliceBound n) t c
  | 0, _, hf => absurd hf (Tape.not_fuelFor_le_zero (by decide))
  | n + 1, c, hf => by
    rw [sliceBound.eq_2]
    apply Bounded.look_bind
    split
    next colon =>
      refine Bounded.skip_fuel hf (Token.ne_of_beq colon (by decide)) fun c₁ h₁ => ?_
      refine Bounded.bind_fuel Bounded.startsExpression h₁ fun b c₂ h₂ => ?_
      split
      next => exact expression_bounded n c₂ (Tape.fuel_le h₂ (by decide))
      next => exact Bounded.pure
    next => exact Bounded.pure
termination_by structural n => n

/-- `yield` and what follows it, from a `yield` that the caller has seen. -/
theorem yieldExpr_bounded : ∀ n c, (t.lexemeAt c.index).token ≠ .eof → t.fuelFor 1 c ≤ n →
    Bounded (yieldExpr n) t c
  | 0, _, _, hf => absurd hf (Tape.not_fuelFor_le_zero (by decide))
  | n + 1, c, he, hf => by
    rw [yieldExpr.eq_2]
    refine Bounded.skip_fuel hf he fun c₁ h₁ => ?_
    apply Bounded.look_bind
    split
    next =>
      exact Bounded.bind_fuel Bounded.skip h₁ fun _ c₂ h₂ =>
        expression_bounded n c₂ (Tape.fuel_le h₂ (by decide))
    next =>
      refine Bounded.bind_fuel Bounded.startsExpression h₁ fun b c₂ h₂ => ?_
      split
      next => exact Bounded.discard (starExpressions_bounded n c₂ (Tape.fuel_le h₂ (by decide)))
      next => exact Bounded.pure
termination_by structural n => n

theorem parameters_bounded : ∀ n close annotated c, t.fuelFor 2 c ≤ n →
    Bounded (parameters n close annotated) t c
  | 0, _, _, _, hf => absurd hf (Tape.not_fuelFor_le_zero (by decide))
  | n + 1, close, annotated, c, hf => by
    rw [parameters.eq_2]
    apply Bounded.look_bind
    split
    next => exact Bounded.pure
    next =>
      apply Bounded.look_bind
      extract_lets jp
      have more : ∀ r c₁, t.fuelFor 2 c₁ ≤ n + 1 → Bounded (jp r) t c₁ := by
        intro r c₁ h₁
        simp only [jp]
        apply Bounded.look_bind
        split
        next => exact Bounded.pure
        next comma =>
          exact Bounded.skip_fuel h₁ (Token.ne_of_not_bne comma (by decide)) fun c₂ h₂ =>
            parameters_bounded n close annotated c₂ (Tape.fuel_le h₂ (by decide))
      split
      next => exact Bounded.bind_fuel Bounded.skip hf more
      next star =>
        refine Bounded.skip_fuel hf (Token.ne_of_eq star (by decide)) fun c₁ h₁ => ?_
        apply Bounded.look_bind
        split
        next =>
          exact Bounded.bind_fuel (parameter_bounded n annotated false c₁ (Tape.fuel_le h₁ (by decide)))
            (Tape.fuel_weaken h₁ (by decide)) more
        next => exact more () c₁ (Tape.fuel_weaken h₁ (by decide))
      next star =>
        exact Bounded.skip_fuel hf (Token.ne_of_eq star (by decide)) fun c₁ h₁ =>
          Bounded.bind_fuel (parameter_bounded n annotated false c₁ (Tape.fuel_le h₁ (by decide)))
            (Tape.fuel_weaken h₁ (by decide)) more
      next =>
        exact Bounded.bind_fuel (parameter_bounded n annotated true c (Tape.fuel_down hf (by decide)))
          hf more
termination_by structural n => n

theorem parameter_bounded : ∀ n annotated default c, t.fuelFor 1 c ≤ n →
    Bounded (parameter n annotated default) t c
  | 0, _, _, _, hf => absurd hf (Tape.not_fuelFor_le_zero (by decide))
  | n + 1, annotated, default, c, hf => by
    rw [parameter.eq_2]
    refine Bounded.bind_fuel (Bounded.discard Bounded.expectName) hf fun _ c₁ h₁ => ?_
    apply Bounded.look_bind
    extract_lets jp₁ jp₂
    have withDefault : ∀ r c₂, t.fuelFor 1 c₂ ≤ n + 1 → Bounded (jp₁ r) t c₂ := by
      intro r c₂ h₂
      simp only [jp₁]
      apply Bounded.look_bind
      split
      next eq =>
        exact Bounded.skip_fuel h₂ (Token.ne_of_and_beq eq (by decide)) fun c₃ h₃ =>
          expression_bounded n c₃ (Tape.fuel_le h₃ (by decide))
      next => exact Bounded.pure
    have annotation : ∀ r c₂, t.fuelFor 32 c₂ ≤ n → Bounded (jp₂ r) t c₂ := by
      intro r c₂ h₂
      simp only [jp₂]
      exact Bounded.bind_fuel (expression_bounded n c₂ (Tape.fuel_le h₂ (by decide)))
        (Tape.fuel_weaken h₂ (by decide)) withDefault
    split
    next colon =>
      refine Bounded.skip_fuel h₁ (Token.ne_of_and_beq colon (by decide)) fun c₂ h₂ => ?_
      apply Bounded.look_bind
      split
      next => exact Bounded.bind_fuel Bounded.skip h₂ annotation
      next => exact annotation () c₂ h₂
    next => exact withDefault () c₁ h₁
termination_by structural n => n

theorem typeParamList_bounded : ∀ n c, t.fuelFor 1 c ≤ n → Bounded (typeParamList n) t c
  | 0, _, hf => absurd hf (Tape.not_fuelFor_le_zero (by decide))
  | n + 1, c, hf => by
    rw [typeParamList.eq_2]
    apply Bounded.look_bind
    extract_lets jp₁ jp₂ jp₃ jp₄
    have more : ∀ r c₁, t.fuelFor 1 c₁ ≤ n + 1 → Bounded (jp₁ r) t c₁ := by
      intro r c₁ h₁
      simp only [jp₁]
      apply Bounded.look_bind
      split
      next => exact Bounded.pure
      next comma =>
        refine Bounded.skip_fuel h₁ (Token.ne_of_not_bne comma (by decide)) fun c₂ h₂ => ?_
        apply Bounded.look_bind
        split
        next => exact Bounded.pure
        next => exact typeParamList_bounded n c₂ (Tape.fuel_le h₂ (by decide))
    have bound : ∀ r c₁, t.fuelFor 32 c₁ ≤ n → Bounded (jp₂ r) t c₁ := by
      intro r c₁ h₁
      simp only [jp₂]
      exact Bounded.bind_fuel (expression_bounded n c₁ (Tape.fuel_le h₁ (by decide)))
        (Tape.fuel_weaken h₁ (by decide)) more
    have withDefault : ∀ r c₁, t.fuelFor 1 c₁ ≤ n + 1 → Bounded (jp₃ r) t c₁ := by
      intro r c₁ h₁
      simp only [jp₃]
      apply Bounded.look_bind
      split
      next eq =>
        refine Bounded.skip_fuel h₁ (Token.ne_of_beq eq (by decide)) fun c₂ h₂ => ?_
        apply Bounded.look_bind
        split
        next => exact Bounded.bind_fuel Bounded.skip h₂ bound
        next => exact bound () c₂ h₂
      next => exact more () c₁ h₁
    have param : ∀ r c₁, t.fuelFor 1 c₁ ≤ n + 1 → Bounded (jp₄ r) t c₁ := by
      intro r c₁ h₁
      simp only [jp₄]
      refine Bounded.bind_fuel (Bounded.discard Bounded.expectName) h₁ fun _ c₂ h₂ => ?_
      apply Bounded.look_bind
      split
      next colon =>
        exact Bounded.skip_fuel h₂ (Token.ne_of_beq colon (by decide)) fun c₃ h₃ =>
          Bounded.bind_fuel (expression_bounded n c₃ (Tape.fuel_le h₃ (by decide)))
            (Tape.fuel_weaken h₃ (by decide)) withDefault
      next => exact withDefault () c₂ h₂
    split
    next => exact Bounded.bind_fuel Bounded.skip hf param
    next => exact param () c hf
termination_by structural n => n

theorem withItemList_bounded : ∀ n parenthesized c, t.fuelFor 8 c ≤ n →
    Bounded (withItemList n parenthesized) t c
  | 0, _, _, hf => absurd hf (Tape.not_fuelFor_le_zero (by decide))
  | n + 1, parenthesized, c, hf => by
    rw [withItemList.eq_2]
    refine Bounded.bind_fuel (expression_bounded n c (Tape.fuel_down hf (by decide))) hf
      fun _ c₁ h₁ => ?_
    apply Bounded.look_bind
    extract_lets jp₁ jp₂
    have more : ∀ r c₂, t.fuelFor 8 c₂ ≤ n + 1 → Bounded (jp₁ r) t c₂ := by
      intro r c₂ h₂
      simp only [jp₁]
      apply Bounded.look_bind
      split
      next => exact Bounded.pure
      next comma =>
        refine Bounded.skip_fuel h₂ (Token.ne_of_not_bne comma (by decide)) fun c₃ h₃ => ?_
        apply Bounded.look_bind
        split
        next => exact Bounded.pure
        next => exact withItemList_bounded n parenthesized c₃ (Tape.fuel_le h₃ (by decide))
    have target : ∀ r c₂, t.fuelFor 39 c₂ ≤ n → Bounded (jp₂ r) t c₂ := by
      intro r c₂ h₂
      simp only [jp₂]
      exact Bounded.bind_fuel (primary_bounded n c₂ (Tape.fuel_le h₂ (by decide)))
        (Tape.fuel_weaken h₂ (by decide)) more
    split
    next as =>
      refine Bounded.skip_fuel h₁ (Token.ne_of_beq as (by decide)) fun c₂ h₂ => ?_
      apply Bounded.look_bind
      split
      next => exact Bounded.fail_bind (by decide)
      next => exact target () c₂ h₂
    next => exact more () c₁ h₁
termination_by structural n => n

theorem moreExpressions_bounded : ∀ n c, t.fuelFor 1 c ≤ n → Bounded (moreExpressions n) t c
  | 0, _, hf => absurd hf (Tape.not_fuelFor_le_zero (by decide))
  | n + 1, c, hf => by
    rw [moreExpressions.eq_2]
    apply Bounded.look_bind
    split
    next comma =>
      refine Bounded.skip_fuel hf (Token.ne_of_beq comma (by decide)) fun c₁ h₁ => ?_
      exact Bounded.bind_fuel (expression_bounded n c₁ (Tape.fuel_le h₁ (by decide))) h₁
        fun _ c₂ h₂ => moreExpressions_bounded n c₂ (Tape.fuel_le h₂ (by decide))
    next => exact Bounded.pure
termination_by structural n => n

end

/-! ### Headers -/

/-- Type parameters, from a `[` that the caller has seen. -/
theorem typeParams_bounded (n : Nat) (he : (t.lexemeAt c.index).token ≠ .eof)
    (hf : t.fuelFor 1 c ≤ n) : Bounded (typeParams n) t c := by
  cases n with
  | zero => exact absurd hf (Tape.not_fuelFor_le_zero (by decide))
  | succ n =>
    rw [typeParams.eq_2]
    refine Bounded.skip_fuel hf he fun c₁ h₁ => ?_
    exact Bounded.bind (typeParamList_bounded n c₁ (Tape.fuel_le h₁ (by decide))) fun _ _ _ =>
      Bounded.expect


theorem withItems_bounded (n : Nat) (hf : t.fuelFor 9 c ≤ n) : Bounded (withItems n) t c := by
  cases n with
  | zero => exact absurd hf (Tape.not_fuelFor_le_zero (by decide))
  | succ n =>
    rw [withItems.eq_2]
    apply Bounded.look_bind
    apply Bounded.look_bind
    extract_lets parenthesized jp
    have items : ∀ r c₁, t.fuelFor 9 c₁ ≤ n + 1 → Bounded (jp r) t c₁ := by
      intro r c₁ h₁
      simp only [jp]
      refine Bounded.bind (withItemList_bounded n _ c₁ (Tape.fuel_down h₁ (by decide)))
        fun _ c₂ _ => ?_
      split
      next => exact Bounded.expect
      next => exact Bounded.pure
    split
    next => exact Bounded.bind_fuel Bounded.skip hf items
    next => exact items () c hf

theorem exceptHeader_bounded (n : Nat) (hf : t.fuelFor 8 c ≤ n) : Bounded (exceptHeader n) t c := by
  cases n with
  | zero => exact absurd hf (Tape.not_fuelFor_le_zero (by decide))
  | succ n =>
    rw [exceptHeader.eq_2]
    apply Bounded.look_bind
    extract_lets jp
    have header : ∀ r c₁, t.fuelFor 8 c₁ ≤ n + 1 → Bounded (jp r) t c₁ := by
      intro r c₁ h₁
      simp only [jp]
      refine Bounded.bind_fuel Bounded.startsExpression h₁ fun b c₂ h₂ => ?_
      split
      next => exact Bounded.pure
      next =>
        refine Bounded.bind_fuel (expression_bounded n c₂ (Tape.fuel_down h₂ (by decide))) h₂
          fun _ c₃ h₃ => ?_
        refine Bounded.bind_fuel (moreExpressions_bounded n c₃ (Tape.fuel_down h₃ (by decide))) h₃
          fun _ c₄ h₄ => ?_
        apply Bounded.look_bind
        split
        next => exact Bounded.skip_bind (Bounded.discard Bounded.expectName)
        next => exact Bounded.pure
    split
    next => exact Bounded.bind_fuel Bounded.skip hf header
    next => exact header () c hf

end Grammar

end PyTune
