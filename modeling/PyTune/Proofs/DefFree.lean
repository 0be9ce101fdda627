import PyTune.Proofs.Spelling

/-!
# Expressions and simple statements pass no `def`

Each rule of expressions and simple statements consumes a lexeme only after a test that lets no
`def` through, so their readings pass no `def` (`Grammar.Clean`), by induction on the depth
bound the rules share.
-/

namespace PyTune

/-- No lexeme from `i` up to, not including, `j` is the keyword `def`. -/
def Tape.DefFree (t : Tape) (i j : Nat) : Prop :=
  ∀ k, i ≤ k → k < j → (t.lexemeAt k).token ≠ .keyword .defn

namespace Tape.DefFree

variable {t : Tape} {i j l : Nat}

theorem refl (t : Tape) (i : Nat) : t.DefFree i i :=
  fun _ lo hi => absurd hi (Nat.not_lt.mpr lo)

theorem trans (h₁ : t.DefFree i j) (h₂ : t.DefFree j l) : t.DefFree i l := by
  intro k lo hi
  by_cases hk : k < j
  · exact h₁ k lo hk
  · exact h₂ k (Nat.le_of_not_lt hk) hi

theorem cons (hk : (t.lexemeAt i).token ≠ .keyword .defn) (h : t.DefFree (i + 1) j) :
    t.DefFree i j := by
  intro k lo hi
  rcases Nat.eq_or_lt_of_le lo with rfl | lt
  · exact hk
  · exact h k lt hi

end Tape.DefFree

namespace Token

variable {tok other : Token}

theorem ne_defn_of_eq (h : tok = other) (ho : other ≠ .keyword .defn) : tok ≠ .keyword .defn := by
  rw [h]
  exact ho

theorem ne_defn_of_beq (h : (tok == other) = true) (ho : other ≠ .keyword .defn) :
    tok ≠ .keyword .defn :=
  ne_defn_of_eq (beq_iff_eq.mp h) ho

theorem ne_defn_of_not_bne (h : ¬ (tok != other) = true) (ho : other ≠ .keyword .defn) :
    tok ≠ .keyword .defn := by
  simp only [bne_iff_ne, ne_eq, Decidable.not_not] at h
  exact ne_defn_of_eq h ho

/-- `def` can stand for no name. -/
theorem ne_defn_of_nameText (h : tok.nameText?.isSome = true) : tok ≠ .keyword .defn := by
  rintro rfl
  simp [nameText?, Keyword.isSoft] at h

theorem ne_defn_of_isUnary (h : Grammar.isUnary tok = true) : tok ≠ .keyword .defn := by
  rintro rfl
  simp [Grammar.isUnary] at h

theorem ne_defn_of_beq_or {a b : Token} (h : (tok == a || tok == b) = true)
    (ha : a ≠ .keyword .defn) (hb : b ≠ .keyword .defn) : tok ≠ .keyword .defn := by
  rcases Bool.or_eq_true_iff.mp h with h | h
  · exact ne_defn_of_beq h ha
  · exact ne_defn_of_beq h hb

theorem ne_defn_of_and_beq {b : Bool} (h : (b && tok == other) = true)
    (ho : other ≠ .keyword .defn) : tok ≠ .keyword .defn :=
  ne_defn_of_beq (Bool.and_eq_true_iff.mp h).2 ho

end Token

namespace Grammar

variable {α β : Type} {t : Tape} {c : Cursor}

/-- Every reading of `g` from `c` passes no `def`. -/
def Clean (g : Grammar α) (t : Tape) (c : Cursor) : Prop :=
  ∀ a c', g.Reads t c a c' → t.DefFree c.index c'.index

namespace Clean

theorem of_not_reads {g : Grammar α} (h : ∀ {a c'}, ¬ g.Reads t c a c') : Clean g t c :=
  fun _ _ hr => absurd hr h

theorem fail {f : GrammarFault} : Clean (Grammar.fail f : Grammar α) t c :=
  of_not_reads Reads.not_fail

theorem exhausted : Clean (Grammar.exhausted : Grammar α) t c :=
  of_not_reads Reads.not_fail

theorem pure {a : α} : Clean (Pure.pure a : Grammar α) t c := by
  intro b c' h
  obtain ⟨-, stays⟩ := h.pure
  rw [stays]
  exact Tape.DefFree.refl t c.index

theorem look_bind {f : Tape → Cursor → α} {k : α → Grammar β} (h : Clean (k (f t c)) t c) :
    Clean (Grammar.look f >>= k) t c :=
  fun _ _ hr => h _ _ hr.look_bind

theorem read_bind {k : Tape → Grammar β} (h : Clean (k t) t c) : Clean (read >>= k) t c :=
  look_bind h

/-- A reading in two parts, the second clean wherever the first leaves the cursor. -/
theorem bind {x : Grammar α} {k : α → Grammar β} (hx : Clean x t c)
    (hk : ∀ a c₁, Clean (k a) t c₁) : Clean (x >>= k) t c := by
  intro b c' h
  obtain ⟨a, c₁, hr, hf⟩ := h.bind
  exact (hx a c₁ hr).trans (hk a c₁ b c' hf)

theorem fail_bind {f : GrammarFault} {k : α → Grammar β} : Clean (Grammar.fail f >>= k) t c :=
  of_not_reads fun h => Reads.fail_bind h

theorem map {x : Grammar α} {f : α → β} (hx : Clean x t c) : Clean (f <$> x) t c :=
  bind hx fun _ _ => pure

theorem discard {x : Grammar α} (hx : Clean x t c) : Clean (Functor.discard x) t c := by
  rw [discard_eq]
  exact bind hx fun _ _ => pure

theorem skip (hne : (t.lexemeAt c.index).token ≠ .keyword .defn) : Clean Grammar.skip t c := by
  intro u c' h
  obtain ⟨rfl, -⟩ := h.skip
  exact Tape.DefFree.cons hne (Tape.DefFree.refl t _)

/-- Consuming a lexeme that is not `def`, then reading on. -/
theorem skip_bind {k : Unit → Grammar α} (hne : (t.lexemeAt c.index).token ≠ .keyword .defn)
    (hk : ∀ c₁, Clean (k ()) t c₁) : Clean (Grammar.skip >>= k) t c :=
  bind (skip hne) fun _ c₁ => hk c₁

end Clean

/-! ### Moving the cursor -/

theorem expect_clean {tok : Token} {e : Expectation} (ht : tok ≠ .keyword .defn) :
    Clean (expect tok e) t c := by
  unfold expect
  apply Clean.look_bind
  split
  next same => exact Clean.skip (Token.ne_defn_of_beq same ht)
  next => exact Clean.fail

theorem expectName_clean {e : Expectation} : Clean (expectName e) t c := by
  unfold expectName
  apply Clean.look_bind
  split
  next n named =>
    exact Clean.skip_bind (Token.ne_defn_of_nameText (by rw [named]; rfl)) fun _ => Clean.pure
  next => exact Clean.fail

theorem skipWhile_clean {p : Token → Bool} (hp : p (.keyword .defn) = false) :
    ∀ fuel c, Clean (skipWhile p fuel) t c
  | 0, _ => Clean.pure
  | fuel + 1, c => by
    rw [skipWhile.eq_2]
    apply Clean.look_bind
    split
    next holds =>
      refine Clean.skip_bind (fun h => ?_) fun c₁ => skipWhile_clean hp fuel c₁
      rw [h, hp] at holds
      cases holds
    next => exact Clean.pure

theorem skipNewlines_clean : Clean skipNewlines t c := by
  unfold skipNewlines
  exact Clean.read_bind (skipWhile_clean rfl _ c)

theorem eatSemicolon_clean : Clean eatSemicolon t c := by
  unfold eatSemicolon
  apply Clean.look_bind
  split
  next => exact Clean.pure
  next semicolon =>
    refine Clean.skip_bind (Token.ne_defn_of_not_bne semicolon (by decide)) fun c₁ => ?_
    apply Clean.look_bind
    split <;> exact Clean.pure

theorem endLine_clean : Clean endLine t c := by
  unfold endLine
  apply Clean.look_bind
  split
  next newline => exact Clean.skip (Token.ne_defn_of_eq newline (by decide))
  all_goals first | exact Clean.pure | exact Clean.fail

theorem text_clean {a b : Nat} : Clean (text a b) t c := by
  unfold text
  exact Clean.read_bind Clean.pure

/-- Taking the text between two offsets moves nothing: what follows reads from the same
lexeme. -/
theorem Clean.text_bind {a b : Nat} {k : String → Grammar β}
    (h : Clean (k (Span.text ⟨a, b⟩ t.source)) t c) : Clean (text a b >>= k) t c := by
  intro r c' hr
  obtain ⟨s, c₁, ht, hk⟩ := hr.bind
  unfold text at ht
  obtain ⟨rfl, rfl⟩ := ht.read_bind.pure
  exact h r c' hk

theorem startsExpression_clean : Clean startsExpression t c := by
  unfold startsExpression
  exact Clean.look_bind Clean.pure

theorem comprehensionFollows_clean : Clean comprehensionFollows t c := by
  unfold comprehensionFollows
  exact Clean.look_bind Clean.pure

theorem dottedTail_clean : ∀ fuel c, Clean (dottedTail fuel) t c
  | 0, _ => Clean.exhausted
  | fuel + 1, c => by
    rw [dottedTail.eq_2]
    apply Clean.look_bind
    split
    next dot =>
      refine Clean.skip_bind (Token.ne_defn_of_beq dot (by decide)) fun c₁ => ?_
      exact Clean.bind (Clean.discard expectName_clean) fun _ c₂ => dottedTail_clean fuel c₂
    next => exact Clean.pure

theorem dottedName_clean : Clean dottedName t c := by
  unfold dottedName
  apply Clean.look_bind
  refine Clean.bind (Clean.discard expectName_clean) fun _ c₁ => ?_
  refine Clean.read_bind (Clean.bind (dottedTail_clean _ c₁) fun _ c₂ => ?_)
  exact Clean.look_bind text_clean

theorem asName_clean : Clean asName t c := by
  unfold asName
  apply Clean.look_bind
  split
  next as =>
    refine Clean.skip_bind (Token.ne_defn_of_beq as (by decide)) fun c₁ => ?_
    exact Clean.bind expectName_clean fun _ _ => Clean.pure
  next => exact Clean.pure

/-! ### Expressions -/

mutual

theorem starExpressions_clean : ∀ n c, Clean (starExpressions n) t c
  | 0, _ => Clean.exhausted
  | n + 1, c => by
    rw [starExpressions.eq_2]
    exact starExpressionsFrom_clean n [] c
termination_by structural n => n

theorem starExpressionsFrom_clean : ∀ n (acc : List Span) c, Clean (starExpressionsFrom n acc) t c
  | 0, _, _ => Clean.exhausted
  | n + 1, acc, c => by
    rw [starExpressionsFrom.eq_2]
    apply Clean.look_bind
    apply Clean.look_bind
    extract_lets jp
    have more : ∀ r c₁, Clean (jp r) t c₁ := by
      intro r c₁
      simp only [jp]
      apply Clean.look_bind
      apply Clean.look_bind
      split
      next => exact Clean.pure
      next comma =>
        refine Clean.skip_bind (Token.ne_defn_of_not_bne comma (by decide)) fun c₂ => ?_
        refine Clean.bind startsExpression_clean fun b c₃ => ?_
        split
        next => exact Clean.pure
        next => exact starExpressionsFrom_clean n _ c₃
    split
    next star =>
      exact Clean.skip_bind (Token.ne_defn_of_beq star (by decide)) fun c₁ =>
        Clean.bind (comparison_clean n c₁) more
    next => exact Clean.bind (expression_clean n c) more
termination_by structural n => n

theorem starNamedExpressions_clean : ∀ n c, Clean (starNamedExpressions n) t c
  | 0, _ => Clean.exhausted
  | n + 1, c => by
    rw [starNamedExpressions.eq_2]
    refine Clean.bind (starNamedItem_clean n c) fun _ c₁ => ?_
    apply Clean.look_bind
    split
    next => exact Clean.pure
    next comma =>
      refine Clean.skip_bind (Token.ne_defn_of_not_bne comma (by decide)) fun c₂ => ?_
      refine Clean.bind startsExpression_clean fun b c₃ => ?_
      split
      next => exact Clean.pure
      next => exact starNamedExpressions_clean n c₃
termination_by structural n => n

theorem starNamedItem_clean : ∀ n c, Clean (starNamedItem n) t c
  | 0, _ => Clean.exhausted
  | n + 1, c => by
    rw [starNamedItem.eq_2]
    apply Clean.look_bind
    split
    next star =>
      exact Clean.skip_bind (Token.ne_defn_of_beq star (by decide)) fun c₁ => comparison_clean n c₁
    next => exact namedExpression_clean n c
termination_by structural n => n

theorem targetList_clean : ∀ n c, Clean (targetList n) t c
  | 0, _ => Clean.exhausted
  | n + 1, c => by
    rw [targetList.eq_2]
    apply Clean.look_bind
    extract_lets jp
    have target : ∀ r c₁, Clean (jp r) t c₁ := by
      intro r c₁
      simp only [jp]
      refine Clean.bind (primary_clean n c₁) fun _ c₂ => ?_
      apply Clean.look_bind
      split
      next => exact Clean.pure
      next comma =>
        refine Clean.skip_bind (Token.ne_defn_of_not_bne comma (by decide)) fun c₃ => ?_
        refine Clean.bind startsExpression_clean fun b c₄ => ?_
        split
        next => exact Clean.pure
        next => exact targetList_clean n c₄
    split
    next star => exact Clean.bind (Clean.skip (Token.ne_defn_of_beq star (by decide))) target
    next => exact target () c
termination_by structural n => n

theorem namedExpression_clean : ∀ n c, Clean (namedExpression n) t c
  | 0, _ => Clean.exhausted
  | n + 1, c => by
    rw [namedExpression.eq_2]
    apply Clean.look_bind
    refine Clean.bind (expression_clean n c) fun _ c₁ => ?_
    apply Clean.look_bind
    split
    next walrus =>
      -- the target's text is taken where the walrus stands
      apply Clean.look_bind
      apply Clean.text_bind
      extract_lets jp
      split
      next => exact Clean.fail_bind
      next =>
        simp only [jp]
        exact Clean.skip_bind (Token.ne_defn_of_beq walrus (by decide)) fun c₂ =>
          expression_clean n c₂
    next => exact Clean.pure
termination_by structural n => n

theorem expression_clean : ∀ n c, Clean (expression n) t c
  | 0, _ => Clean.exhausted
  | n + 1, c => by
    rw [expression.eq_2]
    apply Clean.look_bind
    split
    next lambda =>
      refine Clean.skip_bind (Token.ne_defn_of_beq lambda (by decide)) fun c₁ => ?_
      refine Clean.bind (parameters_clean n _ _ c₁) fun _ c₂ => ?_
      exact Clean.bind (expect_clean (by decide)) fun _ c₃ => expression_clean n c₃
    next =>
      refine Clean.bind (disjunction_clean n c) fun _ c₁ => ?_
      apply Clean.look_bind
      split
      next cond =>
        refine Clean.skip_bind (Token.ne_defn_of_beq cond (by decide)) fun c₂ => ?_
        refine Clean.bind (disjunction_clean n c₂) fun _ c₃ => ?_
        exact Clean.bind (expect_clean (by decide)) fun _ c₄ => expression_clean n c₄
      next => exact Clean.pure
termination_by structural n => n

theorem disjunction_clean : ∀ n c, Clean (disjunction n) t c
  | 0, _ => Clean.exhausted
  | n + 1, c => by
    rw [disjunction.eq_2]
    exact Clean.bind (inversion_clean n c) fun _ c₁ => disjunctionRest_clean n c₁
termination_by structural n => n

theorem disjunctionRest_clean : ∀ n c, Clean (disjunctionRest n) t c
  | 0, _ => Clean.exhausted
  | n + 1, c => by
    rw [disjunctionRest.eq_2]
    apply Clean.look_bind
    split
    next op =>
      refine Clean.skip_bind (Token.ne_defn_of_beq_or op (by decide) (by decide)) fun c₁ => ?_
      exact Clean.bind (inversion_clean n c₁) fun _ c₂ => disjunctionRest_clean n c₂
    next => exact Clean.pure
termination_by structural n => n

theorem inversion_clean : ∀ n c, Clean (inversion n) t c
  | 0, _ => Clean.exhausted
  | n + 1, c => by
    rw [inversion.eq_2]
    apply Clean.look_bind
    split
    next negated =>
      exact Clean.skip_bind (Token.ne_defn_of_beq negated (by decide)) fun c₁ => inversion_clean n c₁
    next => exact comparison_clean n c
termination_by structural n => n

theorem comparison_clean : ∀ n c, Clean (comparison n) t c
  | 0, _ => Clean.exhausted
  | n + 1, c => by
    rw [comparison.eq_2]
    exact Clean.bind (factor_clean n c) fun _ c₁ => comparisonRest_clean n c₁
termination_by structural n => n

theorem comparisonRest_clean : ∀ n c, Clean (comparisonRest n) t c
  | 0, _ => Clean.exhausted
  | n + 1, c => by
    rw [comparisonRest.eq_2]
    apply Clean.look_bind
    extract_lets jp
    have operand : ∀ r c₁, Clean (jp r) t c₁ := by
      intro r c₁
      simp only [jp]
      exact Clean.bind (factor_clean n c₁) fun _ c₂ => comparisonRest_clean n c₂
    split
    next op => exact Clean.bind (Clean.skip (Token.ne_defn_of_eq op (by decide))) operand
    next op => exact Clean.bind (Clean.skip (Token.ne_defn_of_eq op (by decide))) operand
    next op => exact Clean.bind (Clean.skip (Token.ne_defn_of_eq op (by decide))) operand
    next op => exact Clean.bind (Clean.skip (Token.ne_defn_of_eq op (by decide))) operand
    next o op =>
      split
      next => exact Clean.pure
      next => exact Clean.bind (Clean.skip (Token.ne_defn_of_eq op Token.noConfusion)) operand
    next is =>
      refine Clean.skip_bind (Token.ne_defn_of_eq is (by decide)) fun c₁ => ?_
      apply Clean.look_bind
      split
      next negated => exact Clean.bind (Clean.skip (Token.ne_defn_of_beq negated (by decide))) operand
      next => exact operand () c₁
    next negated =>
      refine Clean.skip_bind (Token.ne_defn_of_eq negated (by decide)) fun c₁ => ?_
      exact Clean.bind (expect_clean (by decide)) operand
    next => exact Clean.pure
termination_by structural n => n

theorem factor_clean : ∀ n c, Clean (factor n) t c
  | 0, _ => Clean.exhausted
  | n + 1, c => by
    rw [factor.eq_2]
    apply Clean.look_bind
    split
    next unary =>
      exact Clean.skip_bind (Token.ne_defn_of_isUnary unary) fun c₁ => factor_clean n c₁
    next =>
      apply Clean.look_bind
      extract_lets jp
      have operand : ∀ r c₁, Clean (jp r) t c₁ := by
        intro r c₁
        simp only [jp]
        exact primary_clean n c₁
      split
      next await => exact Clean.bind (Clean.skip (Token.ne_defn_of_beq await (by decide))) operand
      next => exact operand () c
termination_by structural n => n

theorem primary_clean : ∀ n c, Clean (primary n) t c
  | 0, _ => Clean.exhausted
  | n + 1, c => by
    rw [primary.eq_2]
    exact Clean.bind (atom_clean n c) fun _ c₁ => primaryRest_clean n c₁
termination_by structural n => n

theorem primaryRest_clean : ∀ n c, Clean (primaryRest n) t c
  | 0, _ => Clean.exhausted
  | n + 1, c => by
    rw [primaryRest.eq_2]
    apply Clean.look_bind
    extract_lets jp
    have rest : ∀ r c₁, Clean (jp r) t c₁ := by
      intro r c₁
      simp only [jp]
      exact primaryRest_clean n c₁
    split
    next dot =>
      refine Clean.skip_bind (Token.ne_defn_of_eq dot (by decide)) fun c₁ => ?_
      exact Clean.bind (Clean.discard expectName_clean) rest
    next call =>
      refine Clean.skip_bind (Token.ne_defn_of_eq call (by decide)) fun c₁ => ?_
      refine Clean.bind (callArguments_clean n c₁) fun _ c₂ => ?_
      exact Clean.bind (expect_clean (by decide)) rest
    next subscripted =>
      refine Clean.skip_bind (Token.ne_defn_of_eq subscripted (by decide)) fun c₁ => ?_
      refine Clean.bind (subscript_clean n c₁) fun _ c₂ => ?_
      exact Clean.bind (expect_clean (by decide)) rest
    next => exact Clean.pure
termination_by structural n => n

theorem atom_clean : ∀ n c, Clean (atom n) t c
  | 0, _ => Clean.exhausted
  | n + 1, c => by
    rw [atom.eq_2]
    apply Clean.look_bind
    split
    next => exact Clean.read_bind (skipWhile_clean rfl _ c)
    next => exact Clean.read_bind (skipWhile_clean rfl _ c)
    next literal => exact Clean.skip (Token.ne_defn_of_eq literal (by decide))
    next literal => exact Clean.skip (Token.ne_defn_of_eq literal (by decide))
    next literal => exact Clean.skip (Token.ne_defn_of_eq literal (by decide))
    next literal => exact Clean.skip (Token.ne_defn_of_eq literal (by decide))
    next literal => exact Clean.skip (Token.ne_defn_of_eq literal (by decide))
    next opening =>
      refine Clean.skip_bind (Token.ne_defn_of_eq opening (by decide)) fun c₁ => ?_
      apply Clean.look_bind
      extract_lets jp
      have close : ∀ r c₂, Clean (jp r) t c₂ := by
        intro r c₂
        simp only [jp]
        exact expect_clean (by decide)
      split
      next => exact close () c₁
      next yield =>
        exact Clean.bind (yieldExpr_clean n c₁ (Token.ne_defn_of_eq yield (by decide))) close
      next => exact Clean.bind (sequenceBody_clean n _ c₁) close
    next opening =>
      refine Clean.skip_bind (Token.ne_defn_of_eq opening (by decide)) fun c₁ => ?_
      apply Clean.look_bind
      extract_lets jp
      have close : ∀ r c₂, Clean (jp r) t c₂ := by
        intro r c₂
        simp only [jp]
        exact expect_clean (by decide)
      split
      next => exact Clean.bind (sequenceBody_clean n _ c₁) close
      next => exact close () c₁
    next opening =>
      refine Clean.skip_bind (Token.ne_defn_of_eq opening (by decide)) fun c₁ => ?_
      apply Clean.look_bind
      extract_lets jp
      have close : ∀ r c₂, Clean (jp r) t c₂ := by
        intro r c₂
        simp only [jp]
        exact expect_clean (by decide)
      split
      next => exact Clean.bind (braceBody_clean n c₁) close
      next => exact close () c₁
    next =>
      split
      next named => exact Clean.skip (Token.ne_defn_of_nameText named)
      next => exact Clean.fail
termination_by structural n => n

theorem sequenceBody_clean : ∀ n close c, Clean (sequenceBody n close) t c
  | 0, _, _ => Clean.exhausted
  | n + 1, close, c => by
    rw [sequenceBody.eq_2]
    refine Clean.bind (starNamedItem_clean n c) fun _ c₁ => ?_
    refine Clean.bind comprehensionFollows_clean fun b c₂ => ?_
    split
    next => exact comprehension_clean n c₂
    next => exact restOfList_clean n close _ c₂
termination_by structural n => n

theorem braceBody_clean : ∀ n c, Clean (braceBody n) t c
  | 0, _ => Clean.exhausted
  | n + 1, c => by
    rw [braceBody.eq_2]
    apply Clean.look_bind
    extract_lets jp
    have items : ∀ isDict c₁, Clean (jp isDict) t c₁ := by
      intro isDict c₁
      simp only [jp]
      refine Clean.bind comprehensionFollows_clean fun b c₂ => ?_
      split
      next => exact comprehension_clean n c₂
      next => exact restOfList_clean n _ _ c₂
    split
    next mapping =>
      refine Clean.skip_bind (Token.ne_defn_of_eq mapping (by decide)) fun c₁ => ?_
      exact Clean.bind (comparison_clean n c₁) fun _ c₂ => Clean.bind Clean.pure items
    next => exact Clean.bind (starNamedItem_clean n c) fun _ c₁ => Clean.bind Clean.pure items
    next =>
      refine Clean.bind (namedExpression_clean n c) fun _ c₁ => ?_
      apply Clean.look_bind
      split
      next colon =>
        refine Clean.skip_bind (Token.ne_defn_of_beq colon (by decide)) fun c₂ => ?_
        exact Clean.bind (expression_clean n c₂) fun _ c₃ => Clean.bind Clean.pure items
      next => exact Clean.bind Clean.pure items
termination_by structural n => n

theorem dictItem_clean : ∀ n c, Clean (dictItem n) t c
  | 0, _ => Clean.exhausted
  | n + 1, c => by
    rw [dictItem.eq_2]
    apply Clean.look_bind
    split
    next mapping =>
      exact Clean.skip_bind (Token.ne_defn_of_beq mapping (by decide)) fun c₁ => comparison_clean n c₁
    next =>
      refine Clean.bind (expression_clean n c) fun _ c₁ => ?_
      exact Clean.bind (expect_clean (by decide)) fun _ c₂ => expression_clean n c₂
termination_by structural n => n

theorem restOfList_clean : ∀ n close item c, Clean (restOfList n close item) t c
  | 0, _, _, _ => Clean.exhausted
  | n + 1, close, item, c => by
    rw [restOfList.eq_2]
    apply Clean.look_bind
    split
    next => exact Clean.pure
    next comma =>
      refine Clean.skip_bind (Token.ne_defn_of_not_bne comma (by decide)) fun c₁ => ?_
      apply Clean.look_bind
      split
      next => exact Clean.pure
      next =>
        extract_lets jp
        have rest : ∀ r c₂, Clean (jp r) t c₂ := by
          intro r c₂
          simp only [jp]
          exact restOfList_clean n close item c₂
        cases item
        · exact Clean.bind (starNamedItem_clean n c₁) rest
        · exact Clean.bind (dictItem_clean n c₁) rest
termination_by structural n => n

theorem comprehension_clean : ∀ n c, Clean (comprehension n) t c
  | 0, _ => Clean.exhausted
  | n + 1, c => by
    rw [comprehension.eq_2]
    refine Clean.bind comprehensionFollows_clean fun b c₁ => ?_
    split
    next => exact Clean.pure
    next =>
      apply Clean.look_bind
      extract_lets jp
      have clause : ∀ r c₂, Clean (jp r) t c₂ := by
        intro r c₂
        simp only [jp]
        refine Clean.bind (expect_clean (by decide)) fun _ c₃ => ?_
        refine Clean.bind (targetList_clean n c₃) fun _ c₄ => ?_
        refine Clean.bind (expect_clean (by decide)) fun _ c₅ => ?_
        refine Clean.bind (disjunction_clean n c₅) fun _ c₆ => ?_
        exact Clean.bind (conditions_clean n c₆) fun _ c₇ => comprehension_clean n c₇
      split
      next async => exact Clean.bind (Clean.skip (Token.ne_defn_of_beq async (by decide))) clause
      next => exact clause () c₁
termination_by structural n => n

theorem conditions_clean : ∀ n c, Clean (conditions n) t c
  | 0, _ => Clean.exhausted
  | n + 1, c => by
    rw [conditions.eq_2]
    apply Clean.look_bind
    split
    next cond =>
      refine Clean.skip_bind (Token.ne_defn_of_beq cond (by decide)) fun c₁ => ?_
      exact Clean.bind (disjunction_clean n c₁) fun _ c₂ => conditions_clean n c₂
    next => exact Clean.pure
termination_by structural n => n

theorem callArguments_clean : ∀ n c, Clean (callArguments n) t c
  | 0, _ => Clean.exhausted
  | n + 1, c => by
    rw [callArguments.eq_2]
    exact callArgumentsFrom_clean n true c
termination_by structural n => n

theorem callArgumentsFrom_clean : ∀ n first c, Clean (callArgumentsFrom n first) t c
  | 0, _, _ => Clean.exhausted
  | n + 1, first, c => by
    rw [callArgumentsFrom.eq_2]
    apply Clean.look_bind
    split
    next => exact Clean.pure
    next =>
      apply Clean.look_bind
      extract_lets jp value
      have more : ∀ r c₁, Clean (jp r) t c₁ := by
        intro r c₁
        simp only [jp]
        apply Clean.look_bind
        split
        next => exact Clean.pure
        next comma =>
          exact Clean.skip_bind (Token.ne_defn_of_not_bne comma (by decide)) fun c₂ =>
            callArgumentsFrom_clean n false c₂
      split
      next star =>
        exact Clean.skip_bind (Token.ne_defn_of_eq star (by decide)) fun c₁ =>
          Clean.bind (expression_clean n c₁) more
      next star =>
        exact Clean.skip_bind (Token.ne_defn_of_eq star (by decide)) fun c₁ =>
          Clean.bind (expression_clean n c₁) more
      next =>
        apply Clean.look_bind
        refine Clean.bind (namedExpression_clean n c) fun _ c₁ => ?_
        apply Clean.look_bind
        split
        next keyword =>
          -- a keyword argument: its name's text is taken where `=` stands
          apply Clean.look_bind
          apply Clean.text_bind
          split
          next => exact Clean.fail_bind
          next =>
            simp only [value]
            exact Clean.skip_bind (Token.ne_defn_of_beq keyword (by decide)) fun c₂ =>
              Clean.bind (expression_clean n c₂) more
        next =>
          refine Clean.bind comprehensionFollows_clean fun b c₂ => ?_
          split
          next => exact Clean.bind (comprehension_clean n c₂) fun _ _ => Clean.pure
          next => exact more () c₂
termination_by structural n => n

theorem subscript_clean : ∀ n c, Clean (subscript n) t c
  | 0, _ => Clean.exhausted
  | n + 1, c => by
    rw [subscript.eq_2]
    refine Clean.bind (sliceItem_clean n c) fun _ c₁ => ?_
    apply Clean.look_bind
    split
    next => exact Clean.pure
    next comma =>
      refine Clean.skip_bind (Token.ne_defn_of_not_bne comma (by decide)) fun c₂ => ?_
      apply Clean.look_bind
      split
      next => exact Clean.pure
      next => exact subscript_clean n c₂
termination_by structural n => n

theorem sliceItem_clean : ∀ n c, Clean (sliceItem n) t c
  | 0, _ => Clean.exhausted
  | n + 1, c => by
    rw [sliceItem.eq_2]
    apply Clean.look_bind
    split
    next star =>
      exact Clean.skip_bind (Token.ne_defn_of_beq star (by decide)) fun c₁ => comparison_clean n c₁
    next =>
      apply Clean.look_bind
      extract_lets jp
      have bounds : ∀ r c₁, Clean (jp r) t c₁ := by
        intro r c₁
        simp only [jp]
        exact Clean.bind (sliceBound_clean n c₁) fun _ c₂ => sliceBound_clean n c₂
      split
      next => exact Clean.bind (namedExpression_clean n c) bounds
      next => exact bounds () c
termination_by structural n => n

theorem sliceBound_clean : ∀ n c, Clean (sliceBound n) t c
  | 0, _ => Clean.exhausted
  | n + 1, c => by
    rw [sliceBound.eq_2]
    apply Clean.look_bind
    split
    next colon =>
      refine Clean.skip_bind (Token.ne_defn_of_beq colon (by decide)) fun c₁ => ?_
      refine Clean.bind startsExpression_clean fun b c₂ => ?_
      split
      next => exact expression_clean n c₂
      next => exact Clean.pure
    next => exact Clean.pure
termination_by structural n => n

/-- `yield` and what follows it, from a `yield` that the caller has seen. -/
theorem yieldExpr_clean : ∀ n c, (t.lexemeAt c.index).token ≠ .keyword .defn →
    Clean (yieldExpr n) t c
  | 0, _, _ => Clean.exhausted
  | n + 1, c, hne => by
    rw [yieldExpr.eq_2]
    refine Clean.skip_bind hne fun c₁ => ?_
    apply Clean.look_bind
    split
    next source =>
      exact Clean.skip_bind (Token.ne_defn_of_beq source (by decide)) fun c₂ => expression_clean n c₂
    next =>
      refine Clean.bind startsExpression_clean fun b c₂ => ?_
      split
      next => exact Clean.discard (starExpressions_clean n c₂)
      next => exact Clean.pure
termination_by structural n => n

theorem parameters_clean : ∀ n close annotated c, Clean (parameters n close annotated) t c
  | 0, _, _, _ => Clean.exhausted
  | n + 1, close, annotated, c => by
    rw [parameters.eq_2]
    apply Clean.look_bind
    split
    next => exact Clean.pure
    next =>
      apply Clean.look_bind
      extract_lets jp
      have more : ∀ r c₁, Clean (jp r) t c₁ := by
        intro r c₁
        simp only [jp]
        apply Clean.look_bind
        split
        next => exact Clean.pure
        next comma =>
          exact Clean.skip_bind (Token.ne_defn_of_not_bne comma (by decide)) fun c₂ =>
            parameters_clean n close annotated c₂
      split
      next slash => exact Clean.bind (Clean.skip (Token.ne_defn_of_eq slash Token.noConfusion)) more
      next star =>
        refine Clean.skip_bind (Token.ne_defn_of_eq star (by decide)) fun c₁ => ?_
        apply Clean.look_bind
        split
        next => exact Clean.bind (parameter_clean n annotated false c₁) more
        next => exact more () c₁
      next star =>
        exact Clean.skip_bind (Token.ne_defn_of_eq star (by decide)) fun c₁ =>
          Clean.bind (parameter_clean n annotated false c₁) more
      next => exact Clean.bind (parameter_clean n annotated true c) more
termination_by structural n => n

theorem parameter_clean : ∀ n annotated default c, Clean (parameter n annotated default) t c
  | 0, _, _, _ => Clean.exhausted
  | n + 1, annotated, default, c => by
    rw [parameter.eq_2]
    refine Clean.bind (Clean.discard expectName_clean) fun _ c₁ => ?_
    apply Clean.look_bind
    extract_lets jp₁ jp₂
    have withDefault : ∀ r c₂, Clean (jp₁ r) t c₂ := by
      intro r c₂
      simp only [jp₁]
      apply Clean.look_bind
      split
      next eq =>
        exact Clean.skip_bind (Token.ne_defn_of_and_beq eq (by decide)) fun c₃ => expression_clean n c₃
      next => exact Clean.pure
    have annotation : ∀ r c₂, Clean (jp₂ r) t c₂ := by
      intro r c₂
      simp only [jp₂]
      exact Clean.bind (expression_clean n c₂) withDefault
    split
    next colon =>
      refine Clean.skip_bind (Token.ne_defn_of_and_beq colon (by decide)) fun c₂ => ?_
      apply Clean.look_bind
      split
      next star => exact Clean.bind (Clean.skip (Token.ne_defn_of_beq star (by decide))) annotation
      next => exact annotation () c₂
    next => exact withDefault () c₁
termination_by structural n => n

theorem typeParamList_clean : ∀ n c, Clean (typeParamList n) t c
  | 0, _ => Clean.exhausted
  | n + 1, c => by
    rw [typeParamList.eq_2]
    apply Clean.look_bind
    extract_lets jp₁ jp₂ jp₃ jp₄
    have more : ∀ r c₁, Clean (jp₁ r) t c₁ := by
      intro r c₁
      simp only [jp₁]
      apply Clean.look_bind
      split
      next => exact Clean.pure
      next comma =>
        refine Clean.skip_bind (Token.ne_defn_of_not_bne comma (by decide)) fun c₂ => ?_
        apply Clean.look_bind
        split
        next => exact Clean.pure
        next => exact typeParamList_clean n c₂
    have bound : ∀ r c₁, Clean (jp₂ r) t c₁ := by
      intro r c₁
      simp only [jp₂]
      exact Clean.bind (expression_clean n c₁) more
    have withDefault : ∀ r c₁, Clean (jp₃ r) t c₁ := by
      intro r c₁
      simp only [jp₃]
      apply Clean.look_bind
      split
      next eq =>
        refine Clean.skip_bind (Token.ne_defn_of_beq eq (by decide)) fun c₂ => ?_
        apply Clean.look_bind
        split
        next star => exact Clean.bind (Clean.skip (Token.ne_defn_of_beq star (by decide))) bound
        next => exact bound () c₂
      next => exact more () c₁
    have param : ∀ r c₁, Clean (jp₄ r) t c₁ := by
      intro r c₁
      simp only [jp₄]
      refine Clean.bind (Clean.discard expectName_clean) fun _ c₂ => ?_
      apply Clean.look_bind
      split
      next colon =>
        exact Clean.skip_bind (Token.ne_defn_of_beq colon (by decide)) fun c₃ =>
          Clean.bind (expression_clean n c₃) withDefault
      next => exact withDefault () c₂
    split
    next star =>
      exact Clean.bind (Clean.skip (Token.ne_defn_of_beq_or star (by decide) (by decide))) param
    next => exact param () c
termination_by structural n => n

theorem withItemList_clean : ∀ n parenthesized c, Clean (withItemList n parenthesized) t c
  | 0, _, _ => Clean.exhausted
  | n + 1, parenthesized, c => by
    rw [withItemList.eq_2]
    refine Clean.bind (expression_clean n c) fun _ c₁ => ?_
    apply Clean.look_bind
    extract_lets jp₁ jp₂
    have more : ∀ r c₂, Clean (jp₁ r) t c₂ := by
      intro r c₂
      simp only [jp₁]
      apply Clean.look_bind
      split
      next => exact Clean.pure
      next comma =>
        refine Clean.skip_bind (Token.ne_defn_of_not_bne comma (by decide)) fun c₃ => ?_
        apply Clean.look_bind
        split
        next => exact Clean.pure
        next => exact withItemList_clean n parenthesized c₃
    have target : ∀ r c₂, Clean (jp₂ r) t c₂ := by
      intro r c₂
      simp only [jp₂]
      exact Clean.bind (primary_clean n c₂) more
    split
    next as =>
      refine Clean.skip_bind (Token.ne_defn_of_beq as (by decide)) fun c₂ => ?_
      apply Clean.look_bind
      split
      next => exact Clean.fail_bind
      next => exact target () c₂
    next => exact more () c₁
termination_by structural n => n

theorem moreExpressions_clean : ∀ n c, Clean (moreExpressions n) t c
  | 0, _ => Clean.exhausted
  | n + 1, c => by
    rw [moreExpressions.eq_2]
    apply Clean.look_bind
    split
    next comma =>
      refine Clean.skip_bind (Token.ne_defn_of_beq comma (by decide)) fun c₁ => ?_
      exact Clean.bind (expression_clean n c₁) fun _ c₂ => moreExpressions_clean n c₂
    next => exact Clean.pure
termination_by structural n => n

end

/-- Type parameters, from a `[` that the caller has seen. -/
theorem typeParams_clean : ∀ n c, (t.lexemeAt c.index).token ≠ .keyword .defn →
    Clean (typeParams n) t c
  | 0, _, _ => Clean.exhausted
  | n + 1, c, hne => by
    rw [typeParams.eq_2]
    refine Clean.skip_bind hne fun c₁ => ?_
    exact Clean.bind (typeParamList_clean n c₁) fun _ c₂ => expect_clean (by decide)

theorem withItems_clean : ∀ n c, Clean (withItems n) t c
  | 0, _ => Clean.exhausted
  | n + 1, c => by
    rw [withItems.eq_2]
    apply Clean.look_bind
    apply Clean.look_bind
    extract_lets parenthesized jp
    have items : ∀ r c₁, Clean (jp r) t c₁ := by
      intro r c₁
      simp only [jp]
      refine Clean.bind (withItemList_clean n _ c₁) fun _ c₂ => ?_
      split
      next => exact expect_clean (by decide)
      next => exact Clean.pure
    split
    next opening =>
      have paren : (t.lexemeAt c.index).token = .lParen := by
        simp only [parenthesized, Bool.and_eq_true, beq_iff_eq] at opening
        exact opening.1
      exact Clean.bind (Clean.skip (Token.ne_defn_of_eq paren (by decide))) items
    next => exact items () c

theorem exceptHeader_clean : ∀ n c, Clean (exceptHeader n) t c
  | 0, _ => Clean.exhausted
  | n + 1, c => by
    rw [exceptHeader.eq_2]
    apply Clean.look_bind
    extract_lets jp
    have header : ∀ r c₁, Clean (jp r) t c₁ := by
      intro r c₁
      simp only [jp]
      refine Clean.bind startsExpression_clean fun b c₂ => ?_
      split
      next => exact Clean.pure
      next =>
        refine Clean.bind (expression_clean n c₂) fun _ c₃ => ?_
        refine Clean.bind (moreExpressions_clean n c₃) fun _ c₄ => ?_
        apply Clean.look_bind
        split
        next as =>
          exact Clean.skip_bind (Token.ne_defn_of_beq as (by decide)) fun c₅ =>
            Clean.discard expectName_clean
        next => exact Clean.pure
    split
    next star => exact Clean.bind (Clean.skip (Token.ne_defn_of_beq star (by decide))) header
    next => exact header () c

/-! ### Simple statements -/

theorem importedNames_clean : ∀ n parens (acc : Array ImportAlias) c,
    Clean (importedNames n parens acc) t c
  | 0, _, _, _ => Clean.exhausted
  | n + 1, parens, acc, c => by
    rw [importedNames.eq_2]
    apply Clean.look_bind
    split
    next => exact Clean.pure
    next =>
      refine Clean.bind expectName_clean fun _ c₁ => Clean.bind asName_clean fun _ c₂ => ?_
      apply Clean.look_bind
      split
      next => exact Clean.pure
      next comma =>
        exact Clean.skip_bind (Token.ne_defn_of_not_bne comma (by decide)) fun c₃ =>
          importedNames_clean n parens _ c₃

theorem importList_clean : ∀ n (acc : Array ImportAlias) c, Clean (importList n acc) t c
  | 0, _, _ => Clean.exhausted
  | n + 1, acc, c => by
    rw [importList.eq_2]
    refine Clean.bind dottedName_clean fun _ c₁ => Clean.bind asName_clean fun _ c₂ => ?_
    apply Clean.look_bind
    split
    next => exact Clean.pure
    next comma =>
      exact Clean.skip_bind (Token.ne_defn_of_not_bne comma (by decide)) fun c₃ =>
        importList_clean n _ c₃

theorem relativeLevel_clean : ∀ n level c, Clean (relativeLevel n level) t c
  | 0, _, _ => Clean.exhausted
  | n + 1, level, c => by
    rw [relativeLevel.eq_2]
    apply Clean.look_bind
    split
    next dot =>
      exact Clean.skip_bind (Token.ne_defn_of_eq dot (by decide)) fun c₁ => relativeLevel_clean n _ c₁
    next dots =>
      exact Clean.skip_bind (Token.ne_defn_of_eq dots (by decide)) fun c₁ => relativeLevel_clean n _ c₁
    next => exact Clean.pure

/-- `import ...`, from the `import` that the caller has seen. -/
theorem importStmt_clean (hne : (t.lexemeAt c.index).token ≠ .keyword .defn) :
    Clean importStmt t c := by
  unfold importStmt
  refine Clean.skip_bind hne fun c₁ => Clean.read_bind ?_
  exact Clean.bind (importList_clean _ _ c₁) fun _ _ => Clean.pure

/-- `from ... import ...`, from the `from` that the caller has seen. -/
theorem fromImportStmt_clean (hne : (t.lexemeAt c.index).token ≠ .keyword .defn) :
    Clean fromImportStmt t c := by
  unfold fromImportStmt
  refine Clean.skip_bind hne fun c₁ => Clean.read_bind ?_
  refine Clean.bind (relativeLevel_clean _ _ c₁) fun level c₂ => ?_
  apply Clean.look_bind
  extract_lets jp
  have names : ∀ module c₃, Clean (jp module) t c₃ := by
    intro module c₃
    simp only [jp]
    split
    next => exact Clean.fail_bind
    next =>
      refine Clean.bind (expect_clean (by decide)) fun _ c₄ => ?_
      apply Clean.look_bind
      split
      next star => exact Clean.skip_bind (Token.ne_defn_of_beq star (by decide)) fun _ => Clean.pure
      next =>
        apply Clean.look_bind
        split
        next opening =>
          refine Clean.skip_bind (Token.ne_defn_of_beq opening (by decide)) fun c₅ => ?_
          exact Clean.bind (importedNames_clean _ _ _ c₅) fun _ c₆ =>
            Clean.bind (expect_clean (by decide)) fun _ _ => Clean.pure
        next => exact Clean.bind (importedNames_clean _ _ _ c₄) fun _ _ => Clean.pure
  split
  next => exact Clean.bind (Clean.map dottedName_clean) names
  next => exact Clean.bind Clean.pure names

theorem assignedValue_clean : ∀ n c, Clean (assignedValue n) t c
  | 0, _ => Clean.exhausted
  | n + 1, c => by
    rw [assignedValue.eq_2]
    apply Clean.look_bind
    split
    next yield =>
      exact Clean.bind (yieldExpr_clean n c (Token.ne_defn_of_beq yield (by decide))) fun _ _ =>
        Clean.pure
    next => exact starExpressions_clean n c

theorem assignChain_clean : ∀ n names c, Clean (assignChain n names) t c
  | 0, _, _ => Clean.exhausted
  | n + 1, names, c => by
    rw [assignChain.eq_2]
    apply Clean.look_bind
    split
    next => exact Clean.pure
    next eq =>
      refine Clean.skip_bind (Token.ne_defn_of_not_bne eq (by decide)) fun c₁ => ?_
      refine Clean.bind (assignedValue_clean n c₁) fun _ c₂ => Clean.read_bind ?_
      exact Clean.look_bind (assignChain_clean n _ c₂)

theorem expressionStmt_clean : ∀ n c, Clean (expressionStmt n) t c
  | 0, _ => Clean.exhausted
  | n + 1, c => by
    rw [expressionStmt.eq_2]
    refine Clean.bind (assignedValue_clean n c) fun first c₁ => ?_
    apply Clean.look_bind
    split
    next => exact Clean.read_bind (assignChain_clean n _ c₁)
    next aug =>
      extract_lets jp
      split
      next => exact Clean.fail_bind
      next =>
        simp only [jp]
        exact Clean.skip_bind (Token.ne_defn_of_eq aug (by decide)) fun c₂ =>
          Clean.bind (Clean.discard (assignedValue_clean n c₂)) fun _ _ => Clean.pure
    next colon =>
      extract_lets jp
      split
      next => exact Clean.fail_bind
      next =>
        simp only [jp]
        refine Clean.skip_bind (Token.ne_defn_of_eq colon (by decide)) fun c₂ => ?_
        refine Clean.bind (expression_clean n c₂) fun _ c₃ => ?_
        apply Clean.look_bind
        split
        next => exact Clean.pure
        next eq =>
          refine Clean.skip_bind (Token.ne_defn_of_not_bne eq (by decide)) fun c₄ => ?_
          exact Clean.bind (Clean.discard (assignedValue_clean n c₄)) fun _ _ =>
            Clean.read_bind Clean.pure
    next => exact Clean.pure

/-- `type Name = value`, from the `type` that the caller has seen. -/
theorem typeAlias_clean : ∀ n c, (t.lexemeAt c.index).token ≠ .keyword .defn →
    Clean (typeAlias n) t c
  | 0, _, _ => Clean.exhausted
  | n + 1, c, hne => by
    rw [typeAlias.eq_2]
    refine Clean.skip_bind hne fun c₁ => ?_
    refine Clean.bind (Clean.discard expectName_clean) fun _ c₂ => ?_
    apply Clean.look_bind
    extract_lets jp
    have value : ∀ r c₃, Clean (jp r) t c₃ := by
      intro r c₃
      simp only [jp]
      exact Clean.bind (expect_clean (by decide)) fun _ c₄ => expression_clean n c₄
    split
    next bracket =>
      exact Clean.bind (typeParams_clean n c₂ (Token.ne_defn_of_beq bracket (by decide))) value
    next => exact value () c₂

theorem nameList_clean : ∀ n c, Clean (nameList n) t c
  | 0, _ => Clean.exhausted
  | n + 1, c => by
    rw [nameList.eq_2]
    refine Clean.bind (Clean.discard expectName_clean) fun _ c₁ => ?_
    apply Clean.look_bind
    split
    next comma =>
      exact Clean.skip_bind (Token.ne_defn_of_beq comma (by decide)) fun c₂ => nameList_clean n c₂
    next => exact Clean.pure

/-- A simple statement passes no `def`: a line that starts with `def` is no simple
statement. -/
theorem simpleStmt_clean : ∀ n c, Clean (simpleStmt n) t c
  | 0, _ => Clean.exhausted
  | n + 1, c => by
    rw [simpleStmt.eq_2]
    apply Clean.look_bind
    apply Clean.look_bind
    extract_lets jp jp₁ jp₂ jp₃
    have finish : ∀ kind c₁, Clean (jp kind) t c₁ := by
      intro kind c₁
      simp only [jp]
      exact Clean.look_bind Clean.pure
    have finish₁ : ∀ r c₁, Clean (jp₁ r) t c₁ := by
      intro r c₁
      simp only [jp₁]
      exact Clean.bind Clean.pure finish
    have finish₂ : ∀ r c₁, Clean (jp₂ r) t c₁ := by
      intro r c₁
      simp only [jp₂]
      exact Clean.bind Clean.pure finish
    have finish₃ : ∀ r c₁, Clean (jp₃ r) t c₁ := by
      intro r c₁
      simp only [jp₃]
      exact Clean.bind Clean.pure finish
    split
    next kw => exact Clean.bind (importStmt_clean (Token.ne_defn_of_eq kw (by decide))) finish
    next kw => exact Clean.bind (fromImportStmt_clean (Token.ne_defn_of_eq kw (by decide))) finish
    next => exact Clean.fail_bind
    next => exact Clean.fail_bind
    next => exact Clean.fail_bind
    next => exact Clean.fail_bind
    next kw =>
      exact Clean.skip_bind (Token.ne_defn_of_eq kw (by decide)) fun _ => Clean.bind Clean.pure finish
    next kw =>
      exact Clean.skip_bind (Token.ne_defn_of_eq kw (by decide)) fun _ => Clean.bind Clean.pure finish
    next kw =>
      exact Clean.skip_bind (Token.ne_defn_of_eq kw (by decide)) fun _ => Clean.bind Clean.pure finish
    next kw =>
      refine Clean.skip_bind (Token.ne_defn_of_eq kw (by decide)) fun c₁ => ?_
      refine Clean.bind startsExpression_clean fun b c₂ => ?_
      split
      next => exact Clean.bind (Clean.discard (starExpressions_clean n c₂)) finish₁
      next => exact finish₁ () c₂
    next kw =>
      refine Clean.skip_bind (Token.ne_defn_of_eq kw (by decide)) fun c₁ => ?_
      refine Clean.bind startsExpression_clean fun b c₂ => ?_
      split
      next =>
        refine Clean.bind (expression_clean n c₂) fun _ c₃ => ?_
        apply Clean.look_bind
        split
        next source =>
          exact Clean.skip_bind (Token.ne_defn_of_beq source (by decide)) fun c₄ =>
            Clean.bind (expression_clean n c₄) finish₂
        next => exact finish₂ () c₃
      next => exact finish₂ () c₂
    next kw =>
      refine Clean.skip_bind (Token.ne_defn_of_eq kw (by decide)) fun c₁ => Clean.read_bind ?_
      exact Clean.bind (nameList_clean _ c₁) fun _ _ => Clean.bind Clean.pure finish
    next kw =>
      refine Clean.skip_bind (Token.ne_defn_of_eq kw (by decide)) fun c₁ => Clean.read_bind ?_
      exact Clean.bind (nameList_clean _ c₁) fun _ _ => Clean.bind Clean.pure finish
    next kw =>
      exact Clean.skip_bind (Token.ne_defn_of_eq kw (by decide)) fun c₁ =>
        Clean.bind (targetList_clean n c₁) fun _ _ => Clean.bind Clean.pure finish
    next kw =>
      refine Clean.skip_bind (Token.ne_defn_of_eq kw (by decide)) fun c₁ => ?_
      refine Clean.bind (expression_clean n c₁) fun _ c₂ => ?_
      apply Clean.look_bind
      split
      next comma =>
        exact Clean.skip_bind (Token.ne_defn_of_beq comma (by decide)) fun c₃ =>
          Clean.bind (expression_clean n c₃) finish₃
      next => exact finish₃ () c₂
    next kw =>
      apply Clean.look_bind
      split
      next =>
        exact Clean.bind (typeAlias_clean n c (Token.ne_defn_of_eq kw (by decide))) fun _ _ =>
          Clean.bind Clean.pure finish
      next => exact Clean.bind (expressionStmt_clean n c) finish
    next =>
      apply Clean.look_bind
      refine Clean.bind (expressionStmt_clean n c) fun _ c₁ => ?_
      exact Clean.look_bind (Clean.bind Clean.pure finish)
    next => exact Clean.bind (expressionStmt_clean n c) finish

theorem simpleLine_clean : ∀ n (acc : Array Stmt) c, Clean (simpleLine n acc) t c
  | 0, _, _ => Clean.exhausted
  | n + 1, acc, c => by
    rw [simpleLine.eq_2]
    refine Clean.bind (simpleStmt_clean n c) fun s c₁ => ?_
    refine Clean.bind eatSemicolon_clean fun more c₂ => ?_
    split
    next => exact simpleLine_clean n _ c₂
    next => exact Clean.bind endLine_clean fun _ _ => Clean.pure

/-- The decorators of a definition pass no `def`. -/
theorem decoratorList_clean : ∀ n (acc : Array Decorator) c, Clean (decoratorList n acc) t c
  | 0, _, _ => Clean.exhausted
  | n + 1, acc, c => by
    rw [decoratorList.eq_2]
    apply Clean.look_bind
    split
    next => exact Clean.pure
    next sign =>
      have hne := Token.ne_defn_of_not_bne sign (by decide)
      refine Clean.bind (fun l c' h => ?_) fun _ c₁ => Clean.look_bind ?_
      · obtain ⟨-, rfl, -⟩ := h.bump
        exact Tape.DefFree.cons hne (Tape.DefFree.refl t _)
      refine Clean.bind (namedExpression_clean n c₁) fun _ c₂ => Clean.look_bind ?_
      refine Clean.bind endLine_clean fun _ c₃ => Clean.look_bind (Clean.read_bind ?_)
      exact Clean.bind skipNewlines_clean fun _ c₄ => decoratorList_clean n _ c₄

end Grammar

end PyTune
