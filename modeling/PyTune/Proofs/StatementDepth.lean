import PyTune.Proofs.ExpressionDepth
import PyTune.Proofs.Binding
import PyTune.Proofs.LexemeCount

/-!
# Reading never runs out of depth: statements

The statement rules' weights continue those of the expressions, and a rule that calls itself
again does so only after consuming a lexeme (`stmtLine_moves`, `clause_moves`). Main statement:
`Module.parse_within_depth`.
-/

namespace PyTune

namespace Grammar

variable {α β : Type} {t : Tape} {c c' : Cursor} {w n fuel : Nat}

/-! ### Lines and names -/

namespace Bounded

theorem skipNewlines : Bounded Grammar.skipNewlines t c := by
  unfold Grammar.skipNewlines
  exact read_bind (skipWhile _ c)

theorem eatSemicolon : Bounded Grammar.eatSemicolon t c := by
  unfold Grammar.eatSemicolon
  refine look_bind ?_
  split
  · exact pure
  · exact skip_bind (look_bind (by split <;> exact pure))

theorem endLine : Bounded Grammar.endLine t c := by
  unfold Grammar.endLine
  refine look_bind ?_
  split
  · exact skip
  · exact pure
  · exact pure
  · exact fail (by decide)

theorem asName : Bounded Grammar.asName t c := by
  unfold Grammar.asName
  refine look_bind ?_
  split
  · exact skip_bind (bind expectName fun _ _ _ => pure)
  · exact pure

end Bounded

/-- `eatSemicolon` tells that a statement follows only past the semicolon it consumes. -/
theorem Reads.eatSemicolon_more (h : eatSemicolon.Reads t c true c') :
    (t.lexemeAt c.index).token = .semicolon ∧ c' = c.past (t.lexemeAt c.index) := by
  unfold eatSemicolon at h
  have h := h.look_bind
  split at h
  · exact absurd h.pure.1 (by decide)
  · next semicolon =>
    obtain ⟨_, c₁, hs, h⟩ := h.bind
    obtain ⟨rfl, -⟩ := hs.skip
    have h := h.look_bind
    have stays : c' = c.past (t.lexemeAt c.index) := by
      split at h <;> exact h.pure.2
    simp only [bne_iff_ne, ne_eq, Decidable.not_not] at semicolon
    exact ⟨semicolon, stays⟩

/-- Past a name, fewer lexemes are ahead than the tape holds. -/
theorem Reads.name_ahead {e : Expectation} {u : Unit}
    (h : (Functor.discard (Grammar.expectName e)).Reads t c u c') : t.ahead c' < t.lexemes.size := by
  rw [discard_eq] at h
  obtain ⟨s, c₁, hn, hp⟩ := h.bind
  obtain ⟨-, rfl⟩ := hp.pure
  obtain ⟨named, rfl⟩ := hn.expectName
  exact Tape.ahead_past_lt_size (Token.ne_eof_of_nameText (by rw [named]; rfl))

/-! ### Loops over the lexemes ahead

These loops take the size of the tape as their bound, and consume a lexeme on each round. -/

theorem dottedTail_bounded : ∀ fuel c, t.ahead c < fuel → Bounded (dottedTail fuel) t c
  | 0, _, hf => absurd hf (Nat.not_lt_zero _)
  | fuel + 1, c, hf => by
    rw [dottedTail.eq_2]
    apply Bounded.look_bind
    split
    next dot =>
      refine Bounded.skip_ahead hf (Token.ne_of_beq dot (by decide)) fun c₁ h₁ => ?_
      exact Bounded.bind_ahead (Bounded.discard Bounded.expectName) h₁ fun _ c₂ h₂ =>
        dottedTail_bounded fuel c₂ h₂
    next => exact Bounded.pure

theorem dottedName_bounded : Bounded dottedName t c := by
  unfold dottedName
  apply Bounded.look_bind
  refine Bounded.bind (Bounded.discard Bounded.expectName) fun _ c₁ r₁ => Bounded.read_bind ?_
  refine Bounded.bind (dottedTail_bounded _ c₁ r₁.name_ahead) fun _ c₂ _ => ?_
  exact Bounded.look_bind (Bounded.text_bind Bounded.pure)

theorem importedNames_bounded : ∀ fuel parens (acc : Array ImportAlias) c, t.ahead c < fuel →
    Bounded (importedNames fuel parens acc) t c
  | 0, _, _, _, hf => absurd hf (Nat.not_lt_zero _)
  | fuel + 1, parens, acc, c, hf => by
    rw [importedNames.eq_2]
    apply Bounded.look_bind
    split
    next => exact Bounded.pure
    next =>
      refine Bounded.bind_ahead Bounded.expectName hf fun _ c₁ h₁ =>
        Bounded.bind_ahead Bounded.asName h₁ fun _ c₂ h₂ => ?_
      apply Bounded.look_bind
      split
      next => exact Bounded.pure
      next comma =>
        exact Bounded.skip_ahead h₂ (Token.ne_of_not_bne comma (by decide)) fun c₃ h₃ =>
          importedNames_bounded fuel parens _ c₃ h₃

theorem importList_bounded : ∀ fuel (acc : Array ImportAlias) c, t.ahead c < fuel →
    Bounded (importList fuel acc) t c
  | 0, _, _, hf => absurd hf (Nat.not_lt_zero _)
  | fuel + 1, acc, c, hf => by
    rw [importList.eq_2]
    refine Bounded.bind_ahead dottedName_bounded hf fun _ c₁ h₁ =>
      Bounded.bind_ahead Bounded.asName h₁ fun _ c₂ h₂ => ?_
    apply Bounded.look_bind
    split
    next => exact Bounded.pure
    next comma =>
      exact Bounded.skip_ahead h₂ (Token.ne_of_not_bne comma (by decide)) fun c₃ h₃ =>
        importList_bounded fuel _ c₃ h₃

theorem relativeLevel_bounded : ∀ fuel level c, t.ahead c < fuel →
    Bounded (relativeLevel fuel level) t c
  | 0, _, _, hf => absurd hf (Nat.not_lt_zero _)
  | fuel + 1, level, c, hf => by
    rw [relativeLevel.eq_2]
    apply Bounded.look_bind
    split
    next dot =>
      exact Bounded.skip_ahead hf (Token.ne_of_eq dot (by decide)) fun c₁ h₁ =>
        relativeLevel_bounded fuel _ c₁ h₁
    next dots =>
      exact Bounded.skip_ahead hf (Token.ne_of_eq dots (by decide)) fun c₁ h₁ =>
        relativeLevel_bounded fuel _ c₁ h₁
    next => exact Bounded.pure

theorem nameList_bounded : ∀ fuel c, t.ahead c < fuel → Bounded (nameList fuel) t c
  | 0, _, hf => absurd hf (Nat.not_lt_zero _)
  | fuel + 1, c, hf => by
    rw [nameList.eq_2]
    refine Bounded.bind_ahead (Bounded.discard Bounded.expectName) hf fun _ c₁ h₁ => ?_
    apply Bounded.look_bind
    split
    next comma =>
      exact Bounded.skip_ahead h₁ (Token.ne_of_beq comma (by decide)) fun c₂ h₂ =>
        nameList_bounded fuel c₂ h₂
    next => exact Bounded.pure

/-- A `case` pattern is skipped lexeme by lexeme up to its colon, and stops at the end of its
line. -/
theorem skipPattern_bounded : ∀ fuel depth lambdas c, t.ahead c < fuel →
    Bounded (skipPattern fuel depth lambdas) t c
  | 0, _, _, _, hf => absurd hf (Nat.not_lt_zero _)
  | fuel + 1, depth, lambdas, c, hf => by
    rw [skipPattern.eq_2]
    apply Bounded.look_bind
    split
    next => exact Bounded.pure
    next =>
      extract_lets jp
      split
      next => exact Bounded.fail_bind fun h => by cases h
      next => exact Bounded.fail_bind fun h => by cases h
      next => exact Bounded.fail_bind fun h => by cases h
      next => exact Bounded.fail_bind fun h => by cases h
      next _ _ _ eof _ =>
        simp only [jp]
        split <;> exact Bounded.skip_ahead hf eof fun c₁ h₁ => skipPattern_bounded fuel _ _ c₁ h₁

/-! ### Simple statements -/

/-- `import ...`, from the `import` that the caller has seen. -/
theorem importStmt_bounded (he : (t.lexemeAt c.index).token ≠ .eof) : Bounded importStmt t c := by
  unfold importStmt
  refine Bounded.skip_bind (Bounded.read_bind ?_)
  exact Bounded.bind (importList_bounded _ _ _ (Tape.ahead_past_lt_size he)) fun _ _ _ =>
    Bounded.pure

/-- `from ... import ...`, from the `from` that the caller has seen. -/
theorem fromImportStmt_bounded (he : (t.lexemeAt c.index).token ≠ .eof) :
    Bounded fromImportStmt t c := by
  unfold fromImportStmt
  refine Bounded.skip_bind (Bounded.read_bind ?_)
  have h₁ := Tape.ahead_past_lt_size (l := t.lexemeAt c.index) he
  refine Bounded.bind_ahead (relativeLevel_bounded _ _ _ h₁) h₁ fun level c₂ h₂ => ?_
  apply Bounded.look_bind
  extract_lets jp
  have names : ∀ module c₃, t.ahead c₃ < t.lexemes.size → Bounded (jp module) t c₃ := by
    intro module c₃ h₃
    simp only [jp]
    split
    next => exact Bounded.fail_bind (by decide)
    next =>
      refine Bounded.bind_ahead Bounded.expect h₃ fun _ c₄ h₄ => ?_
      apply Bounded.look_bind
      split
      next => exact Bounded.skip_bind Bounded.pure
      next =>
        apply Bounded.look_bind
        split
        next =>
          refine Bounded.bind_ahead Bounded.skip h₄ fun _ c₅ h₅ => ?_
          exact Bounded.bind (importedNames_bounded _ _ _ c₅ h₅) fun _ _ _ =>
            Bounded.bind Bounded.expect fun _ _ _ => Bounded.pure
        next => exact Bounded.bind (importedNames_bounded _ _ _ c₄ h₄) fun _ _ _ => Bounded.pure
  split
  next => exact Bounded.bind_ahead (Bounded.map dottedName_bounded) h₂ names
  next => exact Bounded.bind_ahead Bounded.pure h₂ names

theorem assignedValue_bounded (n : Nat) (hf : t.fuelFor 10 c ≤ n) :
    Bounded (assignedValue n) t c := by
  cases n with
  | zero => exact absurd hf (Tape.not_fuelFor_le_zero (by decide))
  | succ n =>
    rw [assignedValue.eq_2]
    apply Bounded.look_bind
    split
    next yield =>
      exact Bounded.bind (yieldExpr_bounded n c (Token.ne_of_beq yield (by decide))
        (Tape.fuel_down hf (by decide))) fun _ _ _ => Bounded.pure
    next => exact starExpressions_bounded n c (Tape.fuel_down hf (by decide))

theorem assignChain_bounded : ∀ n names c, t.fuelFor 1 c ≤ n → Bounded (assignChain n names) t c
  | 0, _, _, hf => absurd hf (Tape.not_fuelFor_le_zero (by decide))
  | n + 1, names, c, hf => by
    rw [assignChain.eq_2]
    apply Bounded.look_bind
    split
    next => exact Bounded.pure
    next eq =>
      refine Bounded.skip_fuel hf (Token.ne_of_not_bne eq (by decide)) fun c₁ h₁ => ?_
      refine Bounded.bind_fuel (assignedValue_bounded n (Tape.fuel_le h₁ (by decide))) h₁
        fun _ c₂ h₂ => Bounded.read_bind ?_
      exact Bounded.look_bind (assignChain_bounded n _ c₂ (Tape.fuel_le h₂ (by decide)))

theorem expressionStmt_bounded (n : Nat) (hf : t.fuelFor 11 c ≤ n) :
    Bounded (expressionStmt n) t c := by
  cases n with
  | zero => exact absurd hf (Tape.not_fuelFor_le_zero (by decide))
  | succ n =>
    rw [expressionStmt.eq_2]
    refine Bounded.bind_fuel (assignedValue_bounded n (Tape.fuel_down hf (by decide))) hf
      fun first c₁ h₁ => ?_
    apply Bounded.look_bind
    split
    next => exact Bounded.read_bind (assignChain_bounded n _ c₁ (Tape.fuel_down h₁ (by decide)))
    next aug =>
      extract_lets jp
      split
      next => exact Bounded.fail_bind (by decide)
      next =>
        simp only [jp]
        exact Bounded.skip_fuel h₁ (Token.ne_of_eq aug (by decide)) fun c₂ h₂ =>
          Bounded.bind (Bounded.discard (assignedValue_bounded n (Tape.fuel_le h₂ (by decide))))
            fun _ _ _ => Bounded.pure
    next colon =>
      extract_lets jp
      split
      next => exact Bounded.fail_bind (by decide)
      next =>
        simp only [jp]
        refine Bounded.skip_fuel h₁ (Token.ne_of_eq colon (by decide)) fun c₂ h₂ => ?_
        refine Bounded.bind_fuel (expression_bounded n c₂ (Tape.fuel_le h₂ (by decide))) h₂
          fun _ c₃ h₃ => ?_
        apply Bounded.look_bind
        split
        next => exact Bounded.pure
        next =>
          exact Bounded.bind_fuel Bounded.skip h₃ fun _ c₄ h₄ =>
            Bounded.bind (Bounded.discard (assignedValue_bounded n (Tape.fuel_le h₄ (by decide))))
              fun _ _ _ => Bounded.read_bind Bounded.pure
    next => exact Bounded.pure

/-- `type Name = value`, from the `type` that the caller has seen. -/
theorem typeAlias_bounded (n : Nat) (he : (t.lexemeAt c.index).token ≠ .eof)
    (hf : t.fuelFor 1 c ≤ n) : Bounded (typeAlias n) t c := by
  cases n with
  | zero => exact absurd hf (Tape.not_fuelFor_le_zero (by decide))
  | succ n =>
    rw [typeAlias.eq_2]
    refine Bounded.skip_fuel hf he fun c₁ h₁ => ?_
    refine Bounded.bind_fuel (Bounded.discard Bounded.expectName) h₁ fun _ c₂ h₂ => ?_
    apply Bounded.look_bind
    extract_lets jp
    have value : ∀ r c₃, t.fuelFor 32 c₃ ≤ n → Bounded (jp r) t c₃ := by
      intro r c₃ h₃
      simp only [jp]
      exact Bounded.bind_fuel Bounded.expect h₃ fun _ c₄ h₄ =>
        expression_bounded n c₄ (Tape.fuel_le h₄ (by decide))
    split
    next bracket =>
      exact Bounded.bind_fuel (typeParams_bounded n (Token.ne_of_beq bracket (by decide))
        (Tape.fuel_le h₂ (by decide))) h₂ value
    next => exact value () c₂ h₂

theorem simpleStmt_bounded (n : Nat) (hf : t.fuelFor 12 c ≤ n) : Bounded (simpleStmt n) t c := by
  cases n with
  | zero => exact absurd hf (Tape.not_fuelFor_le_zero (by decide))
  | succ n =>
    rw [simpleStmt.eq_2]
    apply Bounded.look_bind
    apply Bounded.look_bind
    extract_lets jp jp₁ jp₂ jp₃
    have finish : ∀ kind c₁, Bounded (jp kind) t c₁ := by
      intro kind c₁
      simp only [jp]
      exact Bounded.look_bind Bounded.pure
    have finish₁ : ∀ r c₁, Bounded (jp₁ r) t c₁ := by
      intro r c₁
      simp only [jp₁]
      exact Bounded.bind Bounded.pure fun kind c₂ _ => finish kind c₂
    have finish₂ : ∀ r c₁, Bounded (jp₂ r) t c₁ := by
      intro r c₁
      simp only [jp₂]
      exact Bounded.bind Bounded.pure fun kind c₂ _ => finish kind c₂
    have finish₃ : ∀ r c₁, Bounded (jp₃ r) t c₁ := by
      intro r c₁
      simp only [jp₃]
      exact Bounded.bind Bounded.pure fun kind c₂ _ => finish kind c₂
    split
    next kw =>
      exact Bounded.bind (importStmt_bounded (Token.ne_of_eq kw (by decide))) fun kind c₁ _ =>
        finish kind c₁
    next kw =>
      exact Bounded.bind (fromImportStmt_bounded (Token.ne_of_eq kw (by decide))) fun kind c₁ _ =>
        finish kind c₁
    next => exact Bounded.fail_bind (by decide)
    next => exact Bounded.fail_bind (by decide)
    next => exact Bounded.fail_bind (by decide)
    next => exact Bounded.fail_bind (by decide)
    next => exact Bounded.skip_bind (Bounded.bind Bounded.pure fun kind c₁ _ => finish kind c₁)
    next => exact Bounded.skip_bind (Bounded.bind Bounded.pure fun kind c₁ _ => finish kind c₁)
    next => exact Bounded.skip_bind (Bounded.bind Bounded.pure fun kind c₁ _ => finish kind c₁)
    next kw =>
      refine Bounded.skip_fuel hf (Token.ne_of_eq kw (by decide)) fun c₁ h₁ => ?_
      refine Bounded.bind_fuel Bounded.startsExpression h₁ fun b c₂ h₂ => ?_
      split
      next =>
        exact Bounded.bind (Bounded.discard (starExpressions_bounded n c₂
          (Tape.fuel_le h₂ (by decide)))) fun r c₃ _ => finish₁ r c₃
      next => exact finish₁ () c₂
    next kw =>
      refine Bounded.skip_fuel hf (Token.ne_of_eq kw (by decide)) fun c₁ h₁ => ?_
      refine Bounded.bind_fuel Bounded.startsExpression h₁ fun b c₂ h₂ => ?_
      split
      next =>
        refine Bounded.bind_fuel (expression_bounded n c₂ (Tape.fuel_le h₂ (by decide))) h₂
          fun _ c₃ h₃ => ?_
        apply Bounded.look_bind
        split
        next =>
          exact Bounded.bind_fuel Bounded.skip h₃ fun _ c₄ h₄ =>
            Bounded.bind (expression_bounded n c₄ (Tape.fuel_le h₄ (by decide))) fun r c₅ _ =>
              finish₂ r c₅
        next => exact finish₂ () c₃
      next => exact finish₂ () c₂
    next kw =>
      refine Bounded.skip_bind (Bounded.read_bind ?_)
      exact Bounded.bind (nameList_bounded _ _ (Tape.ahead_past_lt_size
        (Token.ne_of_eq kw (by decide)))) fun _ _ _ =>
          Bounded.bind Bounded.pure fun kind c₁ _ => finish kind c₁
    next kw =>
      refine Bounded.skip_bind (Bounded.read_bind ?_)
      exact Bounded.bind (nameList_bounded _ _ (Tape.ahead_past_lt_size
        (Token.ne_of_eq kw (by decide)))) fun _ _ _ =>
          Bounded.bind Bounded.pure fun kind c₁ _ => finish kind c₁
    next kw =>
      exact Bounded.skip_fuel hf (Token.ne_of_eq kw (by decide)) fun c₁ h₁ =>
        Bounded.bind (targetList_bounded n c₁ (Tape.fuel_le h₁ (by decide))) fun _ _ _ =>
          Bounded.bind Bounded.pure fun kind c₂ _ => finish kind c₂
    next kw =>
      refine Bounded.skip_fuel hf (Token.ne_of_eq kw (by decide)) fun c₁ h₁ => ?_
      refine Bounded.bind_fuel (expression_bounded n c₁ (Tape.fuel_le h₁ (by decide))) h₁
        fun _ c₂ h₂ => ?_
      apply Bounded.look_bind
      split
      next =>
        exact Bounded.bind_fuel Bounded.skip h₂ fun _ c₃ h₃ =>
          Bounded.bind (expression_bounded n c₃ (Tape.fuel_le h₃ (by decide))) fun r c₄ _ =>
            finish₃ r c₄
      next => exact finish₃ () c₂
    next kw =>
      apply Bounded.look_bind
      split
      next =>
        exact Bounded.bind (typeAlias_bounded n (Token.ne_of_eq kw (by decide))
          (Tape.fuel_down hf (by decide))) fun _ _ _ =>
            Bounded.bind Bounded.pure fun kind c₁ _ => finish kind c₁
      next =>
        exact Bounded.bind (expressionStmt_bounded n (Tape.fuel_down hf (by decide)))
          fun kind c₁ _ => finish kind c₁
    next =>
      apply Bounded.look_bind
      refine Bounded.bind (expressionStmt_bounded n (Tape.fuel_down hf (by decide)))
        fun _ c₁ _ => ?_
      exact Bounded.look_bind (Bounded.bind Bounded.pure fun kind c₂ _ => finish kind c₂)
    next =>
      exact Bounded.bind (expressionStmt_bounded n (Tape.fuel_down hf (by decide)))
        fun kind c₁ _ => finish kind c₁

/-- Simple statements up to the end of their line: another statement follows only past a
semicolon. -/
theorem simpleLine_bounded : ∀ n (acc : Array Stmt) c, t.fuelFor 13 c ≤ n →
    Bounded (simpleLine n acc) t c
  | 0, _, _, hf => absurd hf (Tape.not_fuelFor_le_zero (by decide))
  | n + 1, acc, c, hf => by
    rw [simpleLine.eq_2]
    refine Bounded.bind_fuel (simpleStmt_bounded n (Tape.fuel_down hf (by decide))) hf
      fun s c₁ h₁ => ?_
    refine Bounded.bind Bounded.eatSemicolon fun more c₂ r₂ => ?_
    split
    next holds =>
      subst holds
      obtain ⟨semicolon, rfl⟩ := r₂.eatSemicolon_more
      exact simpleLine_bounded n _ _ (Tape.fuel_past h₁ (by decide) (Nat.le_refl _)
        (Token.ne_of_eq semicolon (by decide)) (Nat.lt_succ_self _))
    next => exact Bounded.bind Bounded.endLine fun _ _ _ => Bounded.pure


/-- Every reading of `g` from `c` consumes a lexeme. -/
def Moves (g : Grammar α) (t : Tape) (c : Cursor) : Prop :=
  ∀ a c', g.Reads t c a c' → c.index < c'.index

namespace Moves

theorem of_not_reads {g : Grammar α} (h : ∀ {a c'}, ¬ g.Reads t c a c') : Moves g t c :=
  fun _ _ hr => absurd hr h

theorem fail {f : GrammarFault} : Moves (Grammar.fail f : Grammar α) t c :=
  of_not_reads Reads.not_fail

theorem exhausted : Moves (Grammar.exhausted : Grammar α) t c :=
  of_not_reads Reads.not_fail

theorem skip_bind {k : Unit → Grammar α} : Moves (Grammar.skip >>= k) t c := by
  intro a c' h
  obtain ⟨_, c₁, hs, hk⟩ := h.bind
  obtain ⟨rfl, -⟩ := hs.skip
  exact Nat.lt_of_lt_of_le (Nat.lt_succ_self _) hk.advance.index_le

theorem skip : Moves Grammar.skip t c := by
  intro a c' h
  obtain ⟨rfl, -⟩ := h.skip
  exact Nat.lt_succ_self _

theorem bump_bind {k : Lexeme → Grammar α} : Moves (Grammar.bump >>= k) t c := by
  intro a c' h
  obtain ⟨_, c₁, hb, hk⟩ := h.bind
  obtain ⟨-, rfl, -⟩ := hb.bump
  exact Nat.lt_of_lt_of_le (Nat.lt_succ_self _) hk.advance.index_le

/-- A reading whose first part consumes a lexeme. -/
theorem bind {x : Grammar α} {k : α → Grammar β} (hx : Moves x t c) : Moves (x >>= k) t c := by
  intro b c' h
  obtain ⟨a, c₁, hr, hk⟩ := h.bind
  exact Nat.lt_of_lt_of_le (hx a c₁ hr) hk.advance.index_le

theorem look_bind {f : Tape → Cursor → α} {k : α → Grammar β} (h : Moves (k (f t c)) t c) :
    Moves (Grammar.look f >>= k) t c :=
  fun _ _ hr => h _ _ hr.look_bind

theorem read_bind {k : Tape → Grammar β} (h : Moves (k t) t c) : Moves (read >>= k) t c :=
  look_bind h

end Moves

/-! ### Every logical line consumes a lexeme -/

theorem atom_moves (n : Nat) : Moves (atom n) t c := by
  cases n with
  | zero => exact Moves.exhausted
  | succ n =>
    rw [atom.eq_2]
    refine Moves.look_bind ?_
    have strings : ∀ p : Token → Bool, p (t.lexemeAt c.index).token = true →
        (t.lexemeAt c.index).token ≠ .eof → Moves (skipWhile p t.lexemes.size) t c := by
      intro p hp he
      obtain ⟨size, eq⟩ := Nat.exists_eq_add_of_lt (Tape.lexemeAt_lt_size he)
      rw [eq, skipWhile.eq_2]
      refine Moves.look_bind ?_
      simp only [hp, if_true]
      exact Moves.skip_bind
    split
    next raw heq =>
      exact Moves.read_bind (strings _ (by rw [heq]; rfl) (by rw [heq]; exact Token.noConfusion))
    next raw heq =>
      exact Moves.read_bind (strings _ (by rw [heq]; rfl) (by rw [heq]; exact Token.noConfusion))
    all_goals first
      | exact Moves.skip
      | exact Moves.skip_bind
      | skip
    split
    · exact Moves.skip
    · exact Moves.fail

theorem primary_moves (n : Nat) : Moves (primary n) t c := by
  cases n with
  | zero => exact Moves.exhausted
  | succ n =>
    rw [primary.eq_2]
    exact Moves.bind (atom_moves n)

theorem factor_moves (n : Nat) : Moves (factor n) t c := by
  cases n with
  | zero => exact Moves.exhausted
  | succ n =>
    rw [factor.eq_2]
    refine Moves.look_bind ?_
    split
    · exact Moves.skip_bind
    · refine Moves.look_bind ?_
      split
      · exact Moves.skip_bind
      · exact primary_moves n

theorem comparison_moves (n : Nat) : Moves (comparison n) t c := by
  cases n with
  | zero => exact Moves.exhausted
  | succ n =>
    rw [comparison.eq_2]
    exact Moves.bind (factor_moves n)

theorem inversion_moves (n : Nat) : Moves (inversion n) t c := by
  cases n with
  | zero => exact Moves.exhausted
  | succ n =>
    rw [inversion.eq_2]
    refine Moves.look_bind ?_
    split
    · exact Moves.skip_bind
    · exact comparison_moves n

theorem disjunction_moves (n : Nat) : Moves (disjunction n) t c := by
  cases n with
  | zero => exact Moves.exhausted
  | succ n =>
    rw [disjunction.eq_2]
    exact Moves.bind (inversion_moves n)

theorem expression_moves (n : Nat) : Moves (expression n) t c := by
  cases n with
  | zero => exact Moves.exhausted
  | succ n =>
    rw [expression.eq_2]
    refine Moves.look_bind ?_
    split
    · exact Moves.skip_bind
    · exact Moves.bind (disjunction_moves n)

theorem starExpressions_moves (n : Nat) : Moves (starExpressions n) t c := by
  cases n with
  | zero => exact Moves.exhausted
  | succ n =>
    rw [starExpressions.eq_2]
    cases n with
    | zero => exact Moves.exhausted
    | succ n =>
      rw [starExpressionsFrom.eq_2]
      refine Moves.look_bind (Moves.look_bind ?_)
      split
      · exact Moves.skip_bind
      · exact Moves.bind (expression_moves n)

theorem yieldExpr_moves (n : Nat) : Moves (yieldExpr n) t c := by
  cases n with
  | zero => exact Moves.exhausted
  | succ n =>
    rw [yieldExpr.eq_2]
    exact Moves.skip_bind

theorem assignedValue_moves (n : Nat) : Moves (assignedValue n) t c := by
  cases n with
  | zero => exact Moves.exhausted
  | succ n =>
    rw [assignedValue.eq_2]
    refine Moves.look_bind ?_
    split
    · exact Moves.bind (yieldExpr_moves n)
    · exact starExpressions_moves n

theorem expressionStmt_moves (n : Nat) : Moves (expressionStmt n) t c := by
  cases n with
  | zero => exact Moves.exhausted
  | succ n =>
    rw [expressionStmt.eq_2]
    exact Moves.bind (assignedValue_moves n)

theorem simpleStmt_moves (n : Nat) : Moves (simpleStmt n) t c := by
  cases n with
  | zero => exact Moves.exhausted
  | succ n =>
    rw [simpleStmt.eq_2]
    refine Moves.look_bind (Moves.look_bind ?_)
    dsimp only
    -- every kind of simple statement consumes its first lexeme, or fails
    split
    all_goals first
      | exact Moves.bind (by rw [importStmt.eq_1]; exact Moves.skip_bind)
      | exact Moves.bind (by rw [fromImportStmt.eq_1]; exact Moves.skip_bind)
      | exact Moves.bind Moves.fail
      | exact Moves.skip_bind
      | exact Moves.bind (expressionStmt_moves n)
      | exact Moves.look_bind (Moves.bind (expressionStmt_moves n))
      | skip
    refine Moves.look_bind ?_
    split
    · cases n with
      | zero => exact Moves.bind Moves.exhausted
      | succ n =>
        rw [typeAlias.eq_2]
        exact Moves.bind Moves.skip_bind
    · exact Moves.bind (expressionStmt_moves n)

theorem simpleLine_moves (n : Nat) (acc : Array Stmt) : Moves (simpleLine n acc) t c := by
  cases n with
  | zero => exact Moves.exhausted
  | succ n =>
    rw [simpleLine.eq_2]
    exact Moves.bind (simpleStmt_moves n)

theorem functionDef_moves (n start : Nat) (ds : List Decorator) :
    Moves (functionDef n start ds) t c := by
  cases n with
  | zero => rw [functionDef.eq_1]; exact Moves.exhausted
  | succ n =>
    rw [functionDef.eq_2]
    exact Moves.skip_bind

theorem classDef_moves (n start : Nat) (ds : List Decorator) : Moves (classDef n start ds) t c := by
  cases n with
  | zero => rw [classDef.eq_1]; exact Moves.exhausted
  | succ n =>
    rw [classDef.eq_2]
    exact Moves.skip_bind

/-- A clause consumes its keyword. -/
theorem clause_moves (n : Nat) : Moves (clause n) t c := by
  cases n with
  | zero => rw [clause.eq_1]; exact Moves.exhausted
  | succ n =>
    rw [clause.eq_2]
    exact Moves.bump_bind

theorem compound_moves (n start : Nat) : Moves (compound n start) t c := by
  cases n with
  | zero => rw [compound.eq_1]; exact Moves.exhausted
  | succ n =>
    rw [compound.eq_2]
    exact Moves.bind (clause_moves n)

theorem softBlock_moves (n start : Nat) : Moves (softBlock n start) t c := by
  cases n with
  | zero => rw [softBlock.eq_1]; exact Moves.exhausted
  | succ n =>
    rw [softBlock.eq_2]
    exact Moves.bump_bind

theorem decorated_moves (hs : (t.lexemeAt c.index).token = .atSign) (n start : Nat) :
    Moves (decorated n start) t c := by
  cases n with
  | zero => rw [decorated.eq_1]; exact Moves.exhausted
  | succ n =>
    rw [decorated.eq_2]
    refine Moves.bind ?_
    cases n with
    | zero => rw [decoratorList.eq_1]; exact Moves.exhausted
    | succ n =>
      rw [decoratorList.eq_2]
      refine Moves.look_bind ?_
      rw [hs, if_neg (by decide)]
      exact Moves.bump_bind

/-- Every logical line consumes its first lexeme. -/
theorem stmtLine_moves (n : Nat) (acc : Array Stmt) : Moves (stmtLine n acc) t c := by
  cases n with
  | zero => rw [stmtLine.eq_1]; exact Moves.exhausted
  | succ n =>
    rw [stmtLine.eq_2]
    refine Moves.look_bind (Moves.look_bind ?_)
    split
    next sign => exact Moves.bind (decorated_moves sign _ _)
    all_goals first
      | exact Moves.bind (functionDef_moves _ _ _)
      | exact Moves.bind (classDef_moves _ _ _)
      | exact Moves.skip_bind
      | exact Moves.bind (compound_moves _ _)
      | exact Moves.fail
      | exact simpleLine_moves _ _
      | skip
    all_goals
      refine Moves.look_bind ?_
      split
      · exact Moves.bind (softBlock_moves _ _)
      · exact simpleLine_moves _ _



/-! ### Statements -/

mutual

/-- The statements of a body or of the module. -/
theorem statements_bounded : ∀ n inBlock (acc : Array Stmt) c, t.fuelFor 15 c ≤ n →
    Bounded (statements n inBlock acc) t c
  | 0, _, _, _, hf => absurd hf (Tape.not_fuelFor_le_zero (by decide))
  | n + 1, inBlock, acc, c, hf => by
    rw [statements.eq_2]
    refine Bounded.bind_fuel Bounded.skipNewlines hf fun _ c₁ h₁ => ?_
    apply Bounded.look_bind
    split
    next => exact Bounded.pure
    next =>
      split
      next => exact Bounded.skip_bind Bounded.pure
      next => exact Bounded.fail (by decide)
    next => exact Bounded.fail (by decide)
    next _ eof _ _ =>
      -- a logical line consumes its first lexeme, so the lines after it are read one call deeper
      refine Bounded.bind (stmtLine_bounded n acc c₁ (Tape.fuel_down h₁ (by decide)))
        fun r c₂ r₂ => ?_
      exact statements_bounded n inBlock r c₂ (Tape.fuel_past h₁ (by decide) (Nat.le_refl _) eof
        (stmtLine_moves n acc r c₂ r₂))
termination_by structural n => n

theorem stmtLine_bounded : ∀ n (acc : Array Stmt) c, t.fuelFor 14 c ≤ n →
    Bounded (stmtLine n acc) t c
  | 0, _, _, hf => absurd hf (Tape.not_fuelFor_le_zero (by decide))
  | n + 1, acc, c, hf => by
    rw [stmtLine.eq_2]
    apply Bounded.look_bind
    apply Bounded.look_bind
    split
    next =>
      exact Bounded.bind (decorated_bounded n _ c (Tape.fuel_down hf (by decide))) fun _ _ _ =>
        Bounded.pure
    next kw =>
      exact Bounded.bind (functionDef_bounded n _ _ c (Token.ne_of_eq kw (by decide))
        (Tape.fuel_down hf (by decide))) fun _ _ _ => Bounded.pure
    next kw =>
      exact Bounded.bind (classDef_bounded n _ _ c (Token.ne_of_eq kw (by decide))
        (Tape.fuel_down hf (by decide))) fun _ _ _ => Bounded.pure
    next kw =>
      refine Bounded.skip_fuel hf (Token.ne_of_eq kw (by decide)) fun c₁ h₁ => ?_
      apply Bounded.look_bind
      split
      next kw =>
        exact Bounded.bind (functionDef_bounded n _ _ c₁ (Token.ne_of_eq kw (by decide))
          (Tape.fuel_le h₁ (by decide))) fun _ _ _ => Bounded.pure
      next kw =>
        exact Bounded.bind (compound_bounded n _ c₁ (Token.ne_of_eq kw (by decide))
          (Tape.fuel_le h₁ (by decide))) fun _ _ _ => Bounded.pure
      next kw =>
        exact Bounded.bind (compound_bounded n _ c₁ (Token.ne_of_eq kw (by decide))
          (Tape.fuel_le h₁ (by decide))) fun _ _ _ => Bounded.pure
      next => exact Bounded.fail (by decide)
    all_goals first
      | exact Bounded.bind (compound_bounded n _ c (Token.ne_of_eq ‹_› (by decide))
          (Tape.fuel_down hf (by decide))) fun _ _ _ => Bounded.pure
      | exact Bounded.fail (by decide)
      | exact simpleLine_bounded n acc c (Tape.fuel_down hf (by decide))
      | skip
    all_goals
      apply Bounded.look_bind
      split
      · exact Bounded.bind (softBlock_bounded n _ c (Token.ne_of_eq ‹_› (by decide))
          (Tape.fuel_down hf (by decide))) fun _ _ _ => Bounded.pure
      · exact simpleLine_bounded n acc c (Tape.fuel_down hf (by decide))
termination_by structural n => n

/-- A body: simple statements on the header's line, or an indented block. -/
theorem suite_bounded : ∀ n owner c, t.fuelFor 1 c ≤ n → Bounded (suite n owner) t c
  | 0, _, _, hf => absurd hf (Tape.not_fuelFor_le_zero (by decide))
  | n + 1, owner, c, hf => by
    rw [suite.eq_2]
    extract_lets block jp
    refine Bounded.expect_fuel hf (by decide) fun c₁ h₁ => ?_
    apply Bounded.look_bind
    split
    next =>
      simp only [jp]
      refine Bounded.bind_fuel Bounded.skip h₁ fun _ c₂ h₂ => ?_
      apply Bounded.look_bind
      split
      next => exact Bounded.fail_bind fun h => by cases h
      next =>
        simp only [block]
        refine Bounded.bind_fuel Bounded.skip h₂ fun _ c₃ h₃ =>
          Bounded.read_bind (Bounded.look_bind ?_)
        exact Bounded.bind (statements_bounded n true #[] c₃ (Tape.fuel_le h₃ (by decide)))
          fun _ _ _ => Bounded.pure
    all_goals first
      | exact Bounded.fail_bind fun h => by cases h
      | skip
    exact Bounded.bind (simpleLine_bounded n #[] c₁ (Tape.fuel_le h₁ (by decide))) fun _ _ _ =>
      Bounded.pure
termination_by structural n => n

/-- Decorators, then the definition they decorate. -/
theorem decorated_bounded : ∀ n start c, t.fuelFor 2 c ≤ n → Bounded (decorated n start) t c
  | 0, _, _, hf => absurd hf (Tape.not_fuelFor_le_zero (by decide))
  | n + 1, start, c, hf => by
    rw [decorated.eq_2]
    extract_lets finish
    have done : ∀ s c₁, Bounded (finish s) t c₁ := by
      intro s c₁
      simp only [finish]
      exact Bounded.look_bind Bounded.pure
    refine Bounded.bind_fuel (decoratorList_bounded n #[] c (Tape.fuel_down hf (by decide))) hf
      fun _ c₁ h₁ => ?_
    apply Bounded.look_bind
    apply Bounded.look_bind
    split
    next kw =>
      exact Bounded.bind (functionDef_bounded n _ _ c₁ (Token.ne_of_eq kw (by decide))
        (Tape.fuel_down h₁ (by decide))) fun s c₂ _ => done s c₂
    next kw =>
      refine Bounded.skip_fuel h₁ (Token.ne_of_eq kw (by decide)) fun c₂ h₂ => ?_
      apply Bounded.look_bind
      extract_lets afterAsync
      split
      next => exact Bounded.fail_bind (by decide)
      next named =>
        simp only [afterAsync]
        exact Bounded.bind (functionDef_bounded n _ _ c₂ (Token.ne_of_not_bne named (by decide))
          (Tape.fuel_le h₂ (by decide))) fun s c₃ _ => done s c₃
    next kw =>
      exact Bounded.bind (classDef_bounded n _ _ c₁ (Token.ne_of_eq kw (by decide))
        (Tape.fuel_down h₁ (by decide))) fun s c₂ _ => done s c₂
    next => exact Bounded.fail_bind fun h => by cases h
termination_by structural n => n

theorem decoratorList_bounded : ∀ n (acc : Array Decorator) c, t.fuelFor 1 c ≤ n →
    Bounded (decoratorList n acc) t c
  | 0, _, _, hf => absurd hf (Tape.not_fuelFor_le_zero (by decide))
  | n + 1, acc, c, hf => by
    rw [decoratorList.eq_2]
    apply Bounded.look_bind
    split
    next => exact Bounded.pure
    next sign =>
      refine Bounded.bump_fuel hf (Token.ne_of_not_bne sign (by decide)) fun h₁ => ?_
      apply Bounded.look_bind
      refine Bounded.bind_fuel (namedExpression_bounded n _ (Tape.fuel_le h₁ (by decide))) h₁
        fun _ c₂ h₂ => Bounded.look_bind ?_
      refine Bounded.bind_fuel Bounded.endLine h₂ fun _ c₃ h₃ =>
        Bounded.look_bind (Bounded.read_bind ?_)
      exact Bounded.bind_fuel Bounded.skipNewlines h₃ fun _ c₄ h₄ =>
        decoratorList_bounded n _ c₄ (Tape.fuel_le h₄ (by decide))
termination_by structural n => n

/-- A function definition, from its `def`. -/
theorem functionDef_bounded : ∀ n start (ds : List Decorator) c,
    (t.lexemeAt c.index).token ≠ .eof → t.fuelFor 1 c ≤ n → Bounded (functionDef n start ds) t c
  | 0, _, _, _, _, hf => absurd hf (Tape.not_fuelFor_le_zero (by decide))
  | n + 1, start, ds, c, he, hf => by
    rw [functionDef.eq_2]
    refine Bounded.skip_fuel hf he fun c₁ h₁ => ?_
    refine Bounded.bind_fuel Bounded.expectName h₁ fun name c₂ h₂ => ?_
    apply Bounded.look_bind
    extract_lets rest₂ rest₁
    have body : ∀ r c₃, t.fuelFor 32 c₃ ≤ n → Bounded (rest₂ r) t c₃ := by
      intro r c₃ h₃
      simp only [rest₂]
      exact Bounded.bind (suite_bounded n _ c₃ (Tape.fuel_le h₃ (by decide))) fun _ _ _ =>
        Bounded.read_bind (Bounded.look_bind Bounded.pure)
    have signature : ∀ r c₃, t.fuelFor 32 c₃ ≤ n → Bounded (rest₁ r) t c₃ := by
      intro r c₃ h₃
      simp only [rest₁]
      refine Bounded.bind_fuel Bounded.expect h₃ fun _ c₄ h₄ => ?_
      refine Bounded.bind_fuel (parameters_bounded n _ _ c₄ (Tape.fuel_le h₄ (by decide))) h₄
        fun _ c₅ h₅ => ?_
      refine Bounded.bind_fuel Bounded.expect h₅ fun _ c₆ h₆ => ?_
      apply Bounded.look_bind
      split
      next =>
        exact Bounded.bind_fuel Bounded.skip h₆ fun _ c₇ h₇ =>
          Bounded.bind_fuel (expression_bounded n c₇ (Tape.fuel_le h₇ (by decide))) h₇ body
      next => exact body () c₆ h₆
    split
    next bracket =>
      exact Bounded.bind_fuel (typeParams_bounded n (Token.ne_of_beq bracket (by decide))
        (Tape.fuel_le h₂ (by decide))) h₂ signature
    next => exact signature () c₂ h₂
termination_by structural n => n

/-- A class definition, from its `class`. -/
theorem classDef_bounded : ∀ n start (ds : List Decorator) c,
    (t.lexemeAt c.index).token ≠ .eof → t.fuelFor 1 c ≤ n → Bounded (classDef n start ds) t c
  | 0, _, _, _, _, hf => absurd hf (Tape.not_fuelFor_le_zero (by decide))
  | n + 1, start, ds, c, he, hf => by
    rw [classDef.eq_2]
    refine Bounded.skip_fuel hf he fun c₁ h₁ => ?_
    refine Bounded.bind_fuel Bounded.expectName h₁ fun name c₂ h₂ => ?_
    apply Bounded.look_bind
    extract_lets rest₂ rest₁
    have body : ∀ r c₃, t.fuelFor 32 c₃ ≤ n → Bounded (rest₂ r) t c₃ := by
      intro r c₃ h₃
      simp only [rest₂]
      exact Bounded.bind (suite_bounded n _ c₃ (Tape.fuel_le h₃ (by decide))) fun _ _ _ =>
        Bounded.read_bind (Bounded.look_bind Bounded.pure)
    have bases : ∀ r c₃, t.fuelFor 32 c₃ ≤ n → Bounded (rest₁ r) t c₃ := by
      intro r c₃ h₃
      simp only [rest₁]
      apply Bounded.look_bind
      split
      next =>
        refine Bounded.bind_fuel Bounded.skip h₃ fun _ c₄ h₄ => ?_
        refine Bounded.bind_fuel (callArguments_bounded n c₄ (Tape.fuel_le h₄ (by decide))) h₄
          fun _ c₅ h₅ => ?_
        exact Bounded.bind_fuel Bounded.expect h₅ body
      next => exact body () c₃ h₃
    split
    next bracket =>
      exact Bounded.bind_fuel (typeParams_bounded n (Token.ne_of_beq bracket (by decide))
        (Tape.fuel_le h₂ (by decide))) h₂ bases
    next => exact bases () c₂ h₂
termination_by structural n => n

/-- A compound statement, from the keyword of its first clause. -/
theorem compound_bounded : ∀ n start c, (t.lexemeAt c.index).token ≠ .eof →
    t.fuelFor 3 c ≤ n → Bounded (compound n start) t c
  | 0, _, _, _, hf => absurd hf (Tape.not_fuelFor_le_zero (by decide))
  | n + 1, start, c, he, hf => by
    rw [compound.eq_2]
    refine Bounded.bind_fuel (clause_bounded n c he (Tape.fuel_down hf (by decide))) hf
      fun _ c₁ h₁ => ?_
    refine Bounded.bind (moreClauses_bounded n _ _ _ c₁ (Tape.fuel_down h₁ (by decide)))
      fun _ c₂ _ => ?_
    extract_lets jp
    split
    next => exact Bounded.fail_bind fun h => by cases h
    next =>
      simp only [jp]
      exact Bounded.look_bind Bounded.pure
termination_by structural n => n

/-- Further clauses: each consumes its keyword, so those after it are read one call deeper. -/
theorem moreClauses_bounded : ∀ n first last (acc : Array Clause) c, t.fuelFor 2 c ≤ n →
    Bounded (moreClauses n first last acc) t c
  | 0, _, _, _, _, hf => absurd hf (Tape.not_fuelFor_le_zero (by decide))
  | n + 1, first, last, acc, c, hf => by
    rw [moreClauses.eq_2]
    apply Bounded.look_bind
    split
    next keyword heq =>
      split
      next =>
        have he := Token.ne_eof_of_clauseKeyword heq
        refine Bounded.bind (clause_bounded n c he (Tape.fuel_down hf (by decide)))
          fun _ c₁ r₁ => ?_
        exact moreClauses_bounded n first _ _ c₁
          (Tape.fuel_past hf (by decide) (Nat.le_refl _) he (clause_moves n _ _ r₁))
      next => exact Bounded.pure
    next => exact Bounded.pure
termination_by structural n => n

/-- One clause, from its keyword: its header, then its body. -/
theorem clause_bounded : ∀ n c, (t.lexemeAt c.index).token ≠ .eof → t.fuelFor 1 c ≤ n →
    Bounded (clause n) t c
  | 0, _, _, hf => absurd hf (Tape.not_fuelFor_le_zero (by decide))
  | n + 1, c, he, hf => by
    rw [clause.eq_2]
    refine Bounded.bump_fuel hf he fun h₁ => ?_
    apply Bounded.read_bind
    apply Bounded.look_bind
    extract_lets jp
    have body : ∀ r c₂, t.fuelFor 32 c₂ ≤ n → Bounded (jp r) t c₂ := by
      intro r c₂ h₂
      simp only [jp]
      apply Bounded.read_bind
      apply Bounded.look_bind
      exact Bounded.bind (suite_bounded n _ c₂ (Tape.fuel_le h₂ (by decide))) fun _ _ _ =>
        Bounded.pure
    split
    all_goals first
      | exact Bounded.bind_fuel (namedExpression_bounded n _ (Tape.fuel_le h₁ (by decide))) h₁ body
      | exact Bounded.bind_fuel (withItems_bounded n (Tape.fuel_le h₁ (by decide))) h₁ body
      | exact Bounded.bind_fuel (exceptHeader_bounded n (Tape.fuel_le h₁ (by decide))) h₁ body
      | exact body () _ h₁
      | exact Bounded.bind_fuel Bounded.pure h₁ body
      | (refine Bounded.bind_fuel (targetList_bounded n _ (Tape.fuel_le h₁ (by decide))) h₁
            fun _ c₂ h₂ => ?_
         refine Bounded.bind_fuel Bounded.expect h₂ fun _ c₃ h₃ => ?_
         exact Bounded.bind_fuel (Bounded.discard (starExpressions_bounded n c₃
           (Tape.fuel_le h₃ (by decide)))) h₃ body)
termination_by structural n => n

/-- A `match` or `case` block, from its keyword. -/
theorem softBlock_bounded : ∀ n start c, (t.lexemeAt c.index).token ≠ .eof →
    t.fuelFor 1 c ≤ n → Bounded (softBlock n start) t c
  | 0, _, _, _, hf => absurd hf (Tape.not_fuelFor_le_zero (by decide))
  | n + 1, start, c, he, hf => by
    rw [softBlock.eq_2]
    refine Bounded.bump_fuel hf he fun h₁ => ?_
    apply Bounded.read_bind
    apply Bounded.look_bind
    extract_lets jp
    have body : ∀ r c₂, t.fuelFor 32 c₂ ≤ n → Bounded (jp r) t c₂ := by
      intro r c₂ h₂
      simp only [jp]
      apply Bounded.read_bind
      apply Bounded.look_bind
      exact Bounded.bind (suite_bounded n _ c₂ (Tape.fuel_le h₂ (by decide))) fun _ _ _ =>
        Bounded.look_bind Bounded.pure
    split
    next =>
      exact Bounded.bind_fuel (starNamedExpressions_bounded n _ (Tape.fuel_le h₁ (by decide))) h₁
        body
    next =>
      apply Bounded.read_bind
      exact Bounded.bind_fuel (skipPattern_bounded _ _ _ _ (Tape.ahead_past_lt_size he)) h₁ body
termination_by structural n => n

end

end Grammar

end PyTune
