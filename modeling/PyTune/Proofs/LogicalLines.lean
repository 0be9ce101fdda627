import PyTune.Proofs.Nesting

/-!
# What a logical line holds

The readers of simple statements, headers and `case` patterns consume no token that ends a
line (`Grammar.WithinLine`), so a line of simple statements is read as the rest of one logical
line (`simpleLine_lineRest`).
-/

namespace PyTune

namespace Token

/-- A token that ends the logical line it stands on: a newline, a dedent that closes a block
after a last line with no newline, or the end of input. -/
def endsLine : Token → Bool
  | .newline | .dedent | .eof => true
  | _ => false

variable {tok other : Token}

theorem endsLine_of_isLayout (h : tok.isLayout = false) : tok.endsLine = false := by
  cases tok <;> simp_all [isLayout, endsLine]

theorem endsLine_of_eq (h : tok = other) (ho : other.endsLine = false) : tok.endsLine = false := by
  rw [h]
  exact ho

theorem endsLine_of_beq (h : (tok == other) = true) (ho : other.endsLine = false) :
    tok.endsLine = false :=
  endsLine_of_eq (beq_iff_eq.mp h) ho

theorem endsLine_of_not_bne (h : ¬ (tok != other) = true) (ho : other.endsLine = false) :
    tok.endsLine = false := by
  simp only [bne_iff_ne, ne_eq, Decidable.not_not] at h
  exact endsLine_of_eq h ho

theorem endsLine_of_nameText (h : tok.nameText?.isSome = true) : tok.endsLine = false :=
  endsLine_of_isLayout (isLayout_of_nameText h)

end Token

/-- No lexeme from `i` up to, not including, `j` ends a logical line. -/
def Tape.WithinLine (t : Tape) (i j : Nat) : Prop :=
  ∀ k, i ≤ k → k < j → (t.lexemeAt k).token.endsLine = false

namespace Tape.WithinLine

variable {t : Tape} {i j l : Nat}

theorem refl (t : Tape) (i : Nat) : t.WithinLine i i :=
  fun _ lo hi => absurd hi (Nat.not_lt.mpr lo)

theorem trans (h₁ : t.WithinLine i j) (h₂ : t.WithinLine j l) : t.WithinLine i l := by
  intro k lo hi
  by_cases hk : k < j
  · exact h₁ k lo hk
  · exact h₂ k (Nat.le_of_not_lt hk) hi

theorem cons (hk : (t.lexemeAt i).token.endsLine = false) (h : t.WithinLine (i + 1) j) :
    t.WithinLine i j := by
  intro k lo hi
  rcases Nat.eq_or_lt_of_le lo with rfl | lt
  · exact hk
  · exact h k lt hi

theorem of_nests {a b : List (Char × Nat)} (h : t.Nests i j a b) : t.WithinLine i j :=
  fun _ lo hi => Token.endsLine_of_isLayout (h.not_layout lo hi)

end Tape.WithinLine

/-- From `i`, the rest of a logical line that reading leaves at `j`: lexemes within the line up
to some `m`, then the newline at `m` with `j = m + 1`, or nothing more, with a dedent or the end
of input at `m = j`. -/
def Tape.LineRest (t : Tape) (i j : Nat) : Prop :=
  ∃ m, i ≤ m ∧ t.WithinLine i m ∧
    ((t.lexemeAt m).token = .newline ∧ j = m + 1 ∨
      ((t.lexemeAt m).token = .dedent ∨ (t.lexemeAt m).token = .eof) ∧ j = m)

theorem Tape.LineRest.prepend {t : Tape} {i k j : Nat} (hik : i ≤ k) (hw : t.WithinLine i k)
    (h : t.LineRest k j) : t.LineRest i j := by
  obtain ⟨m, hkm, within, ends⟩ := h
  exact ⟨m, Nat.le_trans hik hkm, hw.trans within, ends⟩

namespace Grammar

variable {α β : Type} {t : Tape} {c c' : Cursor}

/-- Every reading of `g` from `c` stays within one logical line. -/
def WithinLine (g : Grammar α) (t : Tape) (c : Cursor) : Prop :=
  ∀ a c', g.Reads t c a c' → t.WithinLine c.index c'.index

namespace WithinLine

theorem of_not_reads {g : Grammar α} (h : ∀ {a c'}, ¬ g.Reads t c a c') : WithinLine g t c :=
  fun _ _ hr => absurd hr h

theorem fail {f : GrammarFault} : WithinLine (Grammar.fail f : Grammar α) t c :=
  of_not_reads Reads.not_fail

theorem exhausted : WithinLine (Grammar.exhausted : Grammar α) t c :=
  of_not_reads Reads.not_fail

theorem pure {a : α} : WithinLine (Pure.pure a : Grammar α) t c := by
  intro b c' h
  obtain ⟨-, stays⟩ := h.pure
  rw [stays]
  exact Tape.WithinLine.refl t c.index

theorem look_bind {f : Tape → Cursor → α} {k : α → Grammar β} (h : WithinLine (k (f t c)) t c) :
    WithinLine (Grammar.look f >>= k) t c :=
  fun _ _ hr => h _ _ hr.look_bind

theorem read_bind {k : Tape → Grammar β} (h : WithinLine (k t) t c) : WithinLine (read >>= k) t c :=
  look_bind h

/-- A reading in two parts, the second within the line wherever the first leaves the cursor. -/
theorem bind {x : Grammar α} {k : α → Grammar β} (hx : WithinLine x t c)
    (hk : ∀ a c₁, WithinLine (k a) t c₁) : WithinLine (x >>= k) t c := by
  intro b c' h
  obtain ⟨a, c₁, hr, hf⟩ := h.bind
  exact (hx a c₁ hr).trans (hk a c₁ b c' hf)

theorem fail_bind {f : GrammarFault} {k : α → Grammar β} :
    WithinLine (Grammar.fail f >>= k) t c :=
  of_not_reads fun h => Reads.fail_bind h

theorem map {x : Grammar α} {f : α → β} (hx : WithinLine x t c) : WithinLine (f <$> x) t c :=
  bind hx fun _ _ => pure

theorem discard {x : Grammar α} (hx : WithinLine x t c) : WithinLine (Functor.discard x) t c := by
  rw [discard_eq]
  exact bind hx fun _ _ => pure

theorem skip (hk : (t.lexemeAt c.index).token.endsLine = false) : WithinLine Grammar.skip t c := by
  intro u c' h
  obtain ⟨rfl, -⟩ := h.skip
  exact Tape.WithinLine.cons hk (Tape.WithinLine.refl t _)

/-- Consuming a lexeme that ends no line, then reading on. -/
theorem skip_bind {k : Unit → Grammar α} (hk : (t.lexemeAt c.index).token.endsLine = false)
    (hr : ∀ c₁, WithinLine (k ()) t c₁) : WithinLine (Grammar.skip >>= k) t c :=
  bind (skip hk) fun _ c₁ => hr c₁

/-- What an expression reads holds no layout. -/
theorem of_nests {g : Grammar α} {a b : List (Char × Nat)} (h : Nests g t c a b) :
    WithinLine g t c :=
  fun _ _ hr => Tape.WithinLine.of_nests (h _ _ hr)

end WithinLine

/-! ### Lexemes tested before they are consumed -/

theorem expect_withinLine {tok : Token} {e : Expectation} (ht : tok.endsLine = false) :
    WithinLine (expect tok e) t c := by
  unfold expect
  apply WithinLine.look_bind
  split
  next same => exact WithinLine.skip (Token.endsLine_of_beq same ht)
  next => exact WithinLine.fail

theorem expectName_withinLine {e : Expectation} : WithinLine (expectName e) t c :=
  WithinLine.of_nests expectName_nests (a := [])

theorem eatSemicolon_withinLine : WithinLine eatSemicolon t c := by
  unfold eatSemicolon
  apply WithinLine.look_bind
  split
  next => exact WithinLine.pure
  next semicolon =>
    refine WithinLine.skip_bind (Token.endsLine_of_not_bne semicolon rfl) fun c₁ => ?_
    apply WithinLine.look_bind
    split <;> exact WithinLine.pure

theorem dottedTail_withinLine (fuel : Nat) : ∀ c, WithinLine (dottedTail fuel) t c := by
  induction fuel with
  | zero => exact fun _ => WithinLine.exhausted
  | succ fuel ih =>
    intro c
    rw [dottedTail.eq_2]
    apply WithinLine.look_bind
    split
    next dot =>
      refine WithinLine.skip_bind (Token.endsLine_of_beq dot rfl) fun c₁ => ?_
      exact WithinLine.bind (WithinLine.discard expectName_withinLine) fun _ c₂ => ih c₂
    next => exact WithinLine.pure

theorem dottedName_withinLine : WithinLine dottedName t c := by
  unfold dottedName
  apply WithinLine.look_bind
  refine WithinLine.bind (WithinLine.discard expectName_withinLine) fun _ c₁ => ?_
  refine WithinLine.read_bind (WithinLine.bind (dottedTail_withinLine _ c₁) fun _ c₂ => ?_)
  unfold text
  exact WithinLine.look_bind (WithinLine.read_bind WithinLine.pure)

theorem asName_withinLine : WithinLine asName t c := by
  unfold asName
  apply WithinLine.look_bind
  split
  next as =>
    refine WithinLine.skip_bind (Token.endsLine_of_beq as rfl) fun c₁ => ?_
    exact WithinLine.bind expectName_withinLine fun _ _ => WithinLine.pure
  next => exact WithinLine.pure

/-! ### Headers -/

/-- Type parameters, from the `[` that the caller has seen. -/
theorem typeParams_withinLine (n : Nat) (hb : (t.lexemeAt c.index).token = .lBracket) :
    WithinLine (typeParams n) t c := by
  cases n with
  | zero => exact WithinLine.exhausted
  | succ n =>
    rw [typeParams.eq_2]
    refine WithinLine.skip_bind (Token.endsLine_of_eq hb rfl) fun c₁ => ?_
    exact WithinLine.bind (WithinLine.of_nests (typeParamList_nests n c₁ ('[', 0))) fun _ c₂ =>
      expect_withinLine rfl

theorem withItems_withinLine (n : Nat) : WithinLine (withItems n) t c := by
  cases n with
  | zero => exact WithinLine.exhausted
  | succ n =>
    rw [withItems.eq_2]
    apply WithinLine.look_bind
    apply WithinLine.look_bind
    extract_lets parenthesized jp
    have items : ∀ r c₁, WithinLine (jp r) t c₁ := by
      intro r c₁
      simp only [jp]
      refine WithinLine.bind (WithinLine.of_nests (withItemList_nests n _ c₁)) fun _ c₂ => ?_
      split
      next => exact expect_withinLine rfl
      next => exact WithinLine.pure
    split
    next opening =>
      have paren : (t.lexemeAt c.index).token = .lParen := by
        simp only [parenthesized, Bool.and_eq_true, beq_iff_eq] at opening
        exact opening.1
      exact WithinLine.bind (WithinLine.skip (Token.endsLine_of_eq paren rfl)) items
    next => exact items () c

theorem exceptHeader_withinLine (n : Nat) : WithinLine (exceptHeader n) t c := by
  cases n with
  | zero => exact WithinLine.exhausted
  | succ n =>
    rw [exceptHeader.eq_2]
    apply WithinLine.look_bind
    extract_lets jp
    have header : ∀ r c₁, WithinLine (jp r) t c₁ := by
      intro r c₁
      simp only [jp]
      refine WithinLine.bind (WithinLine.of_nests startsExpression_nests (a := [])) fun b c₂ => ?_
      split
      next => exact WithinLine.pure
      next =>
        refine WithinLine.bind (WithinLine.of_nests (expression_nests n c₂)) fun _ c₃ => ?_
        refine WithinLine.bind (WithinLine.of_nests (moreExpressions_nests n c₃)) fun _ c₄ => ?_
        apply WithinLine.look_bind
        split
        next as =>
          exact WithinLine.skip_bind (Token.endsLine_of_beq as rfl) fun c₅ =>
            WithinLine.discard expectName_withinLine
        next => exact WithinLine.pure
    split
    next star => exact WithinLine.bind (WithinLine.skip (Token.endsLine_of_beq star rfl)) header
    next => exact header () c

/-- A `case` pattern stops at a newline, a semicolon, a dedent or the end of input. -/
theorem skipPattern_withinLine : ∀ n depth lambdas c, WithinLine (skipPattern n depth lambdas) t c
  | 0, _, _, _ => WithinLine.exhausted
  | n + 1, depth, lambdas, c => by
    rw [skipPattern.eq_2]
    apply WithinLine.look_bind
    split
    next => exact WithinLine.pure
    next =>
      extract_lets jp
      split
      next => exact WithinLine.fail_bind
      next => exact WithinLine.fail_bind
      next => exact WithinLine.fail_bind
      next => exact WithinLine.fail_bind
      next _ newline semicolon eof dedent =>
        have ends : (t.lexemeAt c.index).token.endsLine = false := by
          cases h : (t.lexemeAt c.index).token <;> simp_all [Token.endsLine]
        simp only [jp]
        split <;> exact WithinLine.skip_bind ends fun c₁ => skipPattern_withinLine n _ _ c₁

/-! ### Simple statements -/

theorem importedNames_withinLine : ∀ n parens (acc : Array ImportAlias) c,
    WithinLine (importedNames n parens acc) t c
  | 0, _, _, _ => WithinLine.exhausted
  | n + 1, parens, acc, c => by
    rw [importedNames.eq_2]
    apply WithinLine.look_bind
    split
    next => exact WithinLine.pure
    next =>
      refine WithinLine.bind expectName_withinLine fun _ c₁ =>
        WithinLine.bind asName_withinLine fun _ c₂ => ?_
      apply WithinLine.look_bind
      split
      next => exact WithinLine.pure
      next comma =>
        exact WithinLine.skip_bind (Token.endsLine_of_not_bne comma rfl) fun c₃ =>
          importedNames_withinLine n parens _ c₃

theorem importList_withinLine : ∀ n (acc : Array ImportAlias) c, WithinLine (importList n acc) t c
  | 0, _, _ => WithinLine.exhausted
  | n + 1, acc, c => by
    rw [importList.eq_2]
    refine WithinLine.bind dottedName_withinLine fun _ c₁ =>
      WithinLine.bind asName_withinLine fun _ c₂ => ?_
    apply WithinLine.look_bind
    split
    next => exact WithinLine.pure
    next comma =>
      exact WithinLine.skip_bind (Token.endsLine_of_not_bne comma rfl) fun c₃ =>
        importList_withinLine n _ c₃

theorem relativeLevel_withinLine : ∀ n level c, WithinLine (relativeLevel n level) t c
  | 0, _, _ => WithinLine.exhausted
  | n + 1, level, c => by
    rw [relativeLevel.eq_2]
    apply WithinLine.look_bind
    split
    next dot =>
      exact WithinLine.skip_bind (Token.endsLine_of_eq dot rfl) fun c₁ =>
        relativeLevel_withinLine n _ c₁
    next dots =>
      exact WithinLine.skip_bind (Token.endsLine_of_eq dots rfl) fun c₁ =>
        relativeLevel_withinLine n _ c₁
    next => exact WithinLine.pure

/-- `import ...`, from the `import` that the caller has seen. -/
theorem importStmt_withinLine (hk : (t.lexemeAt c.index).token.endsLine = false) :
    WithinLine importStmt t c := by
  unfold importStmt
  refine WithinLine.skip_bind hk fun c₁ => WithinLine.read_bind ?_
  exact WithinLine.bind (importList_withinLine _ _ c₁) fun _ _ => WithinLine.pure

/-- `from ... import ...`, from the `from` that the caller has seen. -/
theorem fromImportStmt_withinLine (hk : (t.lexemeAt c.index).token.endsLine = false) :
    WithinLine fromImportStmt t c := by
  unfold fromImportStmt
  refine WithinLine.skip_bind hk fun c₁ => WithinLine.read_bind ?_
  refine WithinLine.bind (relativeLevel_withinLine _ _ c₁) fun level c₂ => ?_
  apply WithinLine.look_bind
  extract_lets jp
  have names : ∀ module c₃, WithinLine (jp module) t c₃ := by
    intro module c₃
    simp only [jp]
    split
    next => exact WithinLine.fail_bind
    next =>
      refine WithinLine.bind (expect_withinLine rfl) fun _ c₄ => ?_
      apply WithinLine.look_bind
      split
      next star =>
        exact WithinLine.skip_bind (Token.endsLine_of_beq star rfl) fun _ => WithinLine.pure
      next =>
        apply WithinLine.look_bind
        split
        next opening =>
          refine WithinLine.skip_bind (Token.endsLine_of_beq opening rfl) fun c₅ => ?_
          exact WithinLine.bind (importedNames_withinLine _ _ _ c₅) fun _ c₆ =>
            WithinLine.bind (expect_withinLine rfl) fun _ _ => WithinLine.pure
        next => exact WithinLine.bind (importedNames_withinLine _ _ _ c₄) fun _ _ => WithinLine.pure
  split
  next => exact WithinLine.bind (WithinLine.map dottedName_withinLine) names
  next => exact WithinLine.bind WithinLine.pure names

theorem assignedValue_withinLine (n : Nat) : WithinLine (assignedValue n) t c := by
  cases n with
  | zero => exact WithinLine.exhausted
  | succ n =>
    rw [assignedValue.eq_2]
    apply WithinLine.look_bind
    split
    next yield =>
      exact WithinLine.bind
        (WithinLine.of_nests (yieldExpr_nests n c (Token.plain_of_beq yield (by decide))))
        fun _ _ => WithinLine.pure
    next => exact WithinLine.of_nests (starExpressions_nests n c)

theorem assignChain_withinLine : ∀ n names c, WithinLine (assignChain n names) t c
  | 0, _, _ => WithinLine.exhausted
  | n + 1, names, c => by
    rw [assignChain.eq_2]
    apply WithinLine.look_bind
    split
    next => exact WithinLine.pure
    next eq =>
      refine WithinLine.skip_bind (Token.endsLine_of_not_bne eq rfl) fun c₁ => ?_
      refine WithinLine.bind (assignedValue_withinLine n) fun _ c₂ => WithinLine.read_bind ?_
      exact WithinLine.look_bind (assignChain_withinLine n _ c₂)

theorem expressionStmt_withinLine (n : Nat) : WithinLine (expressionStmt n) t c := by
  cases n with
  | zero => exact WithinLine.exhausted
  | succ n =>
    rw [expressionStmt.eq_2]
    refine WithinLine.bind (assignedValue_withinLine n) fun first c₁ => ?_
    apply WithinLine.look_bind
    split
    next => exact WithinLine.read_bind (assignChain_withinLine n _ c₁)
    next aug =>
      extract_lets jp
      split
      next => exact WithinLine.fail_bind
      next =>
        simp only [jp]
        exact WithinLine.skip_bind (Token.endsLine_of_eq aug rfl) fun c₂ =>
          WithinLine.bind (WithinLine.discard (assignedValue_withinLine n)) fun _ _ => WithinLine.pure
    next colon =>
      extract_lets jp
      split
      next => exact WithinLine.fail_bind
      next =>
        simp only [jp]
        refine WithinLine.skip_bind (Token.endsLine_of_eq colon rfl) fun c₂ => ?_
        refine WithinLine.bind (WithinLine.of_nests (expression_nests n c₂)) fun _ c₃ => ?_
        apply WithinLine.look_bind
        split
        next => exact WithinLine.pure
        next eq =>
          refine WithinLine.skip_bind (Token.endsLine_of_not_bne eq rfl) fun c₄ => ?_
          exact WithinLine.bind (WithinLine.discard (assignedValue_withinLine n)) fun _ _ =>
            WithinLine.read_bind WithinLine.pure
    next => exact WithinLine.pure

/-- `type Name = value`, from the `type` that the caller has seen. -/
theorem typeAlias_withinLine (n : Nat) (hk : (t.lexemeAt c.index).token.endsLine = false) :
    WithinLine (typeAlias n) t c := by
  cases n with
  | zero => exact WithinLine.exhausted
  | succ n =>
    rw [typeAlias.eq_2]
    refine WithinLine.skip_bind hk fun c₁ => ?_
    refine WithinLine.bind (WithinLine.discard expectName_withinLine) fun _ c₂ => ?_
    apply WithinLine.look_bind
    extract_lets jp
    have value : ∀ r c₃, WithinLine (jp r) t c₃ := by
      intro r c₃
      simp only [jp]
      exact WithinLine.bind (expect_withinLine rfl) fun _ c₄ =>
        WithinLine.of_nests (expression_nests n c₄)
    split
    next bracket => exact WithinLine.bind (typeParams_withinLine n (beq_iff_eq.mp bracket)) value
    next => exact value () c₂

theorem nameList_withinLine (n : Nat) : ∀ c, WithinLine (nameList n) t c := by
  induction n with
  | zero => exact fun _ => WithinLine.exhausted
  | succ n ih =>
    intro c
    rw [nameList.eq_2]
    refine WithinLine.bind (WithinLine.discard expectName_withinLine) fun _ c₁ => ?_
    apply WithinLine.look_bind
    split
    next comma => exact WithinLine.skip_bind (Token.endsLine_of_beq comma rfl) fun c₂ => ih c₂
    next => exact WithinLine.pure

/-- A simple statement stays on its line: the rules that read one test every lexeme first. -/
theorem simpleStmt_withinLine (n : Nat) : WithinLine (simpleStmt n) t c := by
  cases n with
  | zero => exact WithinLine.exhausted
  | succ n =>
    rw [simpleStmt.eq_2]
    apply WithinLine.look_bind
    apply WithinLine.look_bind
    extract_lets jp jp₁ jp₂ jp₃
    have finish : ∀ kind c₁, WithinLine (jp kind) t c₁ := by
      intro kind c₁
      simp only [jp]
      exact WithinLine.look_bind WithinLine.pure
    have finish₁ : ∀ r c₁, WithinLine (jp₁ r) t c₁ := by
      intro r c₁
      simp only [jp₁]
      exact WithinLine.bind WithinLine.pure finish
    have finish₂ : ∀ r c₁, WithinLine (jp₂ r) t c₁ := by
      intro r c₁
      simp only [jp₂]
      exact WithinLine.bind WithinLine.pure finish
    have finish₃ : ∀ r c₁, WithinLine (jp₃ r) t c₁ := by
      intro r c₁
      simp only [jp₃]
      exact WithinLine.bind WithinLine.pure finish
    have keyword {kw : Keyword} (h : (t.lexemeAt c.index).token = .keyword kw) :
        (t.lexemeAt c.index).token.endsLine = false :=
      Token.endsLine_of_eq h rfl
    split
    next kw => exact WithinLine.bind (importStmt_withinLine (keyword kw)) finish
    next kw => exact WithinLine.bind (fromImportStmt_withinLine (keyword kw)) finish
    next => exact WithinLine.fail_bind
    next => exact WithinLine.fail_bind
    next => exact WithinLine.fail_bind
    next => exact WithinLine.fail_bind
    next kw => exact WithinLine.skip_bind (keyword kw) fun _ => WithinLine.bind WithinLine.pure finish
    next kw => exact WithinLine.skip_bind (keyword kw) fun _ => WithinLine.bind WithinLine.pure finish
    next kw => exact WithinLine.skip_bind (keyword kw) fun _ => WithinLine.bind WithinLine.pure finish
    next kw =>
      refine WithinLine.skip_bind (keyword kw) fun c₁ => ?_
      refine WithinLine.bind (WithinLine.of_nests startsExpression_nests (a := [])) fun b c₂ => ?_
      split
      next =>
        exact WithinLine.bind (WithinLine.discard (WithinLine.of_nests (starExpressions_nests n c₂)))
          finish₁
      next => exact finish₁ () c₂
    next kw =>
      refine WithinLine.skip_bind (keyword kw) fun c₁ => ?_
      refine WithinLine.bind (WithinLine.of_nests startsExpression_nests (a := [])) fun b c₂ => ?_
      split
      next =>
        refine WithinLine.bind (WithinLine.of_nests (expression_nests n c₂)) fun _ c₃ => ?_
        apply WithinLine.look_bind
        split
        next source =>
          exact WithinLine.skip_bind (Token.endsLine_of_beq source rfl) fun c₄ =>
            WithinLine.bind (WithinLine.of_nests (expression_nests n c₄)) finish₂
        next => exact finish₂ () c₃
      next => exact finish₂ () c₂
    next kw =>
      refine WithinLine.skip_bind (keyword kw) fun c₁ => WithinLine.read_bind ?_
      exact WithinLine.bind (nameList_withinLine _ c₁) fun _ _ => WithinLine.bind WithinLine.pure finish
    next kw =>
      refine WithinLine.skip_bind (keyword kw) fun c₁ => WithinLine.read_bind ?_
      exact WithinLine.bind (nameList_withinLine _ c₁) fun _ _ => WithinLine.bind WithinLine.pure finish
    next kw =>
      exact WithinLine.skip_bind (keyword kw) fun c₁ =>
        WithinLine.bind (WithinLine.of_nests (targetList_nests n c₁)) fun _ _ =>
          WithinLine.bind WithinLine.pure finish
    next kw =>
      refine WithinLine.skip_bind (keyword kw) fun c₁ => ?_
      refine WithinLine.bind (WithinLine.of_nests (expression_nests n c₁)) fun _ c₂ => ?_
      apply WithinLine.look_bind
      split
      next comma =>
        exact WithinLine.skip_bind (Token.endsLine_of_beq comma rfl) fun c₃ =>
          WithinLine.bind (WithinLine.of_nests (expression_nests n c₃)) finish₃
      next => exact finish₃ () c₂
    next name =>
      apply WithinLine.look_bind
      split
      next =>
        exact WithinLine.bind (typeAlias_withinLine n (Token.endsLine_of_eq name rfl)) fun _ _ =>
          WithinLine.bind WithinLine.pure finish
      next => exact WithinLine.bind (expressionStmt_withinLine n) finish
    next =>
      apply WithinLine.look_bind
      refine WithinLine.bind (expressionStmt_withinLine n) fun _ c₁ => ?_
      exact WithinLine.look_bind (WithinLine.bind WithinLine.pure finish)
    next => exact WithinLine.bind (expressionStmt_withinLine n) finish

/-! ### Rests of lines -/

theorem endLine_lineRest {u : Unit} (h : endLine.Reads t c u c') : t.LineRest c.index c'.index := by
  unfold endLine at h
  have h := h.look_bind
  split at h
  next newline =>
    obtain ⟨rfl, -⟩ := h.skip
    exact ⟨c.index, Nat.le_refl _, Tape.WithinLine.refl t _, .inl ⟨newline, rfl⟩⟩
  next dedent =>
    obtain ⟨-, rfl⟩ := h.pure
    exact ⟨_, Nat.le_refl _, Tape.WithinLine.refl t _, .inr ⟨.inr dedent, rfl⟩⟩
  next eof =>
    obtain ⟨-, rfl⟩ := h.pure
    exact ⟨_, Nat.le_refl _, Tape.WithinLine.refl t _, .inr ⟨.inl eof, rfl⟩⟩
  next => exact absurd h Reads.not_fail

/-- Simple statements separated by semicolons are the rest of one logical line. -/
theorem simpleLine_lineRest : ∀ n (acc : Array Stmt) {c r c'},
    (simpleLine n acc).Reads t c r c' → t.LineRest c.index c'.index
  | 0, _, _, _, _, h => absurd h Reads.not_exhausted
  | n + 1, acc, c, r, c', h => by
    rw [simpleLine.eq_2] at h
    obtain ⟨s, c₁, hs, h⟩ := h.bind
    obtain ⟨more, c₂, hm, h⟩ := h.bind
    have within := (simpleStmt_withinLine n s c₁ hs).trans (eatSemicolon_withinLine more c₂ hm)
    have le := (hs.advance.trans hm.advance).index_le
    split at h
    next => exact (simpleLine_lineRest n _ h).prepend le within
    next =>
      obtain ⟨_, c₃, he, h⟩ := h.bind
      obtain ⟨-, rfl⟩ := h.pure
      exact (endLine_lineRest he).prepend le within

/-! ### Blank lines -/

/-- Skipping consumes lexemes that pass the test, and stops at one that fails it or when the
fuel runs out. -/
theorem skipWhile_reads {p : Token → Bool} : ∀ fuel {c c' : Cursor} {u : Unit},
    (skipWhile p fuel).Reads t c u c' →
      c.index ≤ c'.index ∧ (∀ k, c.index ≤ k → k < c'.index → p (t.lexemeAt k).token = true) ∧
        (p (t.lexemeAt c'.index).token = false ∨ c.index + fuel ≤ c'.index)
  | 0, c, c', u, h => by
    obtain ⟨-, rfl⟩ := h.pure
    exact ⟨Nat.le_refl _, fun _ lo hi => absurd hi (Nat.not_lt.mpr lo), .inr (Nat.le_refl _)⟩
  | fuel + 1, c, c', u, h => by
    rw [skipWhile.eq_2] at h
    have h := h.look_bind
    split at h
    next holds =>
      obtain ⟨_, c₁, hs, h⟩ := h.bind
      obtain ⟨rfl, -⟩ := hs.skip
      obtain ⟨le, all, stop⟩ := skipWhile_reads fuel h
      simp only [Cursor.past] at le all stop
      refine ⟨by omega, fun k lo hi => ?_, ?_⟩
      · rcases Nat.eq_or_lt_of_le lo with rfl | lt
        · exact holds
        · exact all k lt hi
      · rcases stop with stop | stop
        · exact .inl stop
        · exact .inr (by omega)
    next fails =>
      obtain ⟨-, rfl⟩ := h.pure
      exact ⟨Nat.le_refl _, fun _ lo hi => absurd hi (Nat.not_lt.mpr lo), .inl (by simpa using fails)⟩

/-- Blank lines are newlines, and reading them stops at a lexeme that is none: the fuel, one
for each lexeme, runs out only past the last of them, at the end of input. -/
theorem skipNewlines_reads {u : Unit} (h : skipNewlines.Reads t c u c') :
    c.index ≤ c'.index ∧ (∀ k, c.index ≤ k → k < c'.index → (t.lexemeAt k).token = .newline) ∧
      (t.lexemeAt c'.index).token ≠ .newline := by
  unfold skipNewlines at h
  obtain ⟨le, all, stop⟩ := skipWhile_reads _ h.read_bind
  refine ⟨le, fun k lo hi => beq_iff_eq.mp (all k lo hi), ?_⟩
  rcases stop with stop | stop
  · simpa using stop
  · have past : t.lexemes.size ≤ c'.index := by omega
    simp [Tape.lexemeAt, Array.getElem?_eq_none past]

end Grammar

end PyTune
