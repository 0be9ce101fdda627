import PyTune.Proofs.SoftKeywords
import PyTune.Proofs.DecoratorShapes

/-!
# Simple statements close their brackets

Every simple statement, and the rest of a logical line of them, closes the brackets it opens
(`Tape.Closes`, `Grammar.simpleLine_closes`), so where such a line begins no bracket of the source
is open (`Tape.closed_before_line`).
-/

namespace PyTune

namespace Tape

variable {t : Tape} {i j k : Nat}

/-- The lexemes from `i` up to, not including, `j` close every bracket they open and no other:
read with any brackets open before them, they leave exactly those open. -/
def Closes (t : Tape) (i j : Nat) : Prop :=
  ∀ σ, Lexeme.nest σ (t.between i j) = some σ

namespace Closes

theorem refl (t : Tape) (i : Nat) : t.Closes i i := by
  intro σ
  rw [between_self]
  rfl

theorem trans (hij : i ≤ j) (hjk : j ≤ k) (h₁ : t.Closes i j) (h₂ : t.Closes j k) :
    t.Closes i k := by
  intro σ
  rw [between_append hij hjk, Lexeme.nest_append, h₁ σ]
  exact h₂ σ

/-- One lexeme that is no bracket. -/
theorem unbracketed (ho : (t.lexemeAt i).token.opening? = none)
    (hc : (t.lexemeAt i).token.closing? = none) : t.Closes i (i + 1) := by
  intro σ
  rw [between_succ]
  unfold Lexeme.nest
  simp only [List.foldlM_cons, Lexeme.nestStep_plain ho hc, List.foldlM_nil]
  rfl

/-- An expression's reading, from no bracket to none, closes what it opens: it nests the same
way above any brackets. -/
theorem of_nests (h : t.Nests i j [] []) : t.Closes i j :=
  fun σ => Lexeme.exprScan_nest (h σ 0)

/-- A run of lexemes none of which is a bracket. -/
theorem of_unbracketed (hij : i ≤ j) (h : ∀ k, i ≤ k → k < j →
    (t.lexemeAt k).token.opening? = none ∧ (t.lexemeAt k).token.closing? = none) :
    t.Closes i j := by
  induction j, hij using Nat.le_induction with
  | base => exact refl t i
  | succ j hij ih =>
    have last := h j hij (Nat.lt_succ_self j)
    exact (ih fun k lo hi => h k lo (Nat.lt_succ_of_lt hi)).trans hij (Nat.le_succ j)
      (unbracketed last.1 last.2)

end Closes

/-- Where a run that closes its brackets ends with none open, none was open where it began. -/
theorem closed_before {m : Nat} (hc : t.Closes i m) (him : i ≤ m)
    (hm : Lexeme.nest [] (t.between 0 m) = some []) : Lexeme.nest [] (t.between 0 i) = some [] := by
  rw [between_append (Nat.zero_le i) him, Lexeme.nest_append] at hm
  cases before : Lexeme.nest [] (t.between 0 i) with
  | none =>
    rw [before] at hm
    cases hm
  | some σ =>
    rw [before, Option.bind_some, hc σ] at hm
    exact congrArg some (Option.some.inj hm)

end Tape

namespace Grammar

variable {α β : Type} {t : Tape} {c c' : Cursor} {a : List (Char × Nat)}

/-- Every reading of `g` from `c` closes the brackets it opens. -/
def Closes (g : Grammar α) (t : Tape) (c : Cursor) : Prop :=
  ∀ r c', g.Reads t c r c' → t.Closes c.index c'.index

namespace Closes

theorem of_not_reads {g : Grammar α} (h : ∀ {r c'}, ¬ g.Reads t c r c') : Closes g t c :=
  fun _ _ hr => absurd hr h

theorem fail {f : GrammarFault} : Closes (Grammar.fail f : Grammar α) t c :=
  of_not_reads Reads.not_fail

theorem exhausted : Closes (Grammar.exhausted : Grammar α) t c :=
  of_not_reads Reads.not_fail

theorem fail_bind {f : GrammarFault} {k : α → Grammar β} : Closes (Grammar.fail f >>= k) t c :=
  of_not_reads fun h => Reads.fail_bind h

theorem pure {x : α} : Closes (Pure.pure x : Grammar α) t c := by
  intro r c' h
  obtain ⟨-, rfl⟩ := h.pure
  exact Tape.Closes.refl t _

theorem look_bind {f : Tape → Cursor → α} {k : α → Grammar β} (h : Closes (k (f t c)) t c) :
    Closes (Grammar.look f >>= k) t c :=
  fun _ _ hr => h _ _ hr.look_bind

theorem read_bind {k : Tape → Grammar β} (h : Closes (k t) t c) : Closes (read >>= k) t c :=
  look_bind h

/-- A reading in two parts, each closing what it opens. -/
theorem bind {x : Grammar α} {k : α → Grammar β} (hx : Closes x t c)
    (hk : ∀ r c₁, Closes (k r) t c₁) : Closes (x >>= k) t c := by
  intro r c' h
  obtain ⟨r₁, c₁, h₁, h₂⟩ := h.bind
  exact (hx r₁ c₁ h₁).trans h₁.advance.index_le h₂.advance.index_le (hk r₁ c₁ r c' h₂)

theorem map {x : Grammar α} {f : α → β} (hx : Closes x t c) : Closes (f <$> x) t c :=
  bind hx fun _ _ => pure

theorem discard {x : Grammar α} (hx : Closes x t c) : Closes (Functor.discard x) t c := by
  rw [discard_eq]
  exact bind hx fun _ _ => pure

theorem of_nests {g : Grammar α} (h : Nests g t c [] []) : Closes g t c :=
  fun _ _ hr => Tape.Closes.of_nests (h _ _ hr)

/-- Consuming a lexeme that is no bracket, then reading on. -/
theorem skip_bind {k : Unit → Grammar α} (ho : (t.lexemeAt c.index).token.opening? = none)
    (hc : (t.lexemeAt c.index).token.closing? = none) (hk : ∀ c₁, Closes (k ()) t c₁) :
    Closes (Grammar.skip >>= k) t c := by
  refine bind (fun u c₁ hs => ?_) fun _ c₁ => hk c₁
  obtain ⟨rfl, -⟩ := hs.skip
  exact Tape.Closes.unbracketed ho hc

theorem skip_plain_bind {k : Unit → Grammar α} (hp : (t.lexemeAt c.index).token.Plain)
    (hk : ∀ c₁, Closes (k ()) t c₁) : Closes (Grammar.skip >>= k) t c :=
  skip_bind hp.2.2.1 hp.2.2.2.1 hk

end Closes

/-! ### The parts of imports and of other simple statements -/

theorem dottedTail_nests (fuel : Nat) : ∀ c, Nests (dottedTail fuel) t c a a := by
  induction fuel with
  | zero => exact fun _ => Nests.exhausted
  | succ fuel ih =>
    intro c
    rw [dottedTail.eq_2]
    apply Nests.look_bind
    split
    next dot =>
      refine Nests.skip_bind (Nests.skip_plain (Token.plain_of_beq dot (by decide))) fun c₁ => ?_
      exact Nests.bind (Nests.discard expectName_nests) fun _ c₂ => ih c₂
    next => exact Nests.pure

theorem dottedName_nests : Nests dottedName t c a a := by
  unfold dottedName
  apply Nests.look_bind
  refine Nests.bind (Nests.discard expectName_nests) fun _ c₁ => ?_
  refine Nests.read_bind (Nests.bind (dottedTail_nests _ c₁) fun _ c₂ => ?_)
  exact Nests.look_bind (Nests.text_bind Nests.pure)

theorem asName_nests : Nests asName t c a a := by
  unfold asName
  apply Nests.look_bind
  split
  next as =>
    refine Nests.skip_bind (Nests.skip_plain (Token.plain_of_beq as (by decide))) fun c₁ => ?_
    exact Nests.bind expectName_nests fun _ _ => Nests.pure
  next => exact Nests.pure

theorem importedNames_nests : ∀ n parens (acc : Array ImportAlias) c,
    Nests (importedNames n parens acc) t c a a
  | 0, _, _, _ => Nests.exhausted
  | n + 1, parens, acc, c => by
    rw [importedNames.eq_2]
    apply Nests.look_bind
    split
    next => exact Nests.pure
    next =>
      refine Nests.bind expectName_nests fun _ c₁ => Nests.bind asName_nests fun _ c₂ => ?_
      apply Nests.look_bind
      split
      next => exact Nests.pure
      next comma =>
        exact Nests.skip_bind (Nests.skip_plain (Token.plain_of_not_bne comma (by decide)))
          fun c₃ => importedNames_nests n parens _ c₃

theorem importList_nests : ∀ n (acc : Array ImportAlias) c, Nests (importList n acc) t c a a
  | 0, _, _ => Nests.exhausted
  | n + 1, acc, c => by
    rw [importList.eq_2]
    refine Nests.bind dottedName_nests fun _ c₁ => Nests.bind asName_nests fun _ c₂ => ?_
    apply Nests.look_bind
    split
    next => exact Nests.pure
    next comma =>
      exact Nests.skip_bind (Nests.skip_plain (Token.plain_of_not_bne comma (by decide)))
        fun c₃ => importList_nests n _ c₃

theorem relativeLevel_nests : ∀ n level c, Nests (relativeLevel n level) t c a a
  | 0, _, _ => Nests.exhausted
  | n + 1, level, c => by
    rw [relativeLevel.eq_2]
    apply Nests.look_bind
    split
    next dot =>
      exact Nests.skip_bind (Nests.skip_plain (Token.plain_of_eq dot (by decide))) fun c₁ =>
        relativeLevel_nests n _ c₁
    next dots =>
      exact Nests.skip_bind (Nests.skip_plain (Token.plain_of_eq dots (by decide))) fun c₁ =>
        relativeLevel_nests n _ c₁
    next => exact Nests.pure

/-- `import ...`, from the `import` that the caller has seen. -/
theorem importStmt_nests (hk : (t.lexemeAt c.index).token.Plain) :
    Nests importStmt t c [] [] := by
  unfold importStmt
  refine Nests.skip_bind (Nests.skip_plain hk) fun c₁ => Nests.read_bind ?_
  exact Nests.bind (importList_nests _ _ c₁) fun _ _ => Nests.pure

/-- `from ... import ...`, from the `from` that the caller has seen: the names may stand in
parentheses, which close. -/
theorem fromImportStmt_nests (hk : (t.lexemeAt c.index).token.Plain) :
    Nests fromImportStmt t c [] [] := by
  unfold fromImportStmt
  refine Nests.skip_bind (Nests.skip_plain hk) fun c₁ => Nests.read_bind ?_
  refine Nests.bind (relativeLevel_nests _ _ c₁) fun level c₂ => ?_
  apply Nests.look_bind
  extract_lets jp
  have names : ∀ module c₃, Nests (jp module) t c₃ [] [] := by
    intro module c₃
    simp only [jp]
    split
    next => exact Nests.fail_bind
    next =>
      refine Nests.bind (expect_plain (by decide)) fun _ c₄ => ?_
      apply Nests.look_bind
      split
      next star =>
        exact Nests.skip_bind (Nests.skip_plain (Token.plain_of_beq star (by decide))) fun _ =>
          Nests.pure
      next =>
        apply Nests.look_bind
        split
        next opening =>
          refine Nests.skip_bind (Nests.skip_opening (by rw [beq_iff_eq.1 opening]; rfl))
            fun c₅ => ?_
          exact Nests.bind (importedNames_nests _ _ _ c₅) fun _ c₆ =>
            Nests.bind (expect_closing rfl) fun _ _ => Nests.pure
        next => exact Nests.bind (importedNames_nests _ _ _ c₄) fun _ _ => Nests.pure
  split
  next => exact Nests.bind (Nests.map dottedName_nests) names
  next => exact Nests.bind Nests.pure names

theorem nameList_nests (n : Nat) : ∀ c, Nests (nameList n) t c a a := by
  induction n with
  | zero => exact fun _ => Nests.exhausted
  | succ n ih =>
    intro c
    rw [nameList.eq_2]
    refine Nests.bind (Nests.discard expectName_nests) fun _ c₁ => ?_
    apply Nests.look_bind
    split
    next comma =>
      exact Nests.skip_bind (Nests.skip_plain (Token.plain_of_beq comma (by decide))) ih
    next => exact Nests.pure

/-- Type parameters, from the `[` that the caller has seen, up to the `]` that closes it. -/
theorem typeParams_nests (n : Nat) (hb : (t.lexemeAt c.index).token = .lBracket) :
    Nests (typeParams n) t c [] [] := by
  cases n with
  | zero => exact Nests.exhausted
  | succ n =>
    rw [typeParams.eq_2]
    refine Nests.skip_bind (Nests.skip_opening (by rw [hb]; rfl)) fun c₁ => ?_
    exact Nests.bind (typeParamList_nests n c₁ _) fun _ _ => expect_closing rfl

/-- `type Name = value`, from the `type` that the caller has seen. -/
theorem typeAlias_nests (n : Nat) (hk : (t.lexemeAt c.index).token.Plain) :
    Nests (typeAlias n) t c [] [] := by
  cases n with
  | zero => exact Nests.exhausted
  | succ n =>
    rw [typeAlias.eq_2]
    refine Nests.skip_bind (Nests.skip_plain hk) fun c₁ => ?_
    refine Nests.bind (Nests.discard expectName_nests) fun _ c₂ => ?_
    apply Nests.look_bind
    extract_lets jp
    have value : ∀ r c₃, Nests (jp r) t c₃ [] [] := by
      intro r c₃
      simp only [jp]
      exact Nests.bind (expect_plain (by decide)) fun _ c₄ => expression_nests n c₄
    split
    next bracket => exact Nests.bind (typeParams_nests n (beq_iff_eq.mp bracket)) value
    next => exact value () c₂

theorem assignedValue_nests (n : Nat) : Nests (assignedValue n) t c [] [] := by
  cases n with
  | zero => exact Nests.exhausted
  | succ n =>
    rw [assignedValue.eq_2]
    apply Nests.look_bind
    split
    next yield =>
      exact Nests.bind (yieldExpr_nests n c (Token.plain_of_beq yield (by decide))) fun _ _ =>
        Nests.pure
    next => exact starExpressions_nests n c

theorem assignChain_nests : ∀ n names c, Nests (assignChain n names) t c [] []
  | 0, _, _ => Nests.exhausted
  | n + 1, names, c => by
    rw [assignChain.eq_2]
    apply Nests.look_bind
    split
    next => exact Nests.pure
    next eq =>
      refine Nests.skip_bind (Nests.skip_plain (Token.plain_of_not_bne eq (by decide)))
        fun c₁ => ?_
      refine Nests.bind (assignedValue_nests n) fun _ c₂ => Nests.read_bind ?_
      exact Nests.look_bind (assignChain_nests n _ c₂)

/-! ### Simple statements -/

/-- An expression statement or an assignment; the colon of an annotation stands outside
brackets, and the annotation and value around it close theirs. -/
theorem expressionStmt_closes (n : Nat) : Closes (expressionStmt n) t c := by
  cases n with
  | zero => exact Closes.exhausted
  | succ n =>
    rw [expressionStmt.eq_2]
    refine Closes.bind (Closes.of_nests (assignedValue_nests n)) fun first c₁ => ?_
    apply Closes.look_bind
    split
    next => exact Closes.read_bind (Closes.of_nests (assignChain_nests n _ c₁))
    next aug =>
      extract_lets jp
      split
      next => exact Closes.fail_bind
      next =>
        simp only [jp]
        exact Closes.skip_plain_bind (Token.plain_of_eq aug (by decide)) fun c₂ =>
          Closes.bind (Closes.discard (Closes.of_nests (assignedValue_nests n))) fun _ _ =>
            Closes.pure
    next colon =>
      extract_lets jp
      split
      next => exact Closes.fail_bind
      next =>
        simp only [jp]
        refine Closes.skip_bind (by rw [colon]; rfl) (by rw [colon]; rfl) fun c₂ => ?_
        refine Closes.bind (Closes.of_nests (expression_nests n c₂)) fun _ c₃ => ?_
        apply Closes.look_bind
        split
        next => exact Closes.pure
        next eq =>
          refine Closes.skip_plain_bind (Token.plain_of_not_bne eq (by decide)) fun c₄ => ?_
          exact Closes.bind (Closes.discard (Closes.of_nests (assignedValue_nests n))) fun _ _ =>
            Closes.read_bind Closes.pure
    next => exact Closes.pure

/-- A simple statement closes the brackets it opens. -/
theorem simpleStmt_closes (n : Nat) : Closes (simpleStmt n) t c := by
  cases n with
  | zero => exact Closes.exhausted
  | succ n =>
    rw [simpleStmt.eq_2]
    apply Closes.look_bind
    apply Closes.look_bind
    extract_lets jp jp₁ jp₂ jp₃
    have finish : ∀ kind c₁, Closes (jp kind) t c₁ := by
      intro kind c₁
      simp only [jp]
      exact Closes.look_bind Closes.pure
    have finish₁ : ∀ r c₁, Closes (jp₁ r) t c₁ := by
      intro r c₁
      simp only [jp₁]
      exact Closes.bind Closes.pure finish
    have finish₂ : ∀ r c₁, Closes (jp₂ r) t c₁ := by
      intro r c₁
      simp only [jp₂]
      exact Closes.bind Closes.pure finish
    have finish₃ : ∀ r c₁, Closes (jp₃ r) t c₁ := by
      intro r c₁
      simp only [jp₃]
      exact Closes.bind Closes.pure finish
    have keyword {kw : Keyword} (h : (t.lexemeAt c.index).token = .keyword kw)
        (hl : kw ≠ .lambda) : (t.lexemeAt c.index).token.Plain := by
      rw [h]
      exact ⟨rfl, rfl, rfl, rfl, Token.noConfusion, fun e => hl (Token.keyword.inj e)⟩
    have plain {kw : Keyword} (h : (t.lexemeAt c.index).token = .keyword kw) (hl : kw ≠ .lambda) :
        Closes (Grammar.skip >>= fun _ => Pure.pure StmtKind.simple >>= jp) t c :=
      Closes.skip_plain_bind (keyword h hl) fun _ => Closes.bind Closes.pure finish
    split
    next kw =>
      exact Closes.bind (Closes.of_nests (importStmt_nests (keyword kw (by decide)))) finish
    next kw =>
      exact Closes.bind (Closes.of_nests (fromImportStmt_nests (keyword kw (by decide)))) finish
    next => exact Closes.fail_bind
    next => exact Closes.fail_bind
    next => exact Closes.fail_bind
    next => exact Closes.fail_bind
    next kw => exact plain kw (by decide)
    next kw => exact plain kw (by decide)
    next kw => exact plain kw (by decide)
    next kw =>
      refine Closes.skip_plain_bind (keyword kw (by decide)) fun c₁ => ?_
      refine Closes.bind (Closes.of_nests startsExpression_nests) fun b c₂ => ?_
      split
      next =>
        exact Closes.bind (Closes.discard (Closes.of_nests (starExpressions_nests n c₂))) finish₁
      next => exact finish₁ () c₂
    next kw =>
      refine Closes.skip_plain_bind (keyword kw (by decide)) fun c₁ => ?_
      refine Closes.bind (Closes.of_nests startsExpression_nests) fun b c₂ => ?_
      split
      next =>
        refine Closes.bind (Closes.of_nests (expression_nests n c₂)) fun _ c₃ => ?_
        apply Closes.look_bind
        split
        next source =>
          exact Closes.skip_plain_bind (Token.plain_of_beq source (by decide)) fun c₄ =>
            Closes.bind (Closes.of_nests (expression_nests n c₄)) finish₂
        next => exact finish₂ () c₃
      next => exact finish₂ () c₂
    next kw =>
      refine Closes.skip_plain_bind (keyword kw (by decide)) fun c₁ => Closes.read_bind ?_
      exact Closes.bind (Closes.of_nests (nameList_nests _ c₁)) fun _ _ =>
        Closes.bind Closes.pure finish
    next kw =>
      refine Closes.skip_plain_bind (keyword kw (by decide)) fun c₁ => Closes.read_bind ?_
      exact Closes.bind (Closes.of_nests (nameList_nests _ c₁)) fun _ _ =>
        Closes.bind Closes.pure finish
    next kw =>
      exact Closes.skip_plain_bind (keyword kw (by decide)) fun c₁ =>
        Closes.bind (Closes.of_nests (targetList_nests n c₁)) fun _ _ =>
          Closes.bind Closes.pure finish
    next kw =>
      refine Closes.skip_plain_bind (keyword kw (by decide)) fun c₁ => ?_
      refine Closes.bind (Closes.of_nests (expression_nests n c₁)) fun _ c₂ => ?_
      apply Closes.look_bind
      split
      next comma =>
        exact Closes.skip_plain_bind (Token.plain_of_beq comma (by decide)) fun c₃ =>
          Closes.bind (Closes.of_nests (expression_nests n c₃)) finish₃
      next => exact finish₃ () c₂
    next name =>
      apply Closes.look_bind
      split
      next =>
        exact Closes.bind (Closes.of_nests (typeAlias_nests n (Token.plain_of_eq name (by decide))))
          fun _ _ => Closes.bind Closes.pure finish
      next => exact Closes.bind (expressionStmt_closes n) finish
    next =>
      apply Closes.look_bind
      refine Closes.bind (expressionStmt_closes n) fun _ c₁ => ?_
      exact Closes.look_bind (Closes.bind Closes.pure finish)
    next => exact Closes.bind (expressionStmt_closes n) finish

theorem eatSemicolon_closes : Closes eatSemicolon t c := by
  unfold eatSemicolon
  apply Closes.look_bind
  split
  next => exact Closes.pure
  next semicolon =>
    refine Closes.skip_plain_bind (Token.plain_of_not_bne semicolon (by decide)) fun c₁ => ?_
    apply Closes.look_bind
    split <;> exact Closes.pure

theorem Reads.endLine_ends {u : Unit} (h : endLine.Reads t c u c') :
    (t.lexemeAt c.index).token.endsLine = true := by
  unfold endLine at h
  have h := h.look_bind
  split at h
  next newline => rw [newline]; rfl
  next dedent => rw [dedent]; rfl
  next eof => rw [eof]; rfl
  next => exact absurd h Reads.not_fail

/-- Simple statements separated by semicolons, from the first of them up to the lexeme that
ends their logical line, close every bracket they open. -/
theorem simpleLine_closes : ∀ n (acc : Array Stmt) {c r c'}, (simpleLine n acc).Reads t c r c' →
    ∃ m, c.index ≤ m ∧ t.Closes c.index m ∧ (t.lexemeAt m).token.endsLine = true
  | 0, _, _, _, _, h => absurd h Reads.not_exhausted
  | n + 1, acc, c, r, c', h => by
    rw [simpleLine.eq_2] at h
    obtain ⟨s, c₁, hs, h⟩ := h.bind
    obtain ⟨more, c₂, hm, h⟩ := h.bind
    have le := (hs.advance.trans hm.advance).index_le
    have closes : t.Closes c.index c₂.index :=
      (simpleStmt_closes n s c₁ hs).trans hs.advance.index_le hm.advance.index_le
        (eatSemicolon_closes more c₂ hm)
    split at h
    next =>
      obtain ⟨m, hle, rest, ends⟩ := simpleLine_closes n _ h
      exact ⟨m, Nat.le_trans le hle, closes.trans le hle rest, ends⟩
    next =>
      obtain ⟨_, c₃, he, -⟩ := h.bind
      exact ⟨c₂.index, le, closes, he.endLine_ends⟩

end Grammar

/-! ### Where the leaves of a tree are read -/

/-- A statement that holds no other statements has no body. -/
theorem StmtKind.not_hasBody {k : StmtKind} {body : Suite} (h : k.Leaf) : ¬ k.HasBody body := by
  cases k <;> simp_all [StmtKind.HasBody, StmtKind.Leaf]

namespace Tape

variable {t : Tape}

/-- Statement `s` is read as the first of a run of simple statements that ends a logical line:
a line of simple statements, or its rest after a semicolon or after the colon of a header. -/
def ReadsSimple (t : Tape) (s : Stmt) : Prop :=
  ∃ (n : Nat) (acc : Array Stmt) (c : Cursor) (r : Array Stmt) (c' : Cursor),
    (Grammar.simpleLine (n + 1) acc).Reads t c r c' ∧
    ∃ c₁, (Grammar.simpleStmt n).Reads t c s c₁

/-- Every statement among `ss`, at any depth, that holds no other statements is read as a
simple statement. -/
def LeavesRead (t : Tape) (ss : List Stmt) : Prop :=
  ∀ s, s.Occurs ss → s.kind.Leaf → t.ReadsSimple s

/-- A statement that holds others, all of whose leaves are read as simple statements. -/
def InsideRead (t : Tape) (p : Stmt) : Prop :=
  ¬ p.kind.Leaf ∧ ∀ body, p.kind.HasBody body → t.LeavesRead body.stmts

namespace LeavesRead

variable {ss ss' : List Stmt}

theorem nil : t.LeavesRead [] := by
  intro s h
  cases h with
  | here mem => exact absurd mem List.not_mem_nil
  | nested mem => exact absurd mem List.not_mem_nil

theorem append (h₁ : t.LeavesRead ss) (h₂ : t.LeavesRead ss') : t.LeavesRead (ss ++ ss') := by
  intro s h leaf
  cases h with
  | here mem =>
    rcases List.mem_append.1 mem with mem | mem
    · exact h₁ s (.here mem) leaf
    · exact h₂ s (.here mem) leaf
  | nested mem body inner =>
    rcases List.mem_append.1 mem with mem | mem
    · exact h₁ s (.nested mem body inner) leaf
    · exact h₂ s (.nested mem body inner) leaf

/-- Leaves read as simple statements. -/
theorem of_simple (h : ∀ s ∈ ss, s.kind.Leaf ∧ t.ReadsSimple s) : t.LeavesRead ss := by
  intro s occurs leaf
  cases occurs with
  | here mem => exact (h s mem).2
  | nested mem body => exact absurd body (StmtKind.not_hasBody (h _ mem).1)

theorem single {p : Stmt} (h : t.InsideRead p) : t.LeavesRead [p] := by
  intro s occurs leaf
  cases occurs with
  | here mem =>
    rw [List.mem_singleton.1 mem] at leaf
    exact absurd leaf h.1
  | nested mem body inner =>
    rw [List.mem_singleton.1 mem] at body
    exact h.2 _ body s inner leaf

end LeavesRead

end Tape

namespace Grammar

variable {t : Tape} {c c' : Cursor}

/-- Each statement of a line of simple statements is read as the first of the rest of the
line. -/
theorem simpleLine_readsSimple : ∀ n (acc : Array Stmt) {c r c'},
    (simpleLine n acc).Reads t c r c' →
      ∃ new, r.toList = acc.toList ++ new ∧ ∀ s ∈ new, s.kind.Leaf ∧ t.ReadsSimple s
  | 0, _, _, _, _, h => absurd h Reads.not_exhausted
  | n + 1, acc, c, r, c', h => by
    have whole := h
    rw [simpleLine.eq_2] at h
    obtain ⟨s, c₁, hs, h⟩ := h.bind
    have first : s.kind.Leaf ∧ t.ReadsSimple s :=
      ⟨(simpleStmt_yields n s c₁ hs).2, n, acc, c, r, c', whole, c₁, hs⟩
    obtain ⟨more, c₂, -, h⟩ := h.bind
    split at h
    · obtain ⟨new, eq, rest⟩ := simpleLine_readsSimple n _ h
      refine ⟨s :: new, by rw [eq, Array.toList_push, List.append_assoc, List.singleton_append],
        fun s' m => ?_⟩
      rcases List.mem_cons.mp m with rfl | m
      · exact first
      · exact rest s' m
    · obtain ⟨_, c₃, -, h⟩ := h.bind
      obtain ⟨rfl, rfl⟩ := h.pure
      refine ⟨[s], by rw [Array.toList_push], fun s' m => ?_⟩
      rw [List.mem_singleton.mp m]
      exact first

mutual

/-- Statements read after those in `acc`: the leaves among the new ones, at any depth, are
read as simple statements. -/
theorem statements_leavesRead : ∀ n inBlock (acc : Array Stmt) {c r c'},
    (statements n inBlock acc).Reads t c r c' →
      ∃ new, r.toList = acc.toList ++ new ∧ t.LeavesRead new
  | 0, _, _, _, _, _, h => by
    rw [statements.eq_1] at h
    exact absurd h Reads.not_exhausted
  | n + 1, inBlock, acc, c, r, c', h => by
    obtain ⟨c₁, -, cases⟩ := h.statements_cases
    rcases cases with ⟨-, rfl, rfl⟩ | ⟨-, -, rfl, rfl⟩ | ⟨-, acc', c₂, hl, h⟩
    · exact ⟨[], (List.append_nil _).symm, .nil⟩
    · exact ⟨[], (List.append_nil _).symm, .nil⟩
    · obtain ⟨new₁, eq₁, read₁⟩ := stmtLine_leavesRead n acc hl
      obtain ⟨new₂, eq₂, read₂⟩ := statements_leavesRead n inBlock acc' h
      exact ⟨new₁ ++ new₂, by rw [eq₂, eq₁, List.append_assoc], read₁.append read₂⟩
termination_by structural n => n

/-- A logical line: a statement that holds others, or simple statements. -/
theorem stmtLine_leavesRead : ∀ n (acc : Array Stmt) {c r c'},
    (stmtLine n acc).Reads t c r c' → ∃ new, r.toList = acc.toList ++ new ∧ t.LeavesRead new
  | 0, _, _, _, _, h => by
    rw [stmtLine.eq_1] at h
    exact absurd h Reads.not_exhausted
  | n + 1, acc, c, r, c', h => by
    have single : ∀ {s : Stmt}, t.InsideRead s →
        ∃ new, (acc.push s).toList = acc.toList ++ new ∧ t.LeavesRead new :=
      fun read => ⟨[_], Array.toList_push, .single read⟩
    cases h.stmtLine_cases with
    | decorated s _ pushed hd =>
      rw [pushed]
      exact single (decorated_leavesRead n hd)
    | functionDef s _ pushed hd =>
      rw [pushed]
      exact single (functionDef_leavesRead n hd)
    | classDef s _ pushed hd =>
      rw [pushed]
      exact single (classDef_leavesRead n hd)
    | asyncDef s _ _ pushed hd =>
      rw [pushed]
      exact single (functionDef_leavesRead n hd)
    | asyncCompound s _ _ pushed hd =>
      rw [pushed]
      exact single (compound_leavesRead n hd)
    | compound s _ _ pushed hd =>
      rw [pushed]
      exact single (compound_leavesRead n hd)
    | softBlock s _ pushed hd =>
      rw [pushed]
      exact single (softBlock_leavesRead n hd)
    | simple _ _ _ hl =>
      obtain ⟨new, split, simple⟩ := simpleLine_readsSimple n acc hl
      exact ⟨new, split, .of_simple simple⟩
termination_by structural n => n

/-- A body: simple statements on the colon's line, or the statements of a block. -/
theorem suite_leavesRead : ∀ n (owner : BlockOwner) {c body c'},
    (suite n owner).Reads t c body c' → t.LeavesRead body.stmts
  | 0, _, _, _, _, h => by
    rw [suite.eq_1] at h
    exact absurd h Reads.not_exhausted
  | n + 1, owner, c, body, c', h => by
    obtain ⟨-, ⟨stmts, rfl, hl⟩ | ⟨-, -, c₃, ind, stmts, -, rfl, hst⟩⟩ := h.suite_cases
    · obtain ⟨new, split, simple⟩ := simpleLine_readsSimple n #[] hl
      rw [Suite.stmts, split, Array.toList_empty, List.nil_append]
      exact .of_simple simple
    · obtain ⟨new, eq, read⟩ := statements_leavesRead n true #[] hst
      rw [Suite.stmts, eq, Array.toList_empty, List.nil_append]
      exact read
termination_by structural n => n

theorem decorated_leavesRead : ∀ n {start : Nat} {c s c'},
    (decorated n start).Reads t c s c' → t.InsideRead s
  | 0, _, _, _, _, h => by
    rw [decorated.eq_1] at h
    exact absurd h Reads.not_exhausted
  | n + 1, start, c, s, c', h => by
    obtain ⟨ds, c₁, s₀, -, rfl, read⟩ := h.decorated_cases
    suffices inside : t.InsideRead s₀ from inside
    rcases read with ⟨-, hf⟩ | ⟨-, -, hf⟩ | ⟨-, hf⟩
    · exact functionDef_leavesRead n hf
    · exact functionDef_leavesRead n hf
    · exact classDef_leavesRead n hf
termination_by structural n => n

theorem functionDef_leavesRead : ∀ n {start : Nat} {ds : List Decorator} {c s c'},
    (functionDef n start ds).Reads t c s c' → t.InsideRead s
  | 0, _, _, _, _, _, h => by
    rw [functionDef.eq_1] at h
    exact absurd h Reads.not_exhausted
  | n + 1, start, ds, c, s, c', h => by
    obtain ⟨c₁, d, -, -, hsu, kind⟩ := h.functionDef_cases
    refine ⟨by rw [kind]; exact id, fun body hb => ?_⟩
    rw [kind] at hb
    rw [← show d.body = body from hb]
    exact suite_leavesRead n _ hsu
termination_by structural n => n

theorem classDef_leavesRead : ∀ n {start : Nat} {ds : List Decorator} {c s c'},
    (classDef n start ds).Reads t c s c' → t.InsideRead s
  | 0, _, _, _, _, _, h => by
    rw [classDef.eq_1] at h
    exact absurd h Reads.not_exhausted
  | n + 1, start, ds, c, s, c', h => by
    obtain ⟨c₁, d, -, -, hsu, kind⟩ := h.classDef_cases
    refine ⟨by rw [kind]; exact id, fun body hb => ?_⟩
    rw [kind] at hb
    rw [← show d.body = body from hb]
    exact suite_leavesRead n _ hsu
termination_by structural n => n

theorem compound_leavesRead : ∀ n {start : Nat} {c s c'},
    (compound n start).Reads t c s c' → t.InsideRead s
  | 0, _, _, _, _, h => by
    rw [compound.eq_1] at h
    exact absurd h Reads.not_exhausted
  | n + 1, start, c, s, c', h => by
    obtain ⟨first, c₁, cls, hcl, hm, -, rfl⟩ := h.compound_cases
    have read₁ := clause_leavesRead n hcl
    obtain ⟨more, split, read₂⟩ := moreClauses_leavesRead n _ _ _ hm
    refine ⟨id, fun body ⟨cl, mem, hb⟩ => ?_⟩
    rw [← hb]
    rw [split] at mem
    rcases List.mem_cons.1 mem with rfl | mem
    · exact read₁
    · exact read₂ cl mem
termination_by structural n => n

theorem moreClauses_leavesRead : ∀ n first last (acc : Array Clause) {c r c'},
    (moreClauses n first last acc).Reads t c r c' →
      ∃ more, r.toList = acc.toList ++ more ∧ ∀ cl ∈ more, t.LeavesRead cl.body.stmts
  | 0, _, _, _, _, _, _, h => by
    rw [moreClauses.eq_1] at h
    exact absurd h Reads.not_exhausted
  | n + 1, first, last, acc, c, r, c', h => by
    rcases h.moreClauses_cases with ⟨rfl, rfl, -⟩ | ⟨-, cl, c₁, -, -, hcl, h⟩
    · exact ⟨[], (List.append_nil _).symm, fun _ m => absurd m List.not_mem_nil⟩
    · obtain ⟨more, split, read⟩ := moreClauses_leavesRead n first cl.keyword _ h
      refine ⟨cl :: more, by rw [split, Array.toList_push, List.append_assoc]; rfl,
        fun cl' m => ?_⟩
      rcases List.mem_cons.1 m with rfl | m
      · exact clause_leavesRead n hcl
      · exact read cl' m
termination_by structural n => n

theorem clause_leavesRead : ∀ n {c cl c'}, (clause n).Reads t c cl c' →
    t.LeavesRead cl.body.stmts
  | 0, _, _, _, h => by
    rw [clause.eq_1] at h
    exact absurd h Reads.not_exhausted
  | n + 1, c, cl, c', h => by
    obtain ⟨c₁, -, -, -, hsu⟩ := h.clause_cases
    exact suite_leavesRead n _ hsu
termination_by structural n => n

theorem softBlock_leavesRead : ∀ n {start : Nat} {c s c'},
    (softBlock n start).Reads t c s c' → t.InsideRead s
  | 0, _, _, _, _, h => by
    rw [softBlock.eq_1] at h
    exact absurd h Reads.not_exhausted
  | n + 1, start, c, s, c', h => by
    obtain ⟨c₁, cl, -, -, -, hsu, rfl⟩ := h.softBlock_cases
    refine ⟨id, fun body ⟨cl', mem, hb⟩ => ?_⟩
    rw [List.mem_singleton.1 mem] at hb
    rw [← hb]
    exact suite_leavesRead n _ hsu
termination_by structural n => n

end

end Grammar

/-! ### Where lines end, no bracket is open -/

/-- A lexeme that ends a line is one the scan gave, or lies past the last one, which ends the
input, with only ends of input from there on. -/
theorem Tape.lineEnd_scanned {src : String} {m : Nat}
    (hm : ((Tape.ofSource src).lexemeAt m).token.endsLine = true) :
    ∃ n, n < (Lexeme.scan src).size ∧ n ≤ m ∧
      ((Tape.ofSource src).lexemeAt n).token.endsLine = true ∧
      ∀ k, n ≤ k → k < m → ((Tape.ofSource src).lexemeAt k).token = .eof := by
  by_cases inside : m < (Lexeme.scan src).size
  · exact ⟨m, inside, Nat.le_refl m, hm, fun k lo hi => absurd hi (Nat.not_lt.mpr lo)⟩
  · obtain ⟨l, mem, eof⟩ := Lexeme.scan_ends src
    obtain ⟨n, hn, rfl⟩ := List.getElem_of_mem mem
    have at_n : (Tape.ofSource src).lexemeAt n = (Lexeme.scan src).toList[n] :=
      Tape.lexemeAt_ofSource (by rw [← Array.getElem?_toList]; exact List.getElem?_eq_getElem hn)
    have last := Scanner.lexemes_eof _ _ _ _ (List.getElem?_eq_getElem hn) eof
    rw [Array.length_toList] at hn last
    refine ⟨n, hn, by omega, by rw [at_n, eof]; rfl, fun k lo _ => ?_⟩
    exact Tape.eof_after (by rw [at_n]; exact eof) lo

/-- In a source with no lexical fault, the lexemes before a line end, a dedent or the end of
input close every bracket they open: the scanner gives those only outside brackets. -/
theorem Tape.closed_at_lineEnd {src : String}
    (hf : ∀ l ∈ (Lexeme.scan src).toList, l.token.fault? = none) {m : Nat}
    (hm : ((Tape.ofSource src).lexemeAt m).token.endsLine = true) :
    Lexeme.nest [] ((Tape.ofSource src).between 0 m) = some [] := by
  have tape : (Tape.ofSource src).lexemes = Lexeme.scan src := rfl
  obtain ⟨n, hn, hnm, ends, after⟩ := Tape.lineEnd_scanned hm
  have at_n : (Lexeme.scan src)[n]? = some ((Tape.ofSource src).lexemeAt n) := by
    rw [Tape.lexemeAt_eq, tape, Array.getElem?_eq_getElem hn, ← Array.getElem_toList,
      List.getElem?_eq_getElem (by rw [Array.length_toList]; exact hn), Option.getD_some]
  have lt : n < (Lexeme.scan src).toList.length := by
    rw [Array.length_toList]
    exact hn
  obtain ⟨live, nested, below⟩ :=
    Scanner.nested_after src lt fun x hx => hf x (List.mem_of_mem_take hx)
  -- the scanner gives the line end with the brackets it holds open, so none is
  have inBrackets : Lexeme.InBrackets src (Scanner.after n (Scanner.ofSource src)).brackets
      ((Tape.ofSource src).lexemeAt n) := by
    rw [← Array.getElem?_toList] at at_n
    rw [Scanner.lexemes_getElem? _ _ n at_n]
    exact (Scanner.next_step _).inBrackets live below
  have empty : (Scanner.after n (Scanner.ofSource src)).brackets = [] := inBrackets.layout (by
    revert ends
    cases (Tape.ofSource src).lexemeAt n |>.token <;> simp [Token.endsLine, Token.isLayout])
  have prefix_ : (Tape.ofSource src).between 0 n = (Lexeme.scan src).toList.take n := by
    rw [Tape.between_eq_extract _ (by rw [tape]; exact Nat.le_of_lt hn), tape,
      Array.toList_extract, List.extract_eq_take_drop, List.drop_zero, Nat.sub_zero]
  have rest : (Tape.ofSource src).Closes n m :=
    Tape.Closes.of_unbracketed hnm fun k lo hi => by
      rw [after k lo hi]
      exact ⟨rfl, rfl⟩
  rw [Tape.between_append (Nat.zero_le n) hnm, Lexeme.nest_append, prefix_, nested, empty,
    Option.bind_some]
  exact rest []

/-- Every statement of a source's tree that holds no other statements, at any depth, is read
as a simple statement from a lexeme before which every bracket of the source is closed. -/
theorem Module.leaves_outside_brackets {src : String} {m : Module} (h : Module.parse src = .ok m)
    {s : Stmt} (hs : s.Occurs m.body) (leaf : s.kind.Leaf) :
    ∃ (n : Nat) (c c' : Cursor), (Grammar.simpleStmt n).Reads (Tape.ofSource src) c s c' ∧
      Lexeme.nest [] ((Tape.ofSource src).between 0 c.index) = some [] := by
  unfold Module.parse at h
  dsimp only at h
  split at h
  · next body c adv heq =>
    cases h
    have reads : (Grammar.statements _ false #[]).Reads (Tape.ofSource src) ⟨0, 0⟩ body c :=
      ⟨adv, heq⟩
    have clean := Lexeme.scan_noFault adv (Grammar.statements_ends _ _ reads)
    obtain ⟨new, eq, read⟩ := Grammar.statements_leavesRead _ false #[] reads
    rw [show body.toList = new from eq.trans (List.nil_append new)] at hs
    obtain ⟨n, acc, c₀, r, c', line, c₁, first⟩ := read s hs leaf
    obtain ⟨e, le, closes, ends⟩ := Grammar.simpleLine_closes _ _ line
    exact ⟨n, c₀, c₁, first, Tape.closed_before closes le (Tape.closed_at_lineEnd clean ends)⟩
  · cases h

end PyTune
