import PyTune.Proofs.LogicalLines

/-!
# Statement rules, case by case

One lemma per statement rule says every way a reading of it can go, naming only the lexemes
where lines and blocks start and end; walks over statements cite these instead of unfolding
the rules again.
-/

namespace PyTune

/-- The keyword of a compound statement that may take more clauses: `if`, `for`, `while`,
`with` or `try`, as spelled. -/
def Token.header? : Token → Option String
  | .keyword .if => some "if"
  | .keyword .for => some "for"
  | .keyword .while => some "while"
  | .keyword .with => some "with"
  | .keyword .try => some "try"
  | _ => none

theorem Token.header?_eq_some {tok : Token} {kw : String} (h : tok.header? = some kw) :
    ∃ k, tok = .keyword k ∧ k.spelling = kw := by
  cases tok with
  | keyword k => cases k <;> simp_all [header?, Keyword.spelling]
  | _ => simp [header?] at h

theorem Token.header?_cases {tok : Token} {kw : String} (h : tok.header? = some kw) :
    kw = "if" ∨ kw = "for" ∨ kw = "while" ∨ kw = "with" ∨ kw = "try" := by
  cases tok with
  | keyword k => cases k <;> simp_all [header?]
  | _ => simp [header?] at h

theorem Token.clauseKeyword?_eq_some {tok : Token} {next : String}
    (h : tok.clauseKeyword? = some next) : ∃ k, tok = .keyword k ∧ k.spelling = next := by
  cases tok with
  | keyword k => cases k <;> simp_all [clauseKeyword?, Keyword.spelling]
  | _ => simp [clauseKeyword?] at h

namespace Grammar

variable {α β : Type} {t : Tape} {c c' : Cursor}

/-- A first part that stays within the line, then the rest. -/
theorem Reads.bind_within {x : Grammar α} {k : α → Grammar β} {b : β} (hx : WithinLine x t c)
    (h : (x >>= k).Reads t c b c') :
    ∃ a c₁, c.index ≤ c₁.index ∧ t.WithinLine c.index c₁.index ∧ (k a).Reads t c₁ b c' := by
  obtain ⟨a, c₁, hr, hk⟩ := h.bind
  exact ⟨a, c₁, hr.advance.index_le, hx a c₁ hr, hk⟩

/-- What `statements` reads: blank lines, then the end of input, the dedent that closes its
block, or a logical line and the statements after it. -/
theorem Reads.statements_cases {n : Nat} {inBlock : Bool} {acc r : Array Stmt}
    (h : (statements (n + 1) inBlock acc).Reads t c r c') :
    ∃ c₁, skipNewlines.Reads t c () c₁ ∧
      ((t.lexemeAt c₁.index).token = .eof ∧ r = acc ∧ c' = c₁ ∨
        (t.lexemeAt c₁.index).token = .dedent ∧ inBlock = true ∧ r = acc ∧
          c' = c₁.past (t.lexemeAt c₁.index) ∨
        (t.lexemeAt c₁.index).token.isLayout = false ∧
          ∃ acc' c₂, (stmtLine n acc).Reads t c₁ acc' c₂ ∧ (statements n inBlock acc').Reads t c₂ r c') := by
  rw [statements.eq_2] at h
  obtain ⟨⟨⟩, c₁, hs, h⟩ := h.bind
  have noNewline := (skipNewlines_reads hs).2.2
  refine ⟨c₁, hs, ?_⟩
  have h := h.look_bind
  split at h
  next eof =>
    obtain ⟨rfl, rfl⟩ := h.pure
    exact .inl ⟨eof, rfl, rfl⟩
  next dedent =>
    split at h
    next inBlock =>
      obtain ⟨_, c₂, hsk, h⟩ := h.bind
      obtain ⟨rfl, -⟩ := hsk.skip
      obtain ⟨rfl, rfl⟩ := h.pure
      exact .inr (.inl ⟨dedent, inBlock, rfl, rfl⟩)
    next => exact absurd h Reads.not_fail
  next => exact absurd h Reads.not_fail
  next eof dedent indent =>
    obtain ⟨acc', c₂, hl, h⟩ := h.bind
    refine .inr (.inr ⟨?_, acc', c₂, hl, h⟩)
    cases htok : (t.lexemeAt c₁.index).token <;> simp_all [Token.isLayout]

/-- The ways a logical line is read from its first lexeme, giving `r` after the statements
`acc`: a definition or a compound statement that the lexeme begins, or simple statements. -/
inductive LineCase (n : Nat) (t : Tape) (c : Cursor) (acc r : Array Stmt) (c' : Cursor) : Prop
  | decorated (s : Stmt) (sign : (t.lexemeAt c.index).token = .atSign) (pushed : r = acc.push s)
      (h : (decorated n (t.lexemeAt c.index).span.start).Reads t c s c')
  | functionDef (s : Stmt) (defn : (t.lexemeAt c.index).token = .keyword .defn)
      (pushed : r = acc.push s) (h : (functionDef n (t.lexemeAt c.index).span.start []).Reads t c s c')
  | classDef (s : Stmt) (cls : (t.lexemeAt c.index).token = .keyword .class)
      (pushed : r = acc.push s) (h : (classDef n (t.lexemeAt c.index).span.start []).Reads t c s c')
  | asyncDef (s : Stmt) (async : (t.lexemeAt c.index).token = .keyword .async)
      (defn : (t.lexemeAt (c.index + 1)).token = .keyword .defn) (pushed : r = acc.push s)
      (h : (functionDef n (t.lexemeAt c.index).span.start []).Reads t
        (c.past (t.lexemeAt c.index)) s c')
  | asyncCompound (s : Stmt) (async : (t.lexemeAt c.index).token = .keyword .async)
      (kw : (t.lexemeAt (c.index + 1)).token = .keyword .for ∨
        (t.lexemeAt (c.index + 1)).token = .keyword .with) (pushed : r = acc.push s)
      (h : (compound n (t.lexemeAt c.index).span.start).Reads t (c.past (t.lexemeAt c.index)) s c')
  | compound (s : Stmt) (kw : String) (header : (t.lexemeAt c.index).token.header? = some kw)
      (pushed : r = acc.push s) (h : (compound n (t.lexemeAt c.index).span.start).Reads t c s c')
  | softBlock (s : Stmt)
      (soft : (t.lexemeAt c.index).token = .keyword .match ∨
        (t.lexemeAt c.index).token = .keyword .case) (pushed : r = acc.push s)
      (h : (softBlock n (t.lexemeAt c.index).span.start).Reads t c s c')
  | simple (noClause : (t.lexemeAt c.index).token.clauseKeyword? = none)
      (noHeader : (t.lexemeAt c.index).token.header? = none)
      (sync : (t.lexemeAt c.index).token ≠ .keyword .async)
      (h : (simpleLine n acc).Reads t c r c')

/-- A logical line is read in one of the ways `LineCase` lists: a line never starts with
`elif`, `else`, `except` or `finally`. -/
theorem Reads.stmtLine_cases {n : Nat} {acc r : Array Stmt}
    (h : (stmtLine (n + 1) acc).Reads t c r c') : LineCase n t c acc r c' := by
  rw [stmtLine.eq_2] at h
  replace h := h.look_bind.look_bind
  split at h
  next sign =>
    obtain ⟨s, c₁, hd, h⟩ := h.bind
    obtain ⟨rfl, rfl⟩ := h.pure
    exact .decorated s sign rfl hd
  next defn =>
    obtain ⟨s, c₁, hd, h⟩ := h.bind
    obtain ⟨rfl, rfl⟩ := h.pure
    exact .functionDef s defn rfl hd
  next cls =>
    obtain ⟨s, c₁, hd, h⟩ := h.bind
    obtain ⟨rfl, rfl⟩ := h.pure
    exact .classDef s cls rfl hd
  next async =>
    obtain ⟨_, c₁, hsk, h⟩ := h.bind
    obtain ⟨rfl, -⟩ := hsk.skip
    have h := h.look_bind
    split at h
    next defn =>
      obtain ⟨s, c₂, hd, h⟩ := h.bind
      obtain ⟨rfl, rfl⟩ := h.pure
      exact .asyncDef s async defn rfl hd
    next loop =>
      obtain ⟨s, c₂, hd, h⟩ := h.bind
      obtain ⟨rfl, rfl⟩ := h.pure
      exact .asyncCompound s async (.inl loop) rfl hd
    next context =>
      obtain ⟨s, c₂, hd, h⟩ := h.bind
      obtain ⟨rfl, rfl⟩ := h.pure
      exact .asyncCompound s async (.inr context) rfl hd
    next => exact absurd h Reads.not_fail
  all_goals first
    | exact absurd h Reads.not_fail
    | (rename_i kw
       obtain ⟨s, c₁, hd, h⟩ := h.bind
       obtain ⟨rfl, rfl⟩ := h.pure
       exact .compound s _ (by rw [kw]; rfl) rfl hd)
    | (rename_i kw
       have h := h.look_bind
       split at h
       · obtain ⟨s, c₁, hd, h⟩ := h.bind
         obtain ⟨rfl, rfl⟩ := h.pure
         first
           | exact .softBlock s (.inl kw) rfl hd
           | exact .softBlock s (.inr kw) rfl hd
       · exact .simple (by rw [kw]; rfl) (by rw [kw]; rfl) (by rw [kw]; decide) h)
    | -- any other first token: simple statements
      (refine .simple ?_ ?_ ?_ h <;> clear h <;>
        generalize (t.lexemeAt c.index).token = tok at * <;>
        cases tok with
        | keyword k => cases k <;> simp_all [Token.clauseKeyword?, Token.header?]
        | _ => simp [Token.clauseKeyword?, Token.header?])

/-- A compound statement: its first clause, the clauses that may follow it, and, for a `try`,
an `except` or a `finally` among them. -/
theorem Reads.compound_cases {n start : Nat} {s : Stmt} (h : (compound (n + 1) start).Reads t c s c') :
    ∃ first c₁ cls, (clause n).Reads t c first c₁ ∧
      (moreClauses n first.keyword first.keyword #[first]).Reads t c₁ cls c' ∧
      (first.keyword = "try" → ∃ cl ∈ cls.toList, cl.keyword = "except" ∨ cl.keyword = "finally") ∧
      s = ⟨.source ⟨start, c'.lastEnd⟩, .compound cls.toList⟩ := by
  rw [compound.eq_2] at h
  obtain ⟨first, c₁, hcl, h⟩ := h.bind
  obtain ⟨cls, c₂, hm, h⟩ := h.bind
  extract_lets jp at h
  obtain ⟨handled, h⟩ : (first.keyword = "try" →
      ∃ cl ∈ cls.toList, cl.keyword = "except" ∨ cl.keyword = "finally") ∧ (jp ()).Reads t c₂ s c' := by
    split at h
    · exact (Reads.fail_bind h).elim
    · next unhandled =>
      refine ⟨fun isTry => ?_, h⟩
      simpa [isTry, ← Array.any_toList, List.any_eq_true, or_iff_not_imp_left] using unhandled
  simp only [jp] at h
  obtain ⟨rfl, rfl⟩ := h.look_bind.pure
  exact ⟨first, c₁, cls, hcl, hm, handled, rfl⟩

/-- Further clauses: none, when the next token is no clause keyword that may follow the
clauses so far, or one more clause and those after it. -/
theorem Reads.moreClauses_cases {n : Nat} {first last : String} {acc r : Array Clause}
    (h : (moreClauses (n + 1) first last acc).Reads t c r c') :
    r = acc ∧ c' = c ∧ (∀ next, (t.lexemeAt c.index).token.clauseKeyword? = some next →
        continuesWith first last next = false) ∨
      ∃ next cl c₁, (t.lexemeAt c.index).token.clauseKeyword? = some next ∧
        continuesWith first last next = true ∧ (clause n).Reads t c cl c₁ ∧
        (moreClauses n first cl.keyword (acc.push cl)).Reads t c₁ r c' := by
  rw [moreClauses.eq_2] at h
  replace h := h.look_bind
  split at h
  next next keyword =>
    split at h
    next follows =>
      obtain ⟨cl, c₁, hcl, h⟩ := h.bind
      exact .inr ⟨next, cl, c₁, keyword, follows, hcl, h⟩
    next stops =>
      obtain ⟨rfl, rfl⟩ := h.pure
      refine .inl ⟨rfl, rfl, fun next' keyword' => ?_⟩
      rw [keyword] at keyword'
      cases keyword'
      simpa using stops
  next none =>
    obtain ⟨rfl, rfl⟩ := h.pure
    exact .inl ⟨rfl, rfl, fun next keyword => by rw [none] at keyword; cases keyword⟩

/-- A clause: its keyword, a header that stays on the keyword's line, and its body. The clause
is named by the text of its keyword. -/
theorem Reads.clause_cases {n : Nat} {cl : Clause} (h : (clause (n + 1)).Reads t c cl c') :
    ∃ c₁, c.index + 1 ≤ c₁.index ∧ t.WithinLine (c.index + 1) c₁.index ∧
      cl.keyword = (t.lexemeAt c.index).span.text t.source ∧
      (suite n (.statement cl.keyword)).Reads t c₁ cl.body c' := by
  rw [clause.eq_2] at h
  obtain ⟨kw, c₁, hb, h⟩ := h.bind
  obtain ⟨rfl, rfl, -⟩ := hb.bump
  replace h := h.read_bind.look_bind
  extract_lets jp at h
  obtain ⟨c₂, le, within, h⟩ : ∃ c₂, c.index + 1 ≤ c₂.index ∧
      t.WithinLine (c.index + 1) c₂.index ∧ (jp ()).Reads t c₂ cl c' := by
    split at h
    all_goals first
      | (obtain ⟨⟨⟩, c₂, le, within, h⟩ :=
          Reads.bind_within (WithinLine.of_nests (namedExpression_nests n _)) h
         exact ⟨c₂, le, within, h⟩)
      | (obtain ⟨⟨⟩, c₂, le, within, h⟩ := Reads.bind_within (withItems_withinLine n) h
         exact ⟨c₂, le, within, h⟩)
      | (obtain ⟨⟨⟩, c₂, le, within, h⟩ := Reads.bind_within (exceptHeader_withinLine n) h
         exact ⟨c₂, le, within, h⟩)
      | (obtain ⟨⟨⟩, c₂, le₁, within₁, h⟩ :=
          Reads.bind_within (WithinLine.of_nests (targetList_nests n _)) h
         obtain ⟨⟨⟩, c₃, le₂, within₂, h⟩ := Reads.bind_within (expect_withinLine rfl) h
         obtain ⟨⟨⟩, c₄, le₃, within₃, h⟩ :=
          Reads.bind_within (WithinLine.discard (WithinLine.of_nests (starExpressions_nests n _))) h
         exact ⟨c₄, by simp only [Cursor.past] at le₁; omega,
          within₁.trans (within₂.trans within₃), h⟩)
      | exact ⟨_, Nat.le_refl _, Tape.WithinLine.refl t _, h⟩
  simp only [jp] at h
  replace h := h.read_bind.look_bind
  obtain ⟨body, c₃, hsu, h⟩ := h.bind
  obtain ⟨rfl, rfl⟩ := h.pure
  exact ⟨c₂, le, within, rfl, hsu⟩

/-- A clause is named by the text of its keyword. -/
theorem Reads.clause_keyword {n : Nat} {cl : Clause} (h : (clause n).Reads t c cl c') :
    cl.keyword = (t.lexemeAt c.index).span.text t.source := by
  cases n with
  | zero =>
    rw [clause.eq_1] at h
    exact absurd h Reads.not_exhausted
  | succ n =>
    obtain ⟨_, -, -, named, -⟩ := h.clause_cases
    exact named

/-- A body: a colon, then simple statements on the same line, or a newline, an indent and the
statements of the block up to its dedent. -/
theorem Reads.suite_cases {n : Nat} {owner : BlockOwner} {body : Suite}
    (h : (suite (n + 1) owner).Reads t c body c') :
    (t.lexemeAt c.index).token = .colon ∧
      ((∃ stmts, body = .inline stmts.toList ∧
          (simpleLine n #[]).Reads t (c.past (t.lexemeAt c.index)) stmts c') ∨
        (t.lexemeAt (c.index + 1)).token = .newline ∧ (t.lexemeAt (c.index + 2)).token = .indent ∧
          ∃ c₃ indent stmts, c₃.index = c.index + 3 ∧ body = .block indent stmts.toList ∧
            (statements n true #[]).Reads t c₃ stmts c') := by
  rw [suite.eq_2] at h
  obtain ⟨⟨⟩, c₁, hx, h⟩ := h.bind
  obtain ⟨colon, rfl⟩ := Reads.expect hx
  refine ⟨colon, ?_⟩
  replace h := h.look_bind
  extract_lets block afterNewline at h
  split at h
  next newline =>
    simp only [afterNewline] at h
    obtain ⟨_, c₂, hs, h⟩ := h.bind
    obtain ⟨rfl, -⟩ := hs.skip
    replace h := h.look_bind
    split at h
    · exact (Reads.fail_bind h).elim
    · next indent =>
      simp only [block] at h
      obtain ⟨_, c₃, hs, h⟩ := h.bind
      obtain ⟨rfl, -⟩ := hs.skip
      replace h := h.read_bind.look_bind
      obtain ⟨stmts, c₄, hst, h⟩ := h.bind
      obtain ⟨rfl, rfl⟩ := h.pure
      simp only [bne_iff_ne, ne_eq, Decidable.not_not] at indent
      exact .inr ⟨newline, indent, _, _, stmts, rfl, rfl, hst⟩
  all_goals first
    | exact (Reads.fail_bind h).elim
    | (obtain ⟨stmts, c₂, hl, h⟩ := h.bind
       obtain ⟨rfl, rfl⟩ := h.pure
       exact .inl ⟨stmts, rfl, hl⟩)

/-- A `match` or `case` statement: its keyword, a header that stays on the keyword's line, and
one clause named by the keyword's text. -/
theorem Reads.softBlock_cases {n start : Nat} {s : Stmt} (h : (softBlock (n + 1) start).Reads t c s c') :
    ∃ c₁ cl, c.index + 1 ≤ c₁.index ∧ t.WithinLine (c.index + 1) c₁.index ∧
      cl.keyword = (t.lexemeAt c.index).span.text t.source ∧
      (suite n (.statement cl.keyword)).Reads t c₁ cl.body c' ∧
      s = ⟨.source ⟨start, c'.lastEnd⟩, .compound [cl]⟩ := by
  rw [softBlock.eq_2] at h
  obtain ⟨kw, c₁, hb, h⟩ := h.bind
  obtain ⟨rfl, rfl, -⟩ := hb.bump
  replace h := h.read_bind.look_bind
  extract_lets jp at h
  obtain ⟨c₂, le, within, h⟩ : ∃ c₂, c.index + 1 ≤ c₂.index ∧
      t.WithinLine (c.index + 1) c₂.index ∧ (jp ()).Reads t c₂ s c' := by
    split at h
    · obtain ⟨⟨⟩, c₂, le, within, h⟩ :=
        Reads.bind_within (WithinLine.of_nests (starNamedExpressions_nests n _)) h
      exact ⟨c₂, le, within, h⟩
    · obtain ⟨⟨⟩, c₂, le, within, h⟩ :=
        Reads.bind_within (skipPattern_withinLine _ 0 0 _) h.read_bind
      exact ⟨c₂, le, within, h⟩
  simp only [jp] at h
  replace h := h.read_bind.look_bind
  obtain ⟨body, c₃, hsu, h⟩ := h.bind
  obtain ⟨rfl, rfl⟩ := h.look_bind.pure
  exact ⟨c₂, _, le, within, rfl, hsu, rfl⟩

/-- A function definition: `def`, a header that stays on its line, and the body. -/
theorem Reads.functionDef_cases {n start : Nat} {ds : List Decorator} {s : Stmt}
    (h : (functionDef (n + 1) start ds).Reads t c s c') :
    ∃ c₁ d, c.index + 1 ≤ c₁.index ∧ t.WithinLine (c.index + 1) c₁.index ∧
      (suite n .functionDef).Reads t c₁ d.body c' ∧ s.kind = .functionDef d := by
  rw [functionDef.eq_2] at h
  obtain ⟨_, c₁, hs, h⟩ := h.bind
  obtain ⟨rfl, -⟩ := hs.skip
  obtain ⟨name, c₂, le₁, within₁, h⟩ := Reads.bind_within expectName_withinLine h
  replace h := h.look_bind
  extract_lets rest₂ rest₁ at h
  obtain ⟨c₃, le₂, within₂, h⟩ : ∃ c₃, c₂.index ≤ c₃.index ∧ t.WithinLine c₂.index c₃.index ∧
      (rest₁ ()).Reads t c₃ s c' := by
    split at h
    next bracket =>
      obtain ⟨⟨⟩, c₃, le, within, h⟩ :=
        Reads.bind_within (typeParams_withinLine n (beq_iff_eq.mp bracket)) h
      exact ⟨c₃, le, within, h⟩
    next => exact ⟨c₂, Nat.le_refl _, Tape.WithinLine.refl t _, h⟩
  simp only [rest₁] at h
  obtain ⟨⟨⟩, c₄, le₃, within₃, h⟩ := Reads.bind_within (expect_withinLine rfl) h
  obtain ⟨⟨⟩, c₅, le₄, within₄, h⟩ := Reads.bind_within
    (WithinLine.of_nests (parameters_nests n _ _ _ [('(', 0)] fun _ => List.cons_ne_nil _ _)) h
  obtain ⟨⟨⟩, c₆, le₅, within₅, h⟩ := Reads.bind_within (expect_withinLine rfl) h
  replace h := h.look_bind
  obtain ⟨c₇, le₆, within₆, h⟩ : ∃ c₇, c₆.index ≤ c₇.index ∧ t.WithinLine c₆.index c₇.index ∧
      (rest₂ ()).Reads t c₇ s c' := by
    split at h
    next arrow =>
      obtain ⟨⟨⟩, c₇, le, within, h⟩ :=
        Reads.bind_within (WithinLine.skip (Token.endsLine_of_beq arrow rfl)) h
      obtain ⟨⟨⟩, c₈, le', within', h⟩ :=
        Reads.bind_within (WithinLine.of_nests (expression_nests n _)) h
      exact ⟨c₈, Nat.le_trans le le', within.trans within', h⟩
    next => exact ⟨c₆, Nat.le_refl _, Tape.WithinLine.refl t _, h⟩
  simp only [rest₂] at h
  obtain ⟨body, c₈, hsu, h⟩ := h.bind
  replace h := h.read_bind.look_bind
  obtain ⟨rfl, rfl⟩ := h.pure
  simp only [Cursor.past] at le₁
  exact ⟨c₇, _, by omega, within₁.trans (within₂.trans (within₃.trans (within₄.trans
    (within₅.trans within₆)))), hsu, rfl⟩

/-- A class definition: `class`, a header that stays on its line, and the body. -/
theorem Reads.classDef_cases {n start : Nat} {ds : List Decorator} {s : Stmt}
    (h : (classDef (n + 1) start ds).Reads t c s c') :
    ∃ c₁ d, c.index + 1 ≤ c₁.index ∧ t.WithinLine (c.index + 1) c₁.index ∧
      (suite n .classDef).Reads t c₁ d.body c' ∧ s.kind = .classDef d := by
  rw [classDef.eq_2] at h
  obtain ⟨_, c₁, hs, h⟩ := h.bind
  obtain ⟨rfl, -⟩ := hs.skip
  obtain ⟨name, c₂, le₁, within₁, h⟩ := Reads.bind_within expectName_withinLine h
  replace h := h.look_bind
  extract_lets rest₂ rest₁ at h
  obtain ⟨c₃, le₂, within₂, h⟩ : ∃ c₃, c₂.index ≤ c₃.index ∧ t.WithinLine c₂.index c₃.index ∧
      (rest₁ ()).Reads t c₃ s c' := by
    split at h
    next bracket =>
      obtain ⟨⟨⟩, c₃, le, within, h⟩ :=
        Reads.bind_within (typeParams_withinLine n (beq_iff_eq.mp bracket)) h
      exact ⟨c₃, le, within, h⟩
    next => exact ⟨c₂, Nat.le_refl _, Tape.WithinLine.refl t _, h⟩
  simp only [rest₁] at h
  replace h := h.look_bind
  obtain ⟨c₄, le₃, within₃, h⟩ : ∃ c₄, c₃.index ≤ c₄.index ∧ t.WithinLine c₃.index c₄.index ∧
      (rest₂ ()).Reads t c₄ s c' := by
    split at h
    next paren =>
      obtain ⟨⟨⟩, c₄, le, within, h⟩ :=
        Reads.bind_within (WithinLine.skip (Token.endsLine_of_beq paren rfl)) h
      obtain ⟨⟨⟩, c₅, le', within', h⟩ :=
        Reads.bind_within (WithinLine.of_nests (callArguments_nests n _ ('(', 0))) h
      obtain ⟨⟨⟩, c₆, le'', within'', h⟩ := Reads.bind_within (expect_withinLine rfl) h
      exact ⟨c₆, Nat.le_trans le (Nat.le_trans le' le''), within.trans (within'.trans within''), h⟩
    next => exact ⟨c₃, Nat.le_refl _, Tape.WithinLine.refl t _, h⟩
  simp only [rest₂] at h
  obtain ⟨body, c₅, hsu, h⟩ := h.bind
  replace h := h.read_bind.look_bind
  obtain ⟨rfl, rfl⟩ := h.pure
  simp only [Cursor.past] at le₁
  exact ⟨c₄, _, by omega, within₁.trans (within₂.trans within₃), hsu, rfl⟩

/-- Decorator lines: none when no `@` comes, or an `@`, the rest of its line, blank lines and
the decorators after them. -/
theorem Reads.decoratorList_cases {n : Nat} {acc : Array Decorator} {ds : List Decorator}
    (h : (decoratorList (n + 1) acc).Reads t c ds c') :
    (t.lexemeAt c.index).token ≠ .atSign ∧ c' = c ∨
      (t.lexemeAt c.index).token = .atSign ∧ ∃ d c₁ c₂, t.LineRest (c.index + 1) c₁.index ∧
        skipNewlines.Reads t c₁ () c₂ ∧ (decoratorList n (acc.push d)).Reads t c₂ ds c' := by
  rw [decoratorList.eq_2] at h
  replace h := h.look_bind
  split at h
  next other =>
    obtain ⟨rfl, rfl⟩ := h.pure
    exact .inl ⟨by simpa using other, rfl⟩
  next sign =>
    obtain ⟨l, c₁, hb, h⟩ := h.bind
    obtain ⟨rfl, rfl, -⟩ := hb.bump
    replace h := h.look_bind
    obtain ⟨⟨⟩, c₂, le₁, within₁, h⟩ :=
      Reads.bind_within (WithinLine.of_nests (namedExpression_nests n _)) h
    replace h := h.look_bind
    obtain ⟨⟨⟩, c₃, he, h⟩ := h.bind
    replace h := h.look_bind.read_bind
    obtain ⟨⟨⟩, c₄, hs, h⟩ := h.bind
    simp only [bne_iff_ne, ne_eq, Decidable.not_not] at sign
    exact .inr ⟨sign, _, c₃, c₄, (endLine_lineRest he).prepend le₁ within₁, hs, h⟩

/-- Decorators, then the function or class they decorate, which takes the span from the first
`@` on. -/
theorem Reads.decorated_cases {n start : Nat} {s : Stmt}
    (h : (decorated (n + 1) start).Reads t c s c') :
    ∃ ds c₁ s₀, (decoratorList n #[]).Reads t c ds c₁ ∧
      s = { s₀ with origin := .source ⟨start, c'.lastEnd⟩ } ∧
      ((t.lexemeAt c₁.index).token = .keyword .defn ∧
          (functionDef n (t.lexemeAt c₁.index).span.start ds).Reads t c₁ s₀ c' ∨
        (t.lexemeAt c₁.index).token = .keyword .async ∧
          (t.lexemeAt (c₁.index + 1)).token = .keyword .defn ∧
          (functionDef n (t.lexemeAt c₁.index).span.start ds).Reads t
            (c₁.past (t.lexemeAt c₁.index)) s₀ c' ∨
        (t.lexemeAt c₁.index).token = .keyword .class ∧
          (classDef n (t.lexemeAt c₁.index).span.start ds).Reads t c₁ s₀ c') := by
  rw [decorated.eq_2] at h
  extract_lets finish at h
  obtain ⟨ds, c₁, hd, h⟩ := h.bind
  replace h := h.look_bind.look_bind
  obtain ⟨s₀, c₂, read, h⟩ : ∃ s₀ c₂, ((t.lexemeAt c₁.index).token = .keyword .defn ∧
          (functionDef n (t.lexemeAt c₁.index).span.start ds).Reads t c₁ s₀ c₂ ∨
        (t.lexemeAt c₁.index).token = .keyword .async ∧
          (t.lexemeAt (c₁.index + 1)).token = .keyword .defn ∧
          (functionDef n (t.lexemeAt c₁.index).span.start ds).Reads t
            (c₁.past (t.lexemeAt c₁.index)) s₀ c₂ ∨
        (t.lexemeAt c₁.index).token = .keyword .class ∧
          (classDef n (t.lexemeAt c₁.index).span.start ds).Reads t c₁ s₀ c₂) ∧
      (finish s₀).Reads t c₂ s c' := by
    split at h
    next defn =>
      obtain ⟨s₀, c₂, hf, h⟩ := h.bind
      exact ⟨s₀, c₂, .inl ⟨defn, hf⟩, h⟩
    next async =>
      obtain ⟨_, c₂, hs, h⟩ := h.bind
      obtain ⟨rfl, -⟩ := hs.skip
      replace h := h.look_bind
      extract_lets afterAsync at h
      split at h
      · exact (Reads.fail_bind h).elim
      · next defn =>
        simp only [afterAsync] at h
        obtain ⟨s₀, c₃, hf, h⟩ := h.bind
        simp only [bne_iff_ne, ne_eq, Decidable.not_not] at defn
        exact ⟨s₀, c₃, .inr (.inl ⟨async, defn, hf⟩), h⟩
    next cls =>
      obtain ⟨s₀, c₂, hf, h⟩ := h.bind
      exact ⟨s₀, c₂, .inr (.inr ⟨cls, hf⟩), h⟩
    next => exact (Reads.fail_bind h).elim
  simp only [finish] at h
  obtain ⟨rfl, rfl⟩ := h.look_bind.pure
  exact ⟨ds, c₁, s₀, hd, rfl, read⟩

end Grammar

end PyTune
