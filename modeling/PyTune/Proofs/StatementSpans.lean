import PyTune.Proofs.LexemeSteps
import PyTune.Proofs.Definitions
import PyTune.Proofs.StatementDepth

/-!
# Statements span their own lexemes

Each statement and decorator is read from its own run of lexemes (`Anchored`), and its span
runs from its first lexeme of code to its last (`Tape.CodeSpan`); a definition's offset is
where its keyword starts.
-/

namespace PyTune

/-! ### Spans over the lexemes -/

namespace Tape

variable (t : Tape)

/-- The span of the lexemes from `i` up to, not including, `j`: from the start of lexeme `i`, a
lexeme of code, to the end of the last lexeme of code among them. -/
structure CodeSpan (sp : Span) (i j : Nat) : Prop where
  first : (t.lexemeAt i).token.isLayout = false
  start : sp.start = t.startAt i
  last : ∃ k, i ≤ k ∧ t.LastCode k j ∧ sp.stop = (t.lexemeAt k).span.stop

/-- A function definition starts at lexeme `h`: its `def`, or the `async` just before it. -/
def DefHead (h : Nat) : Prop :=
  (t.lexemeAt h).token = .keyword .defn ∨
    (t.lexemeAt h).token = .keyword .async ∧ (t.lexemeAt (h + 1)).token = .keyword .defn

end Tape

/-- Lexemes from a lexeme of code `i` up to `j` span from where `i` starts to the end of code
before `j`. -/
theorem Tape.CodeSpan.of_endOfCode {t : Tape} {i j : Nat}
    (hi : (t.lexemeAt i).token.isLayout = false) (lt : i < j) :
    t.CodeSpan ⟨t.startAt i, t.endOfCode j⟩ i j :=
  ⟨hi, rfl, t.endOfCode_last hi lt⟩

/-- Decorators read from lexeme `i` on, before the definition's first lexeme `h`: each from the
source, spanning its own lexemes, after those of the one before. -/
def Anchored.decorators (t : Tape) : Nat → List Decorator → Nat → Prop
  | i, [], h => i ≤ h
  | i, d :: ds, h =>
    ∃ sp i₁ j₁, d.origin = .source sp ∧ i ≤ i₁ ∧ t.CodeSpan sp i₁ j₁ ∧ Anchored.decorators t j₁ ds h

mutual

/-- Statements read from lexeme `i` up to lexeme `j`: each from the source, spanning its own
lexemes, after those of the one before, and holding what it holds among them. -/
def Anchored.stmts (t : Tape) : Nat → List Stmt → Nat → Prop
  | i, [], j => i ≤ j
  | i, s :: rest, j =>
    ∃ sp i₁ j₁, s.origin = .source sp ∧ i ≤ i₁ ∧ t.CodeSpan sp i₁ j₁ ∧ Anchored.stmt t i₁ s j₁ ∧
      Anchored.stmts t j₁ rest j

/-- What a statement read from lexeme `i` up to lexeme `j` holds: a definition's decorators, then
its first lexeme `h`, where its offset is and from which its indent is taken, then its body; a
compound statement's clauses, in order. -/
def Anchored.stmt (t : Tape) : Nat → Stmt → Nat → Prop
  | i, ⟨_, .functionDef ⟨_, ds, indent, offset, body⟩⟩, j =>
    ∃ h, Anchored.decorators t i ds h ∧ t.DefHead h ∧ offset = t.startAt h ∧
      indent = Source.indentBefore t.source offset ∧ Anchored.suite t h body j
  | i, ⟨_, .classDef ⟨_, ds, indent, offset, body⟩⟩, j =>
    ∃ h, Anchored.decorators t i ds h ∧ (t.lexemeAt h).token = .keyword .class ∧
      offset = t.startAt h ∧ indent = Source.indentBefore t.source offset ∧
      Anchored.suite t h body j
  | i, ⟨_, .compound cs⟩, j => Anchored.clauses t i cs j
  | i, _, j => i ≤ j

/-- The bodies of clauses, one after the other, read from lexeme `i` up to lexeme `j`. -/
def Anchored.clauses (t : Tape) : Nat → List Clause → Nat → Prop
  | i, [], j => i ≤ j
  | i, ⟨_, _, _, body⟩ :: cs, j => ∃ mid, Anchored.suite t i body mid ∧ Anchored.clauses t mid cs j

/-- A body read from lexeme `i` up to lexeme `j`. -/
def Anchored.suite (t : Tape) : Nat → Suite → Nat → Prop
  | i, .inline body, j => Anchored.stmts t i body j
  | i, .block _ body, j => Anchored.stmts t i body j

end

namespace Anchored

variable {t : Tape}

/-- A statement from the source spanning the lexemes from `i` up to `j`, holding what it holds
among them. -/
def spanning (t : Tape) (s : Stmt) (i j : Nat) : Prop :=
  ∃ sp, s.origin = .source sp ∧ t.CodeSpan sp i j ∧ Anchored.stmt t i s j

/-- A definition read from its first lexeme `h` up to lexeme `j`: it spans from where that
lexeme starts, and with its decorators read from lexeme `i` on it holds what it holds from `i`
to `j`. -/
def definition (t : Tape) (s : Stmt) (ds : List Decorator) (h j : Nat) : Prop :=
  s.origin = .source ⟨t.startAt h, t.endOfCode j⟩ ∧
    ∀ i, Anchored.decorators t i ds h → Anchored.stmt t i s j

theorem spanning_of {s : Stmt} {i j : Nat} (ho : s.origin = .source ⟨t.startAt i, t.endOfCode j⟩)
    (lt : i < j) (hl : (t.lexemeAt i).token.isLayout = false) (hs : Anchored.stmt t i s j) :
    Anchored.spanning t s i j :=
  ⟨_, ho, Tape.CodeSpan.of_endOfCode hl lt, hs⟩

theorem definition.spanning {s : Stmt} {h j : Nat} (hd : Anchored.definition t s [] h j)
    (lt : h < j) (hl : (t.lexemeAt h).token.isLayout = false) : Anchored.spanning t s h j :=
  spanning_of hd.1 lt hl (hd.2 h (Nat.le_refl h))

theorem stmt_leaf {i j : Nat} {s : Stmt} (hk : s.kind.Leaf) (h : i ≤ j) : Anchored.stmt t i s j := by
  obtain ⟨o, k⟩ := s
  cases k <;> first | exact hk.elim | exact h

theorem stmt_origin {i j : Nat} (s : Stmt) (o : Origin) :
    Anchored.stmt t i { s with origin := o } j ↔ Anchored.stmt t i s j := by
  obtain ⟨o', k⟩ := s
  cases k with
  | functionDef d | classDef d =>
    obtain ⟨_, _, _, _, _⟩ := d
    simp only [Anchored.stmt]
  | _ => rfl

theorem stmts_lower {i i' j : Nat} (hle : i' ≤ i) {xs : List Stmt} :
    Anchored.stmts t i xs j → Anchored.stmts t i' xs j := by
  cases xs with
  | nil => exact fun h => Nat.le_trans hle h
  | cons s rest =>
    rintro ⟨sp, i₁, j₁, ho, hi, hcs, hs, hr⟩
    exact ⟨sp, i₁, j₁, ho, Nat.le_trans hle hi, hcs, hs, hr⟩

theorem suite_lower {i i' j : Nat} (hle : i' ≤ i) {body : Suite} :
    Anchored.suite t i body j → Anchored.suite t i' body j := by
  cases body with
  | inline b => exact stmts_lower hle
  | block _ b => exact stmts_lower hle

theorem stmts_raise {i j j' : Nat} (hle : j ≤ j') {xs : List Stmt} :
    Anchored.stmts t i xs j → Anchored.stmts t i xs j' := by
  induction xs generalizing i with
  | nil => exact fun h => Nat.le_trans h hle
  | cons s rest ih =>
    rintro ⟨sp, i₁, j₁, ho, hi, hcs, hs, hr⟩
    exact ⟨sp, i₁, j₁, ho, hi, hcs, hs, ih hr⟩

/-- A statement read after the statements read up to `mid`. -/
theorem stmts_snoc {s : Stmt} {mid i₁ j₁ : Nat} (hs : Anchored.spanning t s i₁ j₁)
    (hmid : mid ≤ i₁) {xs : List Stmt} {i : Nat} :
    Anchored.stmts t i xs mid → Anchored.stmts t i (xs ++ [s]) j₁ := by
  induction xs generalizing i with
  | nil =>
    intro h
    obtain ⟨sp, ho, hcs, hst⟩ := hs
    exact ⟨sp, i₁, j₁, ho, Nat.le_trans h hmid, hcs, hst, Nat.le_refl j₁⟩
  | cons s' rest ih =>
    rintro ⟨sp, i', j', ho, hi, hcs, hs', hr⟩
    exact ⟨sp, i', j', ho, hi, hcs, hs', ih hr⟩

theorem clauses_raise {i j j' : Nat} (hle : j ≤ j') {cs : List Clause} :
    Anchored.clauses t i cs j → Anchored.clauses t i cs j' := by
  induction cs generalizing i with
  | nil => exact fun h => Nat.le_trans h hle
  | cons cl rest ih =>
    obtain ⟨_, _, _, _⟩ := cl
    rintro ⟨mid, hb, hr⟩
    exact ⟨mid, hb, ih hr⟩

/-- A clause whose body is read after the clauses read up to `mid`. -/
theorem clauses_snoc {mid j : Nat} {body : Suite} (k : String) (names strings : List String)
    (hb : Anchored.suite t mid body j) {cs : List Clause} {i : Nat} :
    Anchored.clauses t i cs mid → Anchored.clauses t i (cs ++ [⟨k, names, strings, body⟩]) j := by
  induction cs generalizing i with
  | nil =>
    exact fun h => ⟨j, suite_lower h hb, Nat.le_refl j⟩
  | cons cl rest ih =>
    obtain ⟨_, _, _, _⟩ := cl
    rintro ⟨m, hb', hr⟩
    exact ⟨m, hb', ih hr⟩

theorem decorators_raise {i h h' : Nat} (hle : h ≤ h') {ds : List Decorator} :
    Anchored.decorators t i ds h → Anchored.decorators t i ds h' := by
  induction ds generalizing i with
  | nil => exact fun hd => Nat.le_trans hd hle
  | cons d rest ih =>
    rintro ⟨sp, i₁, j₁, ho, hi, hcs, hr⟩
    exact ⟨sp, i₁, j₁, ho, hi, hcs, ih hr⟩

/-- A decorator read after the decorators read up to `mid`. -/
theorem decorators_snoc {d : Decorator} {sp : Span} {mid i₁ j₁ : Nat} (hd : d.origin = .source sp)
    (hcs : t.CodeSpan sp i₁ j₁) (hmid : mid ≤ i₁) {ds : List Decorator} {i : Nat} :
    Anchored.decorators t i ds mid → Anchored.decorators t i (ds ++ [d]) j₁ := by
  induction ds generalizing i with
  | nil => exact fun h => ⟨sp, i₁, j₁, hd, Nat.le_trans h hmid, hcs, Nat.le_refl j₁⟩
  | cons d' rest ih =>
    rintro ⟨sp', i', j', ho, hi, hcs', hr⟩
    exact ⟨sp', i', j', ho, hi, hcs', ih hr⟩

end Anchored



namespace Grammar

variable {α β : Type} {t : Tape} {c c' : Cursor}

/-! ### Simple statements start with a lexeme of code -/

/-- Every reading of `g` from `c` starts at a lexeme of code. -/
def Opens (g : Grammar α) (t : Tape) (c : Cursor) : Prop :=
  ∀ a c', g.Reads t c a c' → (t.lexemeAt c.index).token.isLayout = false

namespace Opens

theorem of_code {g : Grammar α} (h : (t.lexemeAt c.index).token.isLayout = false) : Opens g t c :=
  fun _ _ _ => h

theorem of_not_reads {g : Grammar α} (h : ∀ {a c'}, ¬ g.Reads t c a c') : Opens g t c :=
  fun _ _ hr => absurd hr h

theorem fail {f : GrammarFault} : Opens (Grammar.fail f : Grammar α) t c :=
  of_not_reads Reads.not_fail

theorem exhausted : Opens (Grammar.exhausted : Grammar α) t c :=
  of_not_reads Reads.not_fail

/-- A reading whose first part starts at a lexeme of code. -/
theorem bind {x : Grammar α} {k : α → Grammar β} (hx : Opens x t c) : Opens (x >>= k) t c := by
  intro b c' h
  obtain ⟨a, c₁, hr, -⟩ := h.bind
  exact hx a c₁ hr

theorem look_bind {f : Tape → Cursor → α} {k : α → Grammar β} (h : Opens (k (f t c)) t c) :
    Opens (Grammar.look f >>= k) t c :=
  fun _ _ hr => h _ _ hr.look_bind

end Opens

theorem atom_opens (n : Nat) : Opens (atom n) t c := by
  cases n with
  | zero => exact Opens.exhausted
  | succ n =>
    rw [atom.eq_2]
    refine Opens.look_bind ?_
    -- every way on tests the token first: a literal, a bracket or a name
    split
    case h_11 =>
      split
      · next name => exact Opens.of_code (Token.isLayout_of_nameText name)
      · exact Opens.fail
    all_goals exact Opens.of_code (by simp only [*, Token.isLayout])

theorem primary_opens (n : Nat) : Opens (primary n) t c := by
  cases n with
  | zero => exact Opens.exhausted
  | succ n =>
    rw [primary.eq_2]
    exact Opens.bind (atom_opens n)

theorem factor_opens (n : Nat) : Opens (factor n) t c := by
  cases n with
  | zero => exact Opens.exhausted
  | succ n =>
    rw [factor.eq_2]
    refine Opens.look_bind ?_
    split
    · next unary => exact Opens.of_code (Token.isLayout_of_isUnary unary)
    · refine Opens.look_bind ?_
      split
      · next await => exact Opens.of_code (Token.isLayout_of_beq await rfl)
      · exact primary_opens n

theorem comparison_opens (n : Nat) : Opens (comparison n) t c := by
  cases n with
  | zero => exact Opens.exhausted
  | succ n =>
    rw [comparison.eq_2]
    exact Opens.bind (factor_opens n)

theorem inversion_opens (n : Nat) : Opens (inversion n) t c := by
  cases n with
  | zero => exact Opens.exhausted
  | succ n =>
    rw [inversion.eq_2]
    refine Opens.look_bind ?_
    split
    · next negated => exact Opens.of_code (Token.isLayout_of_beq negated rfl)
    · exact comparison_opens n

theorem disjunction_opens (n : Nat) : Opens (disjunction n) t c := by
  cases n with
  | zero => exact Opens.exhausted
  | succ n =>
    rw [disjunction.eq_2]
    exact Opens.bind (inversion_opens n)

theorem expression_opens (n : Nat) : Opens (expression n) t c := by
  cases n with
  | zero => exact Opens.exhausted
  | succ n =>
    rw [expression.eq_2]
    refine Opens.look_bind ?_
    split
    · next lambda => exact Opens.of_code (Token.isLayout_of_beq lambda rfl)
    · exact Opens.bind (disjunction_opens n)

theorem starExpressions_opens (n : Nat) : Opens (starExpressions n) t c := by
  cases n with
  | zero => exact Opens.exhausted
  | succ n =>
    rw [starExpressions.eq_2]
    cases n with
    | zero => exact Opens.exhausted
    | succ n =>
      rw [starExpressionsFrom.eq_2]
      refine Opens.look_bind (Opens.look_bind ?_)
      split
      · next star => exact Opens.of_code (Token.isLayout_of_beq star rfl)
      · exact Opens.bind (expression_opens n)

theorem assignedValue_opens (n : Nat) : Opens (assignedValue n) t c := by
  cases n with
  | zero => exact Opens.exhausted
  | succ n =>
    rw [assignedValue.eq_2]
    refine Opens.look_bind ?_
    split
    · next yield => exact Opens.of_code (Token.isLayout_of_beq yield rfl)
    · exact starExpressions_opens n

theorem expressionStmt_opens (n : Nat) : Opens (expressionStmt n) t c := by
  cases n with
  | zero => exact Opens.exhausted
  | succ n =>
    rw [expressionStmt.eq_2]
    exact Opens.bind (assignedValue_opens n)

/-- A simple statement starts with a keyword it tests for, or with an expression. -/
theorem simpleStmt_opens (n : Nat) : Opens (simpleStmt n) t c := by
  cases n with
  | zero => exact Opens.exhausted
  | succ n =>
    rw [simpleStmt.eq_2]
    refine Opens.look_bind (Opens.look_bind ?_)
    dsimp only
    split
    all_goals first
      | exact Opens.bind Opens.fail
      | exact Opens.bind (expressionStmt_opens n)
      | exact Opens.look_bind (Opens.bind (expressionStmt_opens n))
      | exact Opens.of_code (by simp only [*, Token.isLayout])

/-! ### Parts that only move the cursor -/

/-- A part that gives nothing and consumes lexemes one at a time, then the jump on to `k`: `k`
reads on from a later cursor, in step if the first was. -/
theorem Walks.jump {x : Grammar Unit} {k : Unit → Grammar β} {b : β} (hx : Walks x t)
    (hc : c.Tracks t) (h : (x >>= k).Reads t c b c') :
    ∃ c₁, c.index ≤ c₁.index ∧ c₁.Tracks t ∧ (k ()).Reads t c₁ b c' := by
  obtain ⟨_, c₁, hr, hk⟩ := h.bind
  exact ⟨c₁, hr.advance.index_le, hx.tracks hr hc, hk⟩

/-! ### Statements over their lexemes -/

/-- A simple statement read from `c` spans its own lexemes, from the one at `c` on, and holds
no statements. -/
theorem simpleStmt_anchored (n : Nat) (hc : c.Tracks t) {s : Stmt}
    (h : (simpleStmt n).Reads t c s c') : Anchored.spanning t s c.index c'.index := by
  obtain ⟨origin, leaf⟩ := simpleStmt_yields n s c' h
  have lt := simpleStmt_moves n s c' h
  rw [(simpleStmt_walks n).tracks h hc] at origin
  exact Anchored.spanning_of origin lt (simpleStmt_opens n s c' h)
    (Anchored.stmt_leaf leaf (Nat.le_of_lt lt))

theorem simpleLine_anchored :
    ∀ n (acc : Array Stmt) {c r c'} {i : Nat}, c.Tracks t → (simpleLine n acc).Reads t c r c' →
      Anchored.stmts t i acc.toList c.index → Anchored.stmts t i r.toList c'.index
  | 0, _, _, _, _, _, _, h, _ => absurd h Reads.not_exhausted
  | n + 1, acc, c, r, c', i, hc, h, hacc => by
    rw [simpleLine.eq_2] at h
    obtain ⟨s, c₁, hs, h⟩ := h.bind
    obtain ⟨more, c₂, he, h⟩ := h.bind
    have tracks₂ := eatSemicolon_walks.tracks he ((simpleStmt_walks n).tracks hs hc)
    have placed : Anchored.stmts t i (acc.push s).toList c₂.index := by
      rw [Array.toList_push]
      exact Anchored.stmts_raise he.advance.index_le
        (Anchored.stmts_snoc (simpleStmt_anchored n hc hs) (Nat.le_refl _) hacc)
    split at h
    · exact simpleLine_anchored n _ tracks₂ h placed
    · obtain ⟨_, c₃, hl, h⟩ := h.bind
      obtain ⟨rfl, rfl⟩ := h.pure
      exact Anchored.stmts_raise hl.advance.index_le placed

/-- The decorators of a definition, each from its `@` to the end of its line's code. -/
theorem decoratorList_anchored :
    ∀ n (acc : Array Decorator) {c ds c'} {i : Nat}, c.Tracks t →
      (decoratorList n acc).Reads t c ds c' →
      Anchored.decorators t i acc.toList c.index → Anchored.decorators t i ds c'.index
  | 0, _, _, _, _, _, _, h, _ => by
    rw [decoratorList.eq_1] at h
    exact absurd h Reads.not_exhausted
  | n + 1, acc, c, ds, c', i, hc, h, hacc => by
    rw [decoratorList.eq_2] at h
    have h := h.look_bind
    split at h
    · obtain ⟨rfl, rfl⟩ := h.pure
      exact hacc
    · next sign =>
      obtain ⟨l, c₁, hb, h⟩ := h.bind
      have tracks₁ := Walks.bump.tracks hb hc
      obtain ⟨rfl, rfl, -⟩ := hb.bump
      obtain ⟨_, c₂, h₂, h⟩ := h.look_bind.bind
      obtain ⟨_, c₃, h₃, h⟩ := h.look_bind.bind
      obtain ⟨_, c₄, h₄, h⟩ := h.look_bind.read_bind.bind
      have tracks₃ := endLine_walks.tracks h₃ ((namedExpression_walks n).tracks h₂ tracks₁)
      have lt : c.index < c₃.index :=
        Nat.lt_of_lt_of_le (Nat.lt_succ_self _) (h₂.advance.trans h₃.advance).index_le
      have spans := Tape.CodeSpan.of_endOfCode (Token.isLayout_of_not_bne sign rfl) lt
      refine decoratorList_anchored n _ (skipNewlines_walks.tracks h₄ tracks₃) h ?_
      rw [Array.toList_push]
      refine Anchored.decorators_raise h₄.advance.index_le
        (Anchored.decorators_snoc ?_ spans (Nat.le_refl _) hacc)
      rewrite [← tracks₃]
      rfl

mutual

/-- The statements of a body, read after those in `acc`, each spanning its own lexemes after
theirs. -/
theorem statements_anchored :
    ∀ n inBlock (acc : Array Stmt) {c r c'} {i : Nat}, c.Tracks t →
      (statements n inBlock acc).Reads t c r c' →
      Anchored.stmts t i acc.toList c.index → Anchored.stmts t i r.toList c'.index
  | 0, _, _, _, _, _, _, _, h, _ => by
    rw [statements.eq_1] at h
    exact absurd h Reads.not_exhausted
  | n + 1, inBlock, acc, c, r, c', i, hc, h, hacc => by
    rw [statements.eq_2] at h
    obtain ⟨_, c₁, h₁, h⟩ := h.bind
    have tracks₁ := skipNewlines_walks.tracks h₁ hc
    have placed₁ := Anchored.stmts_raise h₁.advance.index_le hacc
    have h := h.look_bind
    split at h
    next =>
      obtain ⟨rfl, rfl⟩ := h.pure
      exact placed₁
    next =>
      split at h
      · obtain ⟨_, c₂, a₂, h⟩ := h.moves
        obtain ⟨rfl, rfl⟩ := h.pure
        exact Anchored.stmts_raise a₂.index_le placed₁
      · exact absurd h Reads.not_fail
    next => exact absurd h Reads.not_fail
    next =>
      obtain ⟨acc', c₂, hl, h⟩ := h.bind
      exact statements_anchored n inBlock acc' ((stmtLine_walks n acc).tracks hl tracks₁) h
        (stmtLine_anchored n acc tracks₁ hl placed₁)
termination_by structural n => n

/-- One logical line: the statements it holds span their own lexemes after those in `acc`. -/
theorem stmtLine_anchored :
    ∀ n (acc : Array Stmt) {c r c'} {i : Nat}, c.Tracks t → (stmtLine n acc).Reads t c r c' →
      Anchored.stmts t i acc.toList c.index → Anchored.stmts t i r.toList c'.index
  | 0, _, _, _, _, _, _, h, _ => by
    rw [stmtLine.eq_1] at h
    exact absurd h Reads.not_exhausted
  | n + 1, acc, c, r, c', i, hc, h, hacc => by
    rw [stmtLine.eq_2] at h
    have h := h.look_bind.look_bind
    have push : ∀ {s : Stmt} {c₁ : Cursor}, Anchored.spanning t s c.index c₁.index →
        Anchored.stmts t i (acc.push s).toList c₁.index := by
      intro s c₁ hs
      rw [Array.toList_push]
      exact Anchored.stmts_snoc hs (Nat.le_refl _) hacc
    split at h
    next sign =>
      obtain ⟨s, c₁, hd, h⟩ := h.bind
      obtain ⟨rfl, rfl⟩ := h.pure
      exact push (decorated_anchored n hc hd (by rw [sign]; rfl))
    next keyword =>
      obtain ⟨s, c₁, hd, h⟩ := h.bind
      obtain ⟨rfl, rfl⟩ := h.pure
      exact push ((functionDef_anchored n hc hd (.inl keyword) (Nat.le_refl _)).spanning
        (functionDef_moves n _ _ _ _ hd) (by rw [keyword]; rfl))
    next keyword =>
      obtain ⟨s, c₁, hd, h⟩ := h.bind
      obtain ⟨rfl, rfl⟩ := h.pure
      exact push ((classDef_anchored n hc hd keyword).spanning (classDef_moves n _ _ _ _ hd)
        (by rw [keyword]; rfl))
    next async =>
      obtain ⟨_, c₁, hs, h⟩ := h.bind
      have tracks₁ := Walks.skip.tracks hs hc
      obtain ⟨rfl, -⟩ := hs.skip
      have code : (t.lexemeAt c.index).token.isLayout = false := by rw [async]; rfl
      have h := h.look_bind
      split at h
      next keyword =>
        obtain ⟨s, c₂, hd, h⟩ := h.bind
        obtain ⟨rfl, rfl⟩ := h.pure
        have lt := Nat.lt_trans (Nat.lt_succ_self c.index) (functionDef_moves n _ _ _ _ hd)
        exact push ((functionDef_anchored n tracks₁ hd (.inr ⟨async, keyword⟩)
          (Nat.le_succ _)).spanning lt code)
      next =>
        obtain ⟨s, c₂, hd, h⟩ := h.bind
        obtain ⟨rfl, rfl⟩ := h.pure
        have lt := Nat.lt_trans (Nat.lt_succ_self c.index) (compound_moves n _ _ _ hd)
        obtain ⟨origin, holds⟩ := compound_anchored n tracks₁ hd (Nat.le_succ _)
        exact push (Anchored.spanning_of origin lt code holds)
      next =>
        obtain ⟨s, c₂, hd, h⟩ := h.bind
        obtain ⟨rfl, rfl⟩ := h.pure
        have lt := Nat.lt_trans (Nat.lt_succ_self c.index) (compound_moves n _ _ _ hd)
        obtain ⟨origin, holds⟩ := compound_anchored n tracks₁ hd (Nat.le_succ _)
        exact push (Anchored.spanning_of origin lt code holds)
      next => exact absurd h Reads.not_fail
    all_goals first
      | exact absurd h Reads.not_fail
      | (obtain ⟨s, c₁, hd, h⟩ := h.bind
         obtain ⟨rfl, rfl⟩ := h.pure
         obtain ⟨origin, holds⟩ := compound_anchored n hc hd (Nat.le_refl _)
         exact push (Anchored.spanning_of origin (compound_moves n _ _ _ hd)
           (by simp only [*, Token.isLayout]) holds))
      | (have h := h.look_bind
         split at h
         · obtain ⟨s, c₁, hd, h⟩ := h.bind
           obtain ⟨rfl, rfl⟩ := h.pure
           obtain ⟨origin, holds⟩ := softBlock_anchored n hc hd (Nat.le_refl _)
           exact push (Anchored.spanning_of origin (softBlock_moves n _ _ _ hd)
             (by simp only [*, Token.isLayout]) holds)
         · exact simpleLine_anchored n acc hc h hacc)
      | exact simpleLine_anchored n acc hc h hacc
termination_by structural n => n

/-- A body: its statements span their own lexemes, after the colon. -/
theorem suite_anchored :
    ∀ n owner {c body c'} {i : Nat}, c.Tracks t → (suite n owner).Reads t c body c' →
      i ≤ c.index → Anchored.suite t i body c'.index
  | 0, _, _, _, _, _, _, h, _ => by
    rw [suite.eq_1] at h
    exact absurd h Reads.not_exhausted
  | n + 1, owner, c, body, c', i, hc, h, hi => by
    rw [suite.eq_2] at h
    extract_lets block jp at h
    obtain ⟨_, c₁, h₁, h⟩ := h.bind
    have tracks₁ := expect_walks.tracks h₁ hc
    have le₁ := Nat.le_trans hi h₁.advance.index_le
    have h := h.look_bind
    split at h
    next =>
      simp only [jp] at h
      obtain ⟨_, c₂, h₂, h⟩ := h.bind
      have tracks₂ := Walks.skip.tracks h₂ tracks₁
      have h := h.look_bind
      obtain ⟨c₃, a₃, h⟩ : ∃ c₃, c₂ = c₃ ∧ (block ()).Reads t c₃ body c' := by
        split at h
        · exact (Reads.fail_bind h).elim
        · exact ⟨_, rfl, h⟩
      subst a₃
      simp only [block] at h
      obtain ⟨_, c₄, h₄, h⟩ := h.bind
      have tracks₄ := Walks.skip.tracks h₄ tracks₂
      have h := h.read_bind.look_bind
      obtain ⟨stmts, c₅, hst, h⟩ := h.bind
      obtain ⟨rfl, rfl⟩ := h.pure
      exact statements_anchored n true #[] tracks₄ hst
        (Nat.le_trans le₁ (h₂.advance.trans h₄.advance).index_le)
    all_goals first
      | exact (Reads.fail_bind h).elim
      | skip
    obtain ⟨line, c₂, hl, h⟩ := h.bind
    obtain ⟨rfl, rfl⟩ := h.pure
    exact simpleLine_anchored n #[] tracks₁ hl le₁
termination_by structural n => n

/-- Decorators and the definition after them: the statement spans from the first `@`. -/
theorem decorated_anchored :
    ∀ n {c s c'}, c.Tracks t → (decorated n (t.startAt c.index)).Reads t c s c' →
      (t.lexemeAt c.index).token.isLayout = false → Anchored.spanning t s c.index c'.index
  | 0, _, _, _, _, h, _ => by
    rw [decorated.eq_1] at h
    exact absurd h Reads.not_exhausted
  | n + 1, c, s, c', hc, h, hl => by
    rw [decorated.eq_2] at h
    extract_lets finish at h
    obtain ⟨ds, c₁, hdl, h⟩ := h.bind
    have placed := decoratorList_anchored n #[] hc hdl (Nat.le_refl c.index)
    have tracks₁ := (decoratorList_walks n #[]).tracks hdl hc
    have h := h.look_bind.look_bind
    obtain ⟨s₀, c₂, read₀, lt, tracks₂, h⟩ : ∃ s₀ c₂,
        Anchored.definition t s₀ ds c₁.index c₂.index ∧ c₁.index < c₂.index ∧ c₂.Tracks t ∧
          (finish s₀).Reads t c₂ s c' := by
      split at h
      next keyword =>
        obtain ⟨s₀, c₂, hf, h⟩ := h.bind
        exact ⟨s₀, c₂, functionDef_anchored n tracks₁ hf (.inl keyword) (Nat.le_refl _),
          functionDef_moves n _ _ s₀ c₂ hf, (functionDef_walks n _ _).tracks hf tracks₁, h⟩
      next async =>
        obtain ⟨_, c₂, hs, h⟩ := h.bind
        have tracks₂ := Walks.skip.tracks hs tracks₁
        obtain ⟨rfl, -⟩ := hs.skip
        have h := h.look_bind
        extract_lets afterAsync at h
        split at h
        · exact (Reads.fail_bind h).elim
        · next keyword =>
          simp only [afterAsync] at h
          obtain ⟨s₀, c₃, hf, h⟩ := h.bind
          have keyword : (t.lexemeAt (c₁.index + 1)).token = .keyword .defn := by
            simpa only [bne_iff_ne, ne_eq, Decidable.not_not, Cursor.past] using keyword
          exact ⟨s₀, c₃, functionDef_anchored n tracks₂ hf (.inr ⟨async, keyword⟩) (Nat.le_succ _),
            Nat.lt_trans (Nat.lt_succ_self _) (functionDef_moves n _ _ s₀ c₃ hf),
            (functionDef_walks n _ _).tracks hf tracks₂, h⟩
      next keyword =>
        obtain ⟨s₀, c₂, hf, h⟩ := h.bind
        exact ⟨s₀, c₂, classDef_anchored n tracks₁ hf keyword, classDef_moves n _ _ s₀ c₂ hf,
          (classDef_walks n _ _).tracks hf tracks₁, h⟩
      next => exact (Reads.fail_bind h).elim
    simp only [finish] at h
    have h := h.look_bind
    obtain ⟨rfl, rfl⟩ := h.pure
    exact Anchored.spanning_of (by rw [← tracks₂]) (Nat.lt_of_le_of_lt hdl.advance.index_le lt) hl
      ((Anchored.stmt_origin s₀ _).mpr (read₀.2 _ placed))
termination_by structural n => n

/-- A function definition from its `def`, whose first lexeme `h` is that `def` or the `async`
before it: its offset is where `h` starts and its indent is taken from there; its body lies
after its header. -/
theorem functionDef_anchored :
    ∀ n {h ds c s c'}, c.Tracks t → (functionDef n (t.startAt h) ds).Reads t c s c' →
      t.DefHead h → h ≤ c.index → Anchored.definition t s ds h c'.index
  | 0, _, _, _, _, _, _, h, _, _ => by
    rw [functionDef.eq_1] at h
    exact absurd h Reads.not_exhausted
  | n + 1, hd, ds, c, s, c', hc, h, head, hle => by
    rw [functionDef.eq_2] at h
    obtain ⟨_, c₁, hs, h⟩ := h.bind
    have tracks₁ := Walks.skip.tracks hs hc
    obtain ⟨rfl, -⟩ := hs.skip
    obtain ⟨_, c₂, h₂, h⟩ := h.bind
    have tracks₂ := expectName_walks.tracks h₂ tracks₁
    have h := h.look_bind
    extract_lets rest₂ rest₁ at h
    obtain ⟨c₃, le₃, tracks₃, h⟩ : ∃ c₃, c₂.index ≤ c₃.index ∧ c₃.Tracks t ∧
        (rest₁ ()).Reads t c₃ s c' := by
      split at h
      · exact (typeParams_walks n).jump tracks₂ h
      · exact ⟨_, Nat.le_refl _, tracks₂, h⟩
    simp only [rest₁] at h
    obtain ⟨c₄, le₄, tracks₄, h⟩ := expect_walks.jump tracks₃ h
    obtain ⟨c₅, le₅, tracks₅, h⟩ := (parameters_walks n _ _).jump tracks₄ h
    obtain ⟨c₆, le₆, tracks₆, h⟩ := expect_walks.jump tracks₅ h
    have h := h.look_bind
    obtain ⟨c₇, le₇, tracks₇, h⟩ : ∃ c₇, c₆.index ≤ c₇.index ∧ c₇.Tracks t ∧
        (rest₂ ()).Reads t c₇ s c' := by
      split at h
      · obtain ⟨c₇, le₇, tracks₇, h⟩ := Walks.skip.jump tracks₆ h
        obtain ⟨c₈, le₈, tracks₈, h⟩ := (expression_walks n).jump tracks₇ h
        exact ⟨c₈, Nat.le_trans le₇ le₈, tracks₈, h⟩
      · exact ⟨_, Nat.le_refl _, tracks₆, h⟩
    simp only [rest₂] at h
    obtain ⟨body, c₈, hsu, h⟩ := h.bind
    have h := h.read_bind.look_bind
    obtain ⟨rfl, rfl⟩ := h.pure
    have header : hd ≤ c₇.index := by
      have := h₂.advance.index_le
      have : (c.past (t.lexemeAt c.index)).index = c.index + 1 := rfl
      omega
    refine ⟨by rw [(suite_walks n _).tracks hsu tracks₇], fun i hds => ?_⟩
    exact ⟨hd, hds, head, rfl, rfl, suite_anchored n _ tracks₇ hsu header⟩
termination_by structural n => n

/-- A class definition from its `class`: its offset is where that keyword starts and its indent
is taken from there; its body lies after its header. -/
theorem classDef_anchored :
    ∀ n {ds c s c'}, c.Tracks t → (classDef n (t.startAt c.index) ds).Reads t c s c' →
      (t.lexemeAt c.index).token = .keyword .class → Anchored.definition t s ds c.index c'.index
  | 0, _, _, _, _, _, h, _ => by
    rw [classDef.eq_1] at h
    exact absurd h Reads.not_exhausted
  | n + 1, ds, c, s, c', hc, h, keyword => by
    rw [classDef.eq_2] at h
    obtain ⟨_, c₁, hs, h⟩ := h.bind
    have tracks₁ := Walks.skip.tracks hs hc
    have le₁ := hs.advance.index_le
    obtain ⟨_, c₂, h₂, h⟩ := h.bind
    have tracks₂ := expectName_walks.tracks h₂ tracks₁
    have h := h.look_bind
    extract_lets rest₂ rest₁ at h
    obtain ⟨c₃, le₃, tracks₃, h⟩ : ∃ c₃, c₂.index ≤ c₃.index ∧ c₃.Tracks t ∧
        (rest₁ ()).Reads t c₃ s c' := by
      split at h
      · exact (typeParams_walks n).jump tracks₂ h
      · exact ⟨_, Nat.le_refl _, tracks₂, h⟩
    simp only [rest₁] at h
    have h := h.look_bind
    obtain ⟨c₄, le₄, tracks₄, h⟩ : ∃ c₄, c₃.index ≤ c₄.index ∧ c₄.Tracks t ∧
        (rest₂ ()).Reads t c₄ s c' := by
      split at h
      · obtain ⟨c₄, le₄, tracks₄, h⟩ := Walks.skip.jump tracks₃ h
        obtain ⟨c₅, le₅, tracks₅, h⟩ := (callArguments_walks n).jump tracks₄ h
        obtain ⟨c₆, le₆, tracks₆, h⟩ := expect_walks.jump tracks₅ h
        exact ⟨c₆, by omega, tracks₆, h⟩
      · exact ⟨_, Nat.le_refl _, tracks₃, h⟩
    simp only [rest₂] at h
    obtain ⟨body, c₅, hsu, h⟩ := h.bind
    have h := h.read_bind.look_bind
    obtain ⟨rfl, rfl⟩ := h.pure
    have header : c.index ≤ c₄.index := by
      have := h₂.advance.index_le
      omega
    refine ⟨by rw [(suite_walks n _).tracks hsu tracks₄], fun i hds => ?_⟩
    exact ⟨c.index, hds, keyword, rfl, rfl, suite_anchored n _ tracks₄ hsu header⟩
termination_by structural n => n

/-- A compound statement from its first keyword: its clauses' bodies lie in order after it. -/
theorem compound_anchored :
    ∀ n {start c s c'} {i : Nat}, c.Tracks t → (compound n start).Reads t c s c' → i ≤ c.index →
      s.origin = .source ⟨start, t.endOfCode c'.index⟩ ∧ Anchored.stmt t i s c'.index
  | 0, _, _, _, _, _, _, h, _ => by
    rw [compound.eq_1] at h
    exact absurd h Reads.not_exhausted
  | n + 1, start, c, s, c', i, hc, h, hi => by
    rw [compound.eq_2] at h
    obtain ⟨first, c₁, hcl, h⟩ := h.bind
    have tracks₁ := (clause_walks n).tracks hcl hc
    have body₁ := clause_anchored n hc hcl hi
    obtain ⟨cls, c₂, hm, h⟩ := h.bind
    have tracks₂ := (moreClauses_walks n _ _ _).tracks hm tracks₁
    obtain ⟨k, names, strings, body⟩ := first
    have placed := moreClauses_anchored n _ _ _ tracks₁ hm
      (Anchored.clauses_snoc k names strings body₁
        (show Anchored.clauses t i [] i from Nat.le_refl i))
    extract_lets jp at h
    obtain ⟨c₃, a₃, h⟩ : ∃ c₃, c₂ = c₃ ∧ (jp ()).Reads t c₃ s c' := by
      split at h
      · exact (Reads.fail_bind h).elim
      · exact ⟨_, rfl, h⟩
    subst a₃
    simp only [jp] at h
    have h := h.look_bind
    obtain ⟨rfl, rfl⟩ := h.pure
    exact ⟨by rw [tracks₂], placed⟩
termination_by structural n => n

/-- Further clauses, read after those in `acc`, with their bodies in order after theirs. -/
theorem moreClauses_anchored :
    ∀ n first last (acc : Array Clause) {c r c'} {i : Nat}, c.Tracks t →
      (moreClauses n first last acc).Reads t c r c' →
      Anchored.clauses t i acc.toList c.index → Anchored.clauses t i r.toList c'.index
  | 0, _, _, _, _, _, _, _, _, h, _ => by
    rw [moreClauses.eq_1] at h
    exact absurd h Reads.not_exhausted
  | n + 1, first, last, acc, c, r, c', i, hc, h, hacc => by
    rw [moreClauses.eq_2] at h
    have h := h.look_bind
    split at h
    next =>
      split at h
      · obtain ⟨cl, c₁, hcl, h⟩ := h.bind
        have body := clause_anchored n hc hcl (Nat.le_refl _)
        obtain ⟨k, names, strings, b⟩ := cl
        refine moreClauses_anchored n first k _ ((clause_walks n).tracks hcl hc) h ?_
        rw [Array.toList_push]
        exact Anchored.clauses_snoc k names strings body hacc
      · obtain ⟨rfl, rfl⟩ := h.pure
        exact hacc
    next =>
      obtain ⟨rfl, rfl⟩ := h.pure
      exact hacc
termination_by structural n => n

/-- One clause: its body lies after its keyword and header. -/
theorem clause_anchored :
    ∀ n {c cl c'} {i : Nat}, c.Tracks t → (clause n).Reads t c cl c' → i ≤ c.index →
      Anchored.suite t i cl.body c'.index
  | 0, _, _, _, _, _, h, _ => by
    rw [clause.eq_1] at h
    exact absurd h Reads.not_exhausted
  | n + 1, c, cl, c', i, hc, h, hi => by
    rw [clause.eq_2] at h
    obtain ⟨kw, c₁, hb, h⟩ := h.bind
    have tracks₁ := Walks.bump.tracks hb hc
    have le₁ := Nat.le_trans hi hb.advance.index_le
    have h := h.read_bind.look_bind
    extract_lets jp at h
    obtain ⟨c₂, le₂, tracks₂, h⟩ : ∃ c₂, c₁.index ≤ c₂.index ∧ c₂.Tracks t ∧
        (jp ()).Reads t c₂ cl c' := by
      split at h
      case h_4 =>
        obtain ⟨c₂, le₂, tracks₂, h⟩ := (targetList_walks n).jump tracks₁ h
        obtain ⟨c₃, le₃, tracks₃, h⟩ := expect_walks.jump tracks₂ h
        obtain ⟨c₄, le₄, tracks₄, h⟩ := (Walks.discard (starExpressions_walks n)).jump tracks₃ h
        exact ⟨c₄, by omega, tracks₄, h⟩
      case h_5 => exact (withItems_walks n).jump tracks₁ h
      case h_6 => exact (exceptHeader_walks n).jump tracks₁ h
      case h_7 => exact ⟨_, Nat.le_refl _, tracks₁, h⟩
      all_goals exact (namedExpression_walks n).jump tracks₁ h
    simp only [jp] at h
    have h := h.read_bind.look_bind
    obtain ⟨body, c₃, hsu, h⟩ := h.bind
    obtain ⟨rfl, rfl⟩ := h.pure
    exact suite_anchored n _ tracks₂ hsu (Nat.le_trans le₁ le₂)
termination_by structural n => n

/-- A `match` or `case` block: one clause, whose body lies after its header. -/
theorem softBlock_anchored :
    ∀ n {start c s c'} {i : Nat}, c.Tracks t → (softBlock n start).Reads t c s c' → i ≤ c.index →
      s.origin = .source ⟨start, t.endOfCode c'.index⟩ ∧ Anchored.stmt t i s c'.index
  | 0, _, _, _, _, _, _, h, _ => by
    rw [softBlock.eq_1] at h
    exact absurd h Reads.not_exhausted
  | n + 1, start, c, s, c', i, hc, h, hi => by
    rw [softBlock.eq_2] at h
    obtain ⟨kw, c₁, hb, h⟩ := h.bind
    have tracks₁ := Walks.bump.tracks hb hc
    have le₁ := Nat.le_trans hi hb.advance.index_le
    have h := h.read_bind.look_bind
    extract_lets jp at h
    obtain ⟨c₂, le₂, tracks₂, h⟩ : ∃ c₂, c₁.index ≤ c₂.index ∧ c₂.Tracks t ∧
        (jp ()).Reads t c₂ s c' := by
      split at h
      · exact (starNamedExpressions_walks n).jump tracks₁ h
      · exact (skipPattern_walks _ _ _).jump tracks₁ h.read_bind
    simp only [jp] at h
    have h := h.read_bind.look_bind
    obtain ⟨body, c₃, hsu, h⟩ := h.bind
    have tracks₃ := (suite_walks n _).tracks hsu tracks₂
    have h := h.look_bind
    obtain ⟨rfl, rfl⟩ := h.pure
    have placed := suite_anchored n _ tracks₂ hsu (Nat.le_trans le₁ le₂)
    refine ⟨by rw [tracks₃], ?_⟩
    show Anchored.clauses t i [_] c'.index
    exact Anchored.clauses_snoc _ _ _ placed (show Anchored.clauses t i [] i from Nat.le_refl i)
termination_by structural n => n

end

end Grammar

end PyTune

namespace PyTune

/-! ### The statements of a source -/

/-- The statements read from a source lie in it in order (`Placed.top`) and span their own
lexemes (`Anchored.stmts`): each statement and decorator spans from the start of its first
lexeme, a lexeme of code, to the end of its last lexeme of code; a definition's decorators and
body and a compound statement's clauses are read inside the statement's run, siblings one after
the other; a function's offset is where its `def` starts, or the `async` just before it, a
class's where its `class` starts, and the indent of either is the one before that offset. -/
theorem Module.parse_spans {src : String} {m : Module} (h : Module.parse src = .ok m) :
    m.source = src ∧ Placed.top src 0 m.body ∧
      ∃ j, Anchored.stmts (Tape.ofSource src) 0 m.body j := by
  obtain ⟨source, placed⟩ := Module.parse_placed h
  refine ⟨source, placed, ?_⟩
  unfold Module.parse at h
  dsimp only at h
  split at h
  · next body c adv heq =>
    cases h
    have reads : (Grammar.statements _ false #[]).Reads (Tape.ofSource src) ⟨0, 0⟩ body c :=
      ⟨adv, heq⟩
    exact ⟨c.index, Grammar.statements_anchored _ false #[] (Cursor.tracks_start _) reads
      (Nat.le_refl 0)⟩
  · cases h

theorem Module.parse_spans_decorated :
    ∃ m, Module.parse "@d\nasync def f():\n    pass\n" = .ok m ∧
      m.source = "@d\nasync def f():\n    pass\n" ∧
      Placed.top "@d\nasync def f():\n    pass\n" 0 m.body ∧
      ∃ j, Anchored.stmts (Tape.ofSource "@d\nasync def f():\n    pass\n") 0 m.body j := by
  obtain ⟨m, parsed⟩ := exists_parse_of_isSome "@d\nasync def f():\n    pass\n" (by decide +kernel)
  exact ⟨m, parsed, Module.parse_spans parsed⟩

end PyTune
