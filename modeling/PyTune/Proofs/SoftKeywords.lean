import PyTune.Proofs.ClauseSequences
import PyTune.Proofs.CrlfWindows

/-!
# Where `match` and `case` open a block

A soft keyword opens a block exactly where the tokens after it do (`opensBlock`), wherever the
line stands, so every logical line that starts with one reads as one statement of its tree
(`Module.softKeyword_lines`). The walk tracks logical lines with `Tape.SoftLinesIn`.
-/

namespace PyTune

/-- The soft keywords `match` and `case`. -/
def Token.isSoftKeyword : Token → Bool
  | .keyword k => k.isSoft
  | _ => false

namespace Token

variable {tok : Token} {kw : String}

theorem isSoftKeyword_of_header (h : tok.header? = some kw) : tok.isSoftKeyword = false := by
  cases tok with
  | keyword k => cases k <;> simp_all [header?, isSoftKeyword, Keyword.isSoft]
  | _ => rfl

theorem isLayout_of_header (h : tok.header? = some kw) : tok.isLayout = false := by
  cases tok <;> simp_all [header?, isLayout]

theorem isSoftKeyword_of_clauseKeyword (h : tok.clauseKeyword? = some kw) :
    tok.isSoftKeyword = false := by
  cases tok with
  | keyword k => cases k <;> simp_all [clauseKeyword?, isSoftKeyword, Keyword.isSoft]
  | _ => rfl

end Token

namespace Tape

variable (t : Tape)

/-- Lexeme `k` stands where a logical line starts: at the start of input or after a newline,
with only indents and dedents between. -/
def atLineStart : Nat → Bool
  | 0 => true
  | k + 1 =>
    (t.lexemeAt k).token == .newline ||
      (((t.lexemeAt k).token == .indent || (t.lexemeAt k).token == .dedent) && atLineStart k)

/-- The tokens after lexeme `k`, which decide whether a soft keyword there opens a block. -/
def tokensAfter (k : Nat) : List Token :=
  ((t.rests[k]?).getD []).drop 1

end Tape

/-- A body of a statement of kind `k`: the body of a definition, or of one of its clauses. -/
def StmtKind.HasBody : StmtKind → Suite → Prop
  | .functionDef d, body => d.body = body
  | .classDef d, body => d.body = body
  | .compound cls, body => ∃ cl ∈ cls, cl.body = body
  | _, _ => False

/-- Statement `s` stands among `ss` at some depth: it is one of them, or it stands among the
statements of a body of one of them. -/
inductive Stmt.Occurs (s : Stmt) : List Stmt → Prop
  | here {ss : List Stmt} : s ∈ ss → Stmt.Occurs s ss
  | nested {ss : List Stmt} {p : Stmt} {body : Suite} : p ∈ ss → p.kind.HasBody body →
      Stmt.Occurs s body.stmts → Stmt.Occurs s ss

/-- Statement `s` stands inside statement `p`: among the statements of one of its bodies, at
some depth. -/
def Stmt.Within (s p : Stmt) : Prop :=
  ∃ body, p.kind.HasBody body ∧ s.Occurs body.stmts

namespace Stmt

variable {s p : Stmt} {ss ss' : List Stmt}

theorem Occurs.mono (h : s.Occurs ss) (sub : ∀ q ∈ ss, q ∈ ss') : s.Occurs ss' := by
  cases h with
  | here mem => exact .here (sub _ mem)
  | nested mem body inner => exact .nested (sub _ mem) body inner

theorem Occurs.of_within (h : s.Within p) (mem : p ∈ ss) : s.Occurs ss := by
  obtain ⟨body, hb, inner⟩ := h
  exact .nested mem hb inner

end Stmt

namespace Tape

variable {t : Tape}

/-- The statement that the logical line from the soft keyword at lexeme `k` reads as: it starts
where the keyword does, and it is a block of that keyword when the tokens after the keyword
open one, a simple statement otherwise. -/
def SoftLine (t : Tape) (k : Nat) (s : Stmt) : Prop :=
  (∃ stop, s.origin = .source ⟨t.startAt k, stop⟩) ∧
    (opensBlock (t.tokensAfter k) = true →
      ∃ cl, s.kind = .compound [cl] ∧ cl.keyword = (t.lexemeAt k).span.text t.source) ∧
    (opensBlock (t.tokensAfter k) = false → s.kind.Leaf)

/-- Every logical line from lexeme `i` up to, not including, `j` that starts with a soft keyword
reads as a statement that `P` holds of. -/
def SoftLinesIn (t : Tape) (i j : Nat) (P : Stmt → Prop) : Prop :=
  ∀ k, i ≤ k → k < j → t.atLineStart k = true → (t.lexemeAt k).token.isSoftKeyword = true →
    ∃ s, P s ∧ t.SoftLine k s

/-- No logical line starts after a code lexeme and before the end of its line. -/
theorem atLineStart_within {i m : Nat} (code : (t.lexemeAt i).token.isLayout = false)
    (within : t.WithinLine i m) : ∀ {k}, i < k → k ≤ m → t.atLineStart k = false := by
  intro k
  induction k with
  | zero => exact fun lo => absurd lo (Nat.not_lt_zero _)
  | succ k ih =>
    intro lo hi
    have ends := within k (by omega) (by omega)
    rw [atLineStart]
    rcases Nat.eq_or_lt_of_le (Nat.le_of_lt_succ lo) with rfl | lt
    · cases h : (t.lexemeAt i).token <;> simp_all [Token.isLayout, Token.endsLine]
    · rw [ih lt (by omega)]
      cases h : (t.lexemeAt k).token <;> simp_all [Token.endsLine]

namespace SoftLinesIn

variable {i j l m : Nat} {P Q : Stmt → Prop}

theorem mono (h : t.SoftLinesIn i j P) (hPQ : ∀ s, P s → Q s) : t.SoftLinesIn i j Q := by
  intro k lo hi line soft
  obtain ⟨s, hs, read⟩ := h k lo hi line soft
  exact ⟨s, hPQ s hs, read⟩

theorem append (h₁ : t.SoftLinesIn i j P) (h₂ : t.SoftLinesIn j l P) : t.SoftLinesIn i l P := by
  intro k lo hi
  by_cases before : k < j
  · exact h₁ k lo before
  · exact h₂ k (Nat.le_of_not_lt before) hi

theorem empty (h : j ≤ i) : t.SoftLinesIn i j P :=
  fun _ lo hi => absurd (Nat.lt_of_lt_of_le hi h) (Nat.not_lt.mpr lo)

theorem cons (hk : (t.lexemeAt i).token.isSoftKeyword = false) (h : t.SoftLinesIn (i + 1) j P) :
    t.SoftLinesIn i j P := by
  intro k lo hi line soft
  rcases Nat.eq_or_lt_of_le lo with rfl | lt
  · rw [hk] at soft
    cases soft
  · exact h k lt hi line soft

theorem plain (h : ∀ k, i ≤ k → k < j → (t.lexemeAt k).token.isSoftKeyword = false) :
    t.SoftLinesIn i j P := by
  intro k lo hi _ soft
  rw [h k lo hi] at soft
  cases soft

/-- After a code lexeme, up to the end of its line, no line starts. -/
theorem within (code : (t.lexemeAt i).token.isLayout = false) (hw : t.WithinLine i m)
    (hj : j ≤ m + 1) : t.SoftLinesIn (i + 1) j P := by
  intro k lo hi line _
  rw [atLineStart_within code hw (by omega) (by omega)] at line
  cases line

theorem header (code : (t.lexemeAt i).token.isLayout = false) (hw : t.WithinLine (i + 1) j) :
    t.SoftLinesIn (i + 1) j P :=
  within code (Tape.WithinLine.cons (Token.endsLine_of_isLayout code) hw) (Nat.le_succ j)

end SoftLinesIn

end Tape

namespace Grammar

variable {t : Tape} {c c' : Cursor}

/-- A logical line from a soft keyword: a block of that keyword when the tokens after it open
one, simple statements otherwise. -/
theorem Reads.stmtLine_soft {n : Nat} {acc r : Array Stmt} (h : (stmtLine (n + 1) acc).Reads t c r c')
    (soft : (t.lexemeAt c.index).token.isSoftKeyword = true) :
    (opensBlock (t.tokensAfter c.index) = true ∧
        ∃ s, r = acc.push s ∧ (softBlock n (t.startAt c.index)).Reads t c s c') ∨
      opensBlock (t.tokensAfter c.index) = false ∧ (simpleLine n acc).Reads t c r c' := by
  rw [stmtLine.eq_2] at h
  replace h := h.look_bind.look_bind
  generalize hk : (t.lexemeAt c.index).token = tok at h soft
  cases tok with
  | keyword kw =>
    cases kw <;> simp [Token.isSoftKeyword, Keyword.isSoft] at soft <;> dsimp only at h <;>
    · replace h := h.look_bind
      split at h
      next opens =>
        obtain ⟨s, c₁, hs, h⟩ := h.bind
        obtain ⟨rfl, rfl⟩ := h.pure
        exact .inl ⟨opens, s, rfl, hs⟩
      next closed => exact .inr ⟨Bool.eq_false_iff.mpr closed, h⟩
  | _ => simp [Token.isSoftKeyword] at soft

end Grammar

/-! ### The walk over a reading -/

theorem Stmt.startOfFirst_eq_some {ss : List Stmt} {x : Nat} (h : Stmt.startOfFirst ss = some x) :
    ∃ s rest stop, ss = s :: rest ∧ s.origin = .source ⟨x, stop⟩ := by
  cases ss with
  | nil => cases h
  | cons s rest =>
    cases ho : s.origin with
    | source sp =>
      simp only [Stmt.startOfFirst, ho, Origin.span?, Option.map_some, Option.some.injEq] at h
      exact ⟨s, rest, sp.stop, rfl, by rw [ho, ← h]⟩
    | inserted text => simp [Stmt.startOfFirst, ho, Origin.span?] at h

namespace Grammar

variable {t : Tape} {c c' : Cursor}

/-- After the first lexeme of a line of simple statements, no line starts. -/
theorem simpleLine_softLines {n : Nat} {acc r : Array Stmt} {P : Stmt → Prop}
    (h : (simpleLine n acc).Reads t c r c') (code : (t.lexemeAt c.index).token.isLayout = false) :
    t.SoftLinesIn (c.index + 1) c'.index P := by
  obtain ⟨m, -, within, ends⟩ := simpleLine_lineRest n acc h
  exact .within code within (by rcases ends with ⟨-, e⟩ | ⟨-, e⟩ <;> omega)

/-- Decorator lines start with `@`, and the blank lines after them are newlines only. -/
theorem decoratorList_softLines {P : Stmt → Prop} : ∀ n (acc : Array Decorator) {c ds c'},
    (decoratorList n acc).Reads t c ds c' → t.SoftLinesIn c.index c'.index P
  | 0, _, _, _, _, h => absurd h Reads.not_exhausted
  | n + 1, acc, c, ds, c', h => by
    rcases h.decoratorList_cases with ⟨-, rfl⟩ | ⟨sign, d, c₁, c₂, rest, blank, h⟩
    · exact .empty (Nat.le_refl _)
    · obtain ⟨m, -, within, ends⟩ := rest
      obtain ⟨-, newlines, -⟩ := skipNewlines_reads blank
      have code : (t.lexemeAt c.index).token.isLayout = false := by rw [sign]; rfl
      have line : t.SoftLinesIn (c.index + 1) c₁.index P :=
        .within code (Tape.WithinLine.cons (Token.endsLine_of_isLayout code) within)
          (by rcases ends with ⟨-, e⟩ | ⟨-, e⟩ <;> omega)
      have blanks : t.SoftLinesIn c₁.index c₂.index P :=
        .plain fun k lo hi => by rw [newlines k lo hi]; rfl
      exact .cons (by rw [sign]; rfl) (line.append (blanks.append (decoratorList_softLines n _ h)))

mutual

/-- Statements read after those in `acc`: every logical line among them that starts with a soft
keyword reads as one of the new statements, at some depth. -/
theorem statements_softLines : ∀ n inBlock (acc : Array Stmt) {c r c'},
    (statements n inBlock acc).Reads t c r c' →
      ∃ new, r.toList = acc.toList ++ new ∧ t.SoftLinesIn c.index c'.index (·.Occurs new)
  | 0, _, _, _, _, _, h => by
    rw [statements.eq_1] at h
    exact absurd h Reads.not_exhausted
  | n + 1, inBlock, acc, c, r, c', h => by
    obtain ⟨c₁, blank, cases⟩ := h.statements_cases
    obtain ⟨-, newlines, -⟩ := skipNewlines_reads blank
    have blanks : ∀ {P}, t.SoftLinesIn c.index c₁.index P :=
      .plain fun k lo hi => by rw [newlines k lo hi]; rfl
    rcases cases with ⟨-, rfl, rfl⟩ | ⟨dedent, -, rfl, rfl⟩ | ⟨code, acc', c₂, hl, h⟩
    · exact ⟨[], (List.append_nil _).symm, blanks⟩
    · exact ⟨[], (List.append_nil _).symm,
        blanks.append (.cons (by rw [dedent]; rfl) (.empty (Nat.le_refl _)))⟩
    · obtain ⟨new₁, eq₁, read₁⟩ := stmtLine_softLines n acc hl code
      obtain ⟨new₂, eq₂, read₂⟩ := statements_softLines n inBlock acc' h
      refine ⟨new₁ ++ new₂, by rw [eq₂, eq₁, List.append_assoc], blanks.append ?_⟩
      exact (read₁.mono fun _ o => o.mono fun _ => List.mem_append_left _).append
        (read₂.mono fun _ o => o.mono fun _ => List.mem_append_right _)
termination_by structural n => n

/-- A logical line from its first lexeme: a line that starts with a soft keyword reads as the
statement pushed first, and every other such line as one inside it. -/
theorem stmtLine_softLines : ∀ n (acc : Array Stmt) {c r c'},
    (stmtLine n acc).Reads t c r c' → (t.lexemeAt c.index).token.isLayout = false →
      ∃ new, r.toList = acc.toList ++ new ∧ t.SoftLinesIn c.index c'.index (·.Occurs new)
  | 0, _, _, _, _, h, _ => by
    rw [stmtLine.eq_1] at h
    exact absurd h Reads.not_exhausted
  | n + 1, acc, c, r, c', h, code => by
    have single : ∀ {s : Stmt}, t.SoftLinesIn c.index c'.index (·.Within s) →
        ∃ new, (acc.push s).toList = acc.toList ++ new ∧
          t.SoftLinesIn c.index c'.index (·.Occurs new) :=
      fun read => ⟨[_], Array.toList_push, read.mono fun _ w => Stmt.Occurs.of_within w List.mem_cons_self⟩
    cases soft : (t.lexemeAt c.index).token.isSoftKeyword with
    | true =>
      rcases h.stmtLine_soft soft with ⟨opens, s, rfl, hs⟩ | ⟨closed, hl⟩
      · -- a block of the keyword, which the line reads as
        obtain ⟨cl, rfl, named, read⟩ := softBlock_softLines n hs code
        refine ⟨[_], Array.toList_push, fun k lo hi line soft' => ?_⟩
        rcases Nat.eq_or_lt_of_le lo with rfl | lt
        · refine ⟨_, .here List.mem_cons_self, ⟨_, rfl⟩, fun _ => ⟨cl, rfl, named⟩, fun closed => ?_⟩
          rw [opens] at closed
          cases closed
        · obtain ⟨s, w, sl⟩ := read k lt hi line soft'
          exact ⟨s, Stmt.Occurs.of_within w List.mem_cons_self, sl⟩
      · -- simple statements, the first of which starts at the keyword
        obtain ⟨new, split, leaves, first⟩ := simpleLine_leaves n acc hl
        obtain ⟨s, rest, stop, rfl, origin⟩ := Stmt.startOfFirst_eq_some first
        refine ⟨_, split, .append (fun k lo hi _ _ => ?_) (simpleLine_softLines hl code)⟩
        obtain rfl : k = c.index := by omega
        refine ⟨s, .here List.mem_cons_self, ⟨stop, origin⟩, fun opens => ?_,
          fun _ => leaves s List.mem_cons_self⟩
        rw [closed] at opens
        cases opens
    | false =>
      cases h.stmtLine_cases with
      | decorated s _ pushed hd =>
        rw [pushed]
        exact single (decorated_softLines n hd)
      | functionDef s defn pushed hd =>
        rw [pushed]
        exact single (functionDef_softLines n hd defn)
      | classDef s cls pushed hd =>
        rw [pushed]
        exact single (classDef_softLines n hd cls)
      | asyncDef s async defn pushed hd =>
        rw [pushed]
        exact single (.cons (by rw [async]; rfl) (functionDef_softLines n hd defn))
      | asyncCompound s async kw pushed hd =>
        rw [pushed]
        have header : (t.lexemeAt (c.index + 1)).token.header?.isSome := by
          rcases kw with kw | kw <;> rw [kw] <;> rfl
        obtain ⟨kw', header'⟩ := Option.isSome_iff_exists.1 header
        exact single (.cons (by rw [async]; rfl) (compound_softLines n hd header'))
      | compound s kw header pushed hd =>
        rw [pushed]
        exact single (compound_softLines n hd header)
      | softBlock s soft' =>
        rcases soft' with e | e <;> rw [e] at soft <;> cases soft
      | simple _ _ _ hl =>
        obtain ⟨new, split, -, -⟩ := simpleLine_leaves n acc hl
        exact ⟨new, split, .cons soft (simpleLine_softLines hl code)⟩
termination_by structural n => n

/-- A body: simple statements on the colon's line start no line; a block's lines are its
statements'. -/
theorem suite_softLines : ∀ n (owner : BlockOwner) {c body c'},
    (suite n owner).Reads t c body c' → t.SoftLinesIn c.index c'.index (·.Occurs body.stmts)
  | 0, _, _, _, _, h => by
    rw [suite.eq_1] at h
    exact absurd h Reads.not_exhausted
  | n + 1, owner, c, body, c', h => by
    obtain ⟨colon, ⟨stmts, rfl, hl⟩ | ⟨newline, indent, c₃, ind, stmts, at₃, rfl, hst⟩⟩ :=
      h.suite_cases
    · obtain ⟨m, -, within, ends⟩ := simpleLine_lineRest n #[] hl
      have code : (t.lexemeAt c.index).token.isLayout = false := by rw [colon]; rfl
      exact .cons (by rw [colon]; rfl)
        (.within code (Tape.WithinLine.cons (Token.endsLine_of_isLayout code) within)
          (by rcases ends with ⟨-, e⟩ | ⟨-, e⟩ <;> omega))
    · obtain ⟨new, eq, read⟩ := statements_softLines n true #[] hst
      rw [show c₃.index = c.index + 1 + 1 + 1 by omega] at read
      refine .cons (by rw [colon]; rfl) (.cons (by rw [newline]; rfl) (.cons (by rw [indent]; rfl) ?_))
      rw [Suite.stmts, eq, Array.toList_empty, List.nil_append]
      exact read
termination_by structural n => n

theorem decorated_softLines : ∀ n {start : Nat} {c s c'},
    (decorated n start).Reads t c s c' → t.SoftLinesIn c.index c'.index (·.Within s)
  | 0, _, _, _, _, h => by
    rw [decorated.eq_1] at h
    exact absurd h Reads.not_exhausted
  | n + 1, start, c, s, c', h => by
    obtain ⟨ds, c₁, s₀, hd, rfl, read⟩ := h.decorated_cases
    have decorators := decoratorList_softLines (P := (·.Within s₀)) n #[] hd
    rcases read with ⟨defn, hf⟩ | ⟨async, defn, hf⟩ | ⟨cls, hf⟩
    · exact decorators.append (functionDef_softLines n hf defn)
    · exact decorators.append (.cons (by rw [async]; rfl) (functionDef_softLines n hf defn))
    · exact decorators.append (classDef_softLines n hf cls)
termination_by structural n => n

theorem functionDef_softLines : ∀ n {start : Nat} {ds : List Decorator} {c s c'},
    (functionDef n start ds).Reads t c s c' → (t.lexemeAt c.index).token = .keyword .defn →
      t.SoftLinesIn c.index c'.index (·.Within s)
  | 0, _, _, _, _, _, h, _ => by
    rw [functionDef.eq_1] at h
    exact absurd h Reads.not_exhausted
  | n + 1, start, ds, c, s, c', h, defn => by
    obtain ⟨c₁, d, -, within, hsu, kind⟩ := h.functionDef_cases
    have header : t.SoftLinesIn (c.index + 1) c₁.index (·.Within s) :=
      .header (by rw [defn]; rfl) within
    exact .cons (by rw [defn]; rfl)
      (header.append ((suite_softLines n _ hsu).mono fun _ o => ⟨d.body, by rw [kind]; rfl, o⟩))
termination_by structural n => n

theorem classDef_softLines : ∀ n {start : Nat} {ds : List Decorator} {c s c'},
    (classDef n start ds).Reads t c s c' → (t.lexemeAt c.index).token = .keyword .class →
      t.SoftLinesIn c.index c'.index (·.Within s)
  | 0, _, _, _, _, _, h, _ => by
    rw [classDef.eq_1] at h
    exact absurd h Reads.not_exhausted
  | n + 1, start, ds, c, s, c', h, cls => by
    obtain ⟨c₁, d, -, within, hsu, kind⟩ := h.classDef_cases
    have header : t.SoftLinesIn (c.index + 1) c₁.index (·.Within s) :=
      .header (by rw [cls]; rfl) within
    exact .cons (by rw [cls]; rfl)
      (header.append ((suite_softLines n _ hsu).mono fun _ o => ⟨d.body, by rw [kind]; rfl, o⟩))
termination_by structural n => n

/-- A compound statement from its header keyword: the lines of its clauses' bodies are inside
it. -/
theorem compound_softLines : ∀ n {start : Nat} {c s c'} {kw : String},
    (compound n start).Reads t c s c' → (t.lexemeAt c.index).token.header? = some kw →
      t.SoftLinesIn c.index c'.index (·.Within s)
  | 0, _, _, _, _, _, h, _ => by
    rw [compound.eq_1] at h
    exact absurd h Reads.not_exhausted
  | n + 1, start, c, s, c', kw, h, header => by
    obtain ⟨first, c₁, cls, hcl, hm, -, rfl⟩ := h.compound_cases
    have read₁ := clause_softLines n hcl (Token.isSoftKeyword_of_header header)
      (Token.isLayout_of_header header)
    obtain ⟨more, split, read₂⟩ := moreClauses_softLines n _ _ _ hm
    have inside : ∀ {x : Stmt} {cl : Clause}, cl ∈ cls.toList → x.Occurs cl.body.stmts →
        x.Within ⟨.source ⟨start, c'.lastEnd⟩, .compound cls.toList⟩ :=
      fun mem o => ⟨_, ⟨_, mem, rfl⟩, o⟩
    refine (read₁.mono fun _ o => inside ?_ o).append (read₂.mono fun _ ⟨cl, mem, o⟩ => inside ?_ o)
    · rw [split]
      exact List.mem_append_left _ List.mem_cons_self
    · rw [split]
      exact List.mem_append_right _ mem
termination_by structural n => n

theorem moreClauses_softLines : ∀ n first last (acc : Array Clause) {c r c'},
    (moreClauses n first last acc).Reads t c r c' →
      ∃ more, r.toList = acc.toList ++ more ∧
        t.SoftLinesIn c.index c'.index (fun x => ∃ cl ∈ more, x.Occurs cl.body.stmts)
  | 0, _, _, _, _, _, _, h => by
    rw [moreClauses.eq_1] at h
    exact absurd h Reads.not_exhausted
  | n + 1, first, last, acc, c, r, c', h => by
    rcases h.moreClauses_cases with ⟨rfl, rfl, -⟩ | ⟨next, cl, c₁, keyword, -, hcl, h⟩
    · exact ⟨[], (List.append_nil _).symm, .empty (Nat.le_refl _)⟩
    · obtain ⟨more, split, read⟩ := moreClauses_softLines n first cl.keyword _ h
      refine ⟨cl :: more, by rw [split, Array.toList_push, List.append_assoc]; rfl, ?_⟩
      have read₁ := clause_softLines n hcl (Token.isSoftKeyword_of_clauseKeyword keyword)
        (Token.isLayout_of_clauseKeyword keyword)
      exact (read₁.mono fun _ o => ⟨cl, List.mem_cons_self, o⟩).append
        (read.mono fun _ ⟨cl', mem, o⟩ => ⟨cl', List.mem_cons_of_mem _ mem, o⟩)
termination_by structural n => n

theorem clause_softLines : ∀ n {c cl c'}, (clause n).Reads t c cl c' →
    (t.lexemeAt c.index).token.isSoftKeyword = false → (t.lexemeAt c.index).token.isLayout = false →
      t.SoftLinesIn c.index c'.index (·.Occurs cl.body.stmts)
  | 0, _, _, _, h, _, _ => by
    rw [clause.eq_1] at h
    exact absurd h Reads.not_exhausted
  | n + 1, c, cl, c', h, hard, code => by
    obtain ⟨c₁, -, within, -, hsu⟩ := h.clause_cases
    exact .cons hard ((Tape.SoftLinesIn.header code within).append (suite_softLines n _ hsu))
termination_by structural n => n

/-- A `match` or `case` block: one clause named by the keyword's text; after the keyword, the
lines of its body are inside it. -/
theorem softBlock_softLines : ∀ n {start : Nat} {c s c'},
    (softBlock n start).Reads t c s c' → (t.lexemeAt c.index).token.isLayout = false →
      ∃ cl, s = ⟨.source ⟨start, c'.lastEnd⟩, .compound [cl]⟩ ∧
        cl.keyword = (t.lexemeAt c.index).span.text t.source ∧
        t.SoftLinesIn (c.index + 1) c'.index (·.Within s)
  | 0, _, _, _, _, h, _ => by
    rw [softBlock.eq_1] at h
    exact absurd h Reads.not_exhausted
  | n + 1, start, c, s, c', h, code => by
    obtain ⟨c₁, cl, -, within, named, hsu, rfl⟩ := h.softBlock_cases
    refine ⟨cl, rfl, named, (Tape.SoftLinesIn.header code within).append ?_⟩
    exact (suite_softLines n _ hsu).mono fun _ o => ⟨cl.body, ⟨cl, List.mem_cons_self, rfl⟩, o⟩
termination_by structural n => n

end

end Grammar

/-! ### Sources -/

theorem Tape.tokensAfter_ofSource (src : String) (k : Nat) :
    (Tape.ofSource src).tokensAfter k = ((Lexeme.scan src).toList.map (·.token)).drop (k + 1) := by
  simp only [Tape.tokensAfter, Tape.ofSource, List.getElem?_toArray, Tape.getD_tailsOf,
    List.drop_drop]

/-- Every logical line of a source that fits and reads and that starts with `match` or `case`
reads as a statement of its tree, at some depth, that starts where the keyword does: a block of
one clause named by the keyword when the tokens after the keyword open a block, a simple
statement otherwise. Nothing else about the line's place decides it: a `case` needs no `match`
around it, and a `match` no indented block of `case` clauses. -/
theorem Module.softKeyword_lines {src : String} {m : Module} (_fits : Source.Fits src)
    (h : Module.parse src = .ok m)
    {k : Nat} {kw : Keyword} (line : (Tape.ofSource src).atLineStart k = true)
    (hk : ((Tape.ofSource src).lexemeAt k).token = .keyword kw) (soft : kw.isSoft = true) :
    ∃ s : Stmt, s.Occurs m.body ∧ (∃ stop, s.origin = .source ⟨(Tape.ofSource src).startAt k, stop⟩) ∧
      (opensBlock (((Lexeme.scan src).toList.map (·.token)).drop (k + 1)) = true →
        ∃ cl, s.kind = .compound [cl] ∧ cl.keyword = kw.spelling) ∧
      (opensBlock (((Lexeme.scan src).toList.map (·.token)).drop (k + 1)) = false →
        s.kind.Leaf) := by
  unfold Module.parse at h
  dsimp only at h
  split at h
  · next body c adv heq =>
    cases h
    have reads : (Grammar.statements _ false #[]).Reads (Tape.ofSource src) ⟨0, 0⟩ body c :=
      ⟨adv, heq⟩
    have ends := Grammar.statements_ends _ _ reads
    have sound := Tape.sound_ofSource (Lexeme.scan_noFault adv ends)
    obtain ⟨new, eq, read⟩ := Grammar.statements_softLines _ false #[] reads
    have inside : k < c.index := by
      by_contra past
      rw [Tape.eof_after ends (Nat.le_of_not_lt past)] at hk
      cases hk
    obtain ⟨s, occurs, origin, opens, closed⟩ :=
      read k (Nat.zero_le _) inside line (by rw [hk]; exact soft)
    rw [Tape.tokensAfter_ofSource] at opens closed
    refine ⟨s, ?_, origin, fun o => ?_, closed⟩
    · rw [show body.toList = new from eq.trans (List.nil_append new)]
      exact occurs
    · obtain ⟨cl, kind, named⟩ := opens o
      exact ⟨cl, kind, named.trans (sound.spelled k kw hk)⟩
  · cases h

/-- The `case` line of a `match` block reads as a `case` block. -/
theorem Module.softKeyword_lines_case :
    Source.Fits "match x:\n  case 1: pass\n" ∧ ∃ m, Module.parse "match x:\n  case 1: pass\n" = .ok m ∧
      (Tape.ofSource "match x:\n  case 1: pass\n").atLineStart 5 = true ∧
      ((Tape.ofSource "match x:\n  case 1: pass\n").lexemeAt 5).token = .keyword .case ∧
      Keyword.case.isSoft = true ∧
      ∃ s : Stmt, s.Occurs m.body ∧
        (∃ stop, s.origin = .source ⟨(Tape.ofSource "match x:\n  case 1: pass\n").startAt 5, stop⟩) ∧
        (opensBlock (((Lexeme.scan "match x:\n  case 1: pass\n").toList.map (·.token)).drop 6) =
            true → ∃ cl, s.kind = .compound [cl] ∧ cl.keyword = Keyword.case.spelling) ∧
        (opensBlock (((Lexeme.scan "match x:\n  case 1: pass\n").toList.map (·.token)).drop 6) =
            false → s.kind.Leaf) := by
  obtain ⟨m, parsed⟩ := exists_parse_of_isSome "match x:\n  case 1: pass\n" (by decide +kernel)
  have fits : Source.Fits "match x:\n  case 1: pass\n" := by decide
  exact ⟨fits, m, parsed, by decide +kernel, by decide +kernel, rfl,
    Module.softKeyword_lines fits parsed (by decide +kernel) (by decide +kernel) rfl⟩

/-- A `case` block outside any `match`, a `match` with its body on its own line, and a line
that starts `match(x)[0]:` all read as blocks. -/
theorem Module.soft_blocks_anywhere :
    ["case x:\n    pass\n", "match x: pass\n", "match(x)[0]: int = 5\n"].map
        (fun src => (Module.parse src).toOption.map fun m => m.compounds.map (·.map (·.keyword))) =
      [some [["case"]], some [["match"]], some [["match"]]] := by
  decide +kernel

end PyTune
