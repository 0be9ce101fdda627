import PyTune.Proofs.DecoratorShapes
import PyTune.Proofs.Spelling
import PyTune.Proofs.Definitions
import PyTune.Edit.EntryPoint

/-!
# What counts as an entry-point guard

A top-level `if` is a guard when its condition holds the name `__name__` and a plain string whose
value is `__main__`, wherever they stand and whatever else it holds (`Module.hasEntryPoint_iff`).
-/

namespace PyTune

theorem Keyword.spelling_eq_if {k : Keyword} : k.spelling = "if" ↔ k = .if := by
  cases k <;> decide

namespace Tape

/-- The clause `cl` was read from its keyword at lexeme `k`: it is named by the keyword's text,
and as an `if` its names and strings are those of its condition, the lexemes from `k + 1` that
an expression reads up to the colon at `j`. -/
def ClauseAt (t : Tape) (cl : Clause) (k : Nat) : Prop :=
  cl.keyword = (t.lexemeAt k).span.text t.source ∧
    (cl.keyword = "if" → ∃ j, k < j ∧ t.Nests (k + 1) j [] [] ∧ (t.lexemeAt j).token = .colon ∧
      (cl.names, cl.strings) = headerWords t.source (t.between (k + 1) j))

/-- A compound statement starts where a keyword lexeme `k` does; when its first clause is an
`if`, that keyword is the `if` and the clause was read from it. -/
def IfHeaded (t : Tape) (s : Stmt) : Prop :=
  ∀ cl cls, s.kind = .compound (cl :: cls) → ∃ k stop kw,
    s.origin = .source ⟨(t.lexemeAt k).span.start, stop⟩ ∧ (t.lexemeAt k).token = .keyword kw ∧
      (cl.keyword = "if" → kw = .if ∧ t.ClauseAt cl k)

theorem IfHeaded.of_kind {t : Tape} {s : Stmt} (h : ∀ cls, s.kind ≠ .compound cls) :
    t.IfHeaded s :=
  fun _ _ hk => absurd hk (h _)

theorem IfHeaded.of_leaf {t : Tape} {s : Stmt} (h : s.kind.Leaf) : t.IfHeaded s :=
  of_kind fun _ hk => by
    rw [hk] at h
    exact h.elim

end Tape

namespace Grammar

variable {t : Tape} {c c' : Cursor}

/-- A block starts at its colon. -/
theorem Reads.suite_colon (n : Nat) {owner : BlockOwner} {body : Suite}
    (h : (suite n owner).Reads t c body c') : (t.lexemeAt c.index).token = .colon := by
  cases n with
  | zero =>
    rw [suite.eq_1] at h
    exact absurd h Reads.not_exhausted
  | succ n =>
    rw [suite.eq_2] at h
    obtain ⟨_, c₁, hx, -⟩ := h.bind
    exact (Reads.expect hx).1

/-- A clause is named by the text of its keyword; an `if` clause's names and strings are those
of the lexemes its condition reads, from the one after the `if` up to the block's colon. -/
theorem clause_header (n : Nat) {cl : Clause} (h : (clause n).Reads t c cl c') :
    t.ClauseAt cl c.index := by
  cases n with
  | zero =>
    rw [clause.eq_1] at h
    exact absurd h Reads.not_exhausted
  | succ n =>
    rw [clause.eq_2] at h
    obtain ⟨kw, c₁, hb, h⟩ := h.bind
    obtain ⟨rfl, rfl, -⟩ := hb.bump
    have h := h.read_bind.look_bind
    extract_lets jp at h
    obtain ⟨c₂, header, h⟩ : ∃ c₂, ((t.lexemeAt c.index).span.text t.source = "if" →
        t.Nests (c.index + 1) c₂.index [] [] ∧ c.index + 1 ≤ c₂.index) ∧
          (jp ()).Reads t c₂ cl c' := by
      split at h
      next =>
        obtain ⟨_, c₂, he, h⟩ := h.bind
        exact ⟨c₂, fun _ => ⟨namedExpression_nests n _ _ _ he, he.advance.index_le⟩, h⟩
      all_goals
        rename_i heq
        obtain ⟨c₂, -, h⟩ : ∃ c₂, t.Advance _ c₂ ∧ (jp ()).Reads t c₂ cl c' := by
          first | exact h.jump | exact h.jump₃ | exact ⟨_, .refl _ _, h⟩
        refine ⟨c₂, fun hif => ?_, h⟩
        first
          | contradiction
          | exact absurd (heq.symm.trans hif) (by decide)
    simp only [jp] at h
    have h := h.read_bind.look_bind
    obtain ⟨body, c₃, hsu, h⟩ := h.bind
    obtain ⟨rfl, rfl⟩ := h.pure
    refine ⟨rfl, fun hif => ?_⟩
    obtain ⟨nests, within⟩ := header hif
    have consumed : ((t.lexemes.extract (c.past (t.lexemeAt c.index)).index c₂.index).toList.filter
        fun l => !l.token.isLayout) = t.between (c.index + 1) c₂.index := nests.consumed within
    refine ⟨c₂.index, within, nests, Reads.suite_colon n hsu, ?_⟩
    simp only [consumed]

/-- The clauses after the first keep those read before them. -/
theorem moreClauses_prefix : ∀ n first last (acc : Array Clause) {c r c'},
    (moreClauses n first last acc).Reads t c r c' → ∃ more, r.toList = acc.toList ++ more
  | 0, _, _, _, _, _, _, h => by
    rw [moreClauses.eq_1] at h
    exact absurd h Reads.not_exhausted
  | n + 1, first, last, acc, c, r, c', h => by
    rw [moreClauses.eq_2] at h
    have h := h.look_bind
    split at h
    next =>
      split at h
      · obtain ⟨cl, c₁, -, h⟩ := h.bind
        obtain ⟨more, hmore⟩ := moreClauses_prefix n first _ _ h
        exact ⟨cl :: more, by rw [hmore, Array.toList_push, List.append_assoc]; rfl⟩
      · obtain ⟨rfl, rfl⟩ := h.pure
        exact ⟨[], (List.append_nil _).symm⟩
    next =>
      obtain ⟨rfl, rfl⟩ := h.pure
      exact ⟨[], (List.append_nil _).symm⟩

/-- A compound statement starts at `start` and opens with the clause read from its keyword. -/
theorem compound_first (n : Nat) {start : Nat} {s : Stmt}
    (h : (compound n start).Reads t c s c') :
    ∃ cl cls stop, s = ⟨.source ⟨start, stop⟩, .compound (cl :: cls)⟩ ∧ t.ClauseAt cl c.index := by
  cases n with
  | zero =>
    rw [compound.eq_1] at h
    exact absurd h Reads.not_exhausted
  | succ n =>
    rw [compound.eq_2] at h
    obtain ⟨first, c₁, hcl, h⟩ := h.bind
    obtain ⟨cls, c₂, hm, h⟩ := h.bind
    obtain ⟨more, hmore⟩ := moreClauses_prefix n _ _ _ hm
    extract_lets jp at h
    obtain ⟨c₃, h⟩ : ∃ c₃, (jp ()).Reads t c₃ s c' := by
      split at h
      · exact (Reads.fail_bind h).elim
      · exact ⟨_, h⟩
    simp only [jp] at h
    have h := h.look_bind
    obtain ⟨rfl, rfl⟩ := h.pure
    refine ⟨first, more, c'.lastEnd, ?_, clause_header n hcl⟩
    rw [hmore]
    rfl

/-- `match` and `case` read one clause, named by their keyword's text. -/
theorem softBlock_first (n : Nat) {start : Nat} {s : Stmt}
    (h : (softBlock n start).Reads t c s c') :
    ∃ cl stop, s = ⟨.source ⟨start, stop⟩, .compound [cl]⟩ ∧
      cl.keyword = (t.lexemeAt c.index).span.text t.source := by
  cases n with
  | zero =>
    rw [softBlock.eq_1] at h
    exact absurd h Reads.not_exhausted
  | succ n =>
    rw [softBlock.eq_2] at h
    obtain ⟨kw, c₁, hb, h⟩ := h.bind
    obtain ⟨rfl, rfl, -⟩ := hb.bump
    have h := h.read_bind.look_bind
    extract_lets jp at h
    obtain ⟨c₂, -, h⟩ : ∃ c₂, t.Advance _ c₂ ∧ (jp ()).Reads t c₂ s c' := by
      split at h
      · exact h.jump
      · exact h.read_bind.jump
    simp only [jp] at h
    have h := h.read_bind.look_bind
    obtain ⟨body, c₃, -, h⟩ := h.bind
    have h := h.look_bind
    obtain ⟨rfl, rfl⟩ := h.pure
    exact ⟨_, _, rfl, rfl⟩

/-- A function definition reads as one. -/
theorem functionDef_kind : ∀ n {start ds c s c'}, (functionDef n start ds).Reads t c s c' →
    ∃ d, s.kind = .functionDef d
  | 0, _, _, _, _, _, h => by
    rw [functionDef.eq_1] at h
    exact absurd h Reads.not_exhausted
  | n + 1, start, ds, c, s, c', h => by
    rw [functionDef.eq_2] at h
    obtain ⟨_, c₁, -, h⟩ := h.bind
    obtain ⟨_, c₂, -, h⟩ := h.moves
    have h := h.look_bind
    extract_lets rest₂ rest₁ at h
    obtain ⟨c₃, -, h⟩ : ∃ c₃, t.Advance c₂ c₃ ∧ (rest₁ ()).Reads t c₃ s c' := by
      split at h
      · exact h.jump
      · exact ⟨_, .refl _ _, h⟩
    simp only [rest₁] at h
    obtain ⟨_, c₄, -, h⟩ := h.moves
    obtain ⟨_, c₅, -, h⟩ := h.moves
    obtain ⟨_, c₆, -, h⟩ := h.moves
    have h := h.look_bind
    obtain ⟨c₇, -, h⟩ : ∃ c₇, t.Advance c₆ c₇ ∧ (rest₂ ()).Reads t c₇ s c' := by
      split at h
      · exact h.jump₂
      · exact ⟨_, .refl _ _, h⟩
    simp only [rest₂] at h
    obtain ⟨body, c₈, -, h⟩ := h.bind
    have h := h.read_bind.look_bind
    obtain ⟨rfl, rfl⟩ := h.pure
    exact ⟨_, rfl⟩

/-- A class definition reads as one. -/
theorem classDef_kind : ∀ n {start ds c s c'}, (classDef n start ds).Reads t c s c' →
    ∃ d, s.kind = .classDef d
  | 0, _, _, _, _, _, h => by
    rw [classDef.eq_1] at h
    exact absurd h Reads.not_exhausted
  | n + 1, start, ds, c, s, c', h => by
    rw [classDef.eq_2] at h
    obtain ⟨_, c₁, -, h⟩ := h.bind
    obtain ⟨_, c₂, -, h⟩ := h.moves
    have h := h.look_bind
    extract_lets rest₂ rest₁ at h
    obtain ⟨c₃, -, h⟩ : ∃ c₃, t.Advance c₂ c₃ ∧ (rest₁ ()).Reads t c₃ s c' := by
      split at h
      · exact h.jump
      · exact ⟨_, .refl _ _, h⟩
    simp only [rest₁] at h
    have h := h.look_bind
    obtain ⟨c₄, -, h⟩ : ∃ c₄, t.Advance c₃ c₄ ∧ (rest₂ ()).Reads t c₄ s c' := by
      split at h
      · exact h.jump₃
      · exact ⟨_, .refl _ _, h⟩
    simp only [rest₂] at h
    obtain ⟨body, c₅, -, h⟩ := h.bind
    have h := h.read_bind.look_bind
    obtain ⟨rfl, rfl⟩ := h.pure
    exact ⟨_, rfl⟩

/-- Decorators stand before a function or a class, which the reading gives. -/
theorem decorated_kind (n : Nat) {start : Nat} {s : Stmt}
    (h : (decorated n start).Reads t c s c') :
    ∃ d, s.kind = .functionDef d ∨ s.kind = .classDef d := by
  cases n with
  | zero =>
    rw [decorated.eq_1] at h
    exact absurd h Reads.not_exhausted
  | succ n =>
    rw [decorated.eq_2] at h
    extract_lets finish at h
    obtain ⟨ds, c₁, -, h⟩ := h.bind
    have h := h.look_bind.look_bind
    obtain ⟨s₀, c₂, kind₀, h⟩ : ∃ s₀ c₂, (∃ d, s₀.kind = .functionDef d ∨ s₀.kind = .classDef d) ∧
        (finish s₀).Reads t c₂ s c' := by
      split at h
      next =>
        obtain ⟨s₀, c₂, hf, h⟩ := h.bind
        obtain ⟨d, hd⟩ := functionDef_kind n hf
        exact ⟨s₀, c₂, ⟨d, .inl hd⟩, h⟩
      next =>
        obtain ⟨_, c₂, -, h⟩ := h.bind
        have h := h.look_bind
        extract_lets afterAsync at h
        split at h
        · exact (Reads.fail_bind h).elim
        · simp only [afterAsync] at h
          obtain ⟨s₀, c₃, hf, h⟩ := h.bind
          obtain ⟨d, hd⟩ := functionDef_kind n hf
          exact ⟨s₀, c₃, ⟨d, .inl hd⟩, h⟩
      next =>
        obtain ⟨s₀, c₂, hf, h⟩ := h.bind
        obtain ⟨d, hd⟩ := classDef_kind n hf
        exact ⟨s₀, c₂, ⟨d, .inr hd⟩, h⟩
      next => exact (Reads.fail_bind h).elim
    simp only [finish] at h
    have h := h.look_bind
    obtain ⟨rfl, rfl⟩ := h.pure
    exact kind₀

/-! ### The top-level statements -/

theorem forall_push {P : Stmt → Prop} {acc : Array Stmt} {s : Stmt} (hacc : ∀ x ∈ acc.toList, P x)
    (hs : P s) : ∀ x ∈ (acc.push s).toList, P x := by
  intro x m
  rw [Array.toList_push] at m
  rcases List.mem_append.1 m with m | m
  · exact hacc x m
  · rw [List.mem_singleton.1 m]
    exact hs

section TopLevel

/- The walk needs only that every keyword lexeme spans its spelling, as those of a source
without lexical faults do (`Tape.spelled_ofSource`). -/
variable (hsp : ∀ i kw, (t.lexemeAt i).token = .keyword kw →
  (t.lexemeAt i).span.text t.source = kw.spelling)
include hsp

omit hsp in
theorem simpleLine_ifHeaded {n : Nat} {acc : Array Stmt} {c r c'}
    (h : (simpleLine n acc).Reads t c r c') (hacc : ∀ s ∈ acc.toList, t.IfHeaded s) :
    ∀ s ∈ r.toList, t.IfHeaded s := by
  obtain ⟨new, split, leaves, -⟩ := simpleLine_leaves n acc h
  intro s m
  rw [split] at m
  rcases List.mem_append.1 m with m | m
  · exact hacc s m
  · exact Tape.IfHeaded.of_leaf (leaves s m)

/-- A compound statement read from the keyword `kw` at `c`, starting where the keyword `kw'` at
`k` starts: when it is an `if`, `k` is that `if`. -/
theorem compound_ifHeaded {n start : Nat} {c c' : Cursor} {s : Stmt} {kw kw' : Keyword} {k : Nat}
    (h : (compound n start).Reads t c s c')
    (hkw : (t.lexemeAt c.index).token = .keyword kw)
    (hk : (t.lexemeAt k).token = .keyword kw')
    (hs : start = (t.lexemeAt k).span.start) (same : kw = .if → k = c.index) :
    t.IfHeaded s := by
  obtain ⟨cl, cls, stop, rfl, named, header⟩ := compound_first n h
  intro cl' cls' hk'
  simp only [StmtKind.compound.injEq, List.cons.injEq] at hk'
  obtain ⟨rfl, rfl⟩ := hk'
  refine ⟨k, stop, kw', by rw [hs], hk, fun hif => ?_⟩
  have spelled : cl.keyword = kw.spelling := named.trans (hsp c.index kw hkw)
  have isIf : kw = .if := Keyword.spelling_eq_if.1 (spelled.symm.trans hif)
  obtain rfl := same isIf
  rw [hkw] at hk
  cases hk
  exact ⟨isIf, named, header⟩

/-- A `match` or `case` statement is no `if`. -/
theorem softBlock_ifHeaded {n : Nat} {c c' : Cursor} {s : Stmt} {kw : Keyword}
    (h : (softBlock n (t.lexemeAt c.index).span.start).Reads
      t c s c')
    (hkw : (t.lexemeAt c.index).token = .keyword kw) (soft : kw.isSoft = true) :
    t.IfHeaded s := by
  obtain ⟨cl, stop, rfl, named⟩ := softBlock_first n h
  intro cl' cls' hk'
  simp only [StmtKind.compound.injEq, List.cons.injEq] at hk'
  obtain ⟨rfl, -⟩ := hk'
  refine ⟨c.index, stop, kw, rfl, hkw, fun hif => ?_⟩
  have spelled : cl.keyword = kw.spelling := named.trans (hsp c.index kw hkw)
  have isIf : kw = .if := Keyword.spelling_eq_if.1 (spelled.symm.trans hif)
  rw [isIf] at soft
  cases soft

theorem stmtLine_ifHeaded : ∀ n (acc : Array Stmt) {c r c'},
    (stmtLine n acc).Reads t c r c' →
      (∀ s ∈ acc.toList, t.IfHeaded s) →
        ∀ s ∈ r.toList, t.IfHeaded s
  | 0, _, _, _, _, h, _ => by
    rw [stmtLine.eq_1] at h
    exact absurd h Reads.not_exhausted
  | n + 1, acc, c, r, c', h, hacc => by
    rw [stmtLine.eq_2] at h
    have h := h.look_bind.look_bind
    split at h
    next =>
      obtain ⟨s, c₁, hd, h⟩ := h.bind
      obtain ⟨rfl, rfl⟩ := h.pure
      obtain ⟨d, hk⟩ := decorated_kind n hd
      refine forall_push hacc (Tape.IfHeaded.of_kind fun cls e => ?_)
      rcases hk with hk | hk <;> rw [hk] at e <;> cases e
    next =>
      obtain ⟨s, c₁, hd, h⟩ := h.bind
      obtain ⟨rfl, rfl⟩ := h.pure
      obtain ⟨d, hk⟩ := functionDef_kind n hd
      exact forall_push hacc (Tape.IfHeaded.of_kind fun cls e => by rw [hk] at e; cases e)
    next =>
      obtain ⟨s, c₁, hd, h⟩ := h.bind
      obtain ⟨rfl, rfl⟩ := h.pure
      obtain ⟨d, hk⟩ := classDef_kind n hd
      exact forall_push hacc (Tape.IfHeaded.of_kind fun cls e => by rw [hk] at e; cases e)
    next hasync =>
      obtain ⟨_, c₁, hsk, h⟩ := h.bind
      obtain ⟨rfl, -⟩ := hsk.skip
      have h := h.look_bind
      split at h
      next =>
        obtain ⟨s, c₂, hd, h⟩ := h.bind
        obtain ⟨rfl, rfl⟩ := h.pure
        obtain ⟨d, hk⟩ := functionDef_kind n hd
        exact forall_push hacc (Tape.IfHeaded.of_kind fun cls e => by rw [hk] at e; cases e)
      all_goals first
        | exact absurd h Reads.not_fail
        | (rename_i hkw
           obtain ⟨s, c₂, hd, h⟩ := h.bind
           obtain ⟨rfl, rfl⟩ := h.pure
           exact forall_push hacc
            (compound_ifHeaded hsp hd hkw hasync rfl fun isIf => absurd isIf (by decide)))
    all_goals first
      | exact absurd h Reads.not_fail
      | (rename_i hkw
         obtain ⟨s, c₁, hd, h⟩ := h.bind
         obtain ⟨rfl, rfl⟩ := h.pure
         exact forall_push hacc (compound_ifHeaded hsp hd hkw hkw rfl fun _ => rfl))
      | (rename_i hkw
         have h := h.look_bind
         split at h
         · obtain ⟨s, c₁, hd, h⟩ := h.bind
           obtain ⟨rfl, rfl⟩ := h.pure
           exact forall_push hacc (softBlock_ifHeaded hsp hd hkw rfl)
         · exact simpleLine_ifHeaded h hacc)
      | exact simpleLine_ifHeaded h hacc

theorem statements_ifHeaded : ∀ n (acc : Array Stmt) {c r c'},
    (statements n false acc).Reads t c r c' →
      (∀ s ∈ acc.toList, t.IfHeaded s) →
        ∀ s ∈ r.toList, t.IfHeaded s
  | 0, _, _, _, _, h, _ => by
    rw [statements.eq_1] at h
    exact absurd h Reads.not_exhausted
  | n + 1, acc, c, r, c', h, hacc => by
    rw [statements.eq_2] at h
    obtain ⟨_, c₁, -, h⟩ := h.moves
    have h := h.look_bind
    split at h
    next =>
      obtain ⟨rfl, rfl⟩ := h.pure
      exact hacc
    next =>
      split at h
      · obtain ⟨_, c₂, -, h⟩ := h.moves
        obtain ⟨rfl, rfl⟩ := h.pure
        exact hacc
      · exact absurd h Reads.not_fail
    next => exact absurd h Reads.not_fail
    next =>
      obtain ⟨acc', c₂, hl, h⟩ := h.bind
      exact statements_ifHeaded n acc' h (stmtLine_ifHeaded hsp n acc hl hacc)

end TopLevel

end Grammar

/-- Every compound top-level statement of a module read from a source starts at a keyword, and
is an `if` only when that keyword is, with the clause read from it. -/
theorem Module.parse_ifHeaded {src : String} {m : Module} (h : Module.parse src = .ok m) :
    ∀ s ∈ m.body, (Tape.ofSource src).IfHeaded s := by
  have hsp := fun i kw hk => Tape.spelled_ofSource (Module.parse_noFault h) i (k := kw) hk
  unfold Module.parse at h
  dsimp only at h
  split at h
  · next body c adv heq =>
    cases h
    exact Grammar.statements_ifHeaded hsp _ #[] ⟨adv, heq⟩ fun _ m => absurd m List.not_mem_nil
  · cases h

/-! ### Names and strings of a condition -/

namespace EntryPoint

/-- A statement is a guard when it is a compound one whose first clause is an `if` with the
name `__name__` and the string `__main__` among its header's words. -/
theorem isGuard_iff (s : Stmt) : isGuard s = true ↔ ∃ cl cls, s.kind = .compound (cl :: cls) ∧
    cl.keyword = "if" ∧ "__name__" ∈ cl.names ∧ "__main__" ∈ cl.strings := by
  obtain ⟨o, k⟩ := s
  cases k with
  | compound cs =>
    cases cs with
    | nil => simp [isGuard]
    | cons cl cls => simp [isGuard, Bool.and_eq_true, and_assoc]
  | _ => simp [isGuard]

end EntryPoint

theorem headerWords_names_mem {src x : String} {ls : List Lexeme} :
    x ∈ (headerWords src ls).1 ↔ ∃ l ∈ ls, l.token.nameText?.isSome ∧ l.span.text src = x := by
  simp only [headerWords, List.mem_filterMap]
  constructor
  · rintro ⟨l, hl, named⟩
    split at named
    · cases named
    · obtain ⟨_, is, rfl⟩ := Option.map_eq_some_iff.1 named
      exact ⟨l, hl, by rw [is]; rfl, rfl⟩
  · rintro ⟨l, hl, is, rfl⟩
    refine ⟨l, hl, ?_⟩
    obtain ⟨y, hy⟩ := Option.isSome_iff_exists.1 is
    have notStr : l.token.isStr = false := by
      cases ht : l.token <;> simp_all [Token.nameText?, Token.isStr]
    rw [if_neg (by rw [notStr]; decide), hy]
    rfl

theorem headerWords_strings_mem {src x : String} {ls : List Lexeme} :
    x ∈ (headerWords src ls).2 ↔ ∃ l ∈ ls, ∃ raw, l.token = .str raw ∧ stringValue? raw = some x := by
  simp only [headerWords, List.mem_filterMap]
  constructor
  · rintro ⟨l, hl, value⟩
    split at value
    · next raw hraw => exact ⟨l, hl, raw, hraw, value⟩
    · cases value
  · rintro ⟨l, hl, raw, hraw, value⟩
    exact ⟨l, hl, by rw [hraw]; exact value⟩

/-- A name lexeme of a source spans the name. -/
theorem Tape.name_text_ofSource {src : String} {i : Nat} {x : String}
    (hk : ((Tape.ofSource src).lexemeAt i).token = .name x) :
    ((Tape.ofSource src).lexemeAt i).span.text src = x := by
  obtain ⟨pre, stop, post, whole, clean, halts, ends⟩ := Lexeme.scan_split src
  have bound : i < (Lexeme.scan src).size := Tape.lexemeAt_lt_size (by rw [hk]; intro e; cases e)
  have mem : (Tape.ofSource src).lexemeAt i ∈ (Lexeme.scan src).toList :=
    List.mem_of_getElem? (by rw [Array.getElem?_toList]; exact Tape.getElem?_ofSource bound)
  rw [whole] at mem
  rcases List.mem_append.1 mem with before | rest
  · -- before the scan stops, every lexeme spells its text
    have spelled := Lexeme.scan_spells_before whole clean _ before
    rw [hk] at spelled
    rw [spelled.2, String.ofList_toList]
  rcases List.mem_cons.1 rest with same | after
  · rw [← same, hk] at halts
    simp [Token.fault?] at halts
  · have eof := congrArg (·.token) (ends _ after)
    rw [hk] at eof
    cases eof

theorem Tape.mem_between {t : Tape} {i j : Nat} {l : Lexeme} (h : l ∈ t.between i j) :
    ∃ n, i ≤ n ∧ n < j ∧ l = t.lexemeAt n := by
  simp only [Tape.between, List.mem_map, List.mem_range'] at h
  obtain ⟨n, ⟨m, hm, rfl⟩, rfl⟩ := h
  exact ⟨i + m, by omega, by omega, by rw [Nat.one_mul]⟩

/-- Among the lexemes of a source without lexical faults, a header names `__name__` exactly
when one of them is the name `__name__`: a soft keyword spans its own spelling. -/
theorem Tape.headerNames_ofSource {src : String}
    (hf : ∀ l ∈ (Lexeme.scan src).toList, l.token.fault? = none) (i j : Nat) :
    "__name__" ∈ (headerWords src ((Tape.ofSource src).between i j)).1 ↔
      ∃ l ∈ (Tape.ofSource src).between i j, l.token = .name "__name__" := by
  rw [headerWords_names_mem]
  constructor
  · rintro ⟨l, hl, is, text⟩
    obtain ⟨n, -, -, rfl⟩ := Tape.mem_between hl
    refine ⟨_, hl, ?_⟩
    cases hk : ((Tape.ofSource src).lexemeAt n).token with
    | name y => rw [← Tape.name_text_ofSource hk, text]
    | keyword k =>
      -- no keyword is spelled `__name__`
      rw [Tape.spelled_ofSource hf n hk] at text
      exact absurd text (by cases k <;> decide)
    | _ =>
      rw [hk] at is
      cases is
  · rintro ⟨l, hl, named⟩
    obtain ⟨n, -, -, rfl⟩ := Tape.mem_between hl
    exact ⟨_, hl, by rw [named]; rfl, Tape.name_text_ofSource named⟩

/-- Two keyword lexemes of a source without lexical faults that start at one offset are one:
a keyword spans its spelling, which is never empty. -/
theorem Tape.eq_of_keyword_start {src : String}
    (hf : ∀ l ∈ (Lexeme.scan src).toList, l.token.fault? = none) {k₁ k₂ : Nat} {kw₁ kw₂ : Keyword}
    (h₁ : ((Tape.ofSource src).lexemeAt k₁).token = .keyword kw₁)
    (h₂ : ((Tape.ofSource src).lexemeAt k₂).token = .keyword kw₂)
    (same : ((Tape.ofSource src).lexemeAt k₁).span.start =
      ((Tape.ofSource src).lexemeAt k₂).span.start) : k₁ = k₂ := by
  have ordered := Tape.ordered_ofSource src hf
  have wide₁ := Span.start_lt_stop_of_text (Tape.spelled_ofSource hf k₁ h₁)
  have wide₂ := Span.start_lt_stop_of_text (Tape.spelled_ofSource hf k₂ h₂)
  rcases Nat.lt_trichotomy k₁ k₂ with lt | eq | gt
  · have := ordered.stop_le_start lt
    omega
  · exact eq
  · have := ordered.stop_le_start gt
    omega

/-- Outside brackets and lambdas, a colon ends an expression's reading. -/
theorem Lexeme.exprScan_colon {xs ys : List Lexeme} {x : Lexeme}
    (h : Lexeme.exprScan [] 0 xs = some ([], 0)) (hx : x.token = .colon) :
    Lexeme.exprScan [] 0 (xs ++ x :: ys) = none := by
  rw [Lexeme.exprScan_append, h, Option.bind_some]
  simp [Lexeme.exprScan, Lexeme.exprStep, hx]

/-- The colon after an expression's lexemes from `i` is where they end: an expression read on
from `i` stops at the first colon outside brackets and lambdas. -/
theorem Tape.Nests.colon_unique {t : Tape} {i j j' : Nat} (h : t.Nests i j [] [])
    (h' : Lexeme.exprScan [] 0 (t.between i j') = some ([], 0))
    (hj : (t.lexemeAt j).token = .colon) (hj' : (t.lexemeAt j').token = .colon)
    (hij : i ≤ j) (hij' : i ≤ j') : j = j' := by
  have whole : Lexeme.exprScan [] 0 (t.between i j) = some ([], 0) := h [] 0
  rcases Nat.lt_trichotomy j j' with lt | eq | gt
  · rw [Tape.between_append hij (Nat.le_of_lt lt), Tape.between_append (Nat.le_succ j) lt,
      Tape.between_succ, List.singleton_append, Lexeme.exprScan_colon whole hj] at h'
    cases h'
  · exact eq
  · rw [Tape.between_append hij' (Nat.le_of_lt gt), Tape.between_append (Nat.le_succ j') gt,
      Tape.between_succ, List.singleton_append, Lexeme.exprScan_colon h' hj'] at whole
    cases whole

/-! ### The guard -/

/-- A module read from a source that fits has an entry-point guard exactly when one of its
top-level statements is an `if` whose condition holds the name `__name__` and a plain string
literal whose value is `__main__`. The condition is the lexemes after the `if` up to the colon
that opens its block, as an expression reads them. Nothing else about it counts: neither the
operator between the two nor what else the condition holds. -/
theorem Module.hasEntryPoint_iff {src : String} {m : Module} (_fits : Source.Fits src)
    (h : Module.parse src = .ok m) :
    m.hasEntryPoint = true ↔ ∃ s ∈ m.body, ∃ cl cls, s.kind = .compound (cl :: cls) ∧
      cl.keyword = "if" ∧ ∃ k j head ls, (Lexeme.scan src)[k]? = some head ∧
        head.token = .keyword .if ∧ (∃ stop, s.origin = .source ⟨head.span.start, stop⟩) ∧
        (∃ colon, (Lexeme.scan src)[j]? = some colon ∧ colon.token = .colon) ∧
        ls = ((Lexeme.scan src).extract (k + 1) j).toList ∧
        Lexeme.exprScan [] 0 ls = some ([], 0) ∧ (∃ l ∈ ls, l.token = .name "__name__") ∧
        ∃ l ∈ ls, ∃ raw, l.token = .str raw ∧ stringValue? raw = some "__main__" := by
  have hf := Module.parse_noFault h
  have heads := Module.parse_ifHeaded h
  unfold Module.hasEntryPoint
  rw [List.any_eq_true]
  constructor
  · rintro ⟨s, hs, guard⟩
    obtain ⟨cl, cls, kind, isIf, named, main⟩ := (EntryPoint.isGuard_iff s).1 guard
    obtain ⟨k, stop, kw, origin, hk, header⟩ := heads s hs cl cls kind
    obtain ⟨rfl, -, clauseIf⟩ := header isIf
    obtain ⟨j, lt, nests, colon, words⟩ := clauseIf isIf
    have kBound : k < (Lexeme.scan src).size :=
      Tape.lexemeAt_lt_size (t := Tape.ofSource src) (by rw [hk]; intro e; cases e)
    have jBound : j < (Lexeme.scan src).size :=
      Tape.lexemeAt_lt_size (t := Tape.ofSource src) (by rw [colon]; intro e; cases e)
    have lexemes : (Tape.ofSource src).between (k + 1) j =
        ((Lexeme.scan src).extract (k + 1) j).toList :=
      Tape.between_eq_extract _ (by rw [Tape.lexemes_ofSource]; omega)
    rw [Prod.ext_iff] at words
    dsimp only at words
    refine ⟨s, hs, cl, cls, kind, isIf, k, j, _, _, Tape.getElem?_ofSource kBound, hk,
      ⟨stop, origin⟩, ⟨_, Tape.getElem?_ofSource jBound, colon⟩, lexemes, ?_, ?_, ?_⟩
    · simpa using nests [] 0
    · exact (Tape.headerNames_ofSource hf _ _).1 (words.1 ▸ named)
    · exact headerWords_strings_mem.1 (words.2 ▸ main)
  · rintro ⟨s, hs, cl, cls, kind, isIf, k, j, head, ls, hk, hif, ⟨stop, origin⟩,
      ⟨colon, hj, hcolon⟩, rfl, scan, ⟨l, hl, hname⟩, main⟩
    obtain ⟨k₀, stop₀, kw, origin₀, hk₀, header⟩ := heads s hs cl cls kind
    obtain ⟨rfl, -, clauseIf⟩ := header isIf
    obtain ⟨j₀, lt, nests, colon₀, words⟩ := clauseIf isIf
    have atK := Tape.lexemeAt_ofSource hk
    have atJ := Tape.lexemeAt_ofSource hj
    -- the statement starts at one keyword only, so its `if` is the one given
    have starts := origin.symm.trans origin₀
    simp only [Origin.source.injEq, Span.mk.injEq] at starts
    have sameK : k₀ = k := Tape.eq_of_keyword_start hf hk₀ (by rw [atK]; exact hif)
      (by rw [atK]; exact starts.1.symm)
    subst sameK
    have lexemes : (Tape.ofSource src).between (k₀ + 1) j =
        ((Lexeme.scan src).extract (k₀ + 1) j).toList :=
      Tape.between_eq_extract _ (by
        rw [Tape.lexemes_ofSource]
        exact Nat.le_of_lt (Array.getElem?_eq_some_iff.1 hj).1)
    rw [← lexemes] at scan hl main
    have within : k₀ + 1 ≤ j := by
      obtain ⟨n, lo, hi, -⟩ := Tape.mem_between hl
      omega
    have sameJ : j₀ = j := nests.colon_unique scan colon₀ (by rw [atJ]; exact hcolon) lt within
    subst sameJ
    rw [Prod.ext_iff] at words
    dsimp only at words
    refine ⟨s, hs, (EntryPoint.isGuard_iff s).2 ⟨cl, cls, kind, isIf, ?_, ?_⟩⟩
    · rw [words.1]
      exact (Tape.headerNames_ofSource hf _ _).2 ⟨l, hl, hname⟩
    · rw [words.2]
      exact headerWords_strings_mem.2 main

/-- The usual guard reads, and it is one: its `if` is the first lexeme and its colon the fifth. -/
theorem Module.hasEntryPoint_iff_usual :
    Source.Fits "if __name__ == '__main__':\n    pass\n" ∧ ∃ m, Module.parse "if __name__ == '__main__':\n    pass\n" = .ok m ∧ m.hasEntryPoint = true ∧
      ∃ s ∈ m.body, ∃ cl cls, s.kind = .compound (cl :: cls) ∧
      cl.keyword = "if" ∧ ∃ k j head ls, (Lexeme.scan "if __name__ == '__main__':\n    pass\n")[k]? = some head ∧
        head.token = .keyword .if ∧ (∃ stop, s.origin = .source ⟨head.span.start, stop⟩) ∧
        (∃ colon, (Lexeme.scan "if __name__ == '__main__':\n    pass\n")[j]? = some colon ∧ colon.token = .colon) ∧
        ls = ((Lexeme.scan "if __name__ == '__main__':\n    pass\n").extract (k + 1) j).toList ∧
        Lexeme.exprScan [] 0 ls = some ([], 0) ∧ (∃ l ∈ ls, l.token = .name "__name__") ∧
        ∃ l ∈ ls, ∃ raw, l.token = .str raw ∧ stringValue? raw = some "__main__" := by
  have detected : (Module.parse "if __name__ == '__main__':\n    pass\n").toOption.map Module.hasEntryPoint = some true := by
    decide +kernel
  cases parsed : Module.parse "if __name__ == '__main__':\n    pass\n" with
  | error e =>
    rw [parsed] at detected
    cases detected
  | ok m =>
    rw [parsed] at detected
    have guarded : m.hasEntryPoint = true := Option.some.inj detected
    have fits : Source.Fits "if __name__ == '__main__':\n    pass\n" := by decide
    exact ⟨fits, m, rfl, guarded, (Module.hasEntryPoint_iff fits parsed).1 guarded⟩

/-- A condition that compares `__name__` with `'__main__'` by `!=` makes a guard too. -/
theorem Module.hasEntryPoint_not_equal :
    (Lexeme.scan "if __name__ != '__main__':\n    pass\n").toList.map (·.token) =
      [.keyword .if, .name "__name__", .op "!=", .str "'__main__'", .colon, .newline, .indent,
        .keyword .pass, .newline, .dedent, .eof] ∧
    (Module.parse "if __name__ != '__main__':\n    pass\n").toOption.map Module.hasEntryPoint = some true :=
  ⟨by decide +kernel, by decide +kernel⟩

end PyTune
