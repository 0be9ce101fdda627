import PyTune.Proofs.Editing

/-!
# A parsed module holds only pieces of its source

Every statement and decorator the grammar builds is a piece of the source, starting where a
lexeme starts (`Sourced`), by induction on the depth bound the grammar's rules share.
-/

namespace PyTune

/-- An origin in the source, starting at or after `x`. -/
def Origin.After (x : Nat) : Origin → Prop
  | .source sp => x ≤ sp.start
  | .inserted _ => False

mutual

/-- Statements that are pieces of the source from `x` on, with decorators from the source. -/
def Sourced.stmts (x : Nat) : List Stmt → Prop
  | [] => True
  | s :: rest => Sourced.stmt x s ∧ Sourced.stmts x rest

/-- A statement from the source, starting at or after `x`, with what it holds sourced too: a
definition's decorators are from the source and its keyword is at or after `x`. -/
def Sourced.stmt (x : Nat) : Stmt → Prop
  | ⟨o, .functionDef ⟨_, ds, _, offset, body⟩⟩ =>
    o.After x ∧ Placed.FromSource ds ∧ x ≤ offset ∧ Sourced.suite x body
  | ⟨o, .classDef ⟨_, ds, _, offset, body⟩⟩ =>
    o.After x ∧ Placed.FromSource ds ∧ x ≤ offset ∧ Sourced.suite x body
  | ⟨o, .compound cs⟩ => o.After x ∧ Sourced.clauses x cs
  | ⟨o, _⟩ => o.After x

def Sourced.clauses (x : Nat) : List Clause → Prop
  | [] => True
  | ⟨_, _, _, body⟩ :: cs => Sourced.suite x body ∧ Sourced.clauses x cs

def Sourced.suite (x : Nat) : Suite → Prop
  | .inline body => Sourced.stmts x body
  | .block _ body => Sourced.stmts x body

end

namespace Sourced

variable {x : Nat}

theorem stmts_append : ∀ {xs ys : List Stmt}, Sourced.stmts x xs → Sourced.stmts x ys →
    Sourced.stmts x (xs ++ ys)
  | [], _, _, hy => hy
  | _ :: _, _, ⟨hs, hr⟩, hy => ⟨hs, stmts_append hr hy⟩

theorem stmts_push {acc : Array Stmt} {s : Stmt} (hacc : Sourced.stmts x acc.toList)
    (hs : Sourced.stmt x s) : Sourced.stmts x (acc.push s).toList := by
  rw [Array.toList_push]
  exact stmts_append hacc ⟨hs, trivial⟩

theorem clauses_append : ∀ {xs ys : List Clause}, Sourced.clauses x xs → Sourced.clauses x ys →
    Sourced.clauses x (xs ++ ys)
  | [], _, _, hy => hy
  | ⟨_, _, _, _⟩ :: _, _, ⟨hb, hr⟩, hy => ⟨hb, clauses_append hr hy⟩

theorem clauses_push {acc : Array Clause} {cl : Clause} (hacc : Sourced.clauses x acc.toList)
    (hb : Sourced.suite x cl.body) : Sourced.clauses x (acc.push cl).toList := by
  rw [Array.toList_push]
  obtain ⟨k, names, strings, body⟩ := cl
  exact clauses_append hacc ⟨hb, trivial⟩

theorem stmt_leaf {s : Stmt} (hk : s.kind.Leaf) (ho : s.origin.After x) : Sourced.stmt x s := by
  obtain ⟨o, k⟩ := s
  cases k <;> first | exact hk.elim | exact ho

/-- A definition given a new origin from the source is sourced as before. -/
theorem stmt_reorigin {s : Stmt} {o : Origin} (h : Sourced.stmt x s) (ho : o.After x) :
    Sourced.stmt x { s with origin := o } := by
  obtain ⟨o', k⟩ := s
  cases k with
  | functionDef d | classDef d =>
    obtain ⟨_, _, _, _, _⟩ := d
    exact ⟨ho, h.2⟩
  | compound cs => exact ⟨ho, h.2⟩
  | _ => exact ho

end Sourced

namespace Grammar

variable {t : Tape} {x : Nat}

/-- The decorators of a definition are all from the source. -/
theorem decoratorList_fromSource :
    ∀ n (acc : Array Decorator) {c ds c'}, (decoratorList n acc).Reads t c ds c' →
      Placed.FromSource acc.toList → Placed.FromSource ds
  | 0, _, _, _, _, h, _ => absurd h Reads.not_exhausted
  | n + 1, acc, c, ds, c', h, hsrc => by
    rw [decoratorList.eq_2] at h
    have h := h.look_bind
    split at h
    · obtain ⟨rfl, rfl⟩ := h.pure
      exact hsrc
    · obtain ⟨sign, c₁, -, h⟩ := h.bind
      obtain ⟨_, c₂, -, h⟩ := h.look_bind.moves
      obtain ⟨_, c₃, -, h⟩ := h.look_bind.moves
      obtain ⟨_, c₄, -, h⟩ := h.look_bind.read_bind.moves
      refine decoratorList_fromSource n _ h ?_
      intro d m
      rw [Array.toList_push] at m
      rcases List.mem_append.mp m with m | m
      · exact hsrc d m
      · rw [List.mem_singleton.mp m]
        exact ⟨_, rfl⟩

/-- A line of simple statements: each is from the source and starts where a lexeme starts. -/
theorem simpleLine_sourced (hx : ∀ k, x ≤ (t.lexemeAt k).span.start) :
    ∀ n (acc : Array Stmt) {c r c'}, (simpleLine n acc).Reads t c r c' →
      Sourced.stmts x acc.toList → Sourced.stmts x r.toList
  | 0, _, _, _, _, h, _ => absurd h Reads.not_exhausted
  | n + 1, acc, c, r, c', h, hacc => by
    rw [simpleLine.eq_2] at h
    obtain ⟨s, c₁, hs, h⟩ := h.bind
    obtain ⟨more, c₂, -, h⟩ := h.bind
    obtain ⟨origin, leaf⟩ := simpleStmt_yields n s c₁ hs
    have pushed : Sourced.stmts x (acc.push s).toList :=
      Sourced.stmts_push hacc (Sourced.stmt_leaf leaf (by rw [origin]; exact hx _))
    split at h
    · exact simpleLine_sourced hx n _ h pushed
    · obtain ⟨_, c₃, -, h⟩ := h.bind
      obtain ⟨rfl, rfl⟩ := h.pure
      exact pushed

mutual

theorem statements_sourced (hx : ∀ k, x ≤ (t.lexemeAt k).span.start) :
    ∀ n inBlock (acc : Array Stmt) {c r c'}, (statements n inBlock acc).Reads t c r c' →
      Sourced.stmts x acc.toList → Sourced.stmts x r.toList
  | 0, _, _, _, _, _, h, _ => by
    rw [statements.eq_1] at h
    exact absurd h Reads.not_exhausted
  | n + 1, inBlock, acc, c, r, c', h, hacc => by
    rw [statements.eq_2] at h
    obtain ⟨_, c₁, -, h⟩ := h.moves
    have h := h.look_bind
    split at h
    next =>
      obtain ⟨rfl, rfl⟩ := h.pure
      exact hacc
    next =>
      split at h
      · obtain ⟨_, c₂, -, h⟩ := h.moves
        obtain ⟨rfl, rfl⟩ := h.pure
        exact hacc
      · exact absurd h Reads.not_fail
    next => exact absurd h Reads.not_fail
    next =>
      obtain ⟨acc', c₂, hl, h⟩ := h.bind
      exact statements_sourced hx n inBlock acc' h (stmtLine_sourced hx n acc hl hacc)
termination_by structural n => n

theorem stmtLine_sourced (hx : ∀ k, x ≤ (t.lexemeAt k).span.start) :
    ∀ n (acc : Array Stmt) {c r c'}, (stmtLine n acc).Reads t c r c' →
      Sourced.stmts x acc.toList → Sourced.stmts x r.toList
  | 0, _, _, _, _, h, _ => by
    rw [stmtLine.eq_1] at h
    exact absurd h Reads.not_exhausted
  | n + 1, acc, c, r, c', h, hacc => by
    rw [stmtLine.eq_2] at h
    have h := h.look_bind.look_bind
    have none : Placed.FromSource [] := fun _ m => absurd m List.not_mem_nil
    split at h
    next =>
      obtain ⟨s, c₁, hd, h⟩ := h.bind
      obtain ⟨rfl, rfl⟩ := h.pure
      exact Sourced.stmts_push hacc (decorated_sourced hx n hd (hx _))
    next =>
      obtain ⟨s, c₁, hd, h⟩ := h.bind
      obtain ⟨rfl, rfl⟩ := h.pure
      exact Sourced.stmts_push hacc (functionDef_sourced hx n hd none (hx _))
    next =>
      obtain ⟨s, c₁, hd, h⟩ := h.bind
      obtain ⟨rfl, rfl⟩ := h.pure
      exact Sourced.stmts_push hacc (classDef_sourced hx n hd none (hx _))
    next =>
      obtain ⟨_, c₁, -, h⟩ := h.bind
      have h := h.look_bind
      split at h
      next =>
        obtain ⟨s, c₂, hd, h⟩ := h.bind
        obtain ⟨rfl, rfl⟩ := h.pure
        exact Sourced.stmts_push hacc (functionDef_sourced hx n hd none (hx _))
      next =>
        obtain ⟨s, c₂, hd, h⟩ := h.bind
        obtain ⟨rfl, rfl⟩ := h.pure
        exact Sourced.stmts_push hacc (compound_sourced hx n hd (hx _))
      next =>
        obtain ⟨s, c₂, hd, h⟩ := h.bind
        obtain ⟨rfl, rfl⟩ := h.pure
        exact Sourced.stmts_push hacc (compound_sourced hx n hd (hx _))
      next => exact absurd h Reads.not_fail
    all_goals first
      | exact absurd h Reads.not_fail
      | (obtain ⟨s, c₁, hd, h⟩ := h.bind
         obtain ⟨rfl, rfl⟩ := h.pure
         exact Sourced.stmts_push hacc (compound_sourced hx n hd (hx _)))
      | (have h := h.look_bind
         split at h
         · obtain ⟨s, c₁, hd, h⟩ := h.bind
           obtain ⟨rfl, rfl⟩ := h.pure
           exact Sourced.stmts_push hacc (softBlock_sourced hx n hd (hx _))
         · exact simpleLine_sourced hx n acc h hacc)
      | exact simpleLine_sourced hx n acc h hacc
termination_by structural n => n

theorem suite_sourced (hx : ∀ k, x ≤ (t.lexemeAt k).span.start) :
    ∀ n owner {c body c'}, (suite n owner).Reads t c body c' → Sourced.suite x body
  | 0, _, _, _, _, h => by
    rw [suite.eq_1] at h
    exact absurd h Reads.not_exhausted
  | n + 1, owner, c, body, c', h => by
    rw [suite.eq_2] at h
    extract_lets block jp at h
    obtain ⟨_, c₁, -, h⟩ := h.moves
    have h := h.look_bind
    split at h
    next =>
      simp only [jp] at h
      obtain ⟨_, c₂, -, h⟩ := h.moves
      have h := h.look_bind
      obtain ⟨c₃, h⟩ : ∃ c₃, (block ()).Reads t c₃ body c' := by
        split at h
        · exact (Reads.fail_bind h).elim
        · exact ⟨_, h⟩
      simp only [block] at h
      obtain ⟨_, c₄, -, h⟩ := h.moves
      have h := h.read_bind.look_bind
      obtain ⟨stmts, c₅, hst, h⟩ := h.bind
      obtain ⟨rfl, rfl⟩ := h.pure
      exact statements_sourced hx n true #[] hst trivial
    all_goals first
      | exact (Reads.fail_bind h).elim
      | skip
    obtain ⟨line, c₂, hl, h⟩ := h.bind
    obtain ⟨rfl, rfl⟩ := h.pure
    exact simpleLine_sourced hx n #[] hl trivial
termination_by structural n => n

theorem decorated_sourced (hx : ∀ k, x ≤ (t.lexemeAt k).span.start) :
    ∀ n {start c s c'}, (decorated n start).Reads t c s c' → x ≤ start → Sourced.stmt x s
  | 0, _, _, _, _, h, _ => by
    rw [decorated.eq_1] at h
    exact absurd h Reads.not_exhausted
  | n + 1, start, c, s, c', h, hs => by
    rw [decorated.eq_2] at h
    extract_lets finish at h
    obtain ⟨ds, c₁, hdl, h⟩ := h.bind
    have fromSource := decoratorList_fromSource n #[] hdl fun _ m => absurd m List.not_mem_nil
    have h := h.look_bind.look_bind
    obtain ⟨s₀, c₂, read₀, h⟩ : ∃ s₀ c₂, Sourced.stmt x s₀ ∧ (finish s₀).Reads t c₂ s c' := by
      split at h
      next =>
        obtain ⟨s₀, c₂, hf, h⟩ := h.bind
        exact ⟨s₀, c₂, functionDef_sourced hx n hf fromSource (hx _), h⟩
      next =>
        obtain ⟨_, c₂, -, h⟩ := h.bind
        have h := h.look_bind
        extract_lets afterAsync at h
        split at h
        · exact (Reads.fail_bind h).elim
        · simp only [afterAsync] at h
          obtain ⟨s₀, c₃, hf, h⟩ := h.bind
          exact ⟨s₀, c₃, functionDef_sourced hx n hf fromSource (hx _), h⟩
      next =>
        obtain ⟨s₀, c₂, hf, h⟩ := h.bind
        exact ⟨s₀, c₂, classDef_sourced hx n hf fromSource (hx _), h⟩
      next => exact (Reads.fail_bind h).elim
    simp only [finish] at h
    have h := h.look_bind
    obtain ⟨rfl, rfl⟩ := h.pure
    exact Sourced.stmt_reorigin read₀ hs
termination_by structural n => n

theorem functionDef_sourced (hx : ∀ k, x ≤ (t.lexemeAt k).span.start) :
    ∀ n {start ds c s c'}, (functionDef n start ds).Reads t c s c' → Placed.FromSource ds →
      x ≤ start → Sourced.stmt x s
  | 0, _, _, _, _, _, h, _, _ => by
    rw [functionDef.eq_1] at h
    exact absurd h Reads.not_exhausted
  | n + 1, start, ds, c, s, c', h, hds, hs => by
    rw [functionDef.eq_2] at h
    obtain ⟨_, c₁, -, h⟩ := h.bind
    obtain ⟨_, c₂, -, h⟩ := h.moves
    have h := h.look_bind
    extract_lets rest₂ rest₁ at h
    obtain ⟨c₃, -, h⟩ : ∃ c₃, t.Advance c₂ c₃ ∧ (rest₁ ()).Reads t c₃ s c' := by
      split at h
      · exact h.jump
      · exact ⟨_, .refl _ _, h⟩
    simp only [rest₁] at h
    obtain ⟨_, c₄, -, h⟩ := h.moves
    obtain ⟨_, c₅, -, h⟩ := h.moves
    obtain ⟨_, c₆, -, h⟩ := h.moves
    have h := h.look_bind
    obtain ⟨c₇, -, h⟩ : ∃ c₇, t.Advance c₆ c₇ ∧ (rest₂ ()).Reads t c₇ s c' := by
      split at h
      · exact h.jump₂
      · exact ⟨_, .refl _ _, h⟩
    simp only [rest₂] at h
    obtain ⟨body, c₈, hsu, h⟩ := h.bind
    have h := h.read_bind.look_bind
    obtain ⟨rfl, rfl⟩ := h.pure
    exact ⟨hs, hds, hs, suite_sourced hx n _ hsu⟩
termination_by structural n => n

theorem classDef_sourced (hx : ∀ k, x ≤ (t.lexemeAt k).span.start) :
    ∀ n {start ds c s c'}, (classDef n start ds).Reads t c s c' → Placed.FromSource ds →
      x ≤ start → Sourced.stmt x s
  | 0, _, _, _, _, _, h, _, _ => by
    rw [classDef.eq_1] at h
    exact absurd h Reads.not_exhausted
  | n + 1, start, ds, c, s, c', h, hds, hs => by
    rw [classDef.eq_2] at h
    obtain ⟨_, c₁, -, h⟩ := h.bind
    obtain ⟨_, c₂, -, h⟩ := h.moves
    have h := h.look_bind
    extract_lets rest₂ rest₁ at h
    obtain ⟨c₃, -, h⟩ : ∃ c₃, t.Advance c₂ c₃ ∧ (rest₁ ()).Reads t c₃ s c' := by
      split at h
      · exact h.jump
      · exact ⟨_, .refl _ _, h⟩
    simp only [rest₁] at h
    have h := h.look_bind
    obtain ⟨c₄, -, h⟩ : ∃ c₄, t.Advance c₃ c₄ ∧ (rest₂ ()).Reads t c₄ s c' := by
      split at h
      · exact h.jump₃
      · exact ⟨_, .refl _ _, h⟩
    simp only [rest₂] at h
    obtain ⟨body, c₅, hsu, h⟩ := h.bind
    have h := h.read_bind.look_bind
    obtain ⟨rfl, rfl⟩ := h.pure
    exact ⟨hs, hds, hs, suite_sourced hx n _ hsu⟩
termination_by structural n => n

theorem compound_sourced (hx : ∀ k, x ≤ (t.lexemeAt k).span.start) :
    ∀ n {start c s c'}, (compound n start).Reads t c s c' → x ≤ start → Sourced.stmt x s
  | 0, _, _, _, _, h, _ => by
    rw [compound.eq_1] at h
    exact absurd h Reads.not_exhausted
  | n + 1, start, c, s, c', h, hs => by
    rw [compound.eq_2] at h
    obtain ⟨first, c₁, hcl, h⟩ := h.bind
    obtain ⟨cls, c₂, hm, h⟩ := h.bind
    have clauses := moreClauses_sourced hx n _ _ _ hm
      (Sourced.clauses_push (show Sourced.clauses x (#[] : Array Clause).toList from trivial)
        (clause_sourced hx n hcl))
    extract_lets jp at h
    obtain ⟨c₃, h⟩ : ∃ c₃, (jp ()).Reads t c₃ s c' := by
      split at h
      · exact (Reads.fail_bind h).elim
      · exact ⟨_, h⟩
    simp only [jp] at h
    have h := h.look_bind
    obtain ⟨rfl, rfl⟩ := h.pure
    exact ⟨hs, clauses⟩
termination_by structural n => n

theorem moreClauses_sourced (hx : ∀ k, x ≤ (t.lexemeAt k).span.start) :
    ∀ n first last (acc : Array Clause) {c r c'}, (moreClauses n first last acc).Reads t c r c' →
      Sourced.clauses x acc.toList → Sourced.clauses x r.toList
  | 0, _, _, _, _, _, _, h, _ => by
    rw [moreClauses.eq_1] at h
    exact absurd h Reads.not_exhausted
  | n + 1, first, last, acc, c, r, c', h, hacc => by
    rw [moreClauses.eq_2] at h
    have h := h.look_bind
    split at h
    next keyword heq =>
      split at h
      · obtain ⟨cl, c₁, hcl, h⟩ := h.bind
        exact moreClauses_sourced hx n first _ _ h
          (Sourced.clauses_push hacc (clause_sourced hx n hcl))
      · obtain ⟨rfl, rfl⟩ := h.pure
        exact hacc
    next =>
      obtain ⟨rfl, rfl⟩ := h.pure
      exact hacc
termination_by structural n => n

theorem clause_sourced (hx : ∀ k, x ≤ (t.lexemeAt k).span.start) :
    ∀ n {c cl c'}, (clause n).Reads t c cl c' → Sourced.suite x cl.body
  | 0, _, _, _, h => by
    rw [clause.eq_1] at h
    exact absurd h Reads.not_exhausted
  | n + 1, c, cl, c', h => by
    rw [clause.eq_2] at h
    obtain ⟨kw, c₁, -, h⟩ := h.bind
    have h := h.read_bind.look_bind
    extract_lets jp at h
    obtain ⟨c₂, -, h⟩ : ∃ c₂, t.Advance c₁ c₂ ∧ (jp ()).Reads t c₂ cl c' := by
      split at h
      all_goals first | exact h.jump | exact h.jump₃ | exact ⟨_, .refl _ _, h⟩
    simp only [jp] at h
    have h := h.read_bind.look_bind
    obtain ⟨body, c₃, hsu, h⟩ := h.bind
    obtain ⟨rfl, rfl⟩ := h.pure
    exact suite_sourced hx n _ hsu
termination_by structural n => n

theorem softBlock_sourced (hx : ∀ k, x ≤ (t.lexemeAt k).span.start) :
    ∀ n {start c s c'}, (softBlock n start).Reads t c s c' → x ≤ start → Sourced.stmt x s
  | 0, _, _, _, _, h, _ => by
    rw [softBlock.eq_1] at h
    exact absurd h Reads.not_exhausted
  | n + 1, start, c, s, c', h, hs => by
    rw [softBlock.eq_2] at h
    obtain ⟨kw, c₁, -, h⟩ := h.bind
    have h := h.read_bind.look_bind
    extract_lets jp at h
    obtain ⟨c₂, -, h⟩ : ∃ c₂, t.Advance c₁ c₂ ∧ (jp ()).Reads t c₂ s c' := by
      split at h
      · exact h.jump
      · exact h.read_bind.jump
    simp only [jp] at h
    have h := h.read_bind.look_bind
    obtain ⟨body, c₃, hsu, h⟩ := h.bind
    have h := h.look_bind
    obtain ⟨rfl, rfl⟩ := h.pure
    exact ⟨hs, suite_sourced hx n _ hsu, trivial⟩
termination_by structural n => n

end

end Grammar

/-- A module read from a source holds only pieces of it, each at or after any offset that
every lexeme of the source starts at or after. -/
theorem Module.parse_sourced {src : String} {m : Module} (h : Module.parse src = .ok m) {x : Nat}
    (hx : ∀ k, x ≤ ((Tape.ofSource src).lexemeAt k).span.start) : Sourced.stmts x m.body := by
  unfold Module.parse at h
  dsimp only at h
  split at h
  · next body c adv heq =>
    cases h
    exact Grammar.statements_sourced hx _ false #[] ⟨adv, heq⟩ trivial
  · cases h

end PyTune
