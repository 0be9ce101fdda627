import PyTune.Proofs.SoftKeywords

/-!
# What the targets of an assignment are checked for

An expression list read before `=` becomes the targets unchecked, and the other forms check
only that there is one target (`Grammar.expressionStmt_reads`). Calls and literals read as
targets of every form (`Module.invalid_targets_read`).
-/

namespace PyTune.Grammar

variable {α β : Type} {t : Tape} {c c' : Cursor}

/-! ### Readings built from their parts -/

theorem Reads.pure_intro (a : α) : (Pure.pure a : Grammar α).Reads t c a c :=
  ⟨.refl t c, rfl⟩

theorem Reads.bind_intro {x : Grammar α} {f : α → Grammar β} {a : α} {b : β} {c₁ : Cursor}
    (hx : x.Reads t c a c₁) (hf : (f a).Reads t c₁ b c') : (x >>= f).Reads t c b c' := by
  obtain ⟨h₁, run₁⟩ := hx
  obtain ⟨h₂, run₂⟩ := hf
  refine ⟨h₁.trans h₂, ?_⟩
  rw [bind_run, run₁]
  dsimp only
  rw [run₂]

theorem Reads.discard_intro {x : Grammar α} {a : α} (h : x.Reads t c a c') :
    (discard x).Reads t c () c' := by
  rw [discard_eq]
  exact bind_intro h (pure_intro ())

theorem Reads.look_bind_intro {f : Tape → Cursor → α} {k : α → Grammar β} {b : β}
    (h : (k (f t c)).Reads t c b c') : (Grammar.look f >>= k).Reads t c b c' :=
  bind_intro ⟨.refl t c, rfl⟩ h

theorem Reads.bump_intro (hf : (t.lexemeAt c.index).token.fault? = none) :
    Grammar.bump.Reads t c (t.lexemeAt c.index) (c.past (t.lexemeAt c.index)) := by
  unfold Reads Grammar.bump
  split
  · next h =>
    rw [hf] at h
    cases h
  · exact ⟨Tape.Advance.next hf _ (by split <;> simp), rfl⟩

theorem Reads.skip_intro (hf : (t.lexemeAt c.index).token.fault? = none) :
    Grammar.skip.Reads t c () (c.past (t.lexemeAt c.index)) := by
  rw [skip_eq]
  exact bind_intro (bump_intro hf) (pure_intro ())

/-! ### Expression statements -/

/-- Whatever expression list an expression statement reads first, an `=` after it makes the
statement the chain of assignments that follows: the list is never checked as a target, and
only the names it binds are kept. -/
theorem expressionStmt_assign {n : Nat} {ts : List Span} {c₁ : Cursor} {kind : StmtKind}
    (first : (assignedValue n).Reads t c ts c₁) (eq : (t.lexemeAt c₁.index).token = .eq) :
    (expressionStmt (n + 1)).Reads t c kind c' ↔
      (assignChain n (boundNames t.source ts)).Reads t c₁ kind c' := by
  rw [expressionStmt.eq_2]
  constructor
  · intro h
    obtain ⟨ts', c₁', first', h⟩ := h.bind
    obtain ⟨rfl, rfl⟩ := first.deterministic first'
    replace h := h.look_bind
    rw [eq] at h
    exact h.read_bind
  · intro chain
    refine Reads.bind_intro first (Reads.look_bind_intro ?_)
    rw [eq]
    exact Reads.look_bind_intro chain

/-- What may follow the first expression list `ts` of an expression statement, read up to
`c₁`, and what the statement then is. The list is the targets of `=` whatever it holds;
after an augmented operator or a colon it must be a single target. -/
inductive AfterTargets (n : Nat) (t : Tape) (ts : List Span) (c₁ : Cursor) :
    StmtKind → Cursor → Prop
  /-- `targets = value = ...`: the chain of values after the first `=`. -/
  | assign {kind : StmtKind} {c' : Cursor} (eq : (t.lexemeAt c₁.index).token = .eq)
      (chain : (assignChain n (boundNames t.source ts)).Reads t c₁ kind c') :
      AfterTargets n t ts c₁ kind c'
  /-- `target op= value`. -/
  | augmented {vs : List Span} {c' : Cursor} (op : (t.lexemeAt c₁.index).token = .augAssign)
      (single : ts.length = 1)
      (value : (assignedValue n).Reads t (c₁.past (t.lexemeAt c₁.index)) vs c') :
      AfterTargets n t ts c₁ .simple c'
  /-- `target: annotation`. -/
  | annotated {c₂ : Cursor} (colon : (t.lexemeAt c₁.index).token = .colon)
      (single : ts.length = 1)
      (hint : (expression n).Reads t (c₁.past (t.lexemeAt c₁.index)) () c₂)
      (noValue : (t.lexemeAt c₂.index).token ≠ .eq) :
      AfterTargets n t ts c₁ .simple c₂
  /-- `target: annotation = value`. -/
  | annotatedValue {c₂ : Cursor} {vs : List Span} {c' : Cursor}
      (colon : (t.lexemeAt c₁.index).token = .colon) (single : ts.length = 1)
      (hint : (expression n).Reads t (c₁.past (t.lexemeAt c₁.index)) () c₂)
      (eq : (t.lexemeAt c₂.index).token = .eq)
      (value : (assignedValue n).Reads t (c₂.past (t.lexemeAt c₂.index)) vs c') :
      AfterTargets n t ts c₁ (.assign (boundNames t.source ts)) c'
  /-- An expression statement. -/
  | bare (noEq : (t.lexemeAt c₁.index).token ≠ .eq)
      (noOp : (t.lexemeAt c₁.index).token ≠ .augAssign)
      (noColon : (t.lexemeAt c₁.index).token ≠ .colon) :
      AfterTargets n t ts c₁ .simple c₁

/-- An expression statement reads exactly as an expression list followed by what
`AfterTargets` allows after it. -/
theorem expressionStmt_reads {n : Nat} {kind : StmtKind} :
    (expressionStmt (n + 1)).Reads t c kind c' ↔
      ∃ ts c₁, (assignedValue n).Reads t c ts c₁ ∧ AfterTargets n t ts c₁ kind c' := by
  rw [expressionStmt.eq_2]
  constructor
  · intro h
    obtain ⟨ts, c₁, hv, h⟩ := h.bind
    refine ⟨ts, c₁, hv, ?_⟩
    replace h := h.look_bind
    split at h
    next eq => exact .assign eq h.read_bind
    next op =>
      extract_lets jp at h
      split at h
      · exact (Reads.fail_bind h).elim
      · next single =>
        simp only [jp] at h
        obtain ⟨⟨⟩, c₂, hs, h⟩ := h.bind
        obtain ⟨rfl, -⟩ := hs.skip
        obtain ⟨⟨⟩, c₃, hd, h⟩ := h.bind
        rw [discard_eq] at hd
        obtain ⟨vs, c₄, value, hp⟩ := hd.bind
        obtain ⟨-, rfl⟩ := hp.pure
        obtain ⟨rfl, rfl⟩ := h.pure
        exact .augmented op (by simpa using single) value
    next colon =>
      extract_lets jp at h
      split at h
      · exact (Reads.fail_bind h).elim
      · next single =>
        simp only [jp] at h
        obtain ⟨⟨⟩, c₂, hs, h⟩ := h.bind
        obtain ⟨rfl, -⟩ := hs.skip
        obtain ⟨⟨⟩, c₃, hint, h⟩ := h.bind
        replace h := h.look_bind
        split at h
        · next noValue =>
          obtain ⟨rfl, rfl⟩ := h.pure
          exact .annotated colon (by simpa using single) hint (by simpa using noValue)
        · next eq =>
          obtain ⟨⟨⟩, c₄, hs, h⟩ := h.bind
          obtain ⟨rfl, -⟩ := hs.skip
          obtain ⟨⟨⟩, c₅, hd, h⟩ := h.bind
          rw [discard_eq] at hd
          obtain ⟨vs, c₆, value, hp⟩ := hd.bind
          obtain ⟨-, rfl⟩ := hp.pure
          obtain ⟨rfl, rfl⟩ := h.read_bind.pure
          exact .annotatedValue colon (by simpa using single) hint (by simpa using eq) value
    next noEq noOp noColon =>
      obtain ⟨rfl, rfl⟩ := h.pure
      exact .bare noEq noOp noColon
  · rintro ⟨ts, c₁, hv, after⟩
    refine Reads.bind_intro hv (Reads.look_bind_intro ?_)
    cases after with
    | assign eq chain =>
      rw [eq]
      exact Reads.look_bind_intro chain
    | augmented op single value =>
      rw [op]
      dsimp only
      rw [if_neg (by simp [single])]
      exact Reads.bind_intro (Reads.skip_intro (by rw [op]; rfl))
        (Reads.bind_intro (Reads.discard_intro value) (Reads.pure_intro _))
    | annotated colon single hint noValue =>
      rw [colon]
      dsimp only
      rw [if_neg (by simp [single])]
      refine Reads.bind_intro (Reads.skip_intro (by rw [colon]; rfl))
        (Reads.bind_intro hint (Reads.look_bind_intro ?_))
      rw [if_pos (by simpa using noValue)]
      exact Reads.pure_intro _
    | annotatedValue colon single hint eq value =>
      rw [colon]
      dsimp only
      rw [if_neg (by simp [single])]
      refine Reads.bind_intro (Reads.skip_intro (by rw [colon]; rfl))
        (Reads.bind_intro hint (Reads.look_bind_intro ?_))
      rw [if_neg (by simp [eq])]
      exact Reads.bind_intro (Reads.skip_intro (by rw [eq]; rfl))
        (Reads.bind_intro (Reads.discard_intro value) (Reads.look_bind_intro (Reads.pure_intro _)))
    | bare noEq noOp noColon =>
      split
      · next h => exact absurd h noEq
      · next h => exact absurd h noOp
      · next h => exact absurd h noColon
      · exact Reads.pure_intro _

end PyTune.Grammar

namespace PyTune

/-- A call as the target of `=`, of an augmented and of an annotated assignment, of `for`, of
`del` and of `as` reads, and so do a literal, an operator expression and a comparison before
`=`. -/
theorem Module.invalid_targets_read :
    ["f() = 1\nf() += 1\nf(): int = 1\nfor f() in x: pass\ndel f()\nwith a as f(): pass\n",
        "1 = x\na + b = 1\na < b = 1\n"].map
        (fun src => (Module.parse src).toOption.map (·.body.length)) =
      [some 6, some 3] := by
  decide +kernel

end PyTune
