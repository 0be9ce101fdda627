import PyTune.Grammar.Statement
import PyTune.Proofs.Printing

/-!
# Reading places every statement between its lexemes

When the lexemes lie in order (`Tape.Ordered`), the statements read from them lie in order too,
each between two characters (`Placed.stmts`). The cursor law every reading keeps is
`Tape.Advance`; the placement goes reading by reading, on the grammar's depth bound.
-/

namespace PyTune

/-- The lexemes of a tape lie in order, each between two characters of its source: each
starts at or before it stops, and stops at or before the next one starts. -/
structure Tape.Ordered (t : Tape) : Prop where
  start : ∀ k, Boundary t.source (t.lexemeAt k).span.start
  stop : ∀ k, Boundary t.source (t.lexemeAt k).span.stop
  start_le_stop : ∀ k, (t.lexemeAt k).span.start ≤ (t.lexemeAt k).span.stop
  stop_le_next : ∀ k, (t.lexemeAt k).span.stop ≤ (t.lexemeAt (k + 1)).span.start

/-- The end of code at a cursor lies between two characters, at or before the next lexeme. -/
structure Cursor.Fits (t : Tape) (c : Cursor) : Prop where
  boundary : Boundary t.source c.lastEnd
  le_next : c.lastEnd ≤ (t.lexemeAt c.index).span.start

namespace Tape.Ordered

variable {t : Tape}

theorem start_mono (ho : t.Ordered) {i : Nat} : ∀ {j}, i ≤ j →
    (t.lexemeAt i).span.start ≤ (t.lexemeAt j).span.start
  | 0, h => by rw [Nat.le_zero.mp h]
  | j + 1, h => by
    rcases Nat.lt_or_eq_of_le h with lt | rfl
    · calc (t.lexemeAt i).span.start
          ≤ (t.lexemeAt j).span.start := ho.start_mono (Nat.le_of_lt_succ lt)
        _ ≤ (t.lexemeAt j).span.stop := ho.start_le_stop j
        _ ≤ (t.lexemeAt (j + 1)).span.start := ho.stop_le_next j
    · exact Nat.le_refl _

theorem stop_le_start (ho : t.Ordered) {i j : Nat} (h : i < j) :
    (t.lexemeAt i).span.stop ≤ (t.lexemeAt j).span.start :=
  Nat.le_trans (ho.stop_le_next i) (ho.start_mono h)

end Tape.Ordered

theorem Cursor.fits_start (t : Tape) : Cursor.Fits t ⟨0, 0⟩ :=
  ⟨Boundary.zero t.source, Nat.zero_le _⟩

/-- Every move of the cursor keeps it fitting, and the end of code only grows. -/
theorem Tape.Advance.fits {t : Tape} {c c' : Cursor} (ho : t.Ordered) (h : t.Advance c c')
    (hc : c.Fits t) : c'.Fits t ∧ c.lastEnd ≤ c'.lastEnd := by
  rcases h.lastEnd with same | ⟨k, lo, hi, moved⟩
  · refine ⟨⟨same ▸ hc.boundary, ?_⟩, Nat.le_of_eq same.symm⟩
    rw [same]
    exact Nat.le_trans hc.le_next (ho.start_mono h.index_le)
  · refine ⟨⟨moved ▸ ho.stop k, ?_⟩, ?_⟩
    · rw [moved]
      exact ho.stop_le_start hi
    · calc c.lastEnd
          ≤ (t.lexemeAt c.index).span.start := hc.le_next
        _ ≤ (t.lexemeAt k).span.start := ho.start_mono lo
        _ ≤ (t.lexemeAt k).span.stop := ho.start_le_stop k
        _ = c'.lastEnd := moved.symm

theorem Tape.lexemeAt_lt_size {t : Tape} {i : Nat} (h : (t.lexemeAt i).token ≠ .eof) :
    i < t.lexemes.size := by
  by_contra hge
  apply h
  simp [Tape.lexemeAt, Array.getElem?_eq_none (Nat.le_of_not_lt hge)]

theorem Token.isLayout_of_beq {tok other : Token} (h : (tok == other) = true)
    (hl : other.isLayout = false) : tok.isLayout = false := by
  rw [beq_iff_eq] at h
  rw [h, hl]

theorem Token.isLayout_of_isUnary {tok : Token} (h : Grammar.isUnary tok = true) :
    tok.isLayout = false := by
  cases tok <;> simp_all [Grammar.isUnary, Token.isLayout]

theorem Token.isLayout_of_not_bne {tok other : Token} (h : ¬ (tok != other) = true)
    (hl : other.isLayout = false) : tok.isLayout = false := by
  simp only [bne_iff_ne, ne_eq, Decidable.not_not] at h
  rw [h, hl]

theorem Token.isLayout_of_clauseKeyword {tok : Token} {k : String} (h : tok.clauseKeyword? = some k) :
    tok.isLayout = false := by
  cases tok <;> simp_all [Token.clauseKeyword?, Token.isLayout]

theorem Token.isLayout_of_nameText {tok : Token} (h : tok.nameText?.isSome = true) :
    tok.isLayout = false := by
  cases tok <;> simp_all [Token.nameText?, Token.isLayout]

/-! ### Placing pieces one after another -/

/-- A kind of statement that holds no other statements. -/
def StmtKind.Leaf : StmtKind → Prop
  | .functionDef _ | .classDef _ | .compound _ => False
  | _ => True

namespace Placed

variable {src : String}

theorem stmt_leaf {lo hi : Nat} {s : Stmt} (hk : s.kind.Leaf) (h : lo ≤ hi) :
    Placed.stmt src lo s hi := by
  obtain ⟨o, k⟩ := s
  cases k <;> first | exact hk.elim | exact h

theorem stmt_origin {lo hi : Nat} (s : Stmt) (o : Origin) :
    Placed.stmt src lo { s with origin := o } hi ↔ Placed.stmt src lo s hi := by
  obtain ⟨o', k⟩ := s
  cases k with
  | functionDef d | classDef d =>
    obtain ⟨_, _, _, _, _⟩ := d
    simp only [Placed.stmt]
  | _ => rfl

theorem stmts_lower {lo lo' hi : Nat} (hle : lo' ≤ lo) :
    ∀ {xs : List Stmt}, Placed.stmts src lo xs hi → Placed.stmts src lo' xs hi
  | [], h => Nat.le_trans hle h
  | _ :: _, ⟨sp, ho, hs, he, hlo, hst, hr⟩ => ⟨sp, ho, hs, he, Nat.le_trans hle hlo, hst, hr⟩

theorem stmts_raise {lo hi hi' : Nat} (hle : hi ≤ hi') :
    ∀ {xs : List Stmt}, Placed.stmts src lo xs hi → Placed.stmts src lo xs hi'
  | [], h => Nat.le_trans h hle
  | _ :: _, ⟨sp, ho, hs, he, hlo, hst, hr⟩ => ⟨sp, ho, hs, he, hlo, hst, stmts_raise hle hr⟩

theorem stmts_append {a b d : Nat} :
    ∀ {xs ys : List Stmt}, Placed.stmts src a xs b → Placed.stmts src b ys d →
      Placed.stmts src a (xs ++ ys) d
  | [], _, hx, hy => stmts_lower hx hy
  | _ :: _, _, ⟨sp, ho, hs, he, hlo, hst, hr⟩, hy => ⟨sp, ho, hs, he, hlo, hst, stmts_append hr hy⟩

/-- A statement from the source read after those placed up to `mid`. -/
theorem stmts_snoc {lo mid hi : Nat} {xs : List Stmt} {s : Stmt} {sp : Span}
    (hx : Placed.stmts src lo xs mid) (ho : s.origin = .source sp) (hs : Boundary src sp.start)
    (he : Boundary src sp.stop) (hmid : mid ≤ sp.start) (hst : Placed.stmt src sp.start s sp.stop)
    (hhi : sp.stop ≤ hi) : Placed.stmts src lo (xs ++ [s]) hi :=
  stmts_append hx ⟨sp, ho, hs, he, hmid, hst, hhi⟩

theorem suite_lower {lo lo' hi : Nat} (hle : lo' ≤ lo) :
    ∀ {body : Suite}, Placed.suite src lo body hi → Placed.suite src lo' body hi
  | .inline _, h => stmts_lower hle h
  | .block _ _, h => stmts_lower hle h

theorem suite_raise {lo hi hi' : Nat} (hle : hi ≤ hi') :
    ∀ {body : Suite}, Placed.suite src lo body hi → Placed.suite src lo body hi'
  | .inline _, h => stmts_raise hle h
  | .block _ _, h => stmts_raise hle h

theorem clauses_raise {lo hi hi' : Nat} (hle : hi ≤ hi') :
    ∀ {cs : List Clause}, Placed.clauses src lo cs hi → Placed.clauses src lo cs hi'
  | [], h => Nat.le_trans h hle
  | ⟨_, _, _, _⟩ :: _, ⟨mid, hb, hr⟩ => ⟨mid, hb, clauses_raise hle hr⟩

/-- A clause whose body is read after the clauses placed up to `mid`. -/
theorem clauses_snoc {lo mid hi : Nat} {body : Suite} (k : String) (names strings : List String) :
    ∀ {cs : List Clause}, Placed.clauses src lo cs mid → Placed.suite src mid body hi →
      Placed.clauses src lo (cs ++ [⟨k, names, strings, body⟩]) hi
  | [], hc, hb => ⟨hi, suite_lower hc hb, Nat.le_refl hi⟩
  | ⟨_, _, _, _⟩ :: _, ⟨m, hb', hr⟩, hb => ⟨m, hb', clauses_snoc k names strings hr hb⟩

/-- Decorators from the source come one after another. -/
def FromSource (ds : List Decorator) : Prop :=
  ∀ d ∈ ds, ∃ sp, d.origin = .source sp

/-- A decorator from the source read after those placed up to `mid`. -/
theorem decorators_snoc {lo mid a b hi : Nat} {d : Decorator} (hd : d.origin = .source ⟨a, b⟩)
    (hb : Boundary src a) (hmid : mid ≤ a) (hhi : a ≤ hi) :
    ∀ {ds : List Decorator}, FromSource ds → Placed.decorators src lo ds mid →
      Placed.decorators src lo (ds ++ [d]) hi
  | [], _, h => by
    simp only [List.nil_append, Placed.decorators, hd]
    exact ⟨hb, Nat.le_trans h hmid, hhi⟩
  | d' :: ds, hsrc, h => by
    obtain ⟨sp', hd'⟩ := hsrc d' List.mem_cons_self
    simp only [List.cons_append, Placed.decorators, hd'] at h ⊢
    obtain ⟨hb', hlo, hr⟩ := h
    exact ⟨hb', hlo, decorators_snoc hd hb hmid hhi (fun d'' m => hsrc d'' (List.mem_cons_of_mem _ m)) hr⟩

theorem decorators_le {lo hi : Nat} : ∀ {ds : List Decorator}, Placed.decorators src lo ds hi → lo ≤ hi
  | [], h => h
  | d :: ds, h => by
    cases hd : d.origin with
    | source sp =>
      simp only [Placed.decorators, hd] at h
      exact Nat.le_trans h.2.1 (decorators_le h.2.2)
    | inserted _ =>
      simp only [Placed.decorators, hd] at h
      exact h.1

end Placed

namespace Grammar

variable {α β : Type} {t : Tape} {c c' : Cursor}

/-! ### Readings -/

/-- `g` reads `a` on the tape `t`, moving the cursor from `c` to `c'`. -/
def Reads (g : Grammar α) (t : Tape) (c : Cursor) (a : α) (c' : Cursor) : Prop :=
  ∃ h, g t c = .ok ⟨(a, c'), h⟩

theorem Reads.advance {g : Grammar α} {a : α} (h : g.Reads t c a c') : t.Advance c c' := by
  obtain ⟨adv, _⟩ := h
  exact adv

/-- A rule reads one way at most: what it reads is a function of the tape and the cursor. -/
theorem Reads.deterministic {g : Grammar α} {a a' : α} {c'' : Cursor} (h : g.Reads t c a c')
    (h' : g.Reads t c a' c'') : a = a' ∧ c' = c'' := by
  obtain ⟨_, e⟩ := h
  obtain ⟨_, e'⟩ := h'
  rw [e] at e'
  cases e'
  exact ⟨rfl, rfl⟩

theorem bind_run (x : Grammar α) (f : α → Grammar β) (t : Tape) (c : Cursor) :
    (x >>= f) t c =
      (match x t c with
      | .error e => .error e
      | .ok ⟨(a, c₁), h₁⟩ =>
        match f a t c₁ with
        | .error ⟨e, stops⟩ => .error ⟨e, stops.after h₁⟩
        | .ok ⟨r, h₂⟩ => .ok ⟨r, h₁.trans h₂⟩ :
        Except { e : Halt // t.Stops c e } { r : β × Cursor // t.Advance c r.2 }) :=
  rfl

/-- A reading of a bind is a reading of its first part and then of the rest. -/
theorem Reads.bind {x : Grammar α} {f : α → Grammar β} {b : β} (h : (x >>= f).Reads t c b c') :
    ∃ a c₁, x.Reads t c a c₁ ∧ (f a).Reads t c₁ b c' := by
  obtain ⟨_, h⟩ := h
  rw [bind_run] at h
  split at h
  · cases h
  · rename_i a c₁ h₁ hx
    split at h
    · cases h
    · rename_i r h₂ hf
      cases h
      exact ⟨a, c₁, ⟨h₁, hx⟩, ⟨h₂, hf⟩⟩

/-- A bind whose first part is read only for the way it moves the cursor. -/
theorem Reads.moves {x : Grammar α} {f : α → Grammar β} {b : β}
    (h : (x >>= f).Reads t c b c') : ∃ a c₁, t.Advance c c₁ ∧ (f a).Reads t c₁ b c' := by
  obtain ⟨a, c₁, hx, hf⟩ := h.bind
  exact ⟨a, c₁, hx.advance, hf⟩

theorem Reads.pure {a b : α} (h : (pure a : Grammar α).Reads t c b c') : b = a ∧ c' = c := by
  obtain ⟨_, h⟩ := h
  cases h
  exact ⟨rfl, rfl⟩

theorem Reads.look {f : Tape → Cursor → α} {a : α} (h : (Grammar.look f).Reads t c a c') :
    a = f t c ∧ c' = c := by
  obtain ⟨_, h⟩ := h
  cases h
  exact ⟨rfl, rfl⟩

/-- Reading after a look reads on with the value looked at. -/
theorem Reads.look_bind {f : Tape → Cursor → α} {k : α → Grammar β} {b : β}
    (h : (Grammar.look f >>= k).Reads t c b c') : (k (f t c)).Reads t c b c' := by
  obtain ⟨a, c₁, hl, hk⟩ := h.bind
  obtain ⟨rfl, rfl⟩ := hl.look
  exact hk

theorem Reads.read_bind {k : Tape → Grammar β} {b : β} (h : (read >>= k).Reads t c b c') :
    (k t).Reads t c b c' :=
  Reads.look_bind h

theorem Reads.bump {l : Lexeme} (h : bump.Reads t c l c') :
    l = t.lexemeAt c.index ∧ c' = c.past l ∧ l.token.fault? = none := by
  obtain ⟨_, h⟩ := h
  unfold Grammar.bump at h
  split at h
  · cases h
  · rename_i hf
    cases h
    exact ⟨rfl, rfl, hf⟩

theorem skip_eq : skip = (bump >>= fun _ => Pure.pure ()) := rfl

theorem discard_eq (x : Grammar α) : discard x = (x >>= fun _ => Pure.pure ()) := rfl

theorem Reads.skip {u : Unit} (h : skip.Reads t c u c') :
    c' = c.past (t.lexemeAt c.index) ∧ (t.lexemeAt c.index).token.fault? = none := by
  rw [skip_eq] at h
  obtain ⟨l, c₁, hb, hp⟩ := h.bind
  obtain ⟨rfl, rfl, hf⟩ := hb.bump
  obtain ⟨-, rfl⟩ := hp.pure
  exact ⟨rfl, hf⟩

theorem Reads.not_fail {f : GrammarFault} {a : α} : ¬ (fail f : Grammar α).Reads t c a c' := by
  rintro ⟨_, h⟩
  unfold Grammar.fail at h
  dsimp only at h
  split at h <;> cases h

theorem Reads.fail_bind {f : GrammarFault} {k : α → Grammar β} {b : β}
    (h : (fail f >>= k).Reads t c b c') : False := by
  obtain ⟨_, _, hf, _⟩ := h.bind
  exact Reads.not_fail hf

theorem Reads.not_exhausted {a : α} : ¬ (exhausted : Grammar α).Reads t c a c' :=
  Reads.not_fail

/-- An optional part of a reading that gives nothing: whichever way the test goes, the reading
goes on with `k` from where the part left the cursor. -/
theorem Reads.optional {p : Prop} [Decidable p] {y : Grammar β} {k : Unit → Grammar β} {b : β}
    (hy : ∀ {c₀ c₀'}, y.Reads t c₀ b c₀' → ∃ c₁, t.Advance c₀ c₁ ∧ (k ()).Reads t c₁ b c₀')
    (h : (if p then y else k ()).Reads t c b c') :
    ∃ c₁, t.Advance c c₁ ∧ (k ()).Reads t c₁ b c' := by
  split at h
  · exact hy h
  · exact ⟨c, .refl t c, h⟩

/-- A part that gives nothing, then the jump on to `k`. -/
theorem Reads.jump {x : Grammar Unit} {k : Unit → Grammar β} {b : β}
    (h : (x >>= k).Reads t c b c') : ∃ c₁, t.Advance c c₁ ∧ (k ()).Reads t c₁ b c' := by
  obtain ⟨_, c₁, h₁, h⟩ := h.moves
  exact ⟨c₁, h₁, h⟩

/-- Two parts that give nothing, then the jump on to `k`. -/
theorem Reads.jump₂ {x y : Grammar Unit} {k : Unit → Grammar β} {b : β}
    (h : (x >>= fun _ => y >>= k).Reads t c b c') :
    ∃ c₁, t.Advance c c₁ ∧ (k ()).Reads t c₁ b c' := by
  obtain ⟨_, c₁, h₁, h⟩ := h.moves
  obtain ⟨c₂, h₂, h⟩ := h.jump
  exact ⟨c₂, h₁.trans h₂, h⟩

/-- Three parts that give nothing, then the jump on to `k`. -/
theorem Reads.jump₃ {x y z : Grammar Unit} {k : Unit → Grammar β} {b : β}
    (h : (x >>= fun _ => y >>= fun _ => z >>= k).Reads t c b c') :
    ∃ c₁, t.Advance c c₁ ∧ (k ()).Reads t c₁ b c' := by
  obtain ⟨_, c₁, h₁, h⟩ := h.moves
  obtain ⟨c₂, h₂, h⟩ := h.jump₂
  exact ⟨c₂, h₁.trans h₂, h⟩

/-- Every reading of `g` from `c` gives a value and leaves a cursor that `P` relates. -/
def Yields (g : Grammar α) (t : Tape) (c : Cursor) (P : α → Cursor → Prop) : Prop :=
  ∀ a c', g.Reads t c a c' → P a c'

namespace Yields

variable {P : β → Cursor → Prop}

theorem bind {x : Grammar α} {f : α → Grammar β}
    (h : ∀ a c₁, x.Reads t c a c₁ → Yields (f a) t c₁ P) : Yields (x >>= f) t c P := by
  intro b c' hr
  obtain ⟨a, c₁, hx, hf⟩ := hr.bind
  exact h a c₁ hx b c' hf

theorem pure {b : β} (h : P b c) : Yields (Pure.pure b) t c P := by
  intro b' c' hr
  obtain ⟨rfl, rfl⟩ := hr.pure
  exact h

theorem fail {f : GrammarFault} : Yields (Grammar.fail f) t c P :=
  fun _ _ hr => absurd hr Reads.not_fail

theorem exhausted : Yields Grammar.exhausted t c P :=
  fun _ _ hr => absurd hr Reads.not_fail

theorem look_bind {f : Tape → Cursor → α} {k : α → Grammar β} (h : Yields (k (f t c)) t c P) :
    Yields (Grammar.look f >>= k) t c P :=
  fun _ _ hr => h _ _ hr.look_bind

theorem read_bind {k : Tape → Grammar β} (h : Yields (k t) t c P) : Yields (read >>= k) t c P :=
  look_bind h

end Yields

/-! ### Readings that consume their first lexeme -/

/-- Every reading of `g` from `c` consumes the lexeme at `c` as code: the end of code after
it is at or past where that lexeme starts. -/
def Eats (g : Grammar α) (t : Tape) (c : Cursor) : Prop :=
  ∀ a c', g.Reads t c a c' → (t.lexemeAt c.index).span.start ≤ c'.lastEnd

namespace Eats

theorem of_not_reads {g : Grammar α} (h : ∀ {a c'}, ¬ g.Reads t c a c') : Eats g t c :=
  fun _ _ hr => absurd hr h

theorem fail {f : GrammarFault} : Eats (Grammar.fail f : Grammar α) t c :=
  of_not_reads Reads.not_fail

theorem exhausted : Eats (Grammar.exhausted : Grammar α) t c :=
  of_not_reads Reads.not_fail

/-- A reading that starts by consuming a lexeme of code. -/
theorem skip_bind {k : Unit → Grammar α} (ho : t.Ordered)
    (hl : (t.lexemeAt c.index).token.isLayout = false) : Eats (skip >>= k) t c := by
  intro a c' h
  obtain ⟨_, c₁, hs, hk⟩ := h.bind
  obtain ⟨rfl, -⟩ := hs.skip
  have fits : (c.past (t.lexemeAt c.index)).Fits t := by
    refine ⟨?_, ?_⟩ <;> simp only [Cursor.past, hl, Bool.false_eq_true, if_false]
    · exact ho.stop _
    · exact ho.stop_le_next _
  calc (t.lexemeAt c.index).span.start
      ≤ (t.lexemeAt c.index).span.stop := ho.start_le_stop _
    _ = (c.past (t.lexemeAt c.index)).lastEnd := by
      simp only [Cursor.past, hl, Bool.false_eq_true, if_false]
    _ ≤ c'.lastEnd := (hk.advance.fits ho fits).2

theorem skip (ho : t.Ordered) (hl : (t.lexemeAt c.index).token.isLayout = false) :
    Eats Grammar.skip t c := by
  intro a c' h
  obtain ⟨rfl, -⟩ := h.skip
  calc (t.lexemeAt c.index).span.start
      ≤ (t.lexemeAt c.index).span.stop := ho.start_le_stop _
    _ = (c.past (t.lexemeAt c.index)).lastEnd := by
      simp only [Cursor.past, hl, Bool.false_eq_true, if_false]

theorem bump (ho : t.Ordered) (hl : (t.lexemeAt c.index).token.isLayout = false) :
    Eats Grammar.bump t c := by
  intro l c' h
  obtain ⟨rfl, rfl, -⟩ := h.bump
  calc (t.lexemeAt c.index).span.start
      ≤ (t.lexemeAt c.index).span.stop := ho.start_le_stop _
    _ = (c.past (t.lexemeAt c.index)).lastEnd := by
      simp only [Cursor.past, hl, Bool.false_eq_true, if_false]

/-- A reading whose first part consumes the first lexeme. -/
theorem bind {x : Grammar α} {k : α → Grammar β} (ho : t.Ordered) (hc : c.Fits t)
    (hx : Eats x t c) : Eats (x >>= k) t c := by
  intro b c' h
  obtain ⟨a, c₁, hr, hk⟩ := h.bind
  have fits := hr.advance.fits ho hc
  exact Nat.le_trans (hx a c₁ hr) (hk.advance.fits ho fits.1).2

theorem look_bind {f : Tape → Cursor → α} {k : α → Grammar β} (h : Eats (k (f t c)) t c) :
    Eats (Grammar.look f >>= k) t c :=
  fun _ _ hr => h _ _ hr.look_bind

theorem read_bind {k : Tape → Grammar β} (h : Eats (k t) t c) : Eats (read >>= k) t c :=
  look_bind h

end Eats

/-! ### Expressions consume their first lexeme -/

theorem skipWhile_eats {p : Token → Bool} (ho : t.Ordered)
    (hp : p (t.lexemeAt c.index).token = true) (hl : (t.lexemeAt c.index).token.isLayout = false) :
    ∀ {fuel}, 0 < fuel → Eats (skipWhile p fuel) t c
  | fuel + 1, _ => by
    rw [skipWhile.eq_2]
    apply Eats.look_bind
    simp only [hp, if_true]
    exact Eats.skip_bind ho hl

theorem atom_eats (ho : t.Ordered) : ∀ n, Eats (atom n) t c
  | 0 => Eats.exhausted
  | n + 1 => by
    rw [atom.eq_2]
    apply Eats.look_bind
    split
    next raw heq =>
      apply Eats.read_bind
      have inside := Tape.lexemeAt_lt_size (by rw [heq]; exact Token.noConfusion)
      refine skipWhile_eats ho ?_ (by rw [heq]; rfl) (Nat.lt_of_le_of_lt (Nat.zero_le _) inside)
      rw [heq]
      rfl
    next raw heq =>
      apply Eats.read_bind
      have inside := Tape.lexemeAt_lt_size (by rw [heq]; exact Token.noConfusion)
      refine skipWhile_eats ho ?_ (by rw [heq]; rfl) (Nat.lt_of_le_of_lt (Nat.zero_le _) inside)
      rw [heq]
      rfl
    all_goals first
      | exact Eats.skip ho (by simp [*, Token.isLayout])
      | exact Eats.skip_bind ho (by simp [*, Token.isLayout])
      | skip
    split
    · exact Eats.skip ho (Token.isLayout_of_nameText ‹_›)
    · exact Eats.fail

theorem primary_eats (ho : t.Ordered) (hc : c.Fits t) : ∀ n, Eats (primary n) t c
  | 0 => Eats.exhausted
  | n + 1 => by
    rw [primary.eq_2]
    exact Eats.bind ho hc (atom_eats ho n)

theorem factor_eats (ho : t.Ordered) (hc : c.Fits t) : ∀ n, Eats (factor n) t c
  | 0 => Eats.exhausted
  | n + 1 => by
    rw [factor.eq_2]
    apply Eats.look_bind
    split
    next unary => exact Eats.skip_bind ho (Token.isLayout_of_isUnary unary)
    next =>
      apply Eats.look_bind
      dsimp only
      split
      next await => exact Eats.skip_bind ho (Token.isLayout_of_beq await rfl)
      next => exact primary_eats ho hc n

theorem comparison_eats (ho : t.Ordered) (hc : c.Fits t) : ∀ n, Eats (comparison n) t c
  | 0 => Eats.exhausted
  | n + 1 => by
    rw [comparison.eq_2]
    exact Eats.bind ho hc (factor_eats ho hc n)

theorem inversion_eats (ho : t.Ordered) (hc : c.Fits t) : ∀ n, Eats (inversion n) t c
  | 0 => Eats.exhausted
  | n + 1 => by
    rw [inversion.eq_2]
    apply Eats.look_bind
    split
    next negated => exact Eats.skip_bind ho (Token.isLayout_of_beq negated rfl)
    next => exact comparison_eats ho hc n

theorem disjunction_eats (ho : t.Ordered) (hc : c.Fits t) : ∀ n, Eats (disjunction n) t c
  | 0 => Eats.exhausted
  | n + 1 => by
    rw [disjunction.eq_2]
    exact Eats.bind ho hc (inversion_eats ho hc n)

theorem expression_eats (ho : t.Ordered) (hc : c.Fits t) : ∀ n, Eats (expression n) t c
  | 0 => Eats.exhausted
  | n + 1 => by
    rw [expression.eq_2]
    apply Eats.look_bind
    split
    next lambda => exact Eats.skip_bind ho (Token.isLayout_of_beq lambda rfl)
    next => exact Eats.bind ho hc (disjunction_eats ho hc n)

theorem starExpressions_eats (ho : t.Ordered) (hc : c.Fits t) :
    ∀ n, Eats (starExpressions n) t c
  | 0 => Eats.exhausted
  | 1 => Eats.exhausted
  | n + 2 => by
    rw [starExpressions.eq_2, starExpressionsFrom.eq_2]
    apply Eats.look_bind
    apply Eats.look_bind
    dsimp only
    split
    next star => exact Eats.skip_bind ho (Token.isLayout_of_beq star rfl)
    next => exact Eats.bind ho hc (expression_eats ho hc n)

theorem yieldExpr_eats (ho : t.Ordered) (hl : (t.lexemeAt c.index).token.isLayout = false) :
    ∀ n, Eats (yieldExpr n) t c
  | 0 => Eats.exhausted
  | n + 1 => by
    rw [yieldExpr.eq_2]
    exact Eats.skip_bind ho hl

theorem assignedValue_eats (ho : t.Ordered) (hc : c.Fits t) :
    ∀ n, Eats (assignedValue n) t c
  | 0 => Eats.exhausted
  | n + 1 => by
    rw [assignedValue.eq_2]
    apply Eats.look_bind
    split
    next yield => exact Eats.bind ho hc (yieldExpr_eats ho (Token.isLayout_of_beq yield rfl) n)
    next => exact starExpressions_eats ho hc n

theorem expressionStmt_eats (ho : t.Ordered) (hc : c.Fits t) :
    ∀ n, Eats (expressionStmt n) t c
  | 0 => Eats.exhausted
  | n + 1 => by
    rw [expressionStmt.eq_2]
    exact Eats.bind ho hc (assignedValue_eats ho hc n)

/-! ### Simple statements

A simple statement is an import, a `from` import, an assignment, a docstring or a plain
statement. The lemmas below take what holds of each kind read as hypotheses, so that one case
analysis of the grammar serves every property of the kinds. -/

theorem importStmt_leaf : Yields importStmt t c fun k _ => k.Leaf := by
  rw [importStmt.eq_1]
  refine Yields.bind fun _ _ _ => Yields.read_bind (Yields.bind fun _ _ _ => Yields.pure trivial)

section Kinds

variable {Q : StmtKind → Prop}

theorem fromImportStmt_kind (hfrom : ∀ m names level, Q (.importFrom m names level)) :
    Yields fromImportStmt t c fun k _ => Q k := by
  rw [fromImportStmt.eq_1]
  -- every way through ends in `pure (.importFrom ..)`; the tests only choose which way
  repeat' first
    | exact Yields.pure (hfrom _ _ _)
    | exact Yields.fail
    | (refine Yields.bind fun _ _ _ => ?_)
    | split
    | dsimp only

theorem assignChain_kind (hassign : ∀ names, Q (.assign names)) :
    ∀ n names (c : Cursor), Yields (assignChain n names) t c fun k _ => Q k
  | 0, _, _ => Yields.exhausted
  | n + 1, names, c => by
    rw [assignChain.eq_2]
    refine Yields.look_bind ?_
    split
    · exact Yields.pure (hassign _)
    · -- after `=` and a value, the chain goes on from wherever the value ended
      refine Yields.bind fun _ _ _ => Yields.bind fun _ _ _ => Yields.read_bind ?_
      exact Yields.look_bind (assignChain_kind hassign n _ _)

theorem expressionStmt_kind (hsimple : Q .simple) (hassign : ∀ names, Q (.assign names)) :
    ∀ n, Yields (expressionStmt n) t c fun k _ => Q k
  | 0 => Yields.exhausted
  | n + 1 => by
    rw [expressionStmt.eq_2]
    refine Yields.bind fun first c₁ _ => Yields.look_bind ?_
    dsimp only
    split
    next => exact Yields.read_bind (assignChain_kind hassign n _ _)
    next =>
      split
      · exact Yields.bind fun _ _ h => absurd h Reads.not_fail
      · exact Yields.bind fun _ _ _ => Yields.bind fun _ _ _ => Yields.pure hsimple
    next =>
      split
      · exact Yields.bind fun _ _ h => absurd h Reads.not_fail
      · refine Yields.bind fun _ _ _ => Yields.bind fun _ _ _ => Yields.look_bind ?_
        split
        · exact Yields.pure hsimple
        · exact Yields.bind fun _ _ _ => Yields.bind fun _ _ _ => Yields.read_bind (Yields.pure (hassign _))
    next => exact Yields.pure hsimple

/-- A simple statement ends by taking its span up to the end of code, with the kind read. -/
theorem Yields.stmt_end {start : Nat} {x : Grammar StmtKind} (hx : Yields x t c fun k _ => Q k) :
    Yields (x >>= fun kind => lastEnd >>= fun e => Pure.pure (⟨.source ⟨start, e⟩, kind⟩ : Stmt)) t c
      fun (s : Stmt) c' => s.origin = .source ⟨start, c'.lastEnd⟩ ∧ Q s.kind :=
  Yields.bind fun _ _ h => Yields.look_bind (Yields.pure ⟨rfl, hx _ _ h⟩)

/-- A simple statement spans from its first lexeme to the end of code, and its kind is one of
those of an import, a `from` import (only where the first lexeme is `from`), a plain statement,
a docstring or an assignment. -/
theorem simpleStmt_kinds (himport : ∀ c : Cursor, Yields importStmt t c fun k _ => Q k)
    (hfrom : (t.lexemeAt c.index).token = .keyword .from → ∀ m names level,
      Q (.importFrom m names level))
    (hsimple : Q .simple) (hdoc : Q .docstring) (hassign : ∀ names, Q (.assign names)) :
    ∀ n, Yields (simpleStmt n) t c fun (s : Stmt) c' =>
      s.origin = .source ⟨(t.lexemeAt c.index).span.start, c'.lastEnd⟩ ∧ Q s.kind
  | 0 => Yields.exhausted
  | n + 1 => by
    rw [simpleStmt.eq_2]
    refine Yields.look_bind (Yields.look_bind ?_)
    dsimp only
    have simple {c₁ : Cursor} : Yields (Pure.pure StmtKind.simple) t c₁ fun k _ => Q k :=
      Yields.pure hsimple
    split
    next => exact Yields.stmt_end (himport _)
    next kw => exact Yields.stmt_end (fromImportStmt_kind (hfrom kw))
    next => exact Yields.stmt_end Yields.fail
    next => exact Yields.stmt_end Yields.fail
    next => exact Yields.stmt_end Yields.fail
    next => exact Yields.stmt_end Yields.fail
    next => exact Yields.bind fun _ _ _ => Yields.stmt_end simple
    next => exact Yields.bind fun _ _ _ => Yields.stmt_end simple
    next => exact Yields.bind fun _ _ _ => Yields.stmt_end simple
    next =>
      refine Yields.bind fun _ _ _ => Yields.look_bind ?_
      split
      · exact Yields.bind fun _ _ _ => Yields.stmt_end simple
      · exact Yields.stmt_end simple
    next =>
      refine Yields.bind fun _ _ _ => Yields.look_bind ?_
      split
      · refine Yields.bind fun _ _ _ => Yields.look_bind ?_
        split
        · exact Yields.bind fun _ _ _ => Yields.bind fun _ _ _ => Yields.stmt_end simple
        · exact Yields.stmt_end simple
      · exact Yields.stmt_end simple
    next => exact Yields.bind fun _ _ _ => Yields.read_bind (Yields.bind fun _ _ _ => Yields.stmt_end simple)
    next => exact Yields.bind fun _ _ _ => Yields.read_bind (Yields.bind fun _ _ _ => Yields.stmt_end simple)
    next => exact Yields.bind fun _ _ _ => Yields.bind fun _ _ _ => Yields.stmt_end simple
    next =>
      refine Yields.bind fun _ _ _ => Yields.bind fun _ _ _ => Yields.look_bind ?_
      split
      · exact Yields.bind fun _ _ _ => Yields.bind fun _ _ _ => Yields.stmt_end simple
      · exact Yields.stmt_end simple
    next =>
      refine Yields.look_bind ?_
      split
      · exact Yields.bind fun _ _ _ => Yields.stmt_end simple
      · exact Yields.stmt_end (expressionStmt_kind hsimple hassign n)
    next =>
      refine Yields.look_bind (Yields.bind fun kind _ h => Yields.look_bind (Yields.stmt_end ?_))
      refine Yields.pure ?_
      split
      · exact hdoc
      · exact expressionStmt_kind hsimple hassign n _ _ h
    next => exact Yields.stmt_end (expressionStmt_kind hsimple hassign n)

end Kinds

theorem simpleStmt_yields : ∀ n, Yields (simpleStmt n) t c fun (s : Stmt) c' =>
    s.origin = .source ⟨(t.lexemeAt c.index).span.start, c'.lastEnd⟩ ∧ s.kind.Leaf :=
  simpleStmt_kinds (fun _ => importStmt_leaf) (fun _ _ _ _ => trivial) trivial trivial
    fun _ => trivial

theorem importStmt_eats (ho : t.Ordered) (hl : (t.lexemeAt c.index).token.isLayout = false) :
    Eats importStmt t c := by
  rw [importStmt.eq_1]
  exact Eats.skip_bind ho hl

theorem fromImportStmt_eats (ho : t.Ordered) (hl : (t.lexemeAt c.index).token.isLayout = false) :
    Eats fromImportStmt t c := by
  rw [fromImportStmt.eq_1]
  exact Eats.skip_bind ho hl

theorem typeAlias_eats (ho : t.Ordered) (hl : (t.lexemeAt c.index).token.isLayout = false) :
    ∀ n, Eats (typeAlias n) t c
  | 0 => Eats.exhausted
  | n + 1 => by
    rw [typeAlias.eq_2]
    exact Eats.skip_bind ho hl

theorem simpleStmt_eats (ho : t.Ordered) (hc : c.Fits t) : ∀ n, Eats (simpleStmt n) t c
  | 0 => Eats.exhausted
  | n + 1 => by
    rw [simpleStmt.eq_2]
    refine Eats.look_bind (Eats.look_bind ?_)
    dsimp only
    split
    next heq => exact Eats.bind ho hc (importStmt_eats ho (by rw [heq]; rfl))
    next heq => exact Eats.bind ho hc (fromImportStmt_eats ho (by rw [heq]; rfl))
    next => exact Eats.bind ho hc Eats.fail
    next => exact Eats.bind ho hc Eats.fail
    next => exact Eats.bind ho hc Eats.fail
    next => exact Eats.bind ho hc Eats.fail
    next heq => exact Eats.skip_bind ho (by rw [heq]; rfl)
    next heq => exact Eats.skip_bind ho (by rw [heq]; rfl)
    next heq => exact Eats.skip_bind ho (by rw [heq]; rfl)
    next heq => exact Eats.skip_bind ho (by rw [heq]; rfl)
    next heq => exact Eats.skip_bind ho (by rw [heq]; rfl)
    next heq => exact Eats.skip_bind ho (by rw [heq]; rfl)
    next heq => exact Eats.skip_bind ho (by rw [heq]; rfl)
    next heq => exact Eats.skip_bind ho (by rw [heq]; rfl)
    next heq => exact Eats.skip_bind ho (by rw [heq]; rfl)
    next heq =>
      refine Eats.look_bind ?_
      split
      · exact Eats.bind ho hc (typeAlias_eats ho (by rw [heq]; rfl) n)
      · exact Eats.bind ho hc (expressionStmt_eats ho hc n)
    next => exact Eats.look_bind (Eats.bind ho hc (expressionStmt_eats ho hc n))
    next => exact Eats.bind ho hc (expressionStmt_eats ho hc n)

/-- A simple statement lies between the end of code before it and the end of code after it,
from the source, holding no statements. -/
theorem simpleStmt_placed (ho : t.Ordered) (hc : c.Fits t) {n : Nat} {s : Stmt} {c' : Cursor}
    (h : (simpleStmt n).Reads t c s c') : Placed.stmts t.source c.lastEnd [s] c'.lastEnd := by
  obtain ⟨origin, leaf⟩ := simpleStmt_yields n s c' h
  have fits := (h.advance.fits ho hc).1
  exact ⟨_, origin, ho.start _, fits.boundary, hc.le_next,
    Placed.stmt_leaf leaf (simpleStmt_eats ho hc n s c' h), Nat.le_refl _⟩

theorem simpleLine_placed (ho : t.Ordered) {lo : Nat} :
    ∀ n (acc : Array Stmt) {c r c'}, c.Fits t → (simpleLine n acc).Reads t c r c' →
      Placed.stmts t.source lo acc.toList c.lastEnd → Placed.stmts t.source lo r.toList c'.lastEnd
  | 0, _, _, _, _, _, h, _ => absurd h Reads.not_exhausted
  | n + 1, acc, c, r, c', hc, h, hacc => by
    rw [simpleLine.eq_2] at h
    obtain ⟨s, c₁, hs, h⟩ := h.bind
    obtain ⟨more, c₂, he, h⟩ := h.bind
    have fits₁ := hs.advance.fits ho hc
    have fits₂ := he.advance.fits ho fits₁.1
    have placed : Placed.stmts t.source lo (acc.push s).toList c₂.lastEnd := by
      rw [Array.toList_push]
      exact Placed.stmts_raise fits₂.2 (Placed.stmts_append hacc (simpleStmt_placed ho hc hs))
    split at h
    · exact simpleLine_placed ho n _ fits₂.1 h placed
    · obtain ⟨_, c₃, hl, h⟩ := h.bind
      obtain ⟨rfl, rfl⟩ := h.pure
      exact Placed.stmts_raise (hl.advance.fits ho fits₂.1).2 placed

/-! ### Decorators, definitions, bodies and statements -/

/-- A statement from the source with the span from `start` to `stop`, holding what it holds
in between. -/
def Placed.spanning (src : String) (s : Stmt) (start stop : Nat) : Prop :=
  s.origin = .source ⟨start, stop⟩ ∧ Placed.stmt src start s stop

/-- A definition read from its keyword at `start` to `stop`: with its decorators placed from
`lo` up to the keyword, it holds what it holds between `lo` and `stop`. -/
def Placed.definition (src : String) (s : Stmt) (ds : List Decorator) (start stop : Nat) :
    Prop :=
  s.origin = .source ⟨start, stop⟩ ∧
    ∀ lo, Placed.decorators src lo ds start → Placed.stmt src lo s stop

theorem Placed.definition.spanning {src : String} {s : Stmt} {start stop : Nat}
    (h : Placed.definition src s [] start stop) : Placed.spanning src s start stop :=
  ⟨h.1, h.2 start (Nat.le_refl start)⟩

theorem Placed.push_spanning {src : String} {lo mid a b : Nat} {acc : Array Stmt} {s : Stmt}
    (hacc : Placed.stmts src lo acc.toList mid) (hs : Placed.spanning src s a b)
    (ha : Boundary src a) (hb : Boundary src b) (hmid : mid ≤ a) :
    Placed.stmts src lo (acc.push s).toList b := by
  rw [Array.toList_push]
  exact Placed.stmts_snoc hacc hs.1 ha hb hmid hs.2 (Nat.le_refl b)

/-- The decorators of a definition lie in order from the first `@`, each from the source; the
next one, or the definition's keyword, starts after them. -/
theorem decoratorList_placed (ho : t.Ordered) :
    ∀ n (acc : Array Decorator) {c ds c'} {lo : Nat}, (decoratorList n acc).Reads t c ds c' →
      Placed.FromSource acc.toList →
      Placed.decorators t.source lo acc.toList (t.lexemeAt c.index).span.start →
      Placed.FromSource ds ∧ Placed.decorators t.source lo ds (t.lexemeAt c'.index).span.start
  | 0, _, _, _, _, _, h, _, _ => absurd h Reads.not_exhausted
  | n + 1, acc, c, ds, c', lo, h, hsrc, hpl => by
    rw [decoratorList.eq_2] at h
    have h := h.look_bind
    split at h
    · obtain ⟨rfl, rfl⟩ := h.pure
      exact ⟨hsrc, hpl⟩
    · obtain ⟨sign, c₁, hb, h⟩ := h.bind
      obtain ⟨rfl, rfl, -⟩ := hb.bump
      obtain ⟨_, c₂, a₂, h⟩ := h.look_bind.moves
      obtain ⟨_, c₃, a₃, h⟩ := h.look_bind.moves
      obtain ⟨_, c₄, a₄, h⟩ := h.look_bind.read_bind.moves
      have later : c.index ≤ c₄.index :=
        Nat.le_trans (Nat.le_succ _) (a₂.trans (a₃.trans a₄)).index_le
      refine decoratorList_placed ho n _ h ?_ ?_
      · intro d m
        rw [Array.toList_push] at m
        rcases List.mem_append.mp m with m | m
        · exact hsrc d m
        · rw [List.mem_singleton.mp m]
          exact ⟨_, rfl⟩
      · rw [Array.toList_push]
        exact Placed.decorators_snoc rfl (ho.start _) (Nat.le_refl _) (ho.start_mono later)
          hsrc hpl

mutual

/-- The statements of a body, read after those in `acc`, lie in order after them. -/
theorem statements_placed (ho : t.Ordered) :
    ∀ n inBlock (acc : Array Stmt) {c r c'} {lo : Nat}, c.Fits t →
      (statements n inBlock acc).Reads t c r c' →
      Placed.stmts t.source lo acc.toList c.lastEnd → Placed.stmts t.source lo r.toList c'.lastEnd
  | 0, _, _, _, _, _, _, _, h, _ => by
    rw [statements.eq_1] at h
    exact absurd h Reads.not_exhausted
  | n + 1, inBlock, acc, c, r, c', lo, hc, h, hacc => by
    rw [statements.eq_2] at h
    obtain ⟨_, c₁, a₁, h⟩ := h.moves
    have fits₁ := a₁.fits ho hc
    have placed₁ := Placed.stmts_raise fits₁.2 hacc
    have h := h.look_bind
    split at h
    next =>
      obtain ⟨rfl, rfl⟩ := h.pure
      exact placed₁
    next =>
      split at h
      · obtain ⟨_, c₂, a₂, h⟩ := h.moves
        obtain ⟨rfl, rfl⟩ := h.pure
        exact Placed.stmts_raise (a₂.fits ho fits₁.1).2 placed₁
      · exact absurd h Reads.not_fail
    next => exact absurd h Reads.not_fail
    next =>
      obtain ⟨acc', c₂, hl, h⟩ := h.bind
      exact statements_placed ho n inBlock acc' (hl.advance.fits ho fits₁.1).1 h
        (stmtLine_placed ho n acc fits₁.1 hl placed₁)
termination_by structural n => n

/-- One logical line: the statements it holds lie in order after those in `acc`. -/
theorem stmtLine_placed (ho : t.Ordered) :
    ∀ n (acc : Array Stmt) {c r c'} {lo : Nat}, c.Fits t → (stmtLine n acc).Reads t c r c' →
      Placed.stmts t.source lo acc.toList c.lastEnd → Placed.stmts t.source lo r.toList c'.lastEnd
  | 0, _, _, _, _, _, _, h, _ => by
    rw [stmtLine.eq_1] at h
    exact absurd h Reads.not_exhausted
  | n + 1, acc, c, r, c', lo, hc, h, hacc => by
    rw [stmtLine.eq_2] at h
    have h := h.look_bind.look_bind
    have push : ∀ {s : Stmt} {c₁ : Cursor}, t.Advance c c₁ →
        Placed.spanning t.source s (t.lexemeAt c.index).span.start c₁.lastEnd →
        Placed.stmts t.source lo (acc.push s).toList c₁.lastEnd :=
      fun adv hs => Placed.push_spanning hacc hs (ho.start _) (adv.fits ho hc).1.boundary hc.le_next
    split at h
    next =>
      obtain ⟨s, c₁, hd, h⟩ := h.bind
      obtain ⟨rfl, rfl⟩ := h.pure
      exact push hd.advance (decorated_placed ho n hc hd)
    next heq =>
      obtain ⟨s, c₁, hd, h⟩ := h.bind
      obtain ⟨rfl, rfl⟩ := h.pure
      exact push hd.advance
        (functionDef_placed ho n hc hd (ho.start _) (Nat.le_refl _) (by rw [heq]; rfl)).spanning
    next heq =>
      obtain ⟨s, c₁, hd, h⟩ := h.bind
      obtain ⟨rfl, rfl⟩ := h.pure
      exact push hd.advance
        (classDef_placed ho n hc hd (ho.start _) (Nat.le_refl _) (by rw [heq]; rfl)).spanning
    next =>
      obtain ⟨_, c₁, hs, h⟩ := h.bind
      have a₁ := hs.advance
      obtain ⟨rfl, -⟩ := hs.skip
      have fits₁ := (a₁.fits ho hc).1
      have later := ho.start_mono (Nat.le_succ c.index)
      have h := h.look_bind
      split at h
      next heq =>
        obtain ⟨s, c₂, hd, h⟩ := h.bind
        obtain ⟨rfl, rfl⟩ := h.pure
        exact push (a₁.trans hd.advance)
          (functionDef_placed ho n fits₁ hd (ho.start _) later (by rw [heq]; rfl)).spanning
      next heq =>
        obtain ⟨s, c₂, hd, h⟩ := h.bind
        obtain ⟨rfl, rfl⟩ := h.pure
        exact push (a₁.trans hd.advance) (compound_placed ho n fits₁ hd later (by rw [heq]; rfl))
      next heq =>
        obtain ⟨s, c₂, hd, h⟩ := h.bind
        obtain ⟨rfl, rfl⟩ := h.pure
        exact push (a₁.trans hd.advance) (compound_placed ho n fits₁ hd later (by rw [heq]; rfl))
      next => exact absurd h Reads.not_fail
    all_goals first
      | exact absurd h Reads.not_fail
      | (obtain ⟨s, c₁, hd, h⟩ := h.bind
         obtain ⟨rfl, rfl⟩ := h.pure
         exact push hd.advance
           (compound_placed ho n hc hd (Nat.le_refl _) (by simp only [*, Token.isLayout])))
      | (have h := h.look_bind
         split at h
         · obtain ⟨s, c₁, hd, h⟩ := h.bind
           obtain ⟨rfl, rfl⟩ := h.pure
           exact push hd.advance
             (softBlock_placed ho n hc hd (Nat.le_refl _) (by simp only [*, Token.isLayout]))
         · exact simpleLine_placed ho n acc hc h hacc)
      | exact simpleLine_placed ho n acc hc h hacc
termination_by structural n => n

/-- A body lies after the end of code before its colon. -/
theorem suite_placed (ho : t.Ordered) :
    ∀ n owner {c body c'} {lo : Nat}, c.Fits t → (suite n owner).Reads t c body c' →
      lo ≤ c.lastEnd → Placed.suite t.source lo body c'.lastEnd
  | 0, _, _, _, _, _, _, h, _ => by
    rw [suite.eq_1] at h
    exact absurd h Reads.not_exhausted
  | n + 1, owner, c, body, c', lo, hc, h, hlo => by
    rw [suite.eq_2] at h
    extract_lets block jp at h
    obtain ⟨_, c₁, a₁, h⟩ := h.moves
    have fits₁ := a₁.fits ho hc
    have h := h.look_bind
    split at h
    next =>
      simp only [jp] at h
      obtain ⟨_, c₂, a₂, h⟩ := h.moves
      have h := h.look_bind
      obtain ⟨c₃, a₃, h⟩ : ∃ c₃, t.Advance c₂ c₃ ∧ (block ()).Reads t c₃ body c' := by
        split at h
        · exact (Reads.fail_bind h).elim
        · exact ⟨_, .refl _ _, h⟩
      simp only [block] at h
      obtain ⟨_, c₄, a₄, h⟩ := h.moves
      have h := h.read_bind.look_bind
      obtain ⟨stmts, c₅, hst, h⟩ := h.bind
      obtain ⟨rfl, rfl⟩ := h.pure
      have fits₄ := (a₂.trans (a₃.trans a₄)).fits ho fits₁.1
      exact statements_placed ho n true #[] fits₄.1 hst
        (Nat.le_trans hlo (Nat.le_trans fits₁.2 fits₄.2))
    all_goals first
      | exact (Reads.fail_bind h).elim
      | skip
    obtain ⟨line, c₂, hl, h⟩ := h.bind
    obtain ⟨rfl, rfl⟩ := h.pure
    exact simpleLine_placed ho n #[] fits₁.1 hl (Nat.le_trans hlo fits₁.2)
termination_by structural n => n

/-- Decorators and the definition after them: the statement spans from the first `@`. -/
theorem decorated_placed (ho : t.Ordered) :
    ∀ n {c s c'}, c.Fits t → (decorated n (t.lexemeAt c.index).span.start).Reads t c s c' →
      Placed.spanning t.source s (t.lexemeAt c.index).span.start c'.lastEnd
  | 0, _, _, _, _, h => by
    rw [decorated.eq_1] at h
    exact absurd h Reads.not_exhausted
  | n + 1, c, s, c', hc, h => by
    rw [decorated.eq_2] at h
    extract_lets finish at h
    obtain ⟨ds, c₁, hdl, h⟩ := h.bind
    obtain ⟨-, placed⟩ := decoratorList_placed ho n #[] hdl (fun _ m => absurd m List.not_mem_nil)
      (Nat.le_refl _)
    have fits₁ := (hdl.advance.fits ho hc).1
    have h := h.look_bind.look_bind
    obtain ⟨s₀, c₂, read₀, h⟩ : ∃ s₀ c₂,
        Placed.definition t.source s₀ ds (t.lexemeAt c₁.index).span.start c₂.lastEnd ∧
          (finish s₀).Reads t c₂ s c' := by
      split at h
      next heq =>
        obtain ⟨s₀, c₂, hf, h⟩ := h.bind
        exact ⟨s₀, c₂, functionDef_placed ho n fits₁ hf (ho.start _) (Nat.le_refl _)
          (by rw [heq]; rfl), h⟩
      next =>
        obtain ⟨_, c₂, hs, h⟩ := h.bind
        have a₂ := hs.advance
        obtain ⟨rfl, -⟩ := hs.skip
        have h := h.look_bind
        extract_lets afterAsync at h
        split at h
        · exact (Reads.fail_bind h).elim
        · next hdef =>
          simp only [afterAsync] at h
          obtain ⟨s₀, c₃, hf, h⟩ := h.bind
          exact ⟨s₀, c₃, functionDef_placed ho n (a₂.fits ho fits₁).1 hf (ho.start _)
            (ho.start_mono (Nat.le_succ _)) (Token.isLayout_of_not_bne hdef rfl), h⟩
      next heq =>
        obtain ⟨s₀, c₂, hf, h⟩ := h.bind
        exact ⟨s₀, c₂, classDef_placed ho n fits₁ hf (ho.start _) (Nat.le_refl _)
          (by rw [heq]; rfl), h⟩
      next => exact (Reads.fail_bind h).elim
    simp only [finish] at h
    have h := h.look_bind
    obtain ⟨rfl, rfl⟩ := h.pure
    exact ⟨rfl, (Placed.stmt_origin s₀ _).mpr (read₀.2 _ placed)⟩
termination_by structural n => n

/-- A function definition from its keyword: the body lies after its header. -/
theorem functionDef_placed (ho : t.Ordered) :
    ∀ n {start ds c s c'}, c.Fits t → (functionDef n start ds).Reads t c s c' →
      Boundary t.source start → start ≤ (t.lexemeAt c.index).span.start →
      (t.lexemeAt c.index).token.isLayout = false →
      Placed.definition t.source s ds start c'.lastEnd
  | 0, _, _, _, _, _, _, h, _, _, _ => by
    rw [functionDef.eq_1] at h
    exact absurd h Reads.not_exhausted
  | n + 1, start, ds, c, s, c', hc, h, hb, hle, hl => by
    rw [functionDef.eq_2] at h
    obtain ⟨_, c₁, hs, h⟩ := h.bind
    have eat := Eats.skip ho hl _ _ hs
    have fits₁ := (hs.advance.fits ho hc).1
    obtain ⟨_, c₂, a₂, h⟩ := h.moves
    have h := h.look_bind
    extract_lets rest₂ rest₁ at h
    obtain ⟨c₃, a₃, h⟩ : ∃ c₃, t.Advance c₂ c₃ ∧ (rest₁ ()).Reads t c₃ s c' := by
      split at h
      · exact h.jump
      · exact ⟨_, .refl _ _, h⟩
    simp only [rest₁] at h
    obtain ⟨_, c₄, a₄, h⟩ := h.moves
    obtain ⟨_, c₅, a₅, h⟩ := h.moves
    obtain ⟨_, c₆, a₆, h⟩ := h.moves
    have h := h.look_bind
    obtain ⟨c₇, a₇, h⟩ : ∃ c₇, t.Advance c₆ c₇ ∧ (rest₂ ()).Reads t c₇ s c' := by
      split at h
      · exact h.jump₂
      · exact ⟨_, .refl _ _, h⟩
    simp only [rest₂] at h
    obtain ⟨body, c₈, hsu, h⟩ := h.bind
    have h := h.read_bind.look_bind
    obtain ⟨rfl, rfl⟩ := h.pure
    have header := (a₂.trans (a₃.trans (a₄.trans (a₅.trans (a₆.trans a₇))))).fits ho fits₁
    have placed := suite_placed ho n _ header.1 hsu (Nat.le_trans hle (Nat.le_trans eat header.2))
    exact ⟨rfl, fun _ hd => ⟨hd, hb, placed⟩⟩
termination_by structural n => n

/-- A class definition from its keyword: the body lies after its header. -/
theorem classDef_placed (ho : t.Ordered) :
    ∀ n {start ds c s c'}, c.Fits t → (classDef n start ds).Reads t c s c' →
      Boundary t.source start → start ≤ (t.lexemeAt c.index).span.start →
      (t.lexemeAt c.index).token.isLayout = false →
      Placed.definition t.source s ds start c'.lastEnd
  | 0, _, _, _, _, _, _, h, _, _, _ => by
    rw [classDef.eq_1] at h
    exact absurd h Reads.not_exhausted
  | n + 1, start, ds, c, s, c', hc, h, hb, hle, hl => by
    rw [classDef.eq_2] at h
    obtain ⟨_, c₁, hs, h⟩ := h.bind
    have eat := Eats.skip ho hl _ _ hs
    have fits₁ := (hs.advance.fits ho hc).1
    obtain ⟨_, c₂, a₂, h⟩ := h.moves
    have h := h.look_bind
    extract_lets rest₂ rest₁ at h
    obtain ⟨c₃, a₃, h⟩ : ∃ c₃, t.Advance c₂ c₃ ∧ (rest₁ ()).Reads t c₃ s c' := by
      split at h
      · exact h.jump
      · exact ⟨_, .refl _ _, h⟩
    simp only [rest₁] at h
    have h := h.look_bind
    obtain ⟨c₄, a₄, h⟩ : ∃ c₄, t.Advance c₃ c₄ ∧ (rest₂ ()).Reads t c₄ s c' := by
      split at h
      · exact h.jump₃
      · exact ⟨_, .refl _ _, h⟩
    simp only [rest₂] at h
    obtain ⟨body, c₅, hsu, h⟩ := h.bind
    have h := h.read_bind.look_bind
    obtain ⟨rfl, rfl⟩ := h.pure
    have header := (a₂.trans (a₃.trans a₄)).fits ho fits₁
    have placed := suite_placed ho n _ header.1 hsu (Nat.le_trans hle (Nat.le_trans eat header.2))
    exact ⟨rfl, fun _ hd => ⟨hd, hb, placed⟩⟩
termination_by structural n => n

/-- A compound statement from its keyword: its clauses lie in order after it. -/
theorem compound_placed (ho : t.Ordered) :
    ∀ n {start c s c'}, c.Fits t → (compound n start).Reads t c s c' →
      start ≤ (t.lexemeAt c.index).span.start → (t.lexemeAt c.index).token.isLayout = false →
      Placed.spanning t.source s start c'.lastEnd
  | 0, _, _, _, _, _, h, _, _ => by
    rw [compound.eq_1] at h
    exact absurd h Reads.not_exhausted
  | n + 1, start, c, s, c', hc, h, hle, hl => by
    rw [compound.eq_2] at h
    obtain ⟨first, c₁, hcl, h⟩ := h.bind
    have fits₁ := (hcl.advance.fits ho hc).1
    have body₁ := clause_placed ho n hc hcl hle hl
    obtain ⟨cls, c₂, hm, h⟩ := h.bind
    obtain ⟨k, names, strings, body⟩ := first
    have placed := moreClauses_placed ho n _ _ _ fits₁ hm
      (Placed.clauses_snoc k names strings
        (show Placed.clauses t.source start [] start from Nat.le_refl start) body₁)
    have fits₂ := (hm.advance.fits ho fits₁).1
    extract_lets jp at h
    obtain ⟨c₃, a₃, h⟩ : ∃ c₃, t.Advance c₂ c₃ ∧ (jp ()).Reads t c₃ s c' := by
      split at h
      · exact (Reads.fail_bind h).elim
      · exact ⟨_, .refl _ _, h⟩
    simp only [jp] at h
    have h := h.look_bind
    obtain ⟨rfl, rfl⟩ := h.pure
    exact ⟨rfl, Placed.clauses_raise (a₃.fits ho fits₂).2 placed⟩
termination_by structural n => n

/-- Further clauses lie in order after those in `acc`. -/
theorem moreClauses_placed (ho : t.Ordered) :
    ∀ n first last (acc : Array Clause) {c r c'} {lo : Nat}, c.Fits t →
      (moreClauses n first last acc).Reads t c r c' →
      Placed.clauses t.source lo acc.toList c.lastEnd →
      Placed.clauses t.source lo r.toList c'.lastEnd
  | 0, _, _, _, _, _, _, _, _, h, _ => by
    rw [moreClauses.eq_1] at h
    exact absurd h Reads.not_exhausted
  | n + 1, first, last, acc, c, r, c', lo, hc, h, hacc => by
    rw [moreClauses.eq_2] at h
    have h := h.look_bind
    split at h
    next keyword heq =>
      split at h
      · obtain ⟨cl, c₁, hcl, h⟩ := h.bind
        have body := clause_placed ho n hc hcl hc.le_next (Token.isLayout_of_clauseKeyword heq)
        obtain ⟨k, names, strings, b⟩ := cl
        refine moreClauses_placed ho n first k _ (hcl.advance.fits ho hc).1 h ?_
        rw [Array.toList_push]
        exact Placed.clauses_snoc k names strings hacc body
      · obtain ⟨rfl, rfl⟩ := h.pure
        exact hacc
    next =>
      obtain ⟨rfl, rfl⟩ := h.pure
      exact hacc
termination_by structural n => n

/-- One clause: its body lies after its keyword and header. -/
theorem clause_placed (ho : t.Ordered) :
    ∀ n {c cl c'} {lo : Nat}, c.Fits t → (clause n).Reads t c cl c' →
      lo ≤ (t.lexemeAt c.index).span.start → (t.lexemeAt c.index).token.isLayout = false →
      Placed.suite t.source lo cl.body c'.lastEnd
  | 0, _, _, _, _, _, h, _, _ => by
    rw [clause.eq_1] at h
    exact absurd h Reads.not_exhausted
  | n + 1, c, cl, c', lo, hc, h, hlo, hl => by
    rw [clause.eq_2] at h
    obtain ⟨kw, c₁, hb, h⟩ := h.bind
    have eat := Eats.bump ho hl _ _ hb
    have fits₁ := (hb.advance.fits ho hc).1
    have h := h.read_bind.look_bind
    extract_lets jp at h
    obtain ⟨c₂, a₂, h⟩ : ∃ c₂, t.Advance c₁ c₂ ∧ (jp ()).Reads t c₂ cl c' := by
      split at h
      all_goals first | exact h.jump | exact h.jump₃ | exact ⟨_, .refl _ _, h⟩
    simp only [jp] at h
    have h := h.read_bind.look_bind
    obtain ⟨body, c₃, hsu, h⟩ := h.bind
    obtain ⟨rfl, rfl⟩ := h.pure
    have fits₂ := a₂.fits ho fits₁
    exact suite_placed ho n _ fits₂.1 hsu (Nat.le_trans hlo (Nat.le_trans eat fits₂.2))
termination_by structural n => n

/-- A `match` or `case` block: one clause, whose body lies after its header. -/
theorem softBlock_placed (ho : t.Ordered) :
    ∀ n {start c s c'}, c.Fits t → (softBlock n start).Reads t c s c' →
      start ≤ (t.lexemeAt c.index).span.start → (t.lexemeAt c.index).token.isLayout = false →
      Placed.spanning t.source s start c'.lastEnd
  | 0, _, _, _, _, _, h, _, _ => by
    rw [softBlock.eq_1] at h
    exact absurd h Reads.not_exhausted
  | n + 1, start, c, s, c', hc, h, hle, hl => by
    rw [softBlock.eq_2] at h
    obtain ⟨kw, c₁, hb, h⟩ := h.bind
    have eat := Eats.bump ho hl _ _ hb
    have fits₁ := (hb.advance.fits ho hc).1
    have h := h.read_bind.look_bind
    extract_lets jp at h
    obtain ⟨c₂, a₂, h⟩ : ∃ c₂, t.Advance c₁ c₂ ∧ (jp ()).Reads t c₂ s c' := by
      split at h
      · exact h.jump
      · exact h.read_bind.jump
    simp only [jp] at h
    have h := h.read_bind.look_bind
    obtain ⟨body, c₃, hsu, h⟩ := h.bind
    have h := h.look_bind
    obtain ⟨rfl, rfl⟩ := h.pure
    have fits₂ := a₂.fits ho fits₁
    have placed := suite_placed ho n _ fits₂.1 hsu (Nat.le_trans hle (Nat.le_trans eat fits₂.2))
    refine ⟨rfl, ?_⟩
    show Placed.clauses t.source start [_] c'.lastEnd
    exact Placed.clauses_snoc _ _ _
      (show Placed.clauses t.source start [] start from Nat.le_refl start) placed

termination_by structural n => n
end

end Grammar

end PyTune

