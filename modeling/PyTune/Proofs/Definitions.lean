import PyTune.Proofs.DefFree
import PyTune.Proofs.Functions
import PyTune.Proofs.Imports
import PyTune.Proofs.Editing

/-!
# Every `def` of a source starts one function of its tree

The `def` keywords of a source outside `case` headers start, one to one and in order, the
functions a walk of its tree meets (`Module.defs_functions`, carried by `Tape.DefsRead`), and
decorating visits each of them once (`Module.addDecorator_each_function`).
-/

namespace PyTune

/-! ### Where definitions start, and the headers of `case` blocks -/

namespace Tape

variable (t : Tape)

/-- Where lexeme `k` starts. -/
def startAt (k : Nat) : Nat := (t.lexemeAt k).span.start

/-- The indices of the `def` keywords among the lexemes from `i` up to, not including, `j`. -/
def defsIn (i j : Nat) : List Nat :=
  (List.range' i (j - i)).filter fun k => (t.lexemeAt k).token == .keyword .defn

/-- A function whose `def` is lexeme `k` starts at `offset`: where the `def` starts, or where
the `async` just before it starts. -/
def DefStart (k offset : Nat) : Prop :=
  offset = t.startAt k ∨ ∃ j, k = j + 1 ∧ (t.lexemeAt j).token = .keyword .async ∧ offset = t.startAt j

end Tape

/-- The offset lies inside the span. -/
def Span.holds (sp : Span) (o : Nat) : Bool :=
  sp.start ≤ o && o < sp.stop

/-- Where the first of some statements starts, when it is from the source. -/
def Stmt.startOfFirst : List Stmt → Option Nat
  | [] => none
  | s :: _ => s.origin.span?.map (·.start)

/-- The header of a `case` block: from the start of the statement up to the first statement
of its body, or up to the statement's end if the body holds none. -/
def caseHeader : Origin → List Clause → List Span
  | .source sp, cl :: _ =>
    if cl.keyword = "case" then [⟨sp.start, (Stmt.startOfFirst cl.body.stmts).getD sp.stop⟩] else []
  | _, _ => []

namespace CaseHeaders

mutual

/-- The headers of the `case` blocks among statements, in order. -/
def stmts : List Stmt → List Span
  | [] => []
  | s :: rest => stmt s ++ stmts rest

def stmt : Stmt → List Span
  | ⟨_, .functionDef ⟨_, _, _, _, body⟩⟩ => suite body
  | ⟨_, .classDef ⟨_, _, _, _, body⟩⟩ => suite body
  | ⟨o, .compound cs⟩ => caseHeader o cs ++ clauses cs
  | ⟨_, .imports _⟩ | ⟨_, .importFrom _ _ _⟩ | ⟨_, .docstring⟩ | ⟨_, .assign _⟩
  | ⟨_, .simple⟩ => []

def clauses : List Clause → List Span
  | [] => []
  | ⟨_, _, _, body⟩ :: rest => suite body ++ clauses rest

def suite : Suite → List Span
  | .inline body => stmts body
  | .block _ body => stmts body

end

@[simp] theorem stmts_append : ∀ xs ys : List Stmt, stmts (xs ++ ys) = stmts xs ++ stmts ys
  | [], _ => rfl
  | s :: rest, ys => by
    rw [List.cons_append, stmts, stmts, stmts_append rest ys, List.append_assoc]

theorem stmts_of_leaves : ∀ {ss : List Stmt}, (∀ s ∈ ss, s.kind.Leaf) → stmts ss = []
  | [], _ => rfl
  | ⟨o, k⟩ :: rest, h => by
    have leaf := h _ List.mem_cons_self
    have rest := stmts_of_leaves fun s m => h s (List.mem_cons_of_mem _ m)
    cases k <;> first | exact leaf.elim | simp only [stmts, stmt, rest, List.nil_append]

end CaseHeaders

namespace Functions

theorem stmts_of_leaves : ∀ {ss : List Stmt}, (∀ s ∈ ss, s.kind.Leaf) → stmts ss = []
  | [], _ => rfl
  | ⟨o, k⟩ :: rest, h => by
    have leaf := h _ List.mem_cons_self
    have rest := stmts_of_leaves fun s m => h s (List.mem_cons_of_mem _ m)
    cases k <;> first | exact leaf.elim | simp only [stmts, stmt, rest, List.nil_append]

end Functions

/-! ### Sound tapes -/

/-- The lexemes lie in order and every keyword spans its spelling, as in the tape of a source
with no lexical fault. -/
structure Tape.Sound (t : Tape) : Prop where
  ordered : t.Ordered
  spelled : ∀ k kw, (t.lexemeAt k).token = .keyword kw →
    (t.lexemeAt k).span.text t.source = kw.spelling

theorem Tape.sound_ofSource {src : String}
    (hf : ∀ l ∈ (Lexeme.scan src).toList, l.token.fault? = none) : (Tape.ofSource src).Sound :=
  ⟨Tape.ordered_ofSource src hf, fun k _ hk => Tape.spelled_ofSource hf k hk⟩

namespace Tape

variable {t : Tape}

theorem mem_defsIn {i j k : Nat} :
    k ∈ t.defsIn i j ↔ i ≤ k ∧ k < j ∧ (t.lexemeAt k).token = .keyword .defn := by
  simp only [defsIn, List.mem_filter, List.mem_range'_1, beq_iff_eq]
  constructor
  · rintro ⟨⟨lo, hi⟩, hdef⟩
    exact ⟨lo, by omega, hdef⟩
  · rintro ⟨lo, hi, hdef⟩
    exact ⟨⟨lo, by omega⟩, hdef⟩

theorem defsIn_append {i j l : Nat} (hij : i ≤ j) (hjl : j ≤ l) :
    t.defsIn i l = t.defsIn i j ++ t.defsIn j l := by
  have split := @List.range'_append_1 i (j - i) (l - j)
  rw [show i + (j - i) = j by omega, show j - i + (l - j) = l - i by omega] at split
  simp only [defsIn]
  rw [← List.filter_append, split]

theorem defsIn_eq_nil {i j : Nat} (h : t.DefFree i j) : t.defsIn i j = [] := by
  rw [List.eq_nil_iff_forall_not_mem]
  intro k hk
  obtain ⟨lo, hi, hdef⟩ := mem_defsIn.mp hk
  exact h k lo hi hdef

theorem defsIn_succ {i j : Nat} (hij : i < j) (hdef : (t.lexemeAt i).token = .keyword .defn) :
    t.defsIn i j = i :: t.defsIn (i + 1) j := by
  rw [defsIn_append (Nat.le_succ i) hij]
  simp [defsIn, hdef]

namespace Sound

variable (hs : t.Sound)
include hs

theorem start_mono {i j : Nat} (h : i ≤ j) : t.startAt i ≤ t.startAt j :=
  hs.ordered.start_mono h

/-- A keyword is never empty: it spans its spelling. -/
theorem keyword_wide {k : Nat} {kw : Keyword} (hk : (t.lexemeAt k).token = .keyword kw) :
    t.startAt k < (t.lexemeAt k).span.stop :=
  Span.start_lt_stop_of_text (hs.spelled k kw hk)

/-- A keyword starts before every lexeme after it. -/
theorem keyword_before {k j : Nat} {kw : Keyword} (hk : (t.lexemeAt k).token = .keyword kw)
    (h : k < j) : t.startAt k < t.startAt j :=
  Nat.lt_of_lt_of_le (hs.keyword_wide hk) (hs.ordered.stop_le_start h)

end Sound

end Tape

/-! ### Readings that meet the `def` keywords as the starts of functions -/

/-- Reading from lexeme `i` to lexeme `j` met the `def` keywords outside the headers `hs` as
the starts of the functions `fs`, in order; the headers lie between where the two lexemes
start. -/
structure Tape.DefsRead (t : Tape) (i j : Nat) (hs : List Span) (fs : List Definition) : Prop where
  le : i ≤ j
  defs : List.Forall₂ (fun k d => t.DefStart k d.offset)
    ((t.defsIn i j).filter fun k => !hs.any (·.holds (t.startAt k))) fs
  lower : ∀ h ∈ hs, t.startAt i ≤ h.start
  upper : ∀ h ∈ hs, h.stop ≤ t.startAt j

/-- Statements read from lexeme `i` to lexeme `j`: the `def` keywords outside their `case`
headers start their functions. -/
def Tape.Covers (t : Tape) (i j : Nat) (ss : List Stmt) : Prop :=
  t.DefsRead i j (CaseHeaders.stmts ss) (Functions.stmts ss)

namespace Tape.DefsRead

variable {t : Tape} (hs : t.Sound) {i j l : Nat} {hd hd' : List Span} {fs fs' : List Definition}

/-- A reading that passes no `def` meets no function. -/
theorem none (hij : i ≤ j) (h : t.DefFree i j) : t.DefsRead i j [] [] where
  le := hij
  defs := by rw [defsIn_eq_nil h]; exact List.Forall₂.nil
  lower := fun _ m => absurd m List.not_mem_nil
  upper := fun _ m => absurd m List.not_mem_nil

include hs

/-- Two readings one after the other: the headers and `def` keywords of each stay apart,
since a `def` before lexeme `j` starts before it. -/
theorem append (h₁ : t.DefsRead i j hd fs) (h₂ : t.DefsRead j l hd' fs') :
    t.DefsRead i l (hd ++ hd') (fs ++ fs') where
  le := Nat.le_trans h₁.le h₂.le
  defs := by
    rw [defsIn_append h₁.le h₂.le, List.filter_append]
    refine List.rel_append ?_ ?_
    · -- a `def` of the first reading starts before every header of the second
      rw [List.filter_congr fun k m => ?_]
      · exact h₁.defs
      obtain ⟨-, hk, hdef⟩ := mem_defsIn.mp m
      have before := hs.keyword_before hdef hk
      suffices outside : hd'.any (·.holds (t.startAt k)) = false by
        rw [List.any_append, outside, Bool.or_false]
      rw [List.any_eq_false]
      intro h mh hh
      have := h₂.lower h mh
      simp only [Span.holds, Bool.and_eq_true, decide_eq_true_eq] at hh
      omega
    · -- a `def` of the second reading starts after every header of the first
      rw [List.filter_congr fun k m => ?_]
      · exact h₂.defs
      obtain ⟨hk, -, -⟩ := mem_defsIn.mp m
      have after := hs.start_mono hk
      rw [List.any_append]
      suffices outside : hd.any (·.holds (t.startAt k)) = false by rw [outside, Bool.false_or]
      rw [List.any_eq_false]
      intro h mh hh
      have := h₁.upper h mh
      simp only [Span.holds, Bool.and_eq_true, decide_eq_true_eq] at hh
      omega
  lower h m := by
    rcases List.mem_append.mp m with m | m
    · exact h₁.lower h m
    · exact Nat.le_trans (hs.start_mono h₁.le) (h₂.lower h m)
  upper h m := by
    rcases List.mem_append.mp m with m | m
    · exact Nat.le_trans (h₁.upper h m) (hs.start_mono h₂.le)
    · exact h₂.upper h m

theorem free_left (hij : i ≤ j) (free : t.DefFree i j) (h : t.DefsRead j l hd fs) :
    t.DefsRead i l hd fs := by
  simpa using (none hij free).append hs h

/-- A `def` at lexeme `i`, and then a reading that builds the body of its function. -/
theorem def_cons {d : Definition} (hdef : (t.lexemeAt i).token = .keyword .defn)
    (hstart : t.DefStart i d.offset) (h : t.DefsRead (i + 1) j hd fs) :
    t.DefsRead i j hd (d :: fs) where
  le := Nat.le_trans (Nat.le_succ i) h.le
  defs := by
    rw [defsIn_succ (Nat.lt_of_lt_of_le (Nat.lt_succ_self i) h.le) hdef, List.filter_cons]
    have outside : hd.any (·.holds (t.startAt i)) = false := by
      rw [List.any_eq_false]
      intro hh mh holds
      have := h.lower hh mh
      have := hs.keyword_before hdef (Nat.lt_add_one i)
      simp only [Span.holds, Bool.and_eq_true, decide_eq_true_eq] at holds
      omega
    rw [outside]
    exact List.Forall₂.cons hstart h.defs
  lower hh m := Nat.le_trans (hs.start_mono (Nat.le_succ i)) (h.lower hh m)
  upper := h.upper

/-- The header of a `case` block, read from lexeme `i` up to lexeme `j`, and then its body:
every `def` of the header lies inside the header's span, and every `def` of the body after it. -/
theorem header {sp : Span} (hij : i ≤ j) (h : t.DefsRead j l hd fs)
    (inside : ∀ k ∈ t.defsIn i j, sp.start ≤ t.startAt k ∧ t.startAt k < sp.stop)
    (outside : ∀ k ∈ t.defsIn j l, sp.stop ≤ t.startAt k)
    (hlo : t.startAt i ≤ sp.start) (hhi : sp.stop ≤ t.startAt l) :
    t.DefsRead i l (sp :: hd) fs where
  le := Nat.le_trans hij h.le
  defs := by
    rw [defsIn_append hij h.le, List.filter_append]
    have header : (t.defsIn i j).filter (fun k => !(sp :: hd).any (·.holds (t.startAt k))) = [] := by
      rw [List.filter_eq_nil_iff]
      intro k m
      obtain ⟨lo, hi⟩ := inside k m
      simp [Span.holds, lo, hi]
    have body : (t.defsIn j l).filter (fun k => !(sp :: hd).any (·.holds (t.startAt k))) =
        (t.defsIn j l).filter (fun k => !hd.any (·.holds (t.startAt k))) := by
      refine List.filter_congr fun k m => ?_
      have := outside k m
      simp only [List.any_cons, Span.holds]
      rw [show (decide (sp.start ≤ t.startAt k) && decide (t.startAt k < sp.stop)) = false by
        simp only [Bool.and_eq_false_iff, decide_eq_false_iff_not, Nat.not_lt]
        exact .inr this, Bool.false_or]
    rw [header, body, List.nil_append]
    exact h.defs
  lower hh m := by
    rcases List.mem_cons.mp m with rfl | m
    · exact hlo
    · exact Nat.le_trans (hs.start_mono hij) (h.lower hh m)
  upper hh m := by
    rcases List.mem_cons.mp m with rfl | m
    · exact hhi
    · exact h.upper hh m

end Tape.DefsRead

/-! ### Where the statements of a body start -/

/-- Where statements read from lexeme `i` to lexeme `j` start: at or after lexeme `i`, at or
before lexeme `j`, and at or before every `def` in between; with no statement, no `def` lies
in between. -/
def Tape.FirstIn (t : Tape) (i j : Nat) : Option Nat → Prop
  | some f => t.startAt i ≤ f ∧ f ≤ t.startAt j ∧ ∀ k ∈ t.defsIn i j, f ≤ t.startAt k
  | none => t.defsIn i j = []

theorem Stmt.startOfFirst_append {xs ys : List Stmt} {f : Nat}
    (h : Stmt.startOfFirst xs = some f) : Stmt.startOfFirst (xs ++ ys) = some f := by
  cases xs with
  | nil => cases h
  | cons s rest => exact h

/-- Only a `case` clause has a header of its own. -/
theorem caseHeader_of_ne {o : Origin} {cl : Clause} {cls : List Clause}
    (h : cl.keyword ≠ "case") : caseHeader o (cl :: cls) = [] := by
  cases o <;> simp [caseHeader, h]

theorem Token.ne_defn_of_clauseKeyword {tok : Token} {k : String}
    (h : tok.clauseKeyword? = some k) : tok ≠ .keyword .defn := by
  rintro rfl
  cases h

namespace Tape

variable {t : Tape} {i j l : Nat}

theorem covers_single {s : Stmt} :
    t.Covers i j [s] ↔ t.DefsRead i j (CaseHeaders.stmt s) (Functions.stmt s) := by
  simp only [Covers, CaseHeaders.stmts, Functions.stmts, List.append_nil]

theorem covers_compound {o : Origin} {cls : List Clause} :
    t.Covers i j [⟨o, .compound cls⟩] ↔
      t.DefsRead i j (caseHeader o cls ++ CaseHeaders.clauses cls) (Functions.clauses cls) := by
  simp only [covers_single, CaseHeaders.stmt, Functions.stmt]

theorem covers_of_leaves {ss : List Stmt} (hij : i ≤ j) (free : t.DefFree i j)
    (leaves : ∀ s ∈ ss, s.kind.Leaf) : t.Covers i j ss := by
  unfold Covers
  rw [CaseHeaders.stmts_of_leaves leaves, Functions.stmts_of_leaves leaves]
  exact DefsRead.none hij free

/-- Statements whose first starts at lexeme `e`, after no `def`. -/
theorem Sound.firstIn_of_free (hs : t.Sound) {e : Nat} (hie : i ≤ e) (hej : e ≤ j)
    (free : t.DefFree i e) : t.FirstIn i j (some (t.startAt e)) := by
  refine ⟨hs.start_mono hie, hs.start_mono hej, fun k m => ?_⟩
  obtain ⟨lo, -, hdef⟩ := mem_defsIn.mp m
  by_cases before : k < e
  · exact absurd hdef (free k lo before)
  · exact hs.start_mono (Nat.le_of_not_lt before)

theorem FirstIn.free_left (hs : t.Sound) {o : Option Nat} (hij : i ≤ j) (free : t.DefFree i j)
    (hjl : j ≤ l) (h : t.FirstIn j l o) : t.FirstIn i l o := by
  have same : t.defsIn i l = t.defsIn j l := by
    rw [defsIn_append hij hjl, defsIn_eq_nil free, List.nil_append]
  cases o with
  | none => exact same.trans h
  | some f =>
    obtain ⟨lo, hi, before⟩ := h
    exact ⟨Nat.le_trans (hs.start_mono hij) lo, hi, fun k m => before k (same ▸ m)⟩

/-- Where the first statement starts, or `e` if there is none, for `e` between the two
lexemes: it lies between them, and at or before every `def` in between. -/
theorem FirstIn.getD {o : Option Nat} (h : t.FirstIn i j o) {e : Nat} (lo : t.startAt i ≤ e)
    (hi : e ≤ t.startAt j) :
    t.startAt i ≤ o.getD e ∧ o.getD e ≤ t.startAt j ∧ ∀ k ∈ t.defsIn i j, o.getD e ≤ t.startAt k := by
  cases o with
  | some f => exact h
  | none =>
    refine ⟨lo, hi, fun k m => ?_⟩
    rw [show t.defsIn i j = [] from h] at m
    exact absurd m List.not_mem_nil

end Tape

namespace Grammar

variable {α β : Type} {t : Tape} {c c' : Cursor}

/-- A reading whose first part passes no `def`. -/
theorem Reads.clean {x : Grammar α} {k : α → Grammar β} {b : β} (hx : Clean x t c)
    (h : (x >>= k).Reads t c b c') :
    ∃ a c₁, t.DefFree c.index c₁.index ∧ t.Advance c c₁ ∧ (k a).Reads t c₁ b c' := by
  obtain ⟨a, c₁, hr, hk⟩ := h.bind
  exact ⟨a, c₁, hx a c₁ hr, hr.advance, hk⟩

/-- A part that gives nothing and passes no `def`, then the jump on to `k`. -/
theorem Reads.clean_jump {x : Grammar Unit} {k : Unit → Grammar β} {b : β} (hx : Clean x t c)
    (h : (x >>= k).Reads t c b c') :
    ∃ c₁, t.DefFree c.index c₁.index ∧ t.Advance c c₁ ∧ (k ()).Reads t c₁ b c' := by
  obtain ⟨⟨⟩, c₁, free, adv, hk⟩ := h.clean hx
  exact ⟨c₁, free, adv, hk⟩

theorem expect_eats {tok : Token} {e : Expectation} (ho : t.Ordered) (hl : tok.isLayout = false) :
    Eats (expect tok e) t c := by
  unfold expect
  apply Eats.look_bind
  split
  next same => exact Eats.skip ho (by rw [beq_iff_eq.mp same]; exact hl)
  next => exact Eats.fail

/-- A line of simple statements: none holds a statement, and the first starts where the line
does. -/
theorem simpleLine_leaves : ∀ n (acc : Array Stmt) {c r c'}, (simpleLine n acc).Reads t c r c' →
    ∃ new, r.toList = acc.toList ++ new ∧ (∀ s ∈ new, s.kind.Leaf) ∧
      Stmt.startOfFirst new = some (t.startAt c.index)
  | 0, _, _, _, _, h => absurd h Reads.not_exhausted
  | n + 1, acc, c, r, c', h => by
    rw [simpleLine.eq_2] at h
    obtain ⟨s, c₁, hs, h⟩ := h.bind
    obtain ⟨origin, leaf⟩ := simpleStmt_yields n s c₁ hs
    have first : ∀ rest, Stmt.startOfFirst (s :: rest) = some (t.startAt c.index) := by
      intro rest
      simp only [Stmt.startOfFirst, origin, Origin.span?, Option.map_some]
      rfl
    obtain ⟨more, c₂, -, h⟩ := h.bind
    split at h
    · obtain ⟨new, eq, leaves, -⟩ := simpleLine_leaves n _ h
      refine ⟨s :: new, by rw [eq, Array.toList_push, List.append_assoc, List.singleton_append],
        fun s' m => ?_, first new⟩
      rcases List.mem_cons.mp m with rfl | m
      · exact leaf
      · exact leaves s' m
    · obtain ⟨_, c₃, -, h⟩ := h.bind
      obtain ⟨rfl, rfl⟩ := h.pure
      refine ⟨[s], by rw [Array.toList_push], fun s' m => ?_, first []⟩
      rw [List.mem_singleton.mp m]
      exact leaf

theorem simpleLine_covers (n : Nat) (acc : Array Stmt) {c r c'}
    (h : (simpleLine n acc).Reads t c r c') :
    ∃ new, r.toList = acc.toList ++ new ∧ t.Covers c.index c'.index new ∧
      Stmt.startOfFirst new = some (t.startAt c.index) := by
  obtain ⟨new, eq, leaves, first⟩ := simpleLine_leaves n acc h
  exact ⟨new, eq, Tape.covers_of_leaves h.advance.index_le (simpleLine_clean n acc c r c' h) leaves,
    first⟩

variable (hs : t.Sound)
include hs

mutual

/-- The statements of a body, read after those in `acc`: the `def` keywords read start their
functions, and the first statement starts before all of them. -/
theorem statements_defs :
    ∀ n inBlock (acc : Array Stmt) {c r c'}, c.Fits t → (statements n inBlock acc).Reads t c r c' →
      ∃ new, r.toList = acc.toList ++ new ∧ t.Covers c.index c'.index new ∧
        t.FirstIn c.index c'.index (Stmt.startOfFirst new)
  | 0, _, _, _, _, _, _, h => by
    rw [statements.eq_1] at h
    exact absurd h Reads.not_exhausted
  | n + 1, inBlock, acc, c, r, c', hc, h => by
    rw [statements.eq_2] at h
    obtain ⟨c₁, free₁, a₁, h⟩ := h.clean_jump skipNewlines_clean
    have fits₁ := (a₁.fits hs.ordered hc).1
    have h := h.look_bind
    have empty : ∀ {c₂ : Cursor}, t.DefFree c.index c₂.index → c.index ≤ c₂.index →
        ∃ new, acc.toList = acc.toList ++ new ∧ t.Covers c.index c₂.index new ∧
          t.FirstIn c.index c₂.index (Stmt.startOfFirst new) :=
      fun free le => ⟨[], (List.append_nil _).symm,
        Tape.covers_of_leaves le free fun _ m => absurd m List.not_mem_nil, Tape.defsIn_eq_nil free⟩
    split at h
    next =>
      obtain ⟨rfl, rfl⟩ := h.pure
      exact empty free₁ a₁.index_le
    next dedent =>
      split at h
      · obtain ⟨c₂, free₂, a₂, h⟩ := h.clean_jump (Clean.skip (Token.ne_defn_of_eq dedent (by decide)))
        obtain ⟨rfl, rfl⟩ := h.pure
        exact empty (free₁.trans free₂) (a₁.trans a₂).index_le
      · exact absurd h Reads.not_fail
    next => exact absurd h Reads.not_fail
    next =>
      obtain ⟨acc', c₂, hl, h⟩ := h.bind
      obtain ⟨new₁, eq₁, covers₁, first₁⟩ := stmtLine_defs n acc fits₁ hl
      obtain ⟨new₂, eq₂, covers₂, -⟩ :=
        statements_defs n inBlock acc' (hl.advance.fits hs.ordered fits₁).1 h
      refine ⟨new₁ ++ new₂, by rw [eq₂, eq₁, List.append_assoc], ?_, ?_⟩
      · unfold Tape.Covers at covers₁ covers₂ ⊢
        rw [CaseHeaders.stmts_append, Functions.stmts_append]
        exact (covers₁.append hs covers₂).free_left hs a₁.index_le free₁
      · rw [Stmt.startOfFirst_append first₁]
        exact hs.firstIn_of_free a₁.index_le (hl.advance.trans h.advance).index_le free₁
termination_by structural n => n

/-- One logical line: the statements it adds cover its `def` keywords, and the first starts
where the line does. -/
theorem stmtLine_defs :
    ∀ n (acc : Array Stmt) {c r c'}, c.Fits t → (stmtLine n acc).Reads t c r c' →
      ∃ new, r.toList = acc.toList ++ new ∧ t.Covers c.index c'.index new ∧
        Stmt.startOfFirst new = some (t.startAt c.index)
  | 0, _, _, _, _, _, h => by
    rw [stmtLine.eq_1] at h
    exact absurd h Reads.not_exhausted
  | n + 1, acc, c, r, c', hc, h => by
    rw [stmtLine.eq_2] at h
    have h := h.look_bind.look_bind
    have push : ∀ {s : Stmt} {c₁ : Cursor}, t.Covers c.index c₁.index [s] →
        Stmt.startOfFirst [s] = some (t.startAt c.index) →
        ∃ new, (acc.push s).toList = acc.toList ++ new ∧ t.Covers c.index c₁.index new ∧
          Stmt.startOfFirst new = some (t.startAt c.index) :=
      fun covers first => ⟨[_], Array.toList_push, covers, first⟩
    split at h
    next =>
      obtain ⟨s, c₁, hd, h⟩ := h.bind
      obtain ⟨rfl, rfl⟩ := h.pure
      obtain ⟨covers, first⟩ := decorated_defs n hc hd
      exact push covers first
    next hdef =>
      obtain ⟨s, c₁, hd, h⟩ := h.bind
      obtain ⟨rfl, rfl⟩ := h.pure
      obtain ⟨name, indent, body, rfl, read⟩ := functionDef_defs n hc hd hdef (.inl rfl)
      exact push (Tape.covers_single.mpr read) rfl
    next hclass =>
      obtain ⟨s, c₁, hd, h⟩ := h.bind
      obtain ⟨rfl, rfl⟩ := h.pure
      obtain ⟨name, indent, body, rfl, read⟩ :=
        classDef_defs n hc hd (Token.ne_defn_of_eq hclass (by decide))
      exact push (Tape.covers_single.mpr read) rfl
    next hasync =>
      obtain ⟨_, c₁, hsk, h⟩ := h.bind
      have free₁ := Clean.skip (Token.ne_defn_of_eq hasync (by decide)) _ _ hsk
      have a₁ := hsk.advance
      obtain ⟨rfl, -⟩ := hsk.skip
      have fits₁ := (a₁.fits hs.ordered hc).1
      have h := h.look_bind
      split at h
      next hdef =>
        obtain ⟨s, c₂, hd, h⟩ := h.bind
        obtain ⟨rfl, rfl⟩ := h.pure
        obtain ⟨name, indent, body, rfl, read⟩ :=
          functionDef_defs n fits₁ hd hdef (.inr ⟨c.index, rfl, hasync, rfl⟩)
        exact push (Tape.covers_single.mpr (read.free_left hs a₁.index_le free₁)) rfl
      next hfor =>
        obtain ⟨s, c₂, hd, h⟩ := h.bind
        obtain ⟨rfl, rfl⟩ := h.pure
        obtain ⟨covers, first⟩ := compound_defs n fits₁ hd hfor (by decide) (by decide)
        exact push (Tape.DefsRead.free_left hs a₁.index_le free₁ covers) first
      next hwith =>
        obtain ⟨s, c₂, hd, h⟩ := h.bind
        obtain ⟨rfl, rfl⟩ := h.pure
        obtain ⟨covers, first⟩ := compound_defs n fits₁ hd hwith (by decide) (by decide)
        exact push (Tape.DefsRead.free_left hs a₁.index_le free₁ covers) first
      next => exact absurd h Reads.not_fail
    all_goals first
      | exact absurd h Reads.not_fail
      | (obtain ⟨s, c₁, hd, h⟩ := h.bind
         obtain ⟨rfl, rfl⟩ := h.pure
         obtain ⟨covers, first⟩ := compound_defs n hc hd ‹_› (by decide) (by decide)
         exact push covers first)
      | (have h := h.look_bind
         split at h
         · obtain ⟨s, c₁, hd, h⟩ := h.bind
           obtain ⟨rfl, rfl⟩ := h.pure
           obtain ⟨covers, first⟩ := softBlock_defs n hc hd ‹_› (by decide)
           exact push covers first
         · exact simpleLine_covers n acc h)
      | exact simpleLine_covers n acc h
termination_by structural n => n

/-- A body: its `def` keywords start its functions, and its first statement starts before all
of them. -/
theorem suite_defs :
    ∀ n owner {c body c'}, c.Fits t → (suite n owner).Reads t c body c' →
      t.DefsRead c.index c'.index (CaseHeaders.suite body) (Functions.suite body) ∧
        t.FirstIn c.index c'.index (Stmt.startOfFirst body.stmts) ∧ t.startAt c.index ≤ c'.lastEnd
  | 0, _, _, _, _, _, h => by
    rw [suite.eq_1] at h
    exact absurd h Reads.not_exhausted
  | n + 1, owner, c, body, c', hc, h => by
    rw [suite.eq_2] at h
    have eats := Eats.bind hs.ordered hc (expect_eats hs.ordered rfl) _ _ h
    extract_lets block jp at h
    obtain ⟨c₁, free₁, a₁, h⟩ := h.clean_jump (expect_clean (by decide))
    have fits₁ := (a₁.fits hs.ordered hc).1
    have h := h.look_bind
    split at h
    next newline =>
      simp only [jp] at h
      obtain ⟨c₂, free₂, a₂, h⟩ :=
        h.clean_jump (Clean.skip (Token.ne_defn_of_eq newline (by decide)))
      have h := h.look_bind
      obtain ⟨indent, h⟩ : (t.lexemeAt c₂.index).token ≠ .keyword .defn ∧
          (block ()).Reads t c₂ body c' := by
        split at h
        · exact (Reads.fail_bind h).elim
        · next isIndent => exact ⟨Token.ne_defn_of_not_bne isIndent (by decide), h⟩
      simp only [block] at h
      obtain ⟨c₃, free₃, a₃, h⟩ := h.clean_jump (Clean.skip indent)
      have h := h.read_bind.look_bind
      obtain ⟨stmts, c₄, hst, h⟩ := h.bind
      obtain ⟨rfl, rfl⟩ := h.pure
      obtain ⟨new, eq, covers, first⟩ :=
        statements_defs n true #[] ((a₂.trans a₃).fits hs.ordered fits₁).1 hst
      have eq : stmts.toList = new := eq.trans (List.nil_append new)
      have le := (a₁.trans (a₂.trans a₃)).index_le
      have free := free₁.trans (free₂.trans free₃)
      refine ⟨?_, ?_, eats⟩
      · show t.DefsRead _ _ (CaseHeaders.stmts stmts.toList) (Functions.stmts stmts.toList)
        rw [eq]
        exact Tape.DefsRead.free_left hs le free covers
      · show t.FirstIn _ _ (Stmt.startOfFirst stmts.toList)
        rw [eq]
        exact first.free_left hs le free hst.advance.index_le
    all_goals first
      | exact (Reads.fail_bind h).elim
      | skip
    obtain ⟨line, c₂, hl, h⟩ := h.bind
    obtain ⟨rfl, rfl⟩ := h.pure
    obtain ⟨new, eq, covers, first⟩ := simpleLine_covers n #[] hl
    have eq : line.toList = new := eq.trans (List.nil_append new)
    refine ⟨?_, ?_, eats⟩
    · show t.DefsRead _ _ (CaseHeaders.stmts line.toList) (Functions.stmts line.toList)
      rw [eq]
      exact Tape.DefsRead.free_left hs a₁.index_le free₁ covers
    · show t.FirstIn _ _ (Stmt.startOfFirst line.toList)
      rw [eq, first]
      exact hs.firstIn_of_free a₁.index_le hl.advance.index_le free₁
termination_by structural n => n

/-- Decorators and the definition after them: the decorators pass no `def`, and the
definition covers the rest. -/
theorem decorated_defs :
    ∀ n {c s c'}, c.Fits t → (decorated n (t.startAt c.index)).Reads t c s c' →
      t.Covers c.index c'.index [s] ∧ Stmt.startOfFirst [s] = some (t.startAt c.index)
  | 0, _, _, _, _, h => by
    rw [decorated.eq_1] at h
    exact absurd h Reads.not_exhausted
  | n + 1, c, s, c', hc, h => by
    rw [decorated.eq_2] at h
    extract_lets finish at h
    obtain ⟨ds, c₁, free₁, a₁, h⟩ := h.clean (decoratorList_clean n #[] c)
    have fits₁ := (a₁.fits hs.ordered hc).1
    have h := h.look_bind.look_bind
    obtain ⟨s₀, c₂, read₀, h⟩ : ∃ s₀ c₂, (∀ o, t.Covers c₁.index c₂.index [{ s₀ with origin := o }]) ∧
        (finish s₀).Reads t c₂ s c' := by
      split at h
      next hdef =>
        obtain ⟨s₀, c₂, hf, h⟩ := h.bind
        obtain ⟨name, indent, body, rfl, read⟩ := functionDef_defs n fits₁ hf hdef (.inl rfl)
        refine ⟨_, c₂, fun _ => ?_, h⟩
        exact Tape.covers_single.mpr read
      next hasync =>
        obtain ⟨_, c₂, hsk, h⟩ := h.bind
        have free₂ := Clean.skip (Token.ne_defn_of_eq hasync (by decide)) _ _ hsk
        have a₂ := hsk.advance
        obtain ⟨rfl, -⟩ := hsk.skip
        have h := h.look_bind
        extract_lets afterAsync at h
        split at h
        · exact (Reads.fail_bind h).elim
        · next hdef =>
          simp only [afterAsync] at h
          obtain ⟨s₀, c₃, hf, h⟩ := h.bind
          simp only [bne_iff_ne, ne_eq, Decidable.not_not] at hdef
          obtain ⟨name, indent, body, rfl, read⟩ := functionDef_defs n (a₂.fits hs.ordered fits₁).1 hf
            hdef (.inr ⟨c₁.index, rfl, hasync, rfl⟩)
          refine ⟨_, c₃, fun _ => ?_, h⟩
          exact Tape.covers_single.mpr (read.free_left hs a₂.index_le free₂)
      next hclass =>
        obtain ⟨s₀, c₂, hf, h⟩ := h.bind
        obtain ⟨name, indent, body, rfl, read⟩ :=
          classDef_defs n fits₁ hf (Token.ne_defn_of_eq hclass (by decide))
        refine ⟨_, c₂, fun _ => ?_, h⟩
        exact Tape.covers_single.mpr read
      next => exact (Reads.fail_bind h).elim
    simp only [finish] at h
    have h := h.look_bind
    obtain ⟨rfl, rfl⟩ := h.pure
    exact ⟨Tape.DefsRead.free_left hs a₁.index_le free₁ (read₀ _), rfl⟩
termination_by structural n => n

/-- A function definition from its keyword: the function starts at `start`, and its own `def`
comes before those of its body. -/
theorem functionDef_defs :
    ∀ n {start ds c s c'}, c.Fits t → (functionDef n start ds).Reads t c s c' →
      (t.lexemeAt c.index).token = .keyword .defn → t.DefStart c.index start →
      ∃ name indent body,
        s = ⟨.source ⟨start, c'.lastEnd⟩, .functionDef ⟨name, ds, indent, start, body⟩⟩ ∧
        t.DefsRead c.index c'.index (CaseHeaders.suite body)
          (⟨name, ds, indent, start, body⟩ :: Functions.suite body)
  | 0, _, _, _, _, _, _, h, _, _ => by
    rw [functionDef.eq_1] at h
    exact absurd h Reads.not_exhausted
  | n + 1, start, ds, c, s, c', hc, h, hdef, hstart => by
    rw [functionDef.eq_2] at h
    obtain ⟨_, c₁, hsk, h⟩ := h.bind
    have a₁ := hsk.advance
    obtain ⟨rfl, -⟩ := hsk.skip
    obtain ⟨name, c₂, free₂, a₂, h⟩ := h.clean expectName_clean
    have h := h.look_bind
    extract_lets rest₂ rest₁ at h
    obtain ⟨c₃, free₃, a₃, h⟩ : ∃ c₃, t.DefFree c₂.index c₃.index ∧ t.Advance c₂ c₃ ∧
        (rest₁ ()).Reads t c₃ s c' := by
      split at h
      · next bracket =>
        exact h.clean_jump (typeParams_clean n c₂ (Token.ne_defn_of_beq bracket (by decide)))
      · exact ⟨_, .refl t _, .refl _ _, h⟩
    simp only [rest₁] at h
    obtain ⟨c₄, free₄, a₄, h⟩ := h.clean_jump (expect_clean (by decide))
    obtain ⟨c₅, free₅, a₅, h⟩ := h.clean_jump (parameters_clean n _ _ c₄)
    obtain ⟨c₆, free₆, a₆, h⟩ := h.clean_jump (expect_clean (by decide))
    have h := h.look_bind
    obtain ⟨c₇, free₇, a₇, h⟩ : ∃ c₇, t.DefFree c₆.index c₇.index ∧ t.Advance c₆ c₇ ∧
        (rest₂ ()).Reads t c₇ s c' := by
      split at h
      · next arrow =>
        obtain ⟨c₇, free₇, a₇, h⟩ :=
          h.clean_jump (Clean.skip (Token.ne_defn_of_beq arrow (by decide)))
        obtain ⟨c₈, free₈, a₈, h⟩ := h.clean_jump (expression_clean n c₇)
        exact ⟨c₈, free₇.trans free₈, a₇.trans a₈, h⟩
      · exact ⟨_, .refl t _, .refl _ _, h⟩
    simp only [rest₂] at h
    obtain ⟨body, c₈, hsu, h⟩ := h.bind
    have h := h.read_bind.look_bind
    obtain ⟨rfl, rfl⟩ := h.pure
    have header := a₂.trans (a₃.trans (a₄.trans (a₅.trans (a₆.trans a₇))))
    have free := free₂.trans (free₃.trans (free₄.trans (free₅.trans (free₆.trans free₇))))
    obtain ⟨read, -, -⟩ := suite_defs n _ ((a₁.trans header).fits hs.ordered hc).1 hsu
    exact ⟨name, _, body, rfl, (read.free_left hs header.index_le free).def_cons hs hdef hstart⟩
termination_by structural n => n

/-- A class definition from its keyword: its header passes no `def`, and its body covers the
rest. -/
theorem classDef_defs :
    ∀ n {start ds c s c'}, c.Fits t → (classDef n start ds).Reads t c s c' →
      (t.lexemeAt c.index).token ≠ .keyword .defn →
      ∃ name indent body,
        s = ⟨.source ⟨start, c'.lastEnd⟩, .classDef ⟨name, ds, indent, start, body⟩⟩ ∧
        t.DefsRead c.index c'.index (CaseHeaders.suite body) (Functions.suite body)
  | 0, _, _, _, _, _, _, h, _ => by
    rw [classDef.eq_1] at h
    exact absurd h Reads.not_exhausted
  | n + 1, start, ds, c, s, c', hc, h, hne => by
    rw [classDef.eq_2] at h
    obtain ⟨c₁, free₁, a₁, h⟩ := h.clean_jump (Clean.skip hne)
    obtain ⟨name, c₂, free₂, a₂, h⟩ := h.clean expectName_clean
    have h := h.look_bind
    extract_lets rest₂ rest₁ at h
    obtain ⟨c₃, free₃, a₃, h⟩ : ∃ c₃, t.DefFree c₂.index c₃.index ∧ t.Advance c₂ c₃ ∧
        (rest₁ ()).Reads t c₃ s c' := by
      split at h
      · next bracket =>
        exact h.clean_jump (typeParams_clean n c₂ (Token.ne_defn_of_beq bracket (by decide)))
      · exact ⟨_, .refl t _, .refl _ _, h⟩
    simp only [rest₁] at h
    have h := h.look_bind
    obtain ⟨c₄, free₄, a₄, h⟩ : ∃ c₄, t.DefFree c₃.index c₄.index ∧ t.Advance c₃ c₄ ∧
        (rest₂ ()).Reads t c₄ s c' := by
      split at h
      · next paren =>
        obtain ⟨c₄, free₄, a₄, h⟩ :=
          h.clean_jump (Clean.skip (Token.ne_defn_of_beq paren (by decide)))
        obtain ⟨c₅, free₅, a₅, h⟩ := h.clean_jump (callArguments_clean n c₄)
        obtain ⟨c₆, free₆, a₆, h⟩ := h.clean_jump (expect_clean (by decide))
        exact ⟨c₆, free₄.trans (free₅.trans free₆), a₄.trans (a₅.trans a₆), h⟩
      · exact ⟨_, .refl t _, .refl _ _, h⟩
    simp only [rest₂] at h
    obtain ⟨body, c₅, hsu, h⟩ := h.bind
    have h := h.read_bind.look_bind
    obtain ⟨rfl, rfl⟩ := h.pure
    have header := a₁.trans (a₂.trans (a₃.trans a₄))
    have free := free₁.trans (free₂.trans (free₃.trans free₄))
    obtain ⟨read, -, -⟩ := suite_defs n _ (header.fits hs.ordered hc).1 hsu
    exact ⟨name, _, body, rfl, read.free_left hs header.index_le free⟩
termination_by structural n => n

/-- A compound statement from a keyword other than `case`: it has no header of its own, and
its clauses cover what it reads. -/
theorem compound_defs :
    ∀ n {start c s c'} {kw : Keyword}, c.Fits t → (compound n start).Reads t c s c' →
      (t.lexemeAt c.index).token = .keyword kw → kw.spelling ≠ "case" → kw ≠ .defn →
      t.Covers c.index c'.index [s] ∧ Stmt.startOfFirst [s] = some start
  | 0, _, _, _, _, _, _, h, _, _, _ => by
    rw [compound.eq_1] at h
    exact absurd h Reads.not_exhausted
  | n + 1, start, c, s, c', kw, hc, h, hk, hcase, hne => by
    rw [compound.eq_2] at h
    obtain ⟨first, c₁, hcl, h⟩ := h.bind
    obtain ⟨keyword, read₁⟩ :=
      clause_defs n hc hcl (by rw [hk]; exact fun e => hne (Token.keyword.inj e))
    obtain ⟨cls, c₂, hm, h⟩ := h.bind
    obtain ⟨more, eq, read₂⟩ := moreClauses_defs n _ _ _ (hcl.advance.fits hs.ordered hc).1 hm
    extract_lets jp at h
    have h : (jp ()).Reads t c₂ s c' := by
      split at h
      · exact (Reads.fail_bind h).elim
      · exact h
    simp only [jp] at h
    have h := h.look_bind
    obtain ⟨rfl, rfl⟩ := h.pure
    obtain ⟨k, names, strings, body⟩ := first
    refine ⟨Tape.covers_compound.mpr ?_, rfl⟩
    have named : k ≠ "case" := by
      rw [show k = _ from keyword, hs.spelled c.index kw hk]
      exact hcase
    rw [eq, show #[(⟨k, names, strings, body⟩ : Clause)].toList ++ more = ⟨k, names, strings, body⟩ :: more
      from rfl, caseHeader_of_ne named, List.nil_append]
    exact read₁.append hs read₂
termination_by structural n => n

/-- Further clauses, after those in `acc`: they cover what they read. -/
theorem moreClauses_defs :
    ∀ n first last (acc : Array Clause) {c r c'}, c.Fits t →
      (moreClauses n first last acc).Reads t c r c' →
      ∃ more, r.toList = acc.toList ++ more ∧
        t.DefsRead c.index c'.index (CaseHeaders.clauses more) (Functions.clauses more)
  | 0, _, _, _, _, _, _, _, h => by
    rw [moreClauses.eq_1] at h
    exact absurd h Reads.not_exhausted
  | n + 1, first, last, acc, c, r, c', hc, h => by
    rw [moreClauses.eq_2] at h
    have h := h.look_bind
    have none : ∃ more, acc.toList = acc.toList ++ more ∧
        t.DefsRead c.index c.index (CaseHeaders.clauses more) (Functions.clauses more) :=
      ⟨[], (List.append_nil _).symm, Tape.DefsRead.none (Nat.le_refl _) (Tape.DefFree.refl t _)⟩
    split at h
    next keyword heq =>
      split at h
      · obtain ⟨cl, c₁, hcl, h⟩ := h.bind
        obtain ⟨-, read₁⟩ := clause_defs n hc hcl (Token.ne_defn_of_clauseKeyword heq)
        obtain ⟨more, eq, read₂⟩ :=
          moreClauses_defs n first cl.keyword _ (hcl.advance.fits hs.ordered hc).1 h
        obtain ⟨k, names, strings, body⟩ := cl
        refine ⟨⟨k, names, strings, body⟩ :: more, ?_, read₁.append hs read₂⟩
        rw [eq, Array.toList_push, List.append_assoc, List.singleton_append]
      · obtain ⟨rfl, rfl⟩ := h.pure
        exact none
    next =>
      obtain ⟨rfl, rfl⟩ := h.pure
      exact none
termination_by structural n => n

/-- One clause, from a keyword that is not `def`: the clause is named by the keyword, its
header passes no `def`, and its body covers the rest. -/
theorem clause_defs :
    ∀ n {c cl c'}, c.Fits t → (clause n).Reads t c cl c' →
      (t.lexemeAt c.index).token ≠ .keyword .defn →
      cl.keyword = (t.lexemeAt c.index).span.text t.source ∧
        t.DefsRead c.index c'.index (CaseHeaders.suite cl.body) (Functions.suite cl.body)
  | 0, _, _, _, _, h, _ => by
    rw [clause.eq_1] at h
    exact absurd h Reads.not_exhausted
  | n + 1, c, cl, c', hc, h, hne => by
    rw [clause.eq_2] at h
    obtain ⟨kw, c₁, hb, h⟩ := h.bind
    have a₁ := hb.advance
    obtain ⟨rfl, rfl, -⟩ := hb.bump
    have free₁ : t.DefFree c.index (c.index + 1) := Tape.DefFree.cons hne (Tape.DefFree.refl t _)
    have h := h.read_bind.look_bind
    extract_lets jp at h
    obtain ⟨c₂, free₂, a₂, h⟩ : ∃ c₂, t.DefFree (c.index + 1) c₂.index ∧
        t.Advance (c.past (t.lexemeAt c.index)) c₂ ∧ (jp ()).Reads t c₂ cl c' := by
      split at h
      all_goals first
        | exact h.clean_jump (namedExpression_clean n _)
        | exact h.clean_jump (withItems_clean n _)
        | exact h.clean_jump (exceptHeader_clean n _)
        | exact ⟨_, Tape.DefFree.refl t _, .refl _ _, h⟩
        | exact h.clean_jump Clean.pure
        | (obtain ⟨c₃, free₃, a₃, h⟩ := h.clean_jump (targetList_clean n _)
           obtain ⟨c₄, free₄, a₄, h⟩ := h.clean_jump (expect_clean (by decide))
           obtain ⟨c₅, free₅, a₅, h⟩ := h.clean_jump (Clean.discard (starExpressions_clean n _))
           exact ⟨c₅, free₃.trans (free₄.trans free₅), a₃.trans (a₄.trans a₅), h⟩)
    simp only [jp] at h
    have h := h.read_bind.look_bind
    obtain ⟨body, c₃, hsu, h⟩ := h.bind
    obtain ⟨rfl, rfl⟩ := h.pure
    obtain ⟨read, -, -⟩ := suite_defs n _ ((a₁.trans a₂).fits hs.ordered hc).1 hsu
    exact ⟨rfl, read.free_left hs (a₁.trans a₂).index_le (free₁.trans free₂)⟩
termination_by structural n => n

/-- A `match` or `case` block. The subject of a `match` passes no `def`; the pattern of a
`case` is skipped lexeme by lexeme, and whatever it holds lies in the block's header, which
ends where the first statement of its body starts. -/
theorem softBlock_defs :
    ∀ n {c s c'} {kw : Keyword}, c.Fits t → (softBlock n (t.startAt c.index)).Reads t c s c' →
      (t.lexemeAt c.index).token = .keyword kw → (kw = .match ∨ kw = .case) →
      t.Covers c.index c'.index [s] ∧ Stmt.startOfFirst [s] = some (t.startAt c.index)
  | 0, _, _, _, _, _, h, _, _ => by
    rw [softBlock.eq_1] at h
    exact absurd h Reads.not_exhausted
  | n + 1, c, s, c', kw, hc, h, hk, hsoft => by
    rw [softBlock.eq_2] at h
    obtain ⟨l, c₁, hb, h⟩ := h.bind
    have a₁ := hb.advance
    obtain ⟨rfl, rfl, -⟩ := hb.bump
    have spelled := hs.spelled c.index kw hk
    have h := h.read_bind.look_bind
    extract_lets jp at h
    split at h
    next isMatch =>
      obtain ⟨c₂, free₂, a₂, h⟩ := h.clean_jump (starNamedExpressions_clean n _)
      simp only [jp] at h
      have h := h.read_bind.look_bind
      obtain ⟨body, c₃, hsu, h⟩ := h.bind
      have h := h.look_bind
      obtain ⟨rfl, rfl⟩ := h.pure
      obtain ⟨read, -, -⟩ := suite_defs n _ ((a₁.trans a₂).fits hs.ordered hc).1 hsu
      have free : t.DefFree c.index c₂.index :=
        Tape.DefFree.cons (by rw [hk]; rcases hsoft with rfl | rfl <;> decide) free₂
      refine ⟨Tape.covers_compound.mpr ?_, rfl⟩
      have named : (t.lexemeAt c.index).span.text t.source ≠ "case" := by
        rw [beq_iff_eq.mp isMatch]
        decide
      rw [caseHeader_of_ne named, List.nil_append]
      simpa only [CaseHeaders.clauses, Functions.clauses, List.append_nil] using
        read.free_left hs (a₁.trans a₂).index_le free
    next notMatch =>
      obtain ⟨c₂, a₂, h⟩ := h.read_bind.jump
      simp only [jp] at h
      have h := h.read_bind.look_bind
      obtain ⟨body, c₃, hsu, h⟩ := h.bind
      have h := h.look_bind
      obtain ⟨rfl, rfl⟩ := h.pure
      have fits₂ := ((a₁.trans a₂).fits hs.ordered hc).1
      obtain ⟨read, first, eats⟩ := suite_defs n _ fits₂ hsu
      have fits₃ := (hsu.advance.fits hs.ordered fits₂).1
      have keyword : (t.lexemeAt c.index).span.text t.source = "case" := by
        rcases hsoft with rfl | rfl
        · rw [spelled] at notMatch
          exact absurd rfl notMatch
        · exact spelled
      have le := (a₁.trans a₂).index_le
      obtain ⟨after, stop_le, stop_before⟩ := first.getD eats fits₃.le_next
      refine ⟨Tape.covers_compound.mpr ?_, rfl⟩
      simp only [caseHeader, keyword, if_true, CaseHeaders.clauses, Functions.clauses,
        List.append_nil, List.singleton_append]
      refine Tape.DefsRead.header hs le read (fun k m => ?_) stop_before (Nat.le_refl _) stop_le
      obtain ⟨lo, hi, hdef⟩ := Tape.mem_defsIn.mp m
      exact ⟨hs.start_mono lo, Nat.lt_of_lt_of_le (hs.keyword_before hdef hi) after⟩
termination_by structural n => n

end

end Grammar

/-! ### The functions of a source -/

namespace Tape

theorem eof_of_size_le {t : Tape} {k : Nat} (h : t.lexemes.size ≤ k) :
    (t.lexemeAt k).token = .eof := by
  by_contra hne
  exact absurd (lexemeAt_lt_size hne) (Nat.not_lt.mpr h)

/-- Past the end of input of a source, only the end of input. -/
theorem eof_after {src : String} {i k : Nat}
    (he : ((Tape.ofSource src).lexemeAt i).token = .eof) (hik : i ≤ k) :
    ((Tape.ofSource src).lexemeAt k).token = .eof := by
  rcases Nat.eq_or_lt_of_le hik with rfl | lt
  · exact he
  by_contra hne
  have tape : (Tape.ofSource src).lexemes = Lexeme.scan src := rfl
  have inside := lexemeAt_lt_size hne
  rw [tape] at inside
  -- the end of input at `i` is the last lexeme, so there is none at `k`
  have at_i : (Lexeme.scan src).toList[i]? = some ((Tape.ofSource src).lexemeAt i) := by
    rw [lexemeAt_eq, tape, List.getElem?_eq_getElem (by rw [Array.length_toList]; omega),
      Option.getD_some]
  have last : (Lexeme.scan src).toList.length = i + 1 := Scanner.lexemes_eof _ _ _ _ at_i he
  rw [Array.length_toList] at last
  omega

theorem defsIn_eq_of_free {t : Tape} {i j l : Nat} (hij : i ≤ j) (hjl : j ≤ l)
    (free : t.DefFree j l) : t.defsIn i l = t.defsIn i j := by
  rw [defsIn_append hij hjl, defsIn_eq_nil free, List.append_nil]

end Tape

namespace Module

/-- The `def` keywords of a source that reads, outside the headers of `case` blocks, start in
order the functions that a walk of its tree meets. -/
theorem defs_functions {src : String} {m : Module} (h : Module.parse src = .ok m) :
    List.Forall₂ (fun k d => (Tape.ofSource src).DefStart k d.offset)
      (((Tape.ofSource src).defsIn 0 (Lexeme.scan src).size).filter
        fun k => !(CaseHeaders.stmts m.body).any (·.holds ((Tape.ofSource src).startAt k)))
      (Functions.stmts m.body) := by
  unfold Module.parse at h
  dsimp only at h
  split at h
  · next body c adv heq =>
    cases h
    dsimp only
    have reads : (Grammar.statements _ false #[]).Reads (Tape.ofSource src) ⟨0, 0⟩ body c :=
      ⟨adv, heq⟩
    have ends := Grammar.statements_ends _ _ reads
    have sound := Tape.sound_ofSource (Lexeme.scan_noFault adv ends)
    obtain ⟨new, eq, covers, -⟩ :=
      Grammar.statements_defs sound _ false #[] (Cursor.fits_start _) reads
    have whole : (Tape.ofSource src).defsIn 0 (Lexeme.scan src).size =
        (Tape.ofSource src).defsIn 0 c.index := by
      rcases Nat.le_total c.index (Lexeme.scan src).size with le | le
      · refine Tape.defsIn_eq_of_free (Nat.zero_le _) le fun k lo _ => ?_
        rw [Tape.eof_after ends lo]
        decide
      · refine (Tape.defsIn_eq_of_free (Nat.zero_le _) le fun k lo _ => ?_).symm
        rw [@Tape.eof_of_size_le (Tape.ofSource src) k lo]
        decide
    rw [whole, show body.toList = new from eq.trans (List.nil_append new)]
    exact Tape.DefsRead.defs covers
  · cases h

/-- Decorating a module read from a source that fits decorates each of its functions once. The
`def` keywords of the source outside `case` headers start, in order, the functions that
decorating visits; it counts those that do not apply the name yet, appends the name as the last
decorator of exactly those, and leaves everything else as it was. -/
theorem addDecorator_each_function {src : String} {m : Module} (_fits : Source.Fits src)
    (parsed : Module.parse src = .ok m) (name : String) :
    List.Forall₂ (fun k d => (Tape.ofSource src).DefStart k d.offset)
        (((Tape.ofSource src).defsIn 0 (Lexeme.scan src).size).filter
          fun k => !(CaseHeaders.stmts m.body).any (·.holds ((Tape.ofSource src).startAt k)))
        (Functions.stmts m.body) ∧
      (m.addDecorator name).2 = ((Functions.stmts m.body).filter (Decorate.lacks name)).length ∧
      (Functions.stmts (m.addDecorator name).1.body).map (·.decorators) =
        (Functions.stmts m.body).map (fun d =>
          if d.decorators.any (·.isNamed name) then d.decorators
          else d.decorators ++ [Decorator.inserted name]) ∧
      Undecorated.stmts (m.addDecorator name).1.body = Undecorated.stmts m.body ∧
      (m.addDecorator name).1.source = m.source := by
  have body : (m.addDecorator name).1.body = (Decorate.stmts name m.body).1 := rfl
  refine ⟨defs_functions parsed, Decorate.stmts_count name m.body, ?_, ?_, rfl⟩
  · rw [body, Decorate.functions_stmts, List.map_map]
    exact List.map_congr_left fun d _ => Decorate.decorators_definition name d
  · rw [body]
    exact Decorate.undecorated_stmts name m.body

/-- A function with an `async` one inside it: both are decorated. -/
theorem addDecorator_each_function_nested :
    Source.Fits "def f():\n  async def g(): pass\n" ∧
    ∃ m, Module.parse "def f():\n  async def g(): pass\n" = .ok m ∧
      List.Forall₂ (fun k d => (Tape.ofSource "def f():\n  async def g(): pass\n").DefStart k d.offset)
        (((Tape.ofSource "def f():\n  async def g(): pass\n").defsIn 0
          (Lexeme.scan "def f():\n  async def g(): pass\n").size).filter
          fun k => !(CaseHeaders.stmts m.body).any
            (·.holds ((Tape.ofSource "def f():\n  async def g(): pass\n").startAt k)))
        (Functions.stmts m.body) ∧
      (m.addDecorator "njit").2 = ((Functions.stmts m.body).filter (Decorate.lacks "njit")).length ∧
      (Functions.stmts (m.addDecorator "njit").1.body).map (·.decorators) =
        (Functions.stmts m.body).map (fun d =>
          if d.decorators.any (·.isNamed "njit") then d.decorators
          else d.decorators ++ [Decorator.inserted "njit"]) ∧
      Undecorated.stmts (m.addDecorator "njit").1.body = Undecorated.stmts m.body ∧
      (m.addDecorator "njit").1.source = m.source := by
  obtain ⟨m, parsed⟩ := exists_parse_of_isSome "def f():\n  async def g(): pass\n" (by decide +kernel)
  have fits : Source.Fits "def f():\n  async def g(): pass\n" := by decide
  exact ⟨fits, m, parsed, addDecorator_each_function fits parsed "njit"⟩

end Module

end PyTune
