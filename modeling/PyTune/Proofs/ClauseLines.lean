import PyTune.Proofs.SoftKeywords

/-!
# Clause lines at one block level

A line that starts with a header keyword begins a chain of clause lines at one block level
(`Tape.level`) whose keywords form a word of `ClauseWords`, and a line that starts with a clause
keyword extends such a chain (`Module.clause_grammar`).
-/

namespace PyTune

/-- A token that may begin a compound statement's header: a header keyword, or `async`. -/
def Token.beginsCompound (tok : Token) : Bool :=
  tok.header?.isSome || tok == .keyword .async

/-- A token that neither begins a compound statement's header nor names a clause. -/
def Token.quiet (tok : Token) : Bool :=
  !tok.beginsCompound && tok.clauseKeyword?.isNone

namespace Tape

variable (t : Tape)

/-- Lexeme `k` starts a logical line: it is the first, or follows a newline, a dedent, or the
indent that opens a block after a newline. -/
def StartsLine (k : Nat) : Prop :=
  k = 0 ∨ (t.lexemeAt (k - 1)).token = .newline ∨ (t.lexemeAt (k - 1)).token = .dedent ∨
    2 ≤ k ∧ (t.lexemeAt (k - 1)).token = .indent ∧ (t.lexemeAt (k - 2)).token = .newline

instance (k : Nat) : Decidable (t.StartsLine k) :=
  inferInstanceAs (Decidable (_ ∨ _))

/-- How lexeme `i` moves the block level: an indent after a newline opens a block, a dedent
closes one. -/
def levelStep (i : Nat) : Int :=
  if (t.lexemeAt i).token = .dedent then -1
  else if 1 ≤ i ∧ (t.lexemeAt i).token = .indent ∧ (t.lexemeAt (i - 1)).token = .newline then 1
  else 0

/-- The block level before lexeme `i`: the blocks opened and not yet closed. -/
def level : Nat → Int
  | 0 => 0
  | i + 1 => level i + t.levelStep i

/-- Where reading a statement may stop: where a line starts, or at the dedent or the end of
input that ends a block. -/
def AfterLine (k : Nat) : Prop :=
  t.StartsLine k ∨ (t.lexemeAt k).token = .dedent ∨ (t.lexemeAt k).token = .eof

/-- Every lexeme after an end of input is one, as in a tape read from a source
(`Tape.eof_after`). -/
def EofLast : Prop :=
  ∀ i k, (t.lexemeAt i).token = .eof → i ≤ k → (t.lexemeAt k).token = .eof

/-- From lexeme `i` to lexeme `j` the block level never falls below the level at `i`, and is that
level again at `j` unless the input ends there with blocks open. -/
structure Balanced (i j : Nat) : Prop where
  le : i ≤ j
  above : ∀ p, i ≤ p → p ≤ j → t.level i ≤ t.level p
  back : (t.lexemeAt j).token ≠ .eof → t.level j = t.level i

/-- A balanced reading in which every line that starts after `i` is deeper than `i`: a clause or
a definition from its keyword, or a body from its colon. -/
structure Stretch (i j : Nat) : Prop extends Tape.Balanced t i j where
  deeper : ∀ p, i < p → p < j → t.StartsLine p → (t.lexemeAt p).token.isLayout = false →
    t.level i < t.level p

/-- Lexeme `k` comes after lexeme `j` at its block level, with every line that starts between
them deeper. -/
structure NextAtLevel (j k : Nat) : Prop where
  lt : j < k
  same : t.level k = t.level j
  above : ∀ p, j ≤ p → p ≤ k → t.level j ≤ t.level p
  deeper : ∀ p, j < p → p < k → t.StartsLine p → (t.lexemeAt p).token.isLayout = false →
    t.level j < t.level p

/-- The header keyword `first` of a compound statement at lexeme `h`, or after `async` there. -/
def HeaderAt (h : Nat) (first : String) : Prop :=
  (t.lexemeAt h).token.header? = some first ∨
    (t.lexemeAt h).token = .keyword .async ∧ (t.lexemeAt (h + 1)).token.header? = some first ∧
      (first = "for" ∨ first = "with")

/-- The clause lines of a compound statement from the line of its header at `h` to the line at
`k`, and their keywords `ws`: after the first, each is a line of a clause keyword that comes
next at the block level of the one before. -/
inductive ClauseChain (h : Nat) : Nat → List String → Prop
  | head {first : String} (starts : t.StartsLine h) (header : t.HeaderAt h first) :
      ClauseChain h h [first]
  | next {j k : Nat} {ws : List String} {w : String} (chain : ClauseChain h j ws)
      (step : t.NextAtLevel j k) (starts : t.StartsLine k)
      (keyword : (t.lexemeAt k).token.clauseKeyword? = some w) : ClauseChain h k (ws ++ [w])

/-- Among the lines that start from lexeme `i` up to lexeme `j`, one with a header keyword begins
clause lines whose keywords form a word of `ClauseWords`, and one with a clause keyword extends
the clause lines of a compound statement to the start of such a word. -/
structure ClauseLinesIn (i j : Nat) : Prop where
  headers : ∀ h first, i ≤ h → h < j → t.StartsLine h → t.HeaderAt h first →
    ∃ k ks, t.ClauseChain h k (first :: ks) ∧ ClauseWords (first :: ks)
  clauses : ∀ k w, i ≤ k → k < j → t.StartsLine k → (t.lexemeAt k).token.clauseKeyword? = some w →
    ∃ ws, (∃ h, t.ClauseChain h k (ws ++ [w])) ∧ ∃ rest, ClauseWords (ws ++ [w] ++ rest)

end Tape

/-! ### Tokens -/

namespace Token

variable {tok : Token} {w : String}

theorem beginsCompound_of_clauseKeyword (h : tok.clauseKeyword? = some w) :
    tok.beginsCompound = false := by
  cases tok with
  | keyword k => cases k <;> simp_all [clauseKeyword?, beginsCompound, header?]
  | _ => simp [clauseKeyword?] at h

theorem clauseKeyword?_of_header (h : tok.header? = some w) : tok.clauseKeyword? = none := by
  cases tok with
  | keyword k => cases k <;> simp_all [clauseKeyword?, header?]
  | _ => rfl

theorem quiet_of (noHeader : tok.header? = none) (sync : tok ≠ .keyword .async)
    (noClause : tok.clauseKeyword? = none) : tok.quiet = true := by
  simp [quiet, beginsCompound, noHeader, sync, noClause]

end Token

namespace Tape

variable {t : Tape} {i j k l m p : Nat}

theorem HeaderAt.beginsCompound {first : String} (h : t.HeaderAt i first) :
    (t.lexemeAt i).token.beginsCompound = true := by
  rcases h with header | ⟨async, -⟩
  · simp [Token.beginsCompound, header]
  · simp [Token.beginsCompound, async]

theorem HeaderAt.clauseKeyword? {first : String} (h : t.HeaderAt i first) :
    (t.lexemeAt i).token.clauseKeyword? = none := by
  rcases h with header | ⟨async, -⟩
  · exact Token.clauseKeyword?_of_header header
  · rw [async]
    rfl

theorem HeaderAt.unique {a b : String} (ha : t.HeaderAt i a) (hb : t.HeaderAt i b) : a = b := by
  rcases ha with ha | ⟨async, ha, -⟩ <;> rcases hb with hb | ⟨async', hb, -⟩
  · exact Option.some.inj (ha.symm.trans hb)
  · rw [async'] at ha
    cases ha
  · rw [async] at hb
    cases hb
  · exact Option.some.inj (ha.symm.trans hb)

/-! ### Line starts -/

theorem startsLine_after_newline (h : (t.lexemeAt i).token = .newline) : t.StartsLine (i + 1) :=
  .inr (.inl h)

theorem startsLine_after_dedent (h : (t.lexemeAt i).token = .dedent) : t.StartsLine (i + 1) :=
  .inr (.inr (.inl h))

theorem startsLine_block (hn : (t.lexemeAt (i + 1)).token = .newline)
    (hi : (t.lexemeAt (i + 2)).token = .indent) : t.StartsLine (i + 3) :=
  .inr (.inr (.inr ⟨by omega, hi, hn⟩))

theorem not_startsLine_within (code : (t.lexemeAt i).token.isLayout = false)
    (hw : t.WithinLine i m) (lo : i < p) (hi : p ≤ m) : ¬ t.StartsLine p := by
  have before := hw (p - 1) (by omega) (by omega)
  rintro (zero | newline | dedent | ⟨two, indent, newline⟩)
  · omega
  · rw [newline] at before
    cases before
  · rw [dedent] at before
    cases before
  · rcases Nat.eq_or_lt_of_le (show i ≤ p - 1 by omega) with first | later
    · rw [first, indent] at code
      cases code
    · have twoBefore := hw (p - 2) (by omega) (by omega)
      rw [newline] at twoBefore
      cases twoBefore

theorem AfterLine.startsLine (h : t.AfterLine k) (code : (t.lexemeAt k).token.isLayout = false) :
    t.StartsLine k := by
  rcases h with starts | dedent | eof
  · exact starts
  · rw [dedent] at code
    cases code
  · rw [eof] at code
    cases code

/-! ### Levels -/

theorem level_succ (i : Nat) : t.level (i + 1) = t.level i + t.levelStep i := rfl

theorem levelStep_code (code : (t.lexemeAt i).token.isLayout = false) : t.levelStep i = 0 := by
  have notDedent : (t.lexemeAt i).token ≠ .dedent := fun e => by rw [e] at code; cases code
  have notIndent : (t.lexemeAt i).token ≠ .indent := fun e => by rw [e] at code; cases code
  simp [levelStep, notDedent, notIndent]

theorem levelStep_newline (h : (t.lexemeAt i).token = .newline) : t.levelStep i = 0 := by
  simp [levelStep, h]

theorem levelStep_dedent (h : (t.lexemeAt i).token = .dedent) : t.levelStep i = -1 := by
  simp [levelStep, h]

theorem levelStep_opens (hn : (t.lexemeAt i).token = .newline)
    (hi : (t.lexemeAt (i + 1)).token = .indent) : t.levelStep (i + 1) = 1 := by
  simp [levelStep, hi, hn]

/-- Inside a line that a code lexeme begins, no lexeme moves the level: a dedent ends a line, and
an indent there follows no newline. -/
theorem levelStep_within (code : (t.lexemeAt i).token.isLayout = false) (hw : t.WithinLine i m)
    (lo : i ≤ p) (hi : p < m) : t.levelStep p = 0 := by
  have inside := hw p lo hi
  have notDedent : (t.lexemeAt p).token ≠ .dedent := fun e => by rw [e] at inside; cases inside
  have opens : ¬ (1 ≤ p ∧ (t.lexemeAt p).token = .indent ∧ (t.lexemeAt (p - 1)).token = .newline) := by
    rintro ⟨-, indent, newline⟩
    rcases Nat.eq_or_lt_of_le lo with rfl | later
    · rw [indent] at code
      cases code
    · have before := hw (p - 1) (by omega) (by omega)
      rw [newline] at before
      cases before
  simp [levelStep, notDedent, opens]

theorem level_eq_of_steps (steps : ∀ q, i ≤ q → q < j → t.levelStep q = 0) :
    ∀ p, i ≤ p → p ≤ j → t.level p = t.level i := by
  intro p lo hi
  induction p with
  | zero => rw [show i = 0 by omega]
  | succ p ih =>
    rcases Nat.eq_or_lt_of_le lo with rfl | later
    · rfl
    · rw [level_succ, ih (by omega) (by omega), steps p (by omega) (by omega), Int.add_zero]

/-! ### Balanced readings -/

namespace Balanced

theorem refl (t : Tape) (i : Nat) : t.Balanced i i :=
  ⟨Nat.le_refl _, fun p lo hi => by rw [show p = i by omega], fun _ => rfl⟩

theorem of_steps (le : i ≤ j) (steps : ∀ q, i ≤ q → q < j → t.levelStep q = 0) : t.Balanced i j :=
  ⟨le, fun p lo hi => (level_eq_of_steps steps p lo hi).ge, fun _ => level_eq_of_steps steps j le le_rfl⟩

theorem trans (he : t.EofLast) (h₁ : t.Balanced i j) (h₂ : t.Balanced j l) : t.Balanced i l := by
  refine ⟨Nat.le_trans h₁.le h₂.le, fun p lo hi => ?_, fun ne => ?_⟩
  · by_cases hp : p ≤ j
    · exact h₁.above p lo hp
    · exact Int.le_trans (h₁.above j h₁.le le_rfl) (h₂.above p (by omega) hi)
  · have notEof : (t.lexemeAt j).token ≠ .eof := fun eof => ne (he j l eof h₂.le)
    rw [h₂.back ne, h₁.back notEof]

end Balanced

namespace Stretch

theorem line (code : (t.lexemeAt i).token.isLayout = false) (hw : t.WithinLine i m) (hm : i ≤ m)
    (h : t.Stretch m j) : t.Stretch i j := by
  have same := level_eq_of_steps (fun q lo hi => levelStep_within code hw lo hi)
  refine ⟨⟨Nat.le_trans hm h.le, fun p lo hi => ?_, fun ne => ?_⟩, fun p lo hi starts code' => ?_⟩
  · by_cases hp : p ≤ m
    · exact (same p lo hp).ge
    · rw [← same m hm le_rfl]
      exact h.above p (by omega) hi
  · rw [h.back ne, same m hm le_rfl]
  · by_cases hp : p ≤ m
    · exact absurd starts (not_startsLine_within code hw lo hp)
    · rw [← same m hm le_rfl]
      exact h.deeper p (by omega) hi starts code'

theorem cons (code : (t.lexemeAt i).token.isLayout = false) (h : t.Stretch (i + 1) j) :
    t.Stretch i j :=
  line code (WithinLine.cons (Token.endsLine_of_isLayout code) (WithinLine.refl t _))
    (Nat.le_succ i) h

/-- A stretch that stops before a lexeme of code ends at the next one at its level. -/
theorem toNext (h : t.Stretch j k) (lt : j < k) (code : (t.lexemeAt k).token.isLayout = false) :
    t.NextAtLevel j k :=
  ⟨lt, h.back (fun eof => by rw [eof] at code; cases code), h.above, h.deeper⟩

end Stretch

/-! ### Clause lines in a range -/

namespace ClauseLinesIn

theorem empty (h : j ≤ i) : t.ClauseLinesIn i j :=
  ⟨fun _ _ lo hi => absurd hi (by omega), fun _ _ lo hi => absurd hi (by omega)⟩

theorem append (h₁ : t.ClauseLinesIn i j) (h₂ : t.ClauseLinesIn j l) : t.ClauseLinesIn i l := by
  refine ⟨fun h first lo hi => ?_, fun k w lo hi => ?_⟩
  · by_cases hh : h < j
    · exact h₁.headers h first lo hh
    · exact h₂.headers h first (by omega) hi
  · by_cases hk : k < j
    · exact h₁.clauses k w lo hk
    · exact h₂.clauses k w (by omega) hi

theorem cons
    (headers : t.StartsLine i → ∀ first, t.HeaderAt i first →
      ∃ k ks, t.ClauseChain i k (first :: ks) ∧ ClauseWords (first :: ks))
    (clauses : t.StartsLine i → ∀ w, (t.lexemeAt i).token.clauseKeyword? = some w →
      ∃ ws, (∃ h, t.ClauseChain h i (ws ++ [w])) ∧ ∃ rest, ClauseWords (ws ++ [w] ++ rest))
    (h : t.ClauseLinesIn (i + 1) j) : t.ClauseLinesIn i j := by
  refine ⟨fun h' first lo hi starts header => ?_, fun k w lo hi starts keyword => ?_⟩
  · rcases Nat.eq_or_lt_of_le lo with rfl | later
    · exact headers starts first header
    · exact h.headers h' first later hi starts header
  · rcases Nat.eq_or_lt_of_le lo with rfl | later
    · exact clauses starts w keyword
    · exact h.clauses k w later hi starts keyword

theorem cons_quiet (hq : (t.lexemeAt i).token.quiet = true) (h : t.ClauseLinesIn (i + 1) j) :
    t.ClauseLinesIn i j := by
  simp only [Token.quiet, Bool.and_eq_true, Bool.not_eq_true', Option.isNone_iff_eq_none] at hq
  refine cons (fun _ _ header => ?_) (fun _ _ keyword => ?_) h
  · have begins := header.beginsCompound
    rw [hq.1] at begins
    cases begins
  · rw [hq.2] at keyword
    cases keyword

theorem cons_inside (hs : ¬ t.StartsLine i) (h : t.ClauseLinesIn (i + 1) j) : t.ClauseLinesIn i j :=
  cons (fun starts => absurd starts hs) (fun starts => absurd starts hs) h

theorem inside (h : ∀ p, i ≤ p → p < j → ¬ t.StartsLine p) : t.ClauseLinesIn i j :=
  ⟨fun h' _ lo hi starts => absurd starts (h h' lo hi),
    fun k _ lo hi starts => absurd starts (h k lo hi)⟩

theorem quiet (h : ∀ p, i ≤ p → p < j → (t.lexemeAt p).token.quiet = true) :
    t.ClauseLinesIn i j := by
  refine ⟨fun h' first lo hi starts header => ?_, fun k w lo hi starts keyword => ?_⟩
  · exact (cons_quiet (h h' lo hi) (empty le_rfl)).headers h' first le_rfl
      (Nat.lt_succ_self h') starts header
  · exact (cons_quiet (h k lo hi) (empty le_rfl)).clauses k w le_rfl
      (Nat.lt_succ_self k) starts keyword

end ClauseLinesIn

/-! ### Lines, headers and blocks -/

/-- The rest of a line from a code lexeme: one stretch, with no line starting inside, after
which a line starts or a block or the input ends. -/
theorem LineRest.lines (code : (t.lexemeAt i).token.isLayout = false) (h : t.LineRest i j) :
    t.Stretch i j ∧ t.AfterLine j ∧ t.ClauseLinesIn (i + 1) j := by
  obtain ⟨m, hm, within, ends⟩ := h
  have bound : i ≤ j ∧ j ≤ m + 1 := by rcases ends with ⟨-, rfl⟩ | ⟨-, rfl⟩ <;> omega
  have steps : ∀ q, i ≤ q → q < j → t.levelStep q = 0 := fun q lo hi => by
    rcases Nat.lt_or_ge q m with inside | past
    · exact levelStep_within code within lo inside
    · rcases ends with ⟨newline, rfl⟩ | ⟨-, rfl⟩
      · rw [show q = m by omega]
        exact levelStep_newline newline
      · omega
  have outside : ∀ p, i < p → p < j → ¬ t.StartsLine p :=
    fun p lo hi => not_startsLine_within code within lo (by omega)
  refine ⟨⟨Balanced.of_steps bound.1 steps, fun p lo hi starts _ => absurd starts (outside p lo hi)⟩,
    ?_, .inside fun p lo hi => outside p (by omega) hi⟩
  rcases ends with ⟨newline, rfl⟩ | ⟨dedent | eof, rfl⟩
  · exact .inl (startsLine_after_newline newline)
  · exact .inr (.inl dedent)
  · exact .inr (.inr eof)

/-- A keyword, a header on its line up to `m`, and a body from `m`: one stretch from the
keyword. -/
theorem header_lines (code : (t.lexemeAt i).token.isLayout = false) (le : i + 1 ≤ m)
    (within : t.WithinLine (i + 1) m) (body : t.Stretch m j ∧ t.AfterLine j ∧ t.ClauseLinesIn m j) :
    i < j ∧ t.Stretch i j ∧ t.AfterLine j ∧ t.ClauseLinesIn (i + 1) j := by
  obtain ⟨stretch, after, lines⟩ := body
  have hw : t.WithinLine i m := WithinLine.cons (Token.endsLine_of_isLayout code) within
  have header : t.ClauseLinesIn (i + 1) m :=
    .inside fun p lo hi => not_startsLine_within code hw (by omega) (Nat.le_of_lt hi)
  exact ⟨by have := stretch.le; omega, .line code hw (by omega) stretch, after, header.append lines⟩

/-- The same from a keyword that begins no compound statement and names no clause: `def`,
`class`, `match` or `case`. -/
theorem keyword_lines (quiet : (t.lexemeAt i).token.quiet = true)
    (code : (t.lexemeAt i).token.isLayout = false) (le : i + 1 ≤ m)
    (within : t.WithinLine (i + 1) m) (body : t.Stretch m j ∧ t.AfterLine j ∧ t.ClauseLinesIn m j) :
    t.Stretch i j ∧ t.AfterLine j ∧ t.ClauseLinesIn i j := by
  obtain ⟨-, stretch, after, lines⟩ := header_lines code le within body
  exact ⟨stretch, after, .cons_quiet quiet lines⟩

theorem async_lines (async : (t.lexemeAt i).token = .keyword .async)
    (defn : (t.lexemeAt (i + 1)).token = .keyword .defn)
    (h : t.Stretch (i + 1) j ∧ t.AfterLine j ∧ t.ClauseLinesIn (i + 1) j) :
    t.Stretch i j ∧ t.AfterLine j ∧ t.ClauseLinesIn i j := by
  refine ⟨.cons (by rw [async]; rfl) h.1, h.2.1, .cons (fun _ _ header => ?_) (fun _ _ keyword => ?_) h.2.2⟩
  · rcases header with header | ⟨-, header, -⟩
    · rw [async] at header
      cases header
    · rw [defn] at header
      cases header
  · rw [async] at keyword
    cases keyword

/-- A body on lines of its own: a colon, a newline and an indent, then a block from `i + 3` that
ends at its dedent or at the end of input. The block's lines are one level deeper than the
colon. -/
theorem block_lines {e : Nat} (colon : (t.lexemeAt i).token = .colon)
    (newline : (t.lexemeAt (i + 1)).token = .newline) (indent : (t.lexemeAt (i + 2)).token = .indent)
    (bal : t.Balanced (i + 3) e) (lines : t.ClauseLinesIn (i + 3) e)
    (ends : (t.lexemeAt e).token = .eof ∧ j = e ∨ (t.lexemeAt e).token = .dedent ∧ j = e + 1) :
    t.Stretch i j ∧ t.AfterLine j ∧ t.ClauseLinesIn i j := by
  have l₁ : t.level (i + 1) = t.level i := by
    rw [level_succ, levelStep_code (by rw [colon]; rfl), Int.add_zero]
  have l₂ : t.level (i + 2) = t.level i := by
    rw [level_succ, levelStep_newline newline, Int.add_zero, l₁]
  have l₃ : t.level (i + 3) = t.level i + 1 := by
    rw [level_succ, levelStep_opens newline indent, l₂]
  -- the dedent that closes the block comes back to the colon's level
  have closed : (t.lexemeAt e).token = .dedent → t.level (e + 1) = t.level i := fun dedent => by
    rw [level_succ, levelStep_dedent dedent, bal.back (by rw [dedent]; decide), l₃]
    omega
  have within : ∀ p, i + 3 ≤ p → p ≤ e → t.level i < t.level p := fun p lo hi => by
    have := bal.above p lo hi
    omega
  have le : i + 3 ≤ j := by have := bal.le; rcases ends with ⟨-, rfl⟩ | ⟨-, rfl⟩ <;> omega
  refine ⟨⟨⟨by omega, fun p lo hi => ?_, fun ne => ?_⟩, fun p lo hi starts code => ?_⟩, ?_, ?_⟩
  · rcases (show p = i ∨ p = i + 1 ∨ p = i + 2 ∨ i + 3 ≤ p by omega) with rfl | rfl | rfl | deep
    · exact le_rfl
    · rw [l₁]
    · rw [l₂]
    · rcases ends with ⟨-, rfl⟩ | ⟨dedent, rfl⟩
      · exact Int.le_of_lt (within p deep hi)
      · by_cases inside : p ≤ e
        · exact Int.le_of_lt (within p deep inside)
        · obtain rfl : p = e + 1 := by omega
          rw [closed dedent]
  · rcases ends with ⟨eof, rfl⟩ | ⟨dedent, rfl⟩
    · exact absurd eof ne
    · exact closed dedent
  · rcases (show p = i + 1 ∨ p = i + 2 ∨ i + 3 ≤ p by omega) with rfl | rfl | deep
    · rw [newline] at code
      cases code
    · rw [indent] at code
      cases code
    · exact within p deep (by rcases ends with ⟨-, rfl⟩ | ⟨-, rfl⟩ <;> omega)
  · rcases ends with ⟨eof, rfl⟩ | ⟨dedent, rfl⟩
    · exact .inr (.inr eof)
    · exact .inl (startsLine_after_dedent dedent)
  · have opening : t.ClauseLinesIn i (i + 3) :=
      .cons_quiet (by rw [colon]; rfl) (.cons_quiet (by rw [newline]; rfl)
        (.cons_quiet (by rw [indent]; rfl) (.empty le_rfl)))
    refine opening.append (lines.append ?_)
    rcases ends with ⟨-, rfl⟩ | ⟨dedent, rfl⟩
    · exact .empty le_rfl
    · exact .cons_quiet (by rw [dedent]; rfl) (.empty le_rfl)

end Tape

/-- Every sequence of clause keywords that the continuation rule lets follow a header keyword
starts a word of `ClauseWords`: a `try` with no handler yet takes a `finally`. -/
theorem ClauseWords.prefix_of_continues {first : String} {ks : List String}
    (header : first = "if" ∨ first = "for" ∨ first = "while" ∨ first = "with" ∨ first = "try")
    (chain : Continues first first ks) : ∃ rest, ClauseWords (first :: ks ++ rest) := by
  by_cases handled : first = "try" → "except" ∈ ks ∨ "finally" ∈ ks
  · exact ⟨[], by rw [List.append_nil]; exact ClauseWords.of_continues header chain handled⟩
  · simp only [Classical.not_imp, not_or] at handled
    obtain ⟨rfl, noExcept, noFinally⟩ := handled
    cases ks with
    | nil => exact ⟨["finally"], .cleanup⟩
    | cons next ks =>
      obtain ⟨follows, -⟩ := Continues.cons.1 chain
      rcases continuesWith_try.1 follows with ⟨-, rfl | rfl⟩ | ⟨last, -⟩ | ⟨last, -⟩
      · exact absurd List.mem_cons_self noExcept
      · exact absurd List.mem_cons_self noFinally
      · exact absurd last (by decide)
      · exact absurd last (by decide)

namespace Grammar

variable {t : Tape} {c c' : Cursor}

/-- Blank lines move no level; after them a line starts, unless there were none. -/
theorem skipNewlines_lines {u : Unit} (h : skipNewlines.Reads t c u c') (after : t.AfterLine c.index) :
    t.Balanced c.index c'.index ∧ t.AfterLine c'.index ∧ t.ClauseLinesIn c.index c'.index := by
  obtain ⟨le, newlines, -⟩ := skipNewlines_reads h
  refine ⟨.of_steps le fun q lo hi => Tape.levelStep_newline (newlines q lo hi), ?_,
    .quiet fun q lo hi => by rw [newlines q lo hi]; rfl⟩
  rcases Nat.eq_or_lt_of_le le with same | moved
  · rw [← same]
    exact after
  · have last := newlines (c'.index - 1) (by omega) (by omega)
    rw [show c'.index = c'.index - 1 + 1 by omega]
    exact .inl (Tape.startsLine_after_newline last)

theorem decoratorList_lines (he : t.EofLast) : ∀ n (acc : Array Decorator) {c ds c'},
    (decoratorList n acc).Reads t c ds c' → t.AfterLine c.index →
      t.Balanced c.index c'.index ∧ t.AfterLine c'.index ∧ t.ClauseLinesIn c.index c'.index
  | 0, _, _, _, _, h, _ => absurd h Reads.not_exhausted
  | n + 1, acc, c, ds, c', h, after => by
    rcases h.decoratorList_cases with ⟨-, rfl⟩ | ⟨sign, d, c₁, c₂, rest, blank, h⟩
    · exact ⟨.refl t _, after, .empty (Nat.le_refl _)⟩
    · have code : (t.lexemeAt c.index).token.isLayout = false := by rw [sign]; rfl
      have line := rest.prepend (Nat.le_succ _)
        (Tape.WithinLine.cons (Token.endsLine_of_isLayout code) (Tape.WithinLine.refl t _))
      obtain ⟨stretch, after₁, lines₁⟩ := line.lines code
      obtain ⟨bal₂, after₂, lines₂⟩ := skipNewlines_lines blank after₁
      obtain ⟨bal₃, after₃, lines₃⟩ := decoratorList_lines he n _ h after₂
      exact ⟨(stretch.toBalanced.trans he bal₂).trans he bal₃, after₃,
        .cons_quiet (by rw [sign]; rfl) (lines₁.append (lines₂.append lines₃))⟩

mutual

/-- Statements from a place where reading may stop, up to the end of input or the dedent that
closes their block: they keep to the level where they start. -/
theorem statements_lines (hsp : t.SpellsKeywords) (he : t.EofLast) :
    ∀ n inBlock (acc : Array Stmt) {c r c'}, (statements n inBlock acc).Reads t c r c' →
      t.AfterLine c.index → ∃ e, t.Balanced c.index e ∧ t.ClauseLinesIn c.index e ∧
        ((t.lexemeAt e).token = .eof ∧ c'.index = e ∨
          (t.lexemeAt e).token = .dedent ∧ inBlock = true ∧ c'.index = e + 1)
  | 0, _, _, _, _, _, h, _ => by
    rw [statements.eq_1] at h
    exact absurd h Reads.not_exhausted
  | n + 1, inBlock, acc, c, r, c', h, after => by
    obtain ⟨c₁, blank, cases⟩ := h.statements_cases
    obtain ⟨bal₁, after₁, lines₁⟩ := skipNewlines_lines blank after
    rcases cases with ⟨eof, -, stays⟩ | ⟨dedent, inBlock, -, rfl⟩ | ⟨code, acc', c₂, hl, h⟩
    · exact ⟨c₁.index, bal₁, lines₁, .inl ⟨eof, by rw [stays]⟩⟩
    · exact ⟨c₁.index, bal₁, lines₁, .inr ⟨dedent, inBlock, rfl⟩⟩
    · obtain ⟨bal₂, after₂, lines₂⟩ :=
        stmtLine_lines hsp he n acc hl (after₁.startsLine code) code
      obtain ⟨e, bal₃, lines₃, ends⟩ := statements_lines hsp he n inBlock acc' h after₂
      exact ⟨e, (bal₁.trans he bal₂).trans he bal₃, lines₁.append (lines₂.append lines₃), ends⟩
termination_by structural n => n

theorem stmtLine_lines (hsp : t.SpellsKeywords) (he : t.EofLast) :
    ∀ n (acc : Array Stmt) {c r c'}, (stmtLine n acc).Reads t c r c' → t.StartsLine c.index →
      (t.lexemeAt c.index).token.isLayout = false →
        t.Balanced c.index c'.index ∧ t.AfterLine c'.index ∧ t.ClauseLinesIn c.index c'.index
  | 0, _, _, _, _, h, _, _ => by
    rw [stmtLine.eq_1] at h
    exact absurd h Reads.not_exhausted
  | n + 1, acc, c, r, c', h, starts, code => by
    cases h.stmtLine_cases with
    | decorated s _ _ hd => exact decorated_lines hsp he n hd (.inl starts)
    | functionDef s defn _ hd => exact (functionDef_lines hsp he n hd defn).imp_left (·.toBalanced)
    | classDef s cls _ hd => exact (classDef_lines hsp he n hd cls).imp_left (·.toBalanced)
    | asyncDef s async defn _ hd =>
      exact (Tape.async_lines async defn (functionDef_lines hsp he n hd defn)).imp_left (·.toBalanced)
    | asyncCompound s async kw _ hd =>
      obtain ⟨first, header, loops⟩ : ∃ first,
          (t.lexemeAt (c.index + 1)).token.header? = some first ∧ (first = "for" ∨ first = "with") := by
        rcases kw with kw | kw <;> rw [kw] <;> simp [Token.header?]
      exact compound_lines hsp he n hd header starts (.inr ⟨async, header, loops⟩) (.inr ⟨rfl, async⟩)
    | compound s kw header _ hd => exact compound_lines hsp he n hd header starts (.inl header) (.inl rfl)
    | softBlock s soft _ hd => exact (softBlock_lines hsp he n hd soft).imp_left (·.toBalanced)
    | simple noClause noHeader sync hl =>
      obtain ⟨stretch, after, lines⟩ := (simpleLine_lineRest n acc hl).lines code
      exact ⟨stretch.toBalanced, after, .cons_quiet (Token.quiet_of noHeader sync noClause) lines⟩
termination_by structural n => n

/-- A body from its colon: the rest of the colon's line, or a block one level deeper. -/
theorem suite_lines (hsp : t.SpellsKeywords) (he : t.EofLast) :
    ∀ n (owner : BlockOwner) {c body c'}, (suite n owner).Reads t c body c' →
      t.Stretch c.index c'.index ∧ t.AfterLine c'.index ∧ t.ClauseLinesIn c.index c'.index
  | 0, _, _, _, _, h => by
    rw [suite.eq_1] at h
    exact absurd h Reads.not_exhausted
  | n + 1, owner, c, body, c', h => by
    obtain ⟨colon, ⟨stmts, -, hl⟩ | ⟨newline, indent, c₃, ind, stmts, at₃, -, hst⟩⟩ :=
      h.suite_cases
    · have code : (t.lexemeAt c.index).token.isLayout = false := by rw [colon]; rfl
      have line := (simpleLine_lineRest n #[] hl).prepend (Nat.le_succ _)
        (Tape.WithinLine.cons (Token.endsLine_of_isLayout code) (Tape.WithinLine.refl t _))
      obtain ⟨stretch, after, lines⟩ := line.lines code
      exact ⟨stretch, after, .cons_quiet (by rw [colon]; rfl) lines⟩
    · have start : t.AfterLine c₃.index := .inl (by rw [at₃]; exact Tape.startsLine_block newline indent)
      obtain ⟨e, bal, lines, ends⟩ := statements_lines hsp he n true #[] hst start
      rw [at₃] at bal lines
      refine Tape.block_lines colon newline indent bal lines ?_
      rcases ends with ends | ⟨dedent, -, closes⟩
      · exact .inl ends
      · exact .inr ⟨dedent, closes⟩
termination_by structural n => n

theorem decorated_lines (hsp : t.SpellsKeywords) (he : t.EofLast) :
    ∀ n {start : Nat} {c s c'}, (decorated n start).Reads t c s c' → t.AfterLine c.index →
      t.Balanced c.index c'.index ∧ t.AfterLine c'.index ∧ t.ClauseLinesIn c.index c'.index
  | 0, _, _, _, _, h, _ => by
    rw [decorated.eq_1] at h
    exact absurd h Reads.not_exhausted
  | n + 1, start, c, s, c', h, after => by
    obtain ⟨ds, c₁, s₀, hd, -, read⟩ := h.decorated_cases
    obtain ⟨bal, -, lines⟩ := decoratorList_lines he n #[] hd after
    obtain ⟨stretch, after', lines'⟩ : t.Stretch c₁.index c'.index ∧ t.AfterLine c'.index ∧
        t.ClauseLinesIn c₁.index c'.index := by
      rcases read with ⟨defn, hf⟩ | ⟨async, defn, hf⟩ | ⟨cls, hf⟩
      · exact functionDef_lines hsp he n hf defn
      · exact Tape.async_lines async defn (functionDef_lines hsp he n hf defn)
      · exact classDef_lines hsp he n hf cls
    exact ⟨bal.trans he stretch.toBalanced, after', lines.append lines'⟩
termination_by structural n => n

theorem functionDef_lines (hsp : t.SpellsKeywords) (he : t.EofLast) :
    ∀ n {start : Nat} {ds : List Decorator} {c s c'}, (functionDef n start ds).Reads t c s c' →
      (t.lexemeAt c.index).token = .keyword .defn →
        t.Stretch c.index c'.index ∧ t.AfterLine c'.index ∧ t.ClauseLinesIn c.index c'.index
  | 0, _, _, _, _, _, h, _ => by
    rw [functionDef.eq_1] at h
    exact absurd h Reads.not_exhausted
  | n + 1, start, ds, c, s, c', h, defn => by
    obtain ⟨c₁, d, le, within, hsu, -⟩ := h.functionDef_cases
    exact Tape.keyword_lines (by rw [defn]; rfl) (by rw [defn]; rfl) le within
      (suite_lines hsp he n _ hsu)
termination_by structural n => n

theorem classDef_lines (hsp : t.SpellsKeywords) (he : t.EofLast) :
    ∀ n {start : Nat} {ds : List Decorator} {c s c'}, (classDef n start ds).Reads t c s c' →
      (t.lexemeAt c.index).token = .keyword .class →
        t.Stretch c.index c'.index ∧ t.AfterLine c'.index ∧ t.ClauseLinesIn c.index c'.index
  | 0, _, _, _, _, _, h, _ => by
    rw [classDef.eq_1] at h
    exact absurd h Reads.not_exhausted
  | n + 1, start, ds, c, s, c', h, cls => by
    obtain ⟨c₁, d, le, within, hsu, -⟩ := h.classDef_cases
    exact Tape.keyword_lines (by rw [cls]; rfl) (by rw [cls]; rfl) le within
      (suite_lines hsp he n _ hsu)
termination_by structural n => n

/-- A compound statement whose header keyword `kw` stands at `h`, or after `async` there: the
header's line begins the clause lines of all its clauses, and their keywords form a word of
`ClauseWords`. -/
theorem compound_lines (hsp : t.SpellsKeywords) (he : t.EofLast) :
    ∀ n {start : Nat} {c s c'} {kw : String} {h : Nat}, (compound n start).Reads t c s c' →
      (t.lexemeAt c.index).token.header? = some kw → t.StartsLine h → t.HeaderAt h kw →
      (c.index = h ∨ c.index = h + 1 ∧ (t.lexemeAt h).token = .keyword .async) →
        t.Balanced h c'.index ∧ t.AfterLine c'.index ∧ t.ClauseLinesIn h c'.index
  | 0, _, _, _, _, _, _, hr, _, _, _, _ => by
    rw [compound.eq_1] at hr
    exact absurd hr Reads.not_exhausted
  | n + 1, start, c, s, c', kw, h, hr, header, starts, hd, lead => by
    obtain ⟨first, c₁, cls, hcl, hm, rfl, words⟩ := compound_words hsp hr header
    have named : first.keyword = kw := by
      obtain ⟨k, tok, spelled⟩ := Token.header?_eq_some header
      rw [hcl.clause_keyword, hsp _ k tok, spelled]
    rw [named] at hm
    obtain ⟨lt₁, stretch₁, after₁, lines₁⟩ := clause_lines hsp he n hcl (Token.isLayout_of_header header)
    obtain ⟨lt₀, stretch₀, lines₀⟩ : h < c₁.index ∧ t.Stretch h c₁.index ∧
        t.ClauseLinesIn (h + 1) c₁.index := by
      rcases lead with same | ⟨next, async⟩
      · rw [← same]
        exact ⟨lt₁, stretch₁, lines₁⟩
      · rw [next] at lt₁ stretch₁ lines₁
        have inside : ¬ t.StartsLine (h + 1) :=
          Tape.not_startsLine_within (by rw [async]; rfl) (Tape.WithinLine.cons
            (by rw [async]; rfl) (Tape.WithinLine.refl t _)) (Nat.lt_succ_self h) le_rfl
        exact ⟨by omega, .cons (by rw [async]; rfl) stretch₁, .cons_inside inside lines₁⟩
    obtain ⟨more, split, ⟨k, chain⟩, bal, after, lines₂⟩ :=
      moreClauses_lines hsp he n kw kw #[first] hm (.head starts hd)
        (fun ks chain => ClauseWords.prefix_of_continues (Token.header?_cases header) chain)
        lt₀ stretch₀ after₁
    refine ⟨bal, after, .cons (fun _ first' hd' => ?_) (fun _ w keyword => ?_) (lines₀.append lines₂)⟩
    · -- the header's line begins the clause lines of all the clauses
      obtain rfl := hd'.unique hd
      refine ⟨k, more.map (·.keyword), by simpa only [List.singleton_append] using chain, ?_⟩
      rw [split] at words
      simpa [named] using words
    · rw [hd.clauseKeyword?] at keyword
      cases keyword
termination_by structural n => n

/-- Further clauses after a chain of clause lines that ends at `j`, from where the clause at `j`
stops: each clause's line is the next at `j`'s level and extends the chain, whose keywords stay
the start of a word of `ClauseWords`. -/
theorem moreClauses_lines (hsp : t.SpellsKeywords) (he : t.EofLast) :
    ∀ n first last (acc : Array Clause) {c r c'} {h j : Nat} {ws : List String},
      (moreClauses n first last acc).Reads t c r c' → t.ClauseChain h j ws →
      (∀ ks, Continues first last ks → ∃ rest, ClauseWords (ws ++ ks ++ rest)) →
      j < c.index → t.Stretch j c.index → t.AfterLine c.index →
        ∃ more, r.toList = acc.toList ++ more ∧ (∃ k, t.ClauseChain h k (ws ++ more.map (·.keyword))) ∧
          t.Balanced j c'.index ∧ t.AfterLine c'.index ∧ t.ClauseLinesIn c.index c'.index
  | 0, _, _, _, _, _, _, _, _, _, hr, _, _, _, _, _ => by
    rw [moreClauses.eq_1] at hr
    exact absurd hr Reads.not_exhausted
  | n + 1, first, last, acc, c, r, c', h, j, ws, hr, chain, completes, lt, stretch, after => by
    rcases hr.moreClauses_cases with ⟨rfl, rfl, -⟩ | ⟨next, cl, c₁, keyword, follows, hcl, hr⟩
    · refine ⟨[], (List.append_nil _).symm, ⟨j, ?_⟩, stretch.toBalanced, after, .empty le_rfl⟩
      rw [List.map_nil, List.append_nil]
      exact chain
    · have code := Token.isLayout_of_clauseKeyword keyword
      have named : cl.keyword = next := by
        obtain ⟨k, tok, spelled⟩ := Token.clauseKeyword?_eq_some keyword
        rw [hcl.clause_keyword, hsp _ k tok, spelled]
      subst named
      have chain' : t.ClauseChain h c.index (ws ++ [cl.keyword]) :=
        .next chain (stretch.toNext lt code) (after.startsLine code) keyword
      have completes' : ∀ ks, Continues first cl.keyword ks →
          ∃ rest, ClauseWords (ws ++ [cl.keyword] ++ ks ++ rest) := fun ks cont => by
        obtain ⟨rest, words⟩ := completes (cl.keyword :: ks) (Continues.cons.2 ⟨follows, cont⟩)
        exact ⟨rest, by simpa using words⟩
      obtain ⟨lt₁, stretch₁, after₁, lines₁⟩ := clause_lines hsp he n hcl code
      obtain ⟨more, split, ⟨k, last⟩, bal, after', lines₂⟩ :=
        moreClauses_lines hsp he n first cl.keyword _ hr chain' completes' lt₁ stretch₁ after₁
      refine ⟨cl :: more, by rw [split, Array.toList_push, List.append_assoc]; rfl,
        ⟨k, by simpa using last⟩, stretch.toBalanced.trans he bal, after', ?_⟩
      refine .cons (fun _ _ header => ?_) (fun _ w keyword' => ?_) (lines₁.append lines₂)
      · have begins := header.beginsCompound
        rw [Token.beginsCompound_of_clauseKeyword keyword] at begins
        cases begins
      · rw [keyword] at keyword'
        cases keyword'
        obtain ⟨rest, words⟩ := completes' [] (List.isChain_singleton _)
        exact ⟨ws, ⟨h, chain'⟩, rest, by simpa using words⟩
termination_by structural n => n

theorem clause_lines (hsp : t.SpellsKeywords) (he : t.EofLast) :
    ∀ n {c cl c'}, (clause n).Reads t c cl c' → (t.lexemeAt c.index).token.isLayout = false →
      c.index < c'.index ∧ t.Stretch c.index c'.index ∧ t.AfterLine c'.index ∧
        t.ClauseLinesIn (c.index + 1) c'.index
  | 0, _, _, _, h, _ => by
    rw [clause.eq_1] at h
    exact absurd h Reads.not_exhausted
  | n + 1, c, cl, c', h, code => by
    obtain ⟨c₁, le, within, -, hsu⟩ := h.clause_cases
    exact Tape.header_lines code le within (suite_lines hsp he n _ hsu)
termination_by structural n => n

theorem softBlock_lines (hsp : t.SpellsKeywords) (he : t.EofLast) :
    ∀ n {start : Nat} {c s c'}, (softBlock n start).Reads t c s c' →
      ((t.lexemeAt c.index).token = .keyword .match ∨ (t.lexemeAt c.index).token = .keyword .case) →
        t.Stretch c.index c'.index ∧ t.AfterLine c'.index ∧ t.ClauseLinesIn c.index c'.index
  | 0, _, _, _, _, h, _ => by
    rw [softBlock.eq_1] at h
    exact absurd h Reads.not_exhausted
  | n + 1, start, c, s, c', h, soft => by
    obtain ⟨c₁, cl, le, within, -, hsu, -⟩ := h.softBlock_cases
    exact Tape.keyword_lines (by rcases soft with soft | soft <;> rw [soft] <;> rfl)
      (by rcases soft with soft | soft <;> rw [soft] <;> rfl) le within (suite_lines hsp he n _ hsu)
termination_by structural n => n

end

end Grammar

/-- In a source that fits and reads, every compound statement's clauses, at every depth, are as
the grammar allows: a word of `ClauseWords` after a header keyword, or one `match` or `case`
clause. Conversely, seen from the tokens: a line that starts with a header keyword (after `async`, for
`for` and `with`) begins clause lines at one block level whose keywords form a word of
`ClauseWords`, so a `try` has an `except` or a `finally`; and a line that starts with `elif`,
`else`, `except` or `finally` is the next line, at its block level, of the clause lines of a
compound statement before it, whose keywords with its own start a word of `ClauseWords`. -/
theorem Module.clause_grammar {src : String} {m : Module} (_fits : Source.Fits src)
    (parsed : Module.parse src = .ok m) :
    Compounds.Admissible m.compounds ∧
      (∀ h first, (Tape.ofSource src).StartsLine h → (Tape.ofSource src).HeaderAt h first →
        ∃ k ks, (Tape.ofSource src).ClauseChain h k (first :: ks) ∧ ClauseWords (first :: ks)) ∧
      (∀ k w, (Tape.ofSource src).StartsLine k →
        ((Tape.ofSource src).lexemeAt k).token.clauseKeyword? = some w →
          ∃ ws, (∃ h, (Tape.ofSource src).ClauseChain h k (ws ++ [w])) ∧
            ∃ rest, ClauseWords (ws ++ [w] ++ rest)) := by
  have hsp : (Tape.ofSource src).SpellsKeywords :=
    fun i kw hk => Tape.spelled_ofSource (Module.parse_noFault parsed) i (k := kw) hk
  have he : (Tape.ofSource src).EofLast := fun _ _ eof le => Tape.eof_after eof le
  refine ⟨Module.compounds_admissible parsed, ?_⟩
  unfold Module.parse at parsed
  dsimp only at parsed
  split at parsed
  · next body c adv heq =>
    obtain ⟨e, -, lines, ends⟩ :=
      Grammar.statements_lines hsp he _ false #[] ⟨adv, heq⟩ (.inl (.inl rfl))
    have eof : ((Tape.ofSource src).lexemeAt e).token = .eof := by
      rcases ends with ⟨eof, -⟩ | ⟨-, top, -⟩
      · exact eof
      · cases top
    refine ⟨fun h first starts header => ?_, fun k w starts keyword => ?_⟩
    · have inside : h < e := by
        by_contra past
        have begins := header.beginsCompound
        rw [Tape.eof_after eof (Nat.le_of_not_lt past)] at begins
        cases begins
      exact lines.headers h first (Nat.zero_le _) inside starts header
    · have inside : k < e := by
        by_contra past
        rw [Tape.eof_after eof (Nat.le_of_not_lt past)] at keyword
        cases keyword
      exact lines.clauses k w (Nat.zero_le _) inside starts keyword
  · cases parsed

/-- A `try` with an `except` and a `finally` clause on lines of their own reads. -/
theorem Module.clause_grammar_try :
    Source.Fits "try:\n  x\nexcept E:\n  y\nfinally:\n  z\n" ∧ ∃ m, Module.parse "try:\n  x\nexcept E:\n  y\nfinally:\n  z\n" = .ok m ∧ Compounds.Admissible m.compounds ∧
      (∀ h first, (Tape.ofSource "try:\n  x\nexcept E:\n  y\nfinally:\n  z\n").StartsLine h →
        (Tape.ofSource "try:\n  x\nexcept E:\n  y\nfinally:\n  z\n").HeaderAt h first →
          ∃ k ks, (Tape.ofSource "try:\n  x\nexcept E:\n  y\nfinally:\n  z\n").ClauseChain h k (first :: ks) ∧
            ClauseWords (first :: ks)) ∧
      (∀ k w, (Tape.ofSource "try:\n  x\nexcept E:\n  y\nfinally:\n  z\n").StartsLine k →
        ((Tape.ofSource "try:\n  x\nexcept E:\n  y\nfinally:\n  z\n").lexemeAt k).token.clauseKeyword? = some w →
          ∃ ws, (∃ h, (Tape.ofSource "try:\n  x\nexcept E:\n  y\nfinally:\n  z\n").ClauseChain h k (ws ++ [w])) ∧
            ∃ rest, ClauseWords (ws ++ [w] ++ rest)) := by
  obtain ⟨m, parsed⟩ := exists_parse_of_isSome "try:\n  x\nexcept E:\n  y\nfinally:\n  z\n" (by decide +kernel)
  have fits : Source.Fits "try:\n  x\nexcept E:\n  y\nfinally:\n  z\n" := by decide
  exact ⟨fits, m, parsed, Module.clause_grammar fits parsed⟩

end PyTune
