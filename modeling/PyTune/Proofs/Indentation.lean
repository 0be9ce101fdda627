import PyTune.Proofs.ScanStep

/-!
# Indentation in the scanner's stream

Before every lexeme that no fault precedes, the open levels are ordered from column zero
(`Scanner.Levels`) and the indents read outnumber the dedents by the levels open and the dedents
owed; at a line start the scanner follows Python's rule (`Scanner.IndentRule`).
-/

namespace PyTune

namespace Lexeme

/-- How many of the lexemes are the token `t`. -/
def count (t : Token) (ls : List Lexeme) : Nat :=
  (ls.map Lexeme.token).count t

theorem count_append_single (t : Token) (ls : List Lexeme) (l : Lexeme) :
    count t (ls ++ [l]) = count t ls + if l.token = t then 1 else 0 := by
  unfold count
  rw [List.map_append, List.count_append, List.map_singleton, List.count_singleton]
  simp only [beq_iff_eq]

end Lexeme

namespace Scanner

/-! ### Ordered levels -/

/-- The open indentation levels, innermost first: each deeper than the ones outside it, the
outermost at column zero. -/
def Levels (indents : List Nat) : Prop :=
  indents.Pairwise (· > ·) ∧ indents.getLast? = some 0

/-- Dropping the levels deeper than a column keeps the outermost, at column zero. -/
theorem getLast?_dropWhile {p : Nat → Bool} {x : Nat} (hx : p x = false) :
    ∀ {l : List Nat}, l.getLast? = some x → (l.dropWhile p).getLast? = some x
  | [], h => by cases h
  | [a], h => by
    have same : a = x := by simpa using h
    subst same
    rw [List.dropWhile_cons_of_neg (by simp [hx])]
    exact h
  | a :: b :: r, h => by
    rw [List.getLast?_cons_cons] at h
    by_cases pa : p a = true
    · rw [List.dropWhile_cons_of_pos pa]
      exact getLast?_dropWhile hx h
    · rw [List.dropWhile_cons_of_neg pa, List.getLast?_cons_cons]
      exact h

namespace Levels

variable {l : List Nat} {col : Nat}

theorem start : Levels [0] := ⟨List.pairwise_singleton _ _, rfl⟩

theorem ne_nil (h : Levels l) : l ≠ [] := by
  rintro rfl
  cases h.2

theorem one_le_length (h : Levels l) : 1 ≤ l.length :=
  List.length_pos_iff.2 h.ne_nil

/-- The innermost level is the deepest. -/
theorem le_head (h : Levels l) : ∀ x ∈ l, x ≤ l.head?.getD 0 := by
  cases l with
  | nil => exact fun x hx => absurd hx List.not_mem_nil
  | cons top below =>
    intro x hx
    rcases List.mem_cons.1 hx with rfl | hx
    · exact Nat.le_refl _
    · exact Nat.le_of_lt (List.rel_of_pairwise_cons h.1 hx)

/-- A level deeper than the innermost opens inside it. -/
theorem push (h : Levels l) (deeper : l.head?.getD 0 < col) : Levels (col :: l) := by
  refine ⟨List.pairwise_cons.2 ⟨fun x hx => Nat.lt_of_le_of_lt (h.le_head x hx) deeper, h.1⟩, ?_⟩
  cases l with
  | nil => exact absurd rfl h.ne_nil
  | cons b r =>
    rw [List.getLast?_cons_cons]
    exact h.2

/-- A column shallower than the innermost level closes that level at least. -/
theorem one_le_takeWhile (h : Levels l) (shallower : col < l.head?.getD 0) :
    1 ≤ (l.takeWhile (col < ·)).length := by
  obtain ⟨top, below, e⟩ := List.exists_cons_of_ne_nil h.ne_nil
  rw [e] at shallower ⊢
  rw [List.takeWhile_cons_of_pos (by simpa using shallower), List.length_cons]
  omega

/-- Closing the levels deeper than a column leaves ordered levels. -/
theorem dropWhile (h : Levels l) : Levels (l.dropWhile (col < ·)) :=
  ⟨h.1.sublist (List.dropWhile_sublist _), getLast?_dropWhile (by simp) h.2⟩

end Levels

/-- On levels whose outermost is at column zero, `popAbove` closes exactly the levels deeper
than the column, and counts them. -/
theorem popAbove_eq (col : Nat) : ∀ (l : List Nat) (n : Nat), l.getLast? = some 0 →
    popAbove col l n = (l.dropWhile (col < ·), n + (l.takeWhile (col < ·)).length)
  | [], _, h => by cases h
  | [top], n, h => by
    -- the outermost level is at column zero, so it stays open
    have zero : top = 0 := by simpa using h
    subst zero
    simp [popAbove]
  | top :: b :: r, n, h => by
    rw [List.getLast?_cons_cons] at h
    unfold popAbove
    dsimp only
    by_cases lt : col < top
    · have dropped : (top :: b :: r).dropWhile (col < ·) = (b :: r).dropWhile (col < ·) :=
        List.dropWhile_cons_of_pos (by simpa using lt)
      have taken : (top :: b :: r).takeWhile (col < ·) = top :: (b :: r).takeWhile (col < ·) :=
        List.takeWhile_cons_of_pos (by simpa using lt)
      rw [if_pos lt, popAbove_eq col (b :: r) (n + 1) h, dropped, taken, List.length_cons]
      congr 1
      omega
    · have kept : (top :: b :: r).dropWhile (col < ·) = top :: b :: r :=
        List.dropWhile_cons_of_neg (by simpa using lt)
      have none : (top :: b :: r).takeWhile (col < ·) = [] :=
        List.takeWhile_cons_of_neg (by simpa using lt)
      rw [if_neg lt, kept, none]
      rfl

/-- On ordered levels, the levels left after closing the deeper ones start at the column
exactly when it is an open level. -/
theorem head_dropWhile_iff {col : Nat} : ∀ {l : List Nat}, l.Pairwise (· > ·) →
    ((l.dropWhile (col < ·)).head? = some col ↔ col ∈ l)
  | [], _ => by simp
  | x :: xs, h => by
    by_cases lt : col < x
    · rw [List.dropWhile_cons_of_pos (by simpa using lt), head_dropWhile_iff (List.Pairwise.of_cons h)]
      constructor
      · exact List.mem_cons_of_mem x
      · intro hm
        rcases List.mem_cons.1 hm with rfl | hm
        · exact absurd lt (Nat.lt_irrefl _)
        · exact hm
    · rw [List.dropWhile_cons_of_neg (by simpa using lt), List.head?_cons, Option.some.injEq]
      constructor
      · rintro rfl
        exact List.mem_cons_self
      · intro hm
        rcases List.mem_cons.1 hm with rfl | hm
        · rfl
        · exact absurd (List.rel_of_pairwise_cons h hm) lt

/-! ### The column of a line's code -/

/-- A blank before a line's code: a space, a tab or a form feed. -/
def Blank (c : Char) : Prop :=
  c = ' ' ∨ c = '\t' ∨ c = '\x0c'

/-- The column that leading blanks bring a line's code to, from column `col`: a space moves
one column, a tab to the next multiple of eight, a form feed back to the start. -/
def column (col : Nat) : List Char → Nat
  | [] => col
  | ' ' :: cs => column (col + 1) cs
  | '\t' :: cs => column ((col + 8) / 8 * 8) cs
  | _ :: cs => column 0 cs

/-- Lines with no code, each ended by a line break: blank, or a comment after blanks, which
runs to a line feed. -/
inductive BlankLines : List Char → Prop
  | nil : BlankLines []
  | blank {lead brk rest : List Char} (hl : ∀ c ∈ lead, Blank c)
      (hb : brk = ['\n'] ∨ brk = ['\r', '\n'] ∨ brk = ['\r']) (hr : BlankLines rest) :
      BlankLines (lead ++ brk ++ rest)
  | comment {lead text rest : List Char} (hl : ∀ c ∈ lead, Blank c) (ht : '\n' ∉ text)
      (hr : BlankLines rest) : BlankLines (lead ++ '#' :: text ++ '\n' :: rest)

/-- Input that starts with code: a character that is no blank, line break or comment. -/
def CodeStart (rest : List Char) : Prop :=
  ∃ c cs, rest = c :: cs ∧ ¬ Blank c ∧ c ≠ '\n' ∧ c ≠ '\r' ∧ c ≠ '#'

/-- Skipping leading blanks moves the column as `column` does. -/
theorem skipToCode_blanks : ∀ (lead : List Char), (∀ c ∈ lead, Blank c) →
    ∀ (rest : List Char) (pos col : Nat), ∃ pos',
      skipToCode (lead ++ rest) pos col false = skipToCode rest pos' (column col lead) false
  | [], _, rest, pos, col => ⟨pos, rfl⟩
  | c :: lead, hb, rest, pos, col => by
    have more := skipToCode_blanks lead (fun x hx => hb x (List.mem_cons_of_mem c hx)) rest
    rcases hb c List.mem_cons_self with rfl | rfl | rfl
    · exact more (pos + 1) (col + 1)
    · exact more (pos + 1) ((col + 8) / 8 * 8)
    · exact more (pos + 1) 0

/-- A lone carriage return ends a blank line, as a line feed after it would. -/
theorem skipToCode_cr (rest : List Char) (pos col : Nat) :
    ∃ pos', skipToCode ('\r' :: rest) pos col false = skipToCode rest pos' 0 false := by
  cases rest with
  | nil => exact ⟨pos + 1, rfl⟩
  | cons d more =>
    by_cases lf : d = '\n'
    · subst lf
      exact ⟨pos + 1, by rw [skipToCode.eq_7, skipToCode.eq_6]⟩
    · refine ⟨pos + 1, skipToCode.eq_8 _ _ _ fun _ e => lf (List.cons.inj e).1⟩

/-- A line break ends a blank line and starts the next at column zero. -/
theorem skipToCode_break {brk : List Char} (hb : brk = ['\n'] ∨ brk = ['\r', '\n'] ∨ brk = ['\r'])
    (rest : List Char) (pos col : Nat) :
    ∃ pos', skipToCode (brk ++ rest) pos col false = skipToCode rest pos' 0 false := by
  rcases hb with rfl | rfl | rfl
  · exact ⟨pos + 1, skipToCode.eq_6 _ _ _⟩
  · exact ⟨pos + 2, skipToCode.eq_7 _ _ _⟩
  · exact skipToCode_cr rest pos col

/-- Inside a comment, everything up to a line feed is skipped. -/
theorem skipToCode_commentText : ∀ (text : List Char), '\n' ∉ text →
    ∀ (rest : List Char) (pos col : Nat), ∃ pos',
      skipToCode (text ++ rest) pos col true = skipToCode rest pos' col true
  | [], _, rest, pos, _ => ⟨pos, rfl⟩
  | c :: text, ht, rest, pos, col => by
    have other : (c == '\n') = false := by
      simpa using fun e : c = '\n' => ht (e ▸ List.mem_cons_self)
    obtain ⟨pos', more⟩ := skipToCode_commentText text
      (fun m => ht (List.mem_cons_of_mem c m)) rest (pos + c.utf8Size) col
    refine ⟨pos', ?_⟩
    rw [List.cons_append, skipToCode.eq_2, other, if_neg Bool.false_ne_true]
    exact more

/-- Blank and comment-only lines are skipped, and the next line starts at column zero. -/
theorem skipToCode_blankLines {lines : List Char} (h : BlankLines lines) :
    ∀ (rest : List Char) (pos : Nat), ∃ pos',
      skipToCode (lines ++ rest) pos 0 false = skipToCode rest pos' 0 false := by
  induction h with
  | nil => exact fun rest pos => ⟨pos, rfl⟩
  | blank hl hb _ ih =>
    intro rest pos
    obtain ⟨p₁, lead⟩ := skipToCode_blanks _ hl _ pos 0
    obtain ⟨p₂, brk⟩ := skipToCode_break hb _ p₁ (column 0 _)
    obtain ⟨p₃, more⟩ := ih rest p₂
    refine ⟨p₃, ?_⟩
    rw [List.append_assoc, List.append_assoc, lead, brk, more]
  | comment hl ht _ ih =>
    intro rest pos
    obtain ⟨p₁, lead⟩ := skipToCode_blanks _ hl _ pos 0
    obtain ⟨p₂, text⟩ := skipToCode_commentText _ ht _ (p₁ + 1) (column 0 _)
    obtain ⟨p₃, more⟩ := ih rest (p₂ + 1)
    refine ⟨p₃, ?_⟩
    rw [List.append_assoc, List.append_assoc, lead, List.cons_append, skipToCode.eq_9, text,
      List.cons_append, skipToCode.eq_2, if_pos (beq_self_eq_true _), more]

/-- Skipping stops at code. -/
theorem skipToCode_code {rest : List Char} (h : CodeStart rest) (pos col : Nat) :
    skipToCode rest pos col false = (col, rest, pos) := by
  obtain ⟨c, cs, rfl, hb, hn, hr, hh⟩ := h
  refine skipToCode.eq_10 _ _ _ (List.cons_ne_nil c cs) ?_ ?_ ?_ ?_ ?_ ?_ ?_ <;>
    intro _ e <;> injection e with e <;> simp_all [Blank]

/-- At the start of a line, the scanner skips blank and comment-only lines and the leading
blanks of the line's code, which stands at their column. -/
theorem skipToCode_line {lines lead rest : List Char} (hl : BlankLines lines)
    (hb : ∀ c ∈ lead, Blank c) (hc : CodeStart rest) (pos : Nat) :
    ∃ pos', skipToCode (lines ++ lead ++ rest) pos 0 false = (column 0 lead, rest, pos') := by
  obtain ⟨p₁, skipped⟩ := skipToCode_blankLines hl (lead ++ rest) pos
  obtain ⟨p₂, blanks⟩ := skipToCode_blanks lead hb rest p₁ 0
  exact ⟨p₂, by rw [List.append_assoc, skipped, blanks, skipToCode_code hc]⟩

/-! ### What a step does to the levels -/

/-- A lexeme read inside a line leaves the levels and the dedents owed as they were, and is no
indent or dedent; or it is the first of the dedents that close every level above the outermost
at the end of input, and owes the others. -/
theorem Body.layout {s : Scanner} {r : Lexeme × Scanner} (h : Body s r) :
    (r.2.indents = s.indents ∧ r.2.pendingDedents = s.pendingDedents ∧
      r.1.token ≠ .indent ∧ r.1.token ≠ .dedent) ∨
    (r.1.token = .dedent ∧ 2 ≤ s.indents.length ∧ r.2.indents = [0] ∧
      r.2.pendingDedents + 2 = s.indents.length) := by
  cases h with
  | closeLevels _ _ hi =>
    refine .inr ⟨rfl, ?_, rfl, ?_⟩ <;> simp only [hi, List.length_cons] <;> omega
  | unclosed | eof | lineEnd | unmatched | mismatched | fault =>
    refine .inl ⟨rfl, rfl, ?_, ?_⟩ <;> intro e <;> cases e
  | opening _ ht | closing _ _ ht =>
    refine .inl ⟨rfl, rfl, ?_, ?_⟩ <;> intro e <;> dsimp only at e <;> subst e <;> cases ht
  | token _ _ hl =>
    refine .inl ⟨rfl, rfl, ?_, ?_⟩ <;> intro e <;> dsimp only at e <;> subst e <;> cases hl

/-- The end of input comes only with no level open above the outermost. -/
theorem Body.eof_levels {s : Scanner} {r : Lexeme × Scanner} (h : Body s r)
    (he : r.1.token = .eof) : s.indents.length ≤ 1 := by
  cases h with
  | eof _ _ hi => exact hi
  | unclosed | closeLevels | lineEnd | unmatched | mismatched | fault => cases he
  | opening _ ht | closing _ _ ht =>
    dsimp only at he
    subst he
    cases ht
  | token _ _ hl =>
    dsimp only at he
    subst he
    cases hl

theorem Step.eof_levels {s : Scanner} {r : Lexeme × Scanner} (h : Step s r)
    (live : s.failed = false) (he : r.1.token = .eof) :
    s.indents.length ≤ 1 ∧ s.pendingDedents = 0 := by
  cases h with
  | ended failed => exact absurd (live.symm.trans failed) Bool.false_ne_true
  | owed | indent | dedent | badDedent => cases he
  | lineCode _ hd _ _ _ _ passed read | inLine _ hd _ passed read =>
    rw [← passed.indents]
    exact ⟨read.eof_levels he, hd⟩

/-- A step that gives no lexical fault keeps the levels ordered, and an indent it gives opens
one level, while a dedent it gives closes one level or pays one dedent owed. -/
theorem Step.levels {s : Scanner} {r : Lexeme × Scanner} (h : Step s r)
    (live : s.failed = false) (hl : Levels s.indents) (hf : r.1.token.fault? = none) :
    Levels r.2.indents ∧
    (if r.1.token = .indent then 1 else 0) + (s.indents.length - 1) + s.pendingDedents =
      (if r.1.token = .dedent then 1 else 0) + (r.2.indents.length - 1) + r.2.pendingDedents := by
  have one := hl.one_le_length
  cases h with
  | ended failed => exact absurd (live.symm.trans failed) Bool.false_ne_true
  | owed _ hd =>
    refine ⟨hl, ?_⟩
    simp only [reduceCtorEq, if_false, if_true]
    omega
  | indent _ hd _ _ _ _ deeper =>
    refine ⟨hl.push deeper, ?_⟩
    simp only [reduceCtorEq, if_false, if_true, List.length_cons, hd]
    omega
  | @dedent col _ _ _ hd _ _ _ _ shallower found =>
    rw [popAbove_eq _ _ _ hl.2]
    refine ⟨hl.dropWhile, ?_⟩
    have split : s.indents.length =
        (s.indents.takeWhile (col < ·)).length + (s.indents.dropWhile (col < ·)).length := by
      rw [← List.length_append, List.takeWhile_append_dropWhile]
    have closed := hl.one_le_takeWhile shallower
    have left : Levels (s.indents.dropWhile (col < ·)) := hl.dropWhile
    have left := left.one_le_length
    simp only [reduceCtorEq, if_false, if_true, hd]
    omega
  | badDedent => exact absurd hf (Option.some_ne_none _)
  | lineCode _ hd _ _ _ _ passed read | inLine _ hd _ passed read =>
    rw [← passed.indents, ← passed.pendingDedents]
    rw [← passed.indents] at hl one
    rcases read.layout with ⟨indents, owed, not_indent, not_dedent⟩ | ⟨dedent, two, closed, owed⟩
    · refine ⟨indents ▸ hl, ?_⟩
      rw [if_neg not_indent, if_neg not_dedent, indents, owed]
    · refine ⟨closed ▸ Levels.start, ?_⟩
      rw [dedent, closed, passed.pendingDedents, hd]
      simp only [reduceCtorEq, if_false, if_true, List.length_singleton]
      omega

/-! ### Python's rule at a line start -/

/-- What a line whose code stands at column `col` gives against the open levels `indents`,
innermost first: the lexeme `l`, and the scanner `s'` after it. -/
structure LevelStep (indents : List Nat) (col : Nat) (l : Lexeme) (s' : Scanner) : Prop where
  /-- A deeper column opens a level with an indent. -/
  deeper : indents.head?.getD 0 < col → l.token = .indent ∧ s'.indents = col :: indents
  /-- A shallower column at an open level closes every level above it, one dedent each: this
  one, and the others owed. -/
  closes : col < indents.head?.getD 0 → col ∈ indents → l.token = .dedent ∧
    s'.indents = indents.dropWhile (col < ·) ∧
    s'.pendingDedents + 1 = (indents.takeWhile (col < ·)).length
  /-- A shallower column at no open level is a fault. -/
  missing : col < indents.head?.getD 0 → col ∉ indents → l.token = .invalid .badDedent
  /-- The same column keeps the levels: the line's code is read, and is no indent; it is a
  dedent only when the input ends within the line, closing every level above the outermost. -/
  level : col = indents.head?.getD 0 → l.token ≠ .indent ∧
    (l.token = .dedent → s'.indents = [0] ∧ s'.pendingDedents + 2 = indents.length)

/-- Python's indentation rule, for a live scanner at the start of a logical line outside
brackets that owes no dedents: past blank and comment-only lines, the line's code stands at the
column of its leading blanks, which is compared with the open levels. -/
def IndentRule (s : Scanner) (l : Lexeme) (s' : Scanner) : Prop :=
  s.failed = false → s.atLineStart = true → s.brackets = [] → s.pendingDedents = 0 →
  ∀ lines lead rest, s.rest = lines ++ lead ++ rest → BlankLines lines →
    (∀ c ∈ lead, Blank c) → CodeStart rest → LevelStep s.indents (column 0 lead) l s'

/-- On ordered levels, the scanner's next step follows Python's indentation rule. -/
theorem indentRule {s : Scanner} (hl : Levels s.indents) : IndentRule s s.next.1 s.next.2 := by
  intro live start empty none lines lead rest hr blank blanks code
  obtain ⟨pos, hk⟩ := skipToCode_line blank blanks code s.pos
  rw [← hr] at hk
  have has_code : rest ≠ [] := by
    obtain ⟨c, cs, rfl, -⟩ := code
    exact List.cons_ne_nil c cs
  have step := next_step s
  generalize s.next = r at step ⊢
  -- the step is taken at the line start, so it compares the column of the line's code
  cases step with
  | ended failed => exact absurd (live.symm.trans failed) Bool.false_ne_true
  | owed _ hd => exact absurd none (Nat.pos_iff_ne_zero.1 hd)
  | indent _ _ _ _ hk' _ deeper =>
    rw [hk] at hk'
    cases hk'
    exact ⟨fun _ => ⟨rfl, rfl⟩, fun lt => absurd deeper (Nat.lt_asymm lt),
      fun lt => absurd deeper (Nat.lt_asymm lt), fun eq => absurd deeper (by omega)⟩
  | dedent _ _ _ _ hk' _ shallower found =>
    rw [hk] at hk'
    cases hk'
    rw [popAbove_eq _ _ _ hl.2] at found ⊢
    have closed := hl.one_le_takeWhile shallower
    refine ⟨fun gt => absurd shallower (Nat.lt_asymm gt), fun _ _ => ⟨rfl, rfl, ?_⟩,
      fun _ absent => absurd ((head_dropWhile_iff hl.1).1 found) absent,
      fun eq => absurd shallower (by omega)⟩
    dsimp only
    omega
  | badDedent _ _ _ _ hk' _ shallower missing =>
    rw [hk] at hk'
    cases hk'
    rw [popAbove_eq _ _ _ hl.2] at missing
    exact ⟨fun gt => absurd shallower (Nat.lt_asymm gt),
      fun _ present => absurd ((head_dropWhile_iff hl.1).2 present) missing,
      fun _ _ => rfl, fun eq => absurd shallower (by omega)⟩
  | lineCode _ _ _ _ hk' level passed read =>
    rw [hk] at hk'
    cases hk'
    have same : column 0 lead = s.indents.head?.getD 0 := level.resolve_left has_code
    refine ⟨fun gt => absurd gt (by omega), fun lt => absurd lt (by omega),
      fun lt => absurd lt (by omega), fun _ => ?_⟩
    rw [← passed.indents]
    rcases read.layout with ⟨_, _, not_indent, not_dedent⟩ | ⟨dedent, _, closed, owed⟩
    · exact ⟨not_indent, fun e => absurd e not_dedent⟩
    · refine ⟨?_, fun _ => ⟨closed, owed⟩⟩
      rw [dedent]
      intro e
      cases e
  | inLine _ _ inside =>
    rcases inside with inside | inside
    · exact absurd (start.symm.trans inside) (by decide)
    · exact absurd empty inside

/-! ### The levels along a run -/

/-- Before each lexeme that no lexical fault precedes: the scanner is live, its levels are
ordered, and the indents read so far outnumber the dedents by the levels open above the
outermost and the dedents owed. -/
def Indented (src : String) (pre : List Lexeme) (s : Scanner) : Prop :=
  Live src s ∧ Levels s.indents ∧
    Lexeme.count .indent pre = Lexeme.count .dedent pre + (s.indents.length - 1) + s.pendingDedents

theorem Indented.next {src : String} {pre : List Lexeme} {s : Scanner} (h : Indented src pre s)
    (hf : s.next.1.token.fault? = none) (he : s.next.1.token ≠ .eof) :
    Indented src (pre ++ [s.next.1]) s.next.2 := by
  obtain ⟨live, levels, counted⟩ := h
  obtain ⟨levels', tally⟩ := (next_step s).levels live.live levels hf
  refine ⟨live.next hf he, levels', ?_⟩
  rw [Lexeme.count_append_single, Lexeme.count_append_single]
  omega

/-- The scanner of a source before its `k`-th lexeme. -/
def before (src : String) (k : Nat) : Scanner :=
  after k (ofSource src)

end Scanner

/-- The layout of the lexemes of a source. Before every lexeme that no lexical fault precedes,
the open levels are ordered with the outermost at column zero; the indents so far outnumber
the dedents by the levels open above the outermost and the dedents owed, so never fall behind
them, and match them when the input ends; and at the start of a logical line outside brackets
the lexeme follows Python's indentation rule. -/
theorem Lexeme.scan_indentation (src : String) (k : Nat) (l : Lexeme)
    (hl : (Lexeme.scan src)[k]? = some l)
    (clean : ∀ x ∈ (Lexeme.scan src).toList.take k, x.token.fault? = none) :
    Scanner.Levels (Scanner.before src k).indents ∧
    Lexeme.count .indent ((Lexeme.scan src).toList.take k) =
      Lexeme.count .dedent ((Lexeme.scan src).toList.take k) +
        ((Scanner.before src k).indents.length - 1) + (Scanner.before src k).pendingDedents ∧
    Lexeme.count .dedent ((Lexeme.scan src).toList.take k) ≤
      Lexeme.count .indent ((Lexeme.scan src).toList.take k) ∧
    (l.token = .eof → Lexeme.count .indent ((Lexeme.scan src).toList.take k) =
      Lexeme.count .dedent ((Lexeme.scan src).toList.take k)) ∧
    Scanner.IndentRule (Scanner.before src k) l (Scanner.before src (k + 1)) := by
  rw [← Array.getElem?_toList] at hl
  have lt : k < (Lexeme.scan src).toList.length := (List.getElem?_eq_some_iff.1 hl).1
  have start : Scanner.Indented src [] (Scanner.ofSource src) :=
    ⟨Scanner.Live.start src, Scanner.Levels.start, rfl⟩
  have run : Scanner.Indented src ((Lexeme.scan src).toList.take k) (Scanner.before src k) :=
    Scanner.lexemes_invariant (fun _ _ h => h.next) _ _ start k lt clean
  obtain ⟨live, levels, counted⟩ := run
  have next : l = (Scanner.before src k).next.1 := Scanner.lexemes_getElem? _ _ k hl
  refine ⟨levels, counted, by omega, fun he => ?_, ?_⟩
  · -- the end of input comes with only the outermost level open and no dedent owed
    rw [next] at he
    obtain ⟨closed, paid⟩ := (Scanner.next_step _).eof_levels live.live he
    have one := levels.one_le_length
    omega
  · have after : Scanner.before src (k + 1) = (Scanner.before src k).next.2 :=
      Scanner.after_succ k _
    rw [after, next]
    exact Scanner.indentRule levels

/-- A block that the end of input closes: its indent is matched by a dedent before the end. -/
theorem Lexeme.scan_indentation_block :
    Scanner.Levels (Scanner.before "if x:\n  y\n" 8).indents ∧
    Lexeme.count .indent ((Lexeme.scan "if x:\n  y\n").toList.take 8) =
      Lexeme.count .dedent ((Lexeme.scan "if x:\n  y\n").toList.take 8) +
        ((Scanner.before "if x:\n  y\n" 8).indents.length - 1) +
        (Scanner.before "if x:\n  y\n" 8).pendingDedents ∧
    Lexeme.count .dedent ((Lexeme.scan "if x:\n  y\n").toList.take 8) ≤
      Lexeme.count .indent ((Lexeme.scan "if x:\n  y\n").toList.take 8) ∧
    ((⟨.eof, ⟨10, 10⟩⟩ : Lexeme).token = .eof →
      Lexeme.count .indent ((Lexeme.scan "if x:\n  y\n").toList.take 8) =
        Lexeme.count .dedent ((Lexeme.scan "if x:\n  y\n").toList.take 8)) ∧
    Scanner.IndentRule (Scanner.before "if x:\n  y\n" 8) ⟨.eof, ⟨10, 10⟩⟩
      (Scanner.before "if x:\n  y\n" (8 + 1)) :=
  Lexeme.scan_indentation "if x:\n  y\n" 8 _ (by decide +kernel) (by decide +kernel)

end PyTune
