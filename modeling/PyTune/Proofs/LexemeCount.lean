import PyTune.Proofs.Scanning

/-!
# Every scan ends with the end of input

Each step that does not end the input lowers `Scanner.measure`, which starts below the step bound,
so the end of input comes first (`Lexeme.scan_ends`) and more steps change nothing
(`Scanner.lexemes_stable`).
-/

namespace PyTune

open String (utf8Len)

namespace Scanner

/-- What bounds the lexemes a scanner has left before the end of input. -/
def measure (s : Scanner) : Nat :=
  if s.failed then 0
  else 3 * s.rest.length + 2 * s.atLineStart.toNat + s.indents.length + s.pendingDedents + 1

theorem measure_live {s : Scanner} (hf : s.failed = false) :
    s.measure = 3 * s.rest.length + 2 * s.atLineStart.toNat + s.indents.length +
      s.pendingDedents + 1 := by
  rw [measure, hf, if_neg Bool.false_ne_true]

theorem measure_fail (s : Scanner) (start : Nat) (f : LexFault) : (s.fail start f).2.measure = 0 :=
  rfl

theorem length_le_utf8Len : ∀ cs : List Char, cs.length ≤ utf8Len cs
  | [] => Nat.le_refl _
  | c :: cs => by
    rw [List.length_cons, String.utf8Len_cons]
    have := c.utf8Size_pos
    have := length_le_utf8Len cs
    omega

theorem popAbove_length (col : Nat) :
    ∀ (levels : List Nat) (n : Nat),
      (popAbove col levels n).1.length + (popAbove col levels n).2 = levels.length + n
  | [], _ => rfl
  | [_], _ => rfl
  | top :: next :: below, n => by
    unfold popAbove
    split
    · next h => cases h
    · split
      · rw [popAbove_length col (next :: below) (n + 1)]
        simp only [List.length_cons]
        omega
      · rfl

/-- The first character of a number is read into it. -/
theorem numberRun_ne_nil {c : Char} {cs : List Char}
    (h : (c.isDigit || (c == '.' && (cs.head?.map Char.isDigit).getD false)) = true) :
    (numberRun ' ' (c :: cs)).1 ≠ [] := by
  have pass : (c.isAlphanum || c == '_' || c == '.' ||
      ((c == '+' || c == '-') && (' ' == 'e' || ' ' == 'E'))) = true := by
    simp only [Bool.or_eq_true, Bool.and_eq_true, beq_iff_eq] at h ⊢
    rcases h with d | ⟨rfl, -⟩
    · exact .inl (.inl (.inl (by simp [Char.isAlphanum, d])))
    · exact .inl (.inr rfl)
  rw [numberRun, if_pos pass]
  exact List.cons_ne_nil _ _

/-! ### String literals -/

/-- A string literal once its prefix letters and opening quotes are read: the body follows. -/
def literal (s : Scanner) (letters opening : List Char) (q : Char) (triple : Bool)
    (body : List Char) : Lexeme × Scanner :=
  let (read, ending, rest) := quotedBody q triple body
  let consumed := letters ++ opening ++ read
  let s' := { s with rest, pos := s.pos + utf8Length consumed }
  match ending with
  | .closed =>
    let raw := String.ofList consumed
    s'.emit s.pos (if letters.any (fun c => c == 'f' || c == 'F') then .fstr raw else .str raw)
  | .lineEnd => s'.fail s.pos .unterminatedString
  | .inputEnd => s'.fail s.pos (if triple then .unterminatedTripleString else .unterminatedString)

theorem lexString_triple (s : Scanner) (letters : List Char) (q : Char) (r : List Char) :
    s.lexString letters q (q :: q :: r) = s.literal letters [q, q, q] q true r := by
  unfold lexString literal
  dsimp only
  rewrite [if_pos (by simp)]
  rfl

theorem lexString_single (s : Scanner) (letters : List Char) {q : Char} {more : List Char}
    (h : ¬ ∃ r, more = q :: q :: r) :
    s.lexString letters q more = s.literal letters [q] q false more := by
  unfold lexString literal
  rcases more with _ | ⟨a, _ | ⟨b, r⟩⟩
  · rfl
  · rfl
  · have two : (a == q && b == q) = false := by
      cases ha : a == q <;> cases hb : b == q <;> simp_all
    simp only [two]
    rfl

/-! ### One step lowers the measure -/

section Steps

variable {s : Scanner}

/-- Reading on past at least one character, with nothing else changed. -/
theorem measure_read {t : Scanner} (hf : s.failed = false) (hr : t.rest.length < s.rest.length)
    (hf' : t.failed = false) (hl : t.atLineStart = s.atLineStart) (hi : t.indents = s.indents)
    (hp : t.pendingDedents = s.pendingDedents) : t.measure < s.measure := by
  rw [measure_live hf, measure_live hf', hl, hi, hp]
  omega

theorem measure_pos (hf : s.failed = false) : 0 < s.measure := by
  rw [measure_live hf]
  omega

theorem atEnd_measure (hf : s.failed = false) (hp : s.pendingDedents = 0)
    (he : s.atEnd.1.token ≠ .eof) : s.atEnd.2.measure < s.measure := by
  unfold atEnd at he ⊢
  rcases hb : s.brackets with _ | ⟨⟨o, a⟩, outer⟩
  · rcases hi : s.indents with _ | ⟨i, _ | ⟨j, is⟩⟩
    · simp only [hb, hi] at he
      exact absurd rfl he
    · simp only [hb, hi] at he
      exact absurd rfl he
    · -- every open level but the outermost closes at once, owed as dedents
      simp only [measure, hf, hp, hi, List.length_cons, List.length_nil, Bool.false_eq_true,
        if_false]
      omega
  · exact measure_pos hf

/-- A string literal reads at least its quotes. -/
theorem literal_measure {letters opening body : List Char} {q : Char} {triple : Bool}
    (hf : s.failed = false) (hr : s.rest = letters ++ opening ++ body) (hne : opening ≠ []) :
    (s.literal letters opening q triple body).2.measure < s.measure := by
  have whole := quotedBody_append q triple body
  unfold literal
  rcases hb : quotedBody q triple body with ⟨read, e, rest⟩
  rw [hb] at whole
  dsimp only at whole ⊢
  cases e with
  | closed =>
    have shorter : rest.length < s.rest.length := by
      rw [hr, ← whole]
      have := List.length_pos_iff.2 hne
      simp only [List.length_append]
      omega
    exact measure_read hf shorter hf rfl rfl rfl
  | lineEnd | inputEnd => exact measure_pos hf

theorem lexString_measure {letters more : List Char} {q : Char} (hf : s.failed = false)
    (hr : s.rest = letters ++ q :: more) :
    (s.lexString letters q more).2.measure < s.measure := by
  by_cases three : ∃ r, more = q :: q :: r
  · obtain ⟨r, rfl⟩ := three
    rw [lexString_triple]
    exact literal_measure hf (by rw [hr]; simp) (List.cons_ne_nil _ _)
  · rw [lexString_single _ _ three]
    exact literal_measure hf (by rw [hr]; simp) (List.cons_ne_nil _ _)

theorem punctuation_measure {c : Char} {cs : List Char} (hf : s.failed = false)
    (hr : s.rest = c :: cs) : (s.punctuation c cs).2.measure < s.measure := by
  have past : cs.length < s.rest.length := by
    rw [hr, List.length_cons]
    exact Nat.lt_succ_self _
  have shorter : ∀ k, (cs.drop k).length < s.rest.length := fun k => by
    rw [List.length_drop]
    omega
  unfold punctuation
  dsimp only
  repeat' split
  all_goals first
    | exact measure_pos hf
    | exact measure_read hf past hf rfl rfl rfl
    | exact measure_read hf (shorter _) hf rfl rfl rfl

/-- Reading on inside a logical line lowers the measure, unless it reaches the end of input:
every lexeme but a dedent at the end reads at least one character, and a line feed that ends
a logical line costs less than it reads. -/
theorem scanBody_measure (s : Scanner) (input : List Char) (hf : s.failed = false)
    (hr : s.rest = input) (hp : s.pendingDedents = 0)
    (hl : s.atLineStart = true → s.brackets.isEmpty = false)
    (he : (s.scanBody input).1.token ≠ .eof) : (s.scanBody input).2.measure < s.measure := by
  fun_induction scanBody s input with
  | case1 s => exact atEnd_measure hf hp he
  | case2 s c cs start _ ih =>
    refine Nat.lt_trans (ih hf rfl hp hl he) (measure_read hf ?_ hf rfl rfl rfl)
    rw [hr, List.length_cons]
    exact Nat.lt_succ_self _
  | case3 s c cs start _ _ empty =>
    have later : s.atLineStart = false := by
      cases e : s.atLineStart
      · rfl
      · rw [hl e] at empty
        cases empty
    simp only [measure, hf, later, hr, List.length_cons, Bool.toNat_true, Bool.toNat_false,
      Bool.false_eq_true, if_false]
    omega
  | case4 s c cs start _ _ _ ih =>
    refine Nat.lt_trans (ih hf rfl hp hl he) (measure_read hf ?_ hf rfl rfl rfl)
    rw [hr, List.length_cons]
    exact Nat.lt_succ_self _
  | case5 s c start _ _ _ r ih =>
    refine Nat.lt_trans (ih hf rfl hp hl he) (measure_read hf ?_ hf rfl rfl rfl)
    rw [hr]
    simp only [List.length_cons]
    omega
  | case6 s c start _ _ _ r ih =>
    refine Nat.lt_trans (ih hf rfl hp hl he) (measure_read hf ?_ hf rfl rfl rfl)
    rw [hr]
    simp only [List.length_cons]
    omega
  | case7 => exact measure_pos hf
  | case8 => exact measure_pos hf
  | case9 s c cs start _ _ _ _ r within _ ih =>
    refine Nat.lt_trans (ih hf rfl hp hl he) (measure_read hf ?_ hf rfl rfl rfl)
    rw [hr, List.length_cons]
    exact Nat.lt_succ_of_le within
  | case10 s c cs _ _ _ _ letters q more opening =>
    exact lexString_measure hf (by rw [hr, stringStart?_eq opening])
  | case11 s c cs start _ _ _ _ _ number digits after run =>
    obtain ⟨split, -⟩ := numberRun_split ' ' (c :: cs)
    have first := numberRun_ne_nil number
    rw [run] at split first
    dsimp only at split first
    refine measure_read hf ?_ hf rfl rfl rfl
    rw [hr, ← split, List.length_append]
    have := List.length_pos_iff.2 first
    show after.length < _
    omega
  | case12 s c cs start _ _ _ _ _ _ name word after span =>
    rw [List.span_eq_takeWhile_dropWhile, Prod.mk.injEq] at span
    obtain ⟨rfl, rfl⟩ := span
    refine measure_read hf ?_ hf rfl rfl rfl
    rw [hr, List.dropWhile_cons_of_pos name]
    exact Nat.lt_of_le_of_lt (List.length_dropWhile_le _ _) (Nat.lt_succ_self _)
  | case13 s c cs => exact punctuation_measure hf hr

/-- Comparing a line's indentation with the open levels adds one level at most. -/
theorem indentTo_measure (col : Nat) (hf : s.failed = false) (hp : s.pendingDedents = 0) :
    (s.indentTo col).2.measure ≤ s.measure + 1 := by
  unfold indentTo
  dsimp only
  split
  · simp only [measure, hf, List.length_cons, Bool.false_eq_true, if_false]
    omega
  split
  · rcases hk : popAbove col s.indents 0 with ⟨stack, n⟩
    have count := popAbove_length col s.indents 0
    rw [hk] at count
    dsimp only at count ⊢
    split
    · simp only [measure, hf, hp, Bool.false_eq_true, if_false]
      omega
    · exact Nat.zero_le _
  · exact Nat.le_succ _

/-- At the start of a logical line the scanner skips to the line's code and reads on from
there: it stands on the rest of the input, no longer at a line start. -/
theorem lineStart_eq (s : Scanner) : ∃ (col : Nat) (t : Scanner),
    t.rest.length ≤ s.rest.length ∧ t.failed = s.failed ∧ t.atLineStart = false ∧
      t.indents = s.indents ∧ t.pendingDedents = s.pendingDedents ∧ t.brackets = s.brackets ∧
      (s.lineStart = (none, t) ∨ s.lineStart = t.indentTo col) := by
  obtain ⟨skipped, hr, -⟩ := skipToCode_split s.rest s.pos 0 false
  rcases hk : skipToCode s.rest s.pos 0 false with ⟨col, rest, pos⟩
  rw [hk] at hr
  dsimp only at hr
  refine ⟨col, { s with rest, pos, atLineStart := false }, ?_, rfl, rfl, rfl, rfl, rfl, ?_⟩
  · show rest.length ≤ _
    rw [hr, List.length_append]
    exact Nat.le_add_left _ _
  unfold lineStart
  rw [hk]
  cases rest with
  | nil => exact .inl rfl
  | cons _ _ => exact .inr rfl

/-- Every step that does not end the input lowers the measure. -/
theorem next_measure (s : Scanner) (he : s.next.1.token ≠ .eof) : s.next.2.measure < s.measure := by
  unfold next at he ⊢
  by_cases hf : s.failed = true
  · rw [if_pos hf] at he
    exact absurd rfl he
  rw [if_neg hf] at he ⊢
  have live : s.failed = false := by simpa using hf
  by_cases hd : 0 < s.pendingDedents
  · rw [if_pos hd]
    simp only [measure, live, Bool.false_eq_true, if_false]
    omega
  rw [if_neg hd] at he ⊢
  have hp : s.pendingDedents = 0 := by omega
  by_cases hl : (s.atLineStart && s.brackets.isEmpty) = true
  · rw [if_pos hl] at he ⊢
    have start : s.atLineStart = true := by simp_all
    obtain ⟨col, t, shorter, tf, tl, ti, tp, tb, e⟩ := lineStart_eq s
    -- skipping to the code pays for the line start
    have skip : t.measure + 2 ≤ s.measure := by
      simp only [measure, tf, live, tl, ti, tp, start, Bool.toNat_false, Bool.toNat_true,
        Bool.false_eq_true, if_false]
      omega
    have body : ∀ u : Scanner, s.lineStart = (none, u) → u = t := by
      intro u eu
      rcases e with e | e
      · rw [e] at eu
        exact (Prod.mk.inj eu).2.symm
      · rw [e] at eu
        exact (indentTo_none eu).trans rfl
    rcases hs : s.lineStart with ⟨_ | l, u⟩
    · rw [hs] at he
      dsimp only at he ⊢
      obtain rfl := body u hs
      have := scanBody_measure u u.rest (by rw [tf, live]) rfl (by rw [tp, hp])
        (fun h => by rw [tl] at h; cases h) he
      omega
    · rcases e with e | e
      · rw [e] at hs
        cases hs
      · rw [e] at hs
        have := indentTo_measure col (by rw [tf, live]) (by rw [tp, hp])
        rw [hs] at this
        dsimp only at this ⊢
        omega
  · rw [if_neg hl] at he ⊢
    exact scanBody_measure s s.rest live rfl hp (fun h => by simpa [h] using hl) he

end Steps

/-! ### The end of input comes first -/

/-- A scanner reads the end of input before its measure runs out. -/
theorem eof_mem_lexemes : ∀ (fuel : Nat) (s : Scanner), s.measure < fuel →
    ∃ l ∈ (lexemes fuel s #[]).toList, l.token = .eof
  | 0, _, h => absurd h (Nat.not_lt_zero _)
  | fuel + 1, s, h => by
    rw [lexemes_cons]
    by_cases he : s.next.1.token = .eof
    · exact ⟨_, List.mem_cons_self, he⟩
    · rw [if_neg (by simpa using he)]
      obtain ⟨l, m, hl⟩ := eof_mem_lexemes fuel s.next.2 (by have := next_measure s he; omega)
      exact ⟨l, List.mem_cons_of_mem _ m, hl⟩

/-- Once the end of input is read, more steps read nothing more. -/
theorem lexemes_stable : ∀ (fuel fuel' : Nat) (s : Scanner), fuel ≤ fuel' →
    (∃ l ∈ (lexemes fuel s #[]).toList, l.token = .eof) →
      (lexemes fuel' s #[]).toList = (lexemes fuel s #[]).toList
  | 0, _, _, _, ⟨_, m, _⟩ => by simp [lexemes] at m
  | fuel + 1, 0, _, le, _ => absurd le (Nat.not_succ_le_zero _)
  | fuel + 1, fuel' + 1, s, le, ⟨l, m, hl⟩ => by
    rw [lexemes_cons] at m ⊢
    rw [lexemes_cons]
    split
    · rfl
    · next going =>
      rw [if_neg going] at m
      rcases List.mem_cons.1 m with rfl | m
      · exact absurd (by rw [hl]; rfl) going
      · rw [lexemes_stable fuel fuel' _ (Nat.le_of_succ_le_succ le) ⟨l, m, hl⟩]

end Scanner

/-- The scan of every text ends with the end of input, before its steps run out. -/
theorem Lexeme.scan_ends (src : String) : ∃ l ∈ (Lexeme.scan src).toList, l.token = .eof := by
  refine Scanner.eof_mem_lexemes _ _ ?_
  have chars := Scanner.length_le_utf8Len src.toList
  rw [String.utf8Len_toList] at chars
  simp only [Scanner.measure, Scanner.ofSource]
  simp
  omega

end PyTune
