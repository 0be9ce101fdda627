import PyTune.Proofs.Reading

/-!
# The scanner keeps its lexemes in order

The scanner's position is the byte length of a prefix of the source (`Scanner.Valid`), and each
step stands at the end of the lexeme it gives (`Scanner.Steps`); so the tape of a source that
reads is `Tape.Ordered`.
-/

namespace PyTune

open String (utf8Len)

namespace Scanner

theorem utf8Length_eq : ∀ cs : List Char, utf8Length cs = utf8Len cs
  | [] => rfl
  | c :: cs => by
    rw [utf8Length, utf8Length_eq cs, String.utf8Len_cons, Nat.add_comm]

theorem utf8Len_eq_length : ∀ {cs : List Char}, (∀ c ∈ cs, c.utf8Size = 1) → utf8Len cs = cs.length
  | [], _ => rfl
  | c :: cs, h => by
    rw [String.utf8Len_cons, utf8Len_eq_length fun d hd => h d (List.mem_cons_of_mem c hd),
      h c List.mem_cons_self, List.length_cons]

/-- A scanner on a prefix of `src`: it has read the characters before its input, and its
position is their byte length. -/
structure Valid (src : String) (s : Scanner) : Prop where
  size_eq : s.size = src.utf8ByteSize
  read : ∃ pre, pre ++ s.rest = src.toList ∧ utf8Len pre = s.pos

namespace Valid

variable {src : String} {s s' : Scanner}

theorem start (src : String) : (ofSource src).Valid src :=
  ⟨rfl, [], rfl, rfl⟩

theorem boundary (h : s.Valid src) : Boundary src s.pos := by
  obtain ⟨pre, e, p⟩ := h.read
  exact ⟨pre, ⟨s.rest, e⟩, p⟩

/-- Reading on past `taken`: the scanner stands on a prefix again. -/
theorem consume (h : s.Valid src) {taken : List Char} (hr : s.rest = taken ++ s'.rest)
    (hp : s'.pos = s.pos + utf8Len taken) (hs : s'.size = s.size) : s'.Valid src := by
  obtain ⟨pre, e, p⟩ := h.read
  refine ⟨hs ▸ h.size_eq, pre ++ taken, ?_, ?_⟩
  · rw [List.append_assoc, ← hr, e]
  · rw [String.utf8Len_append, p, hp]

theorem same (h : s.Valid src) (hr : s'.rest = s.rest) (hp : s'.pos = s.pos)
    (hs : s'.size = s.size) : s'.Valid src :=
  h.consume (show s.rest = [] ++ s'.rest by rw [hr]; rfl) (by rw [hp]; rfl) hs

/-- Reading on past characters of one byte each. -/
theorem ascii (h : s.Valid src) {taken : List Char} (hr : s.rest = taken ++ s'.rest)
    (ht : ∀ c ∈ taken, c.utf8Size = 1) (hp : s'.pos = s.pos + taken.length)
    (hs : s'.size = s.size) : s'.Valid src :=
  h.consume hr (by rw [hp, utf8Len_eq_length ht]) hs

/-- At the end of the input the scanner stands at the end of the source. -/
theorem pos_of_rest (h : s.Valid src) (he : s.rest = []) : s.pos = src.utf8ByteSize := by
  obtain ⟨pre, e, p⟩ := h.read
  rw [he, List.append_nil] at e
  rw [← p, e, String.utf8Len_toList]

end Valid

/-- One lexeme read by a scanner on a prefix of `src`: it lies between two characters, at
or after where the scanner stood; unless it ends the input, the scanner after it stands on a
prefix again, at or after its end. -/
structure Steps (src : String) (s : Scanner) (l : Lexeme) (s' : Scanner) : Prop where
  start : Boundary src l.span.start
  stop : Boundary src l.span.stop
  after : s.pos ≤ l.span.start
  ordered : l.span.start ≤ l.span.stop
  next : l.token ≠ .eof → l.span.stop ≤ s'.pos ∧ s'.Valid src

namespace Steps

variable {src : String} {s s₁ s' : Scanner} {l : Lexeme}

/-- Blanks before a lexeme only move where it starts. -/
theorem lower (h : Steps src s₁ l s') (hle : s.pos ≤ s₁.pos) : Steps src s l s' :=
  ⟨h.start, h.stop, Nat.le_trans hle h.after, h.ordered, h.next⟩

/-- A lexeme from where the scanner stood to where it stands after. -/
theorem read (h : s.Valid src) (h' : s'.Valid src) (hle : s.pos ≤ s'.pos) (t : Token) :
    Steps src s ⟨t, ⟨s.pos, s'.pos⟩⟩ s' :=
  ⟨h.boundary, h'.boundary, Nat.le_refl _, hle, fun _ => ⟨Nat.le_refl _, h'⟩⟩

/-- A layout lexeme, empty, where the scanner stands. -/
theorem here (h : s.Valid src) (hr : s'.rest = s.rest) (hp : s'.pos = s.pos)
    (hs : s'.size = s.size) (t : Token) : Steps src s ⟨t, ⟨s.pos, s.pos⟩⟩ s' :=
  ⟨h.boundary, h.boundary, Nat.le_refl _, Nat.le_refl _,
    fun _ => ⟨Nat.le_of_eq hp.symm, h.same hr hp hs⟩⟩

end Steps

theorem fail_fault (s : Scanner) (start : Nat) (f : LexFault) :
    (s.fail start f).1.token.fault? = some f := rfl

theorem not_fail {s s' : Scanner} {start : Nat} {f : LexFault} {l : Lexeme}
    (e : s.fail start f = (l, s')) (hf : l.token.fault? = none) : False := by
  have hl : l = (s.fail start f).1 := by rw [e]
  rw [hl, fail_fault] at hf
  cases hf

/-! ### Characters of one byte -/

theorem utf8Size_of_isAlphanum {c : Char} (h : c.isAlphanum = true) : c.utf8Size = 1 := by
  rw [Char.utf8Size_eq_one_iff, UInt32.le_iff_toNat_le]
  simp [Char.isAlphanum, Char.isAlpha, Char.isUpper, Char.isLower, Char.isDigit,
    UInt32.le_iff_toNat_le] at h
  simp only [UInt32.reduceToNat, Char.toNat] at *
  omega

theorem utf8Size_of_blank {c : Char} (h : (c == ' ' || c == '\t' || c == '\r' || c == '\x0c') = true) :
    c.utf8Size = 1 := by
  simp only [Bool.or_eq_true, beq_iff_eq] at h
  rcases h with ((rfl | rfl) | rfl) | rfl <;> rfl

/-- A number is read in characters of one byte, and what it leaves is the rest. -/
theorem numberRun_split : ∀ (prev : Char) (cs : List Char),
    (numberRun prev cs).1 ++ (numberRun prev cs).2 = cs ∧ ∀ d ∈ (numberRun prev cs).1, d.utf8Size = 1
  | _, [] => ⟨rfl, fun _ h => absurd h List.not_mem_nil⟩
  | prev, c :: cs => by
    unfold numberRun
    split
    · next hc =>
      obtain ⟨e, ht⟩ := numberRun_split c cs
      rcases hn : numberRun c cs with ⟨digits, rest⟩
      rw [hn] at e ht
      have one : c.utf8Size = 1 := by
        simp only [Bool.or_eq_true, Bool.and_eq_true, beq_iff_eq] at hc
        rcases hc with ((ha | rfl) | rfl) | ⟨rfl | rfl, _⟩
        · exact utf8Size_of_isAlphanum ha
        all_goals rfl
      refine ⟨by rw [List.cons_append, e], fun d hd => ?_⟩
      rcases List.mem_cons.1 hd with rfl | hd
      · exact one
      · exact ht d hd
    · exact ⟨rfl, fun _ h => absurd h List.not_mem_nil⟩

/-- An operator takes characters of one byte, as many as it says. -/
theorem operator_taken {c : Char} {cs : List Char} {t : Token} {n : Nat}
    (h : operator c cs = some (t, n)) :
    0 < n ∧ n ≤ (c :: cs).length ∧ utf8Len ((c :: cs).take n) = n := by
  unfold operator at h
  split at h
  all_goals try (obtain ⟨-, rfl⟩ := Prod.mk.inj (Option.some.inj h); simp [String.utf8Len_cons]; decide)
  have one : c.utf8Size = 1 := by
    split at h
    · next hc =>
      have hc : c ∈ ['+', '%', '^', '&', '|', '-'] := List.contains_iff_mem.1 hc
      simp only [List.mem_cons, List.not_mem_nil, or_false] at hc
      rcases hc with rfl | rfl | rfl | rfl | rfl | rfl <;> rfl
    · split at h
      · next hc =>
        have hc : c ∈ ['/', '<', '>'] := List.contains_iff_mem.1 hc
        simp only [List.mem_cons, List.not_mem_nil, or_false] at hc
        rcases hc with rfl | rfl | rfl <;> rfl
      · cases h
  repeat' split at h
  all_goals first
    | obtain ⟨-, rfl⟩ := Prod.mk.inj (Option.some.inj h)
      try simp only [beq_iff_eq, List.head?_eq_some_iff] at *
      try obtain ⟨_, rfl⟩ := ‹∃ _, _ = _›
      simp_all [String.utf8Len_cons, show '='.utf8Size = 1 from rfl]
    | exact nomatch h

/-! ### Reading string literals -/

theorem stringStart?_eq {cs letters more : List Char} {q : Char}
    (h : stringStart? cs = some (letters, q, more)) : cs = letters ++ q :: more := by
  unfold stringStart? at h
  rw [List.span_eq_takeWhile_dropWhile] at h
  dsimp only at h
  split at h
  · next q' more' e =>
    obtain ⟨-, h⟩ := Option.ite_none_right_eq_some.1 h
    simp only [Option.some.injEq, Prod.mk.injEq] at h
    obtain ⟨rfl, rfl, rfl⟩ := h
    rw [← e, List.takeWhile_append_dropWhile]
  · cases h

/-- The body of a string literal is read off the front of the input. -/
theorem quotedBody_append (q : Char) (triple : Bool) (cs : List Char) :
    (quotedBody q triple cs).1 ++ (quotedBody q triple cs).2.2 = cs := by
  fun_induction quotedBody q triple cs <;> simp_all +zetaDelta

/-! ### One lexeme -/

variable {src : String} {s s' : Scanner} {l : Lexeme}

/-- A string literal: its lexeme runs from where the scanner stood over the prefix letters,
the opening quotes and the body up to the closing quotes. -/
theorem lexString_steps {letters more : List Char} {q : Char} (h : s.Valid src)
    (hr : s.rest = letters ++ q :: more) (e : s.lexString letters q more = (l, s'))
    (hf : l.token.fault? = none) : Steps src s l s' := by
  unfold lexString at e
  split at e
  next opening triple body ho =>
  have hopen : q :: more = opening ++ body := by
    split at ho
    · split at ho
      · next hab =>
        simp only [Bool.and_eq_true, beq_iff_eq] at hab
        simp only [Prod.mk.injEq] at ho
        obtain ⟨⟨rfl, rfl⟩, rfl, -, rfl⟩ := And.intro hab ho
        rfl
      · simp only [Prod.mk.injEq] at ho
        obtain ⟨rfl, -, rfl⟩ := ho
        rfl
    · simp only [Prod.mk.injEq] at ho
      obtain ⟨rfl, -, rfl⟩ := ho
      rfl
  split at e
  next read ending rest hq =>
  have hbody := quotedBody_append q triple body
  rw [hq] at hbody
  have valid : Valid src { s with rest, pos := s.pos + utf8Length (letters ++ opening ++ read) } := by
    refine h.consume ?_ (by rw [utf8Length_eq]) rfl
    rw [hr, hopen, ← hbody, List.append_assoc, List.append_assoc]
  split at e
  · obtain ⟨rfl, rfl⟩ := Prod.mk.inj e
    exact Steps.read h valid (Nat.le_add_right _ _) _
  · exact (not_fail e hf).elim
  · exact (not_fail e hf).elim

/-- A bracket, operator or delimiter: read in characters of one byte. -/
theorem punctuation_steps {c : Char} {cs : List Char} (h : s.Valid src) (hr : s.rest = c :: cs)
    (e : s.punctuation c cs = (l, s')) (hf : l.token.fault? = none) : Steps src s l s' := by
  have bracket : ∀ (s₁ : Scanner) t, s₁.rest = cs → s₁.pos = s.pos + 1 → s₁.size = s.size →
      c.utf8Size = 1 → Steps src s (s₁.emit s.pos t).1 (s₁.emit s.pos t).2 := by
    intro s₁ t hr₁ hp₁ hs₁ hc
    have valid : s₁.Valid src :=
      h.ascii (show s.rest = [c] ++ s₁.rest by rw [hr, hr₁]; rfl)
        (fun d hd => by rw [List.mem_singleton.1 hd]; exact hc) hp₁ hs₁
    exact Steps.read h valid (by rw [hp₁]; exact Nat.le_succ _) t
  unfold punctuation at e
  split at e
  · next hc =>
    obtain ⟨rfl, rfl⟩ := Prod.mk.inj e
    exact bracket _ _ rfl rfl rfl (by rw [beq_iff_eq.1 hc]; rfl)
  split at e
  · next hc =>
    obtain ⟨rfl, rfl⟩ := Prod.mk.inj e
    exact bracket _ _ rfl rfl rfl (by rw [beq_iff_eq.1 hc]; rfl)
  split at e
  · next hc =>
    obtain ⟨rfl, rfl⟩ := Prod.mk.inj e
    exact bracket _ _ rfl rfl rfl (by rw [beq_iff_eq.1 hc]; rfl)
  split at e
  · next hc =>
    have one : c.utf8Size = 1 := by
      simp only [Bool.or_eq_true, beq_iff_eq] at hc
      rcases hc with (rfl | rfl) | rfl <;> rfl
    split at e
    · exact (not_fail e hf).elim
    · split at e
      · obtain ⟨rfl, rfl⟩ := Prod.mk.inj e
        exact bracket _ _ rfl rfl rfl one
      · exact (not_fail e hf).elim
  split at e
  · next t n ht =>
    obtain ⟨pos, le, len⟩ := operator_taken ht
    obtain ⟨rfl, rfl⟩ := Prod.mk.inj e
    obtain ⟨m, rfl⟩ : ∃ m, n = m + 1 := ⟨n - 1, by omega⟩
    have valid : Valid src { s with rest := cs.drop m, pos := s.pos + (m + 1) } := by
      refine h.consume (show s.rest = (c :: cs).take (m + 1) ++ cs.drop m by
        rw [hr, List.take_succ_cons, List.cons_append, List.take_append_drop]) ?_ rfl
      rw [len]
    exact Steps.read h valid (Nat.le_add_right _ _) t
  · exact (not_fail e hf).elim

/-- At the end of the input: the dedents that close the open levels, then the end. -/
theorem atEnd_steps (h : s.Valid src) (e : s.atEnd = (l, s')) (hf : l.token.fault? = none) :
    Steps src s l s' := by
  unfold atEnd at e
  split at e
  · exact (not_fail e hf).elim
  · split at e
    · obtain ⟨rfl, rfl⟩ := Prod.mk.inj e
      refine Steps.here h ?_ ?_ ?_ _ <;> rfl
    · obtain ⟨rfl, rfl⟩ := Prod.mk.inj e
      refine Steps.here h ?_ ?_ ?_ _ <;> rfl

/-- One character of one byte read: the scanner stands on the rest of the input. -/
theorem Valid.skipOne {c : Char} (h : s.Valid src) (hr : s.rest = c :: s'.rest)
    (hc : c.utf8Size = 1) (hp : s'.pos = s.pos + 1) (hs : s'.size = s.size) : s'.Valid src :=
  h.ascii (show s.rest = [c] ++ s'.rest by rw [hr]; rfl)
    (fun d hd => by rw [List.mem_singleton.1 hd]; exact hc) hp hs

/-- Reading on inside a logical line: blanks, comments, continuations and line feeds inside
brackets are skipped, and then one lexeme is read. -/
theorem scanBody_steps (s : Scanner) (input : List Char) (h : s.Valid src)
    (hr : s.rest = input) (hf : (s.scanBody input).1.token.fault? = none) :
    Steps src s (s.scanBody input).1 (s.scanBody input).2 := by
  fun_induction scanBody s input with
  | case1 s => exact atEnd_steps h rfl hf
  | case2 s c cs start blank ih =>
    exact (ih (h.skipOne hr (utf8Size_of_blank blank) rfl rfl) rfl hf).lower (Nat.le_succ _)
  | case3 s c cs start _ newline _ =>
    have one : c.utf8Size = 1 := by rw [beq_iff_eq.1 newline]; rfl
    have valid : Valid src { s with rest := cs, pos := start + 1, atLineStart := true } :=
      h.skipOne hr one rfl rfl
    exact Steps.read h valid (Nat.le_succ _) _
  | case4 s c cs start _ newline _ ih =>
    have one : c.utf8Size = 1 := by rw [beq_iff_eq.1 newline]; rfl
    exact (ih (h.skipOne hr one rfl rfl) rfl hf).lower (Nat.le_succ _)
  | case5 s c start _ _ backslash r ih =>
    rw [beq_iff_eq.1 backslash] at hr
    have ht : ∀ d ∈ ['\\', '\r', '\n'], d.utf8Size = 1 := by
      intro d hd
      simp only [List.mem_cons, List.not_mem_nil, or_false] at hd
      rcases hd with rfl | rfl | rfl <;> rfl
    exact (ih (h.ascii (show s.rest = ['\\', '\r', '\n'] ++ r by rw [hr]; rfl) ht rfl rfl)
      rfl hf).lower (Nat.le_add_right _ _)
  | case6 s c start _ _ backslash r ih =>
    rw [beq_iff_eq.1 backslash] at hr
    have ht : ∀ d ∈ ['\\', '\n'], d.utf8Size = 1 := by
      intro d hd
      simp only [List.mem_cons, List.not_mem_nil, or_false] at hd
      rcases hd with rfl | rfl <;> rfl
    exact (ih (h.ascii (show s.rest = ['\\', '\n'] ++ r by rw [hr]; rfl) ht rfl rfl)
      rfl hf).lower (Nat.le_add_right _ _)
  | case7 => exact (not_fail rfl hf).elim
  | case8 => exact (not_fail rfl hf).elim
  | case9 s c cs start _ _ _ hash r _ comment ih =>
    have hr' : r = cs.dropWhile (· != '\n') := (congrArg Subtype.val comment).symm
    have valid : Valid src
        { s with rest := r, pos := start + 1 + utf8Length (cs.takeWhile (· != '\n')) } := by
      refine h.consume (show s.rest = (c :: cs.takeWhile (· != '\n')) ++ r by
        rw [hr, hr', List.cons_append, List.takeWhile_append_dropWhile]) ?_ rfl
      dsimp only [start]
      rw [utf8Length_eq, String.utf8Len_cons, beq_iff_eq.1 hash, show '#'.utf8Size = 1 from rfl]
      omega
    exact (ih valid rfl hf).lower (Nat.le_trans (Nat.le_succ _) (Nat.le_add_right _ _))
  | case10 s c cs _ _ _ _ letters q more opening =>
    exact lexString_steps h (by rw [hr, stringStart?_eq opening]) rfl hf
  | case11 s c cs start _ _ _ _ _ _ digits after run =>
    obtain ⟨e, ht⟩ := numberRun_split ' ' (c :: cs)
    rw [run] at e ht
    have valid : Valid src { s with rest := after, pos := start + digits.length } :=
      h.ascii (hr.trans e.symm) ht rfl rfl
    exact Steps.read h valid (Nat.le_add_right _ _) _
  | case12 s c cs start _ _ _ _ _ _ _ word after span =>
    have e : word ++ after = c :: cs := by
      rw [List.span_eq_takeWhile_dropWhile, Prod.mk.injEq] at span
      rw [← span.1, ← span.2, List.takeWhile_append_dropWhile]
    have valid : Valid src { s with rest := after, pos := start + utf8Length word } :=
      h.consume (hr.trans e.symm) (by rw [utf8Length_eq]) rfl
    exact Steps.read h valid (Nat.le_add_right _ _) _
  | case13 s c cs => exact punctuation_steps h hr rfl hf

/-! ### The start of a logical line -/

/-- Reading on over `taken`, after reading on from there. -/
theorem skipped_append (taken : List Char) {rest res : List Char} {pos pos' stop : Nat}
    (hp : pos' = pos + utf8Len taken) (ih : ∃ k, rest = k ++ res ∧ stop = pos' + utf8Len k) :
    ∃ k, taken ++ rest = k ++ res ∧ stop = pos + utf8Len k := by
  obtain ⟨k, rfl, rfl⟩ := ih
  exact ⟨taken ++ k, (List.append_assoc _ _ _).symm,
    by rw [hp, String.utf8Len_append, Nat.add_assoc]⟩

/-- Skipping to the code of a line reads on over what it skips. -/
theorem skipToCode_split (cs : List Char) (pos col : Nat) (inComment : Bool) :
    ∃ skipped, cs = skipped ++ (skipToCode cs pos col inComment).2.1 ∧
      (skipToCode cs pos col inComment).2.2 = pos + utf8Len skipped := by
  fun_induction skipToCode cs pos col inComment with
  | case1 => exact ⟨[], rfl, rfl⟩
  | case2 c cs pos col newline ih =>
    exact skipped_append [c] (by rw [beq_iff_eq.1 newline]; rfl) ih
  | case3 c cs pos col _ ih =>
    exact skipped_append [c] (by rw [String.utf8Len_cons, String.utf8Len_nil, Nat.zero_add]) ih
  | case4 cs pos col ih => exact skipped_append [' '] rfl ih
  | case5 cs pos col ih => exact skipped_append ['\t'] rfl ih
  | case6 cs pos col ih => exact skipped_append ['\x0c'] rfl ih
  | case7 cs pos col ih => exact skipped_append ['\n'] rfl ih
  | case8 cs pos col ih => exact skipped_append ['\r', '\n'] rfl ih
  | case9 cs pos col _ ih => exact skipped_append ['\r'] rfl ih
  | case10 cs pos col ih => exact skipped_append ['#'] rfl ih
  | case11 => exact ⟨[], rfl, rfl⟩

/-- Skipping inside a comment passes the rest of its line, and its line feed if it has one. -/
theorem skipToCode_comment : ∀ (a : List Char), '\n' ∉ a → ∀ {rest : List Char},
    (rest = [] ∨ rest.head? = some '\n') → ∀ pos col,
      pos + utf8Len (a ++ rest.take 1) ≤ (skipToCode (a ++ rest) pos col true).2.2
  | [], _, rest, hr, pos, col => by
    rcases hr with rfl | hr
    · simp [skipToCode]
    · obtain ⟨more, rfl⟩ : ∃ more, rest = '\n' :: more := by
        cases rest with
        | nil => cases hr
        | cons r more =>
          obtain rfl : r = '\n' := by simpa using hr
          exact ⟨more, rfl⟩
      obtain ⟨skipped, -, hp⟩ := skipToCode_split more (pos + 1) 0 false
      simp only [List.nil_append]
      rw [skipToCode.eq_2, if_pos (beq_self_eq_true _), hp]
      have one : '\n'.utf8Size = 1 := rfl
      simp [one]
  | c :: a, ha, rest, hr, pos, col => by
    have hc : (c == '\n') = false := by
      simpa using fun e : c = '\n' => ha (e ▸ List.mem_cons_self)
    have ih := skipToCode_comment a (fun m => ha (List.mem_cons_of_mem _ m)) hr (pos + c.utf8Size) col
    simp only [List.cons_append]
    rw [skipToCode.eq_2, hc, if_neg Bool.false_ne_true]
    calc pos + utf8Len (c :: (a ++ rest.take 1))
        = pos + c.utf8Size + utf8Len (a ++ rest.take 1) := by
          rw [String.utf8Len_cons]
          omega
      _ ≤ _ := ih

/-- Comparing the indentation of a line with the open levels gives, where the scanner stands,
an empty indent or dedent. -/
theorem indentTo_some {col : Nat} (h : s.Valid src) (e : s.indentTo col = (some l, s'))
    (hf : l.token.fault? = none) : Steps src s l s' := by
  unfold indentTo at e
  dsimp only at e
  repeat' split at e
  all_goals first
    | (cases e; done)
    | simp only [Prod.mk.injEq, Option.some.injEq] at e
      obtain ⟨rfl, rfl⟩ := e
      first
        | exact (not_fail rfl hf).elim
        | refine Steps.here h ?_ ?_ ?_ _ <;> rfl

theorem indentTo_none {col : Nat} (e : s.indentTo col = (none, s')) : s' = s := by
  unfold indentTo at e
  dsimp only at e
  repeat' split at e
  all_goals first
    | (cases e; done)
    | exact (Prod.mk.inj e).2.symm

/-- At the start of a logical line the scanner skips to the line's code, then either the
input has ended or the line's indentation is compared with the open levels. -/
theorem lineStart_cases (h : s.Valid src) : ∃ s₁ : Scanner, s₁.Valid src ∧ s.pos ≤ s₁.pos ∧
    s₁.pos = (skipToCode s.rest s.pos 0 false).2.2 ∧
    (s.lineStart = (none, s₁) ∨ ∃ col, s.lineStart = s₁.indentTo col) := by
  obtain ⟨skipped, hr, hp⟩ := skipToCode_split s.rest s.pos 0 false
  rcases hk : skipToCode s.rest s.pos 0 false with ⟨col, rest, pos⟩
  rw [hk] at hr hp
  dsimp only at hr hp
  refine ⟨{ s with rest, pos, atLineStart := false }, h.consume hr hp rfl,
    by dsimp only; rw [hp]; exact Nat.le_add_right _ _, rfl, ?_⟩
  unfold lineStart
  rw [hk]
  cases rest with
  | nil => exact .inl rfl
  | cons _ _ => exact .inr ⟨col, rfl⟩

/-- The lexeme read at the start of a line, from the scanner that has skipped to the line's
code. -/
theorem lineStart_steps (h : s.Valid src) (hs : ¬ s.failed = true) (hd : ¬ 0 < s.pendingDedents)
    (hl : (s.atLineStart && s.brackets.isEmpty) = true) (e : s.next = (l, s'))
    (hf : l.token.fault? = none) :
    ∃ s₁ : Scanner, s.pos ≤ s₁.pos ∧ s₁.pos = (skipToCode s.rest s.pos 0 false).2.2 ∧
      Steps src s₁ l s' := by
  obtain ⟨s₁, h₁, hle, hpos, hcases⟩ := lineStart_cases h
  refine ⟨s₁, hle, hpos, ?_⟩
  rw [next, if_neg hs, if_neg hd, if_pos hl] at e
  split at e
  · next l₀ s₀ hl₀ =>
    obtain ⟨rfl, rfl⟩ := Prod.mk.inj e
    rcases hcases with hc | ⟨col, hc⟩
    · rw [hc] at hl₀
      cases hl₀
    · rw [hc] at hl₀
      exact indentTo_some h₁ hl₀ hf
  · next s₀ hl₀ =>
    have same : s₀ = s₁ := by
      rcases hcases with hc | ⟨col, hc⟩
      · rw [hc] at hl₀
        cases hl₀
        rfl
      · rw [hc] at hl₀
        exact indentTo_none hl₀
    subst same
    have steps := scanBody_steps s₀ s₀.rest h₁ rfl (by rw [e]; exact hf)
    rw [e] at steps
    exact steps

/-- The next lexeme of a scanner on a prefix of the source, unless it is a lexical fault. -/
theorem next_steps (h : s.Valid src) (e : s.next = (l, s')) (hf : l.token.fault? = none) :
    Steps src s l s' := by
  by_cases hs : s.failed = true
  · -- after a fault: the end of input, at the end of the source
    rw [next, if_pos hs] at e
    obtain ⟨rfl, rfl⟩ := Prod.mk.inj e
    have size : Boundary src s.size := h.size_eq ▸ Boundary.size src
    exact ⟨size, size, h.size_eq ▸ h.boundary.le_size, Nat.le_refl _, fun ne => absurd rfl ne⟩
  by_cases hd : 0 < s.pendingDedents
  · rw [next, if_neg hs, if_pos hd] at e
    obtain ⟨rfl, rfl⟩ := Prod.mk.inj e
    refine Steps.here h ?_ ?_ ?_ _ <;> rfl
  by_cases hl : (s.atLineStart && s.brackets.isEmpty) = true
  · obtain ⟨s₁, hle, -, steps⟩ := lineStart_steps h hs hd hl e hf
    exact steps.lower hle
  · rw [next, if_neg hs, if_neg hd, if_neg hl] at e
    have steps := scanBody_steps s s.rest h rfl (by rw [e]; exact hf)
    rw [e] at steps
    exact steps

/-! ### The lexemes of a source -/

theorem lexemes_succ (fuel : Nat) (s : Scanner) (acc : Array Lexeme) :
    lexemes (fuel + 1) s acc =
      if s.next.1.token == .eof then acc.push s.next.1
      else lexemes fuel s.next.2 (acc.push s.next.1) := rfl

theorem lexemes_toList : ∀ (fuel : Nat) (s : Scanner) (acc : Array Lexeme),
    (lexemes fuel s acc).toList = acc.toList ++ (lexemes fuel s #[]).toList
  | 0, _, _ => by simp [lexemes]
  | fuel + 1, s, acc => by
    rw [lexemes_succ, lexemes_succ]
    split
    · simp
    · rw [lexemes_toList fuel _ (acc.push _), lexemes_toList fuel _ (#[].push _)]
      simp

/-- The lexemes read from a scanner: the next one, and unless it ends the input, those after
it. -/
theorem lexemes_cons (fuel : Nat) (s : Scanner) :
    (lexemes (fuel + 1) s #[]).toList =
      s.next.1 :: if s.next.1.token == .eof then [] else (lexemes fuel s.next.2 #[]).toList := by
  rw [lexemes_succ]
  split
  · simp
  · rw [lexemes_toList]
    simp

/-- Only the last lexeme read ends the input. -/
theorem lexemes_eof : ∀ (fuel : Nat) (s : Scanner) (k : Nat) (l : Lexeme),
    (lexemes fuel s #[]).toList[k]? = some l → l.token = .eof →
      (lexemes fuel s #[]).toList.length = k + 1
  | 0, _, _, _, h, _ => by simp [lexemes] at h
  | fuel + 1, s, k, l, h, he => by
    rw [lexemes_cons] at h ⊢
    split
    · next heof =>
      rw [if_pos heof] at h
      cases k with
      | zero => rfl
      | succ k => simp at h
    · next hne =>
      rw [if_neg hne] at h
      cases k with
      | zero =>
        simp only [List.getElem?_cons_zero, Option.some.injEq] at h
        subst h
        simp [he] at hne
      | succ k =>
        rw [List.getElem?_cons_succ] at h
        rw [List.length_cons, lexemes_eof fuel _ k l h he]

/-- Lexemes in order from `lo` on: each between two characters of `src`, starting at or after
the end of the one before. -/
def Chain (src : String) : Nat → List Lexeme → Prop
  | _, [] => True
  | lo, l :: ls => Boundary src l.span.start ∧ Boundary src l.span.stop ∧ lo ≤ l.span.start ∧
      l.span.start ≤ l.span.stop ∧ Chain src l.span.stop ls

theorem Chain.lower {lo lo' : Nat} (hle : lo ≤ lo') :
    ∀ {ls : List Lexeme}, Chain src lo' ls → Chain src lo ls
  | [], _ => trivial
  | _ :: _, ⟨a, b, c, d, e⟩ => ⟨a, b, Nat.le_trans hle c, d, e⟩

/-- A scanner on a prefix of the source reads lexemes in order, unless one is a fault. -/
theorem lexemes_chain : ∀ (fuel : Nat) (s : Scanner), s.Valid src →
    (∀ l ∈ (lexemes fuel s #[]).toList, l.token.fault? = none) →
    Chain src s.pos (lexemes fuel s #[]).toList
  | 0, _, _, _ => trivial
  | fuel + 1, s, h, hf => by
    rw [lexemes_cons] at hf ⊢
    have steps : Steps src s s.next.1 s.next.2 := next_steps h rfl (hf _ List.mem_cons_self)
    refine ⟨steps.start, steps.stop, steps.after, steps.ordered, ?_⟩
    split
    · trivial
    · next hne =>
      obtain ⟨stop, valid⟩ := steps.next fun he => hne (by rw [he]; rfl)
      rw [if_neg hne] at hf
      exact (lexemes_chain fuel _ valid fun l hl => hf l (List.mem_cons_of_mem _ hl)).lower stop

end Scanner

/-- The end of input at the end of `src`, as a tape gives it past its last lexeme. -/
def Lexeme.endOf (src : String) : Lexeme :=
  ⟨.eof, ⟨src.utf8ByteSize, src.utf8ByteSize⟩⟩

theorem Tape.lexemeAt_eq (t : Tape) (k : Nat) :
    t.lexemeAt k = t.lexemes.toList[k]?.getD (Lexeme.endOf t.source) := by
  simp [Tape.lexemeAt, Lexeme.endOf]

namespace Scanner.Chain

variable {src : String}

theorem head_le {lo : Nat} : ∀ {ls : List Lexeme}, Chain src lo ls → lo ≤ src.utf8ByteSize →
    lo ≤ (ls[0]?.getD (Lexeme.endOf src)).span.start
  | [], _, hle => hle
  | _ :: _, ⟨_, _, hlo, _, _⟩, _ => hlo

/-- Lexemes in order from `lo` all start at or after `lo`, and so does the end of input. -/
theorem start_ge {lo : Nat} : ∀ {ls : List Lexeme}, Chain src lo ls → lo ≤ src.utf8ByteSize →
    ∀ k : Nat, lo ≤ (ls[k]?.getD (Lexeme.endOf src)).span.start
  | [], _, hle, _ => hle
  | _ :: _, ⟨_, _, hlo, _, _⟩, _, 0 => hlo
  | _ :: _, ⟨_, hstop, hlo, hle, rest⟩, _, k + 1 =>
    Nat.le_trans (Nat.le_trans hlo hle) (start_ge rest hstop.le_size k)

/-- Lexemes in order, read as a tape: each lexeme, and past the last one the end of input,
lies between two characters, and ends at or before the next one starts. -/
theorem get {lo : Nat} : ∀ {ls : List Lexeme}, Chain src lo ls → ∀ k,
    Boundary src (ls[k]?.getD (Lexeme.endOf src)).span.start ∧
      Boundary src (ls[k]?.getD (Lexeme.endOf src)).span.stop ∧
      (ls[k]?.getD (Lexeme.endOf src)).span.start ≤ (ls[k]?.getD (Lexeme.endOf src)).span.stop ∧
      (ls[k]?.getD (Lexeme.endOf src)).span.stop ≤ (ls[k + 1]?.getD (Lexeme.endOf src)).span.start
  | [], _, _ => ⟨Boundary.size src, Boundary.size src, Nat.le_refl _, Nat.le_refl _⟩
  | _ :: _, ⟨hstart, hstop, _, hle, rest⟩, 0 =>
    ⟨hstart, hstop, hle, head_le rest hstop.le_size⟩
  | _ :: _, ⟨_, _, _, _, rest⟩, k + 1 => get rest k

end Scanner.Chain

theorem Tape.ordered_of_chain {t : Tape} {lo : Nat} (h : Scanner.Chain t.source lo t.lexemes.toList) :
    t.Ordered where
  start k := by rw [lexemeAt_eq]; exact (h.get k).1
  stop k := by rw [lexemeAt_eq]; exact (h.get k).2.1
  start_le_stop k := by rw [lexemeAt_eq]; exact (h.get k).2.2.1
  stop_le_next k := by rw [lexemeAt_eq, lexemeAt_eq]; exact (h.get k).2.2.2

/-- The lexemes of a source lie in order, each between two characters, when none of them is a
lexical fault. -/
theorem Tape.ordered_ofSource (src : String)
    (hf : ∀ l ∈ (Lexeme.scan src).toList, l.token.fault? = none) : (Tape.ofSource src).Ordered :=
  Tape.ordered_of_chain (Scanner.lexemes_chain _ _ (Scanner.Valid.start src) hf)

/-- In a source that fits, storing a lexeme's offsets in 32 bits keeps them, so what is proved
of the offsets of a fitting source holds of the offsets such a store holds. -/
theorem Tape.offsets_fit {src : String} (fits : Source.Fits src)
    (hf : ∀ l ∈ (Lexeme.scan src).toList, l.token.fault? = none) (k : Nat) :
    (UInt32.ofNat ((Tape.ofSource src).lexemeAt k).span.start).toNat =
        ((Tape.ofSource src).lexemeAt k).span.start ∧
      (UInt32.ofNat ((Tape.ofSource src).lexemeAt k).span.stop).toNat =
        ((Tape.ofSource src).lexemeAt k).span.stop := by
  have ordered := Tape.ordered_ofSource src hf
  have start_le : ((Tape.ofSource src).lexemeAt k).span.start ≤ src.utf8ByteSize :=
    (ordered.start k).le_size
  have stop_le : ((Tape.ofSource src).lexemeAt k).span.stop ≤ src.utf8ByteSize :=
    (ordered.stop k).le_size
  exact ⟨UInt32.toNat_ofNat_of_lt' (Nat.lt_of_le_of_lt start_le fits),
    UInt32.toNat_ofNat_of_lt' (Nat.lt_of_le_of_lt stop_le fits)⟩

/-- In a source whose first line is a comment, every lexeme starts after that line: reading
starts at a line start, and the skip to the line's code passes the whole comment. -/
theorem Tape.start_after_comment {src : String} {a rest : List Char}
    (hsrc : src.toList = '#' :: a ++ rest) (ha : '\n' ∉ a) (hr : rest = [] ∨ rest.head? = some '\n')
    (hf : ∀ l ∈ (Lexeme.scan src).toList, l.token.fault? = none) :
    ∀ k, utf8Len ('#' :: a ++ rest.take 1) ≤ ((Tape.ofSource src).lexemeAt k).span.start := by
  have list : (Lexeme.scan src).toList = (Scanner.ofSource src).next.1 ::
      if (Scanner.ofSource src).next.1.token == .eof then []
      else (Scanner.lexemes (4 * src.utf8ByteSize + 7) (Scanner.ofSource src).next.2 #[]).toList :=
    Scanner.lexemes_cons _ _
  have chain : Scanner.Chain src 0 (Lexeme.scan src).toList :=
    Scanner.lexemes_chain _ _ (Scanner.Valid.start src) hf
  have first := hf _ (by rw [list]; exact List.mem_cons_self)
  obtain ⟨s₁, -, hpos, steps⟩ := Scanner.lineStart_steps (Scanner.Valid.start src)
    Bool.false_ne_true (Nat.lt_irrefl 0) rfl rfl first
  have skipped : utf8Len ('#' :: a ++ rest.take 1) ≤ s₁.pos := by
    have comment := Scanner.skipToCode_comment a ha hr (0 + 1) 0
    rw [hpos, show (Scanner.ofSource src).rest = '#' :: (a ++ rest) by simp [Scanner.ofSource, hsrc],
      show (Scanner.ofSource src).pos = 0 from rfl, Scanner.skipToCode.eq_9]
    rw [List.cons_append, String.utf8Len_cons, show '#'.utf8Size = 1 from rfl]
    omega
  have within : utf8Len ('#' :: a ++ rest.take 1) ≤ src.utf8ByteSize := by
    have split : src.toList = ('#' :: a ++ rest.take 1) ++ rest.drop 1 := by
      rw [hsrc, List.append_assoc, List.take_append_drop]
    have sum := String.utf8Len_append ('#' :: a ++ rest.take 1) (rest.drop 1)
    rw [← String.utf8Len_toList, split]
    omega
  rw [list] at chain
  obtain ⟨hstart, hstop, -, hle, tail⟩ := chain
  have later : Scanner.Chain src (utf8Len ('#' :: a ++ rest.take 1)) (Lexeme.scan src).toList := by
    rw [list]
    exact ⟨hstart, hstop, Nat.le_trans skipped steps.after, hle, tail⟩
  intro k
  rw [Tape.lexemeAt_eq]
  exact later.start_ge within k

end PyTune
