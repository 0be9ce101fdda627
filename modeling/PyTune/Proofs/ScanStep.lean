import PyTune.Proofs.LexemeCount

/-!
# What one step of the scanner does

`Scanner.Step` says once what a step can do to the layout state and which lexeme it gives: it
passes a gap (`Scanner.Passed`) and reads one lexeme (`Scanner.Body`). The invariants of the
layout are case analyses over these relations.
-/

namespace PyTune

open String (utf8Len)

namespace Token

/-- The opening bracket that a token is. -/
def opening? : Token → Option Char
  | .lParen => some '('
  | .lBracket => some '['
  | .lBrace => some '{'
  | _ => none

/-- The opening bracket that a closing bracket matches. -/
def closing? : Token → Option Char
  | .rParen => some '('
  | .rBracket => some '['
  | .rBrace => some '{'
  | _ => none

variable {t : Token} {c : Char}

/-- A bracket is no lexical fault, no layout, and not of the other side. -/
theorem fault?_of_opening (h : t.opening? = some c) : t.fault? = none := by
  cases t <;> first | rfl | cases h

theorem isLayout_of_opening (h : t.opening? = some c) : t.isLayout = false := by
  cases t <;> first | rfl | cases h

theorem closing?_of_opening (h : t.opening? = some c) : t.closing? = none := by
  cases t <;> first | rfl | cases h

theorem fault?_of_closing (h : t.closing? = some c) : t.fault? = none := by
  cases t <;> first | rfl | cases h

theorem isLayout_of_closing (h : t.closing? = some c) : t.isLayout = false := by
  cases t <;> first | rfl | cases h

theorem opening?_of_closing (h : t.closing? = some c) : t.opening? = none := by
  cases t <;> first | rfl | cases h

/-- The source text that a lexeme of this token spans: one line feed for a line end, nothing
for indentation, a name's or a string literal's own text, and some text for every other token
of code. The end of input and a lexical fault spell no text. -/
def Spells : Token → List Char → Prop
  | .newline, text => text = ['\n']
  | .indent, text | .dedent, text => text = []
  | .name x, text | .str x, text | .fstr x, text => text ≠ [] ∧ x = String.ofList text
  | .eof, _ | .invalid _, _ => False
  | _, text => text ≠ []

end Token

namespace Lexeme

/-- Text that the scanner passes over between lexemes, piece after piece: blanks and line
breaks, comments up to their line feed, and backslash continuations. -/
inductive Gap : List Char → Prop
  | nil : Gap []
  | blank {c : Char} {cs : List Char} (hc : c = ' ' ∨ c = '\t' ∨ c = '\x0c' ∨ c = '\r' ∨ c = '\n')
      (h : Gap cs) : Gap (c :: cs)
  | comment {text cs : List Char} (ht : '\n' ∉ text) (h : Gap cs) : Gap ('#' :: text ++ cs)
  | continuation {cs : List Char} (h : Gap cs) : Gap ('\\' :: '\n' :: cs)
  | continuationCR {cs : List Char} (h : Gap cs) : Gap ('\\' :: '\r' :: '\n' :: cs)

namespace Gap

theorem append {a b : List Char} (ha : Gap a) (hb : Gap b) : Gap (a ++ b) := by
  induction ha with
  | nil => exact hb
  | blank hc _ ih => exact .blank hc ih
  | comment ht _ ih => simpa using Gap.comment ht ih
  | continuation _ ih => exact .continuation ih
  | continuationCR _ ih => exact .continuationCR ih

theorem single {c : Char} (hc : c = ' ' ∨ c = '\t' ∨ c = '\x0c' ∨ c = '\r' ∨ c = '\n') :
    Gap [c] :=
  .blank hc .nil

/-- A comment that runs to the end of what is skipped. -/
theorem commentText {text : List Char} (ht : '\n' ∉ text) : Gap ('#' :: text) := by
  simpa using Gap.comment ht .nil

/-- A comment is longer by any character but a line feed. -/
theorem comment_cons {c : Char} (hc : c ≠ '\n') :
    ∀ {xs : List Char}, Gap xs → ∀ {cs : List Char}, xs = '#' :: cs → Gap ('#' :: c :: cs) := by
  intro xs h
  induction h with
  | nil => exact fun e => absurd e (List.cons_ne_nil _ _).symm
  | blank hb _ _ =>
    intro cs e
    obtain ⟨rfl, -⟩ := List.cons.inj e
    simp at hb
  | @comment text rest ht h _ =>
    intro cs e
    rw [List.cons_append, List.cons.injEq] at e
    rw [← e.2]
    simpa using @Gap.comment (c :: text) _ (by simp [Ne.symm hc, ht]) h
  | continuation | continuationCR =>
    intro cs e
    simp at e

end Gap

end Lexeme

/-- A fault about brackets: a closing bracket that matches none, or a bracket left open. -/
def LexFault.isBracket : LexFault → Bool
  | .unmatchedClose _ | .mismatchedClose _ _ | .unclosed _ => true
  | _ => false

namespace Scanner

/-- A closing bracket. -/
def isCloser (c : Char) : Bool :=
  c == ')' || c == ']' || c == '}'

/-- `s'` stands further on than `s` in the same logical line, past `skipped`, a gap; nothing
but where it stands has changed. -/
structure Passed (s : Scanner) (skipped : List Char) (s' : Scanner) : Prop where
  eq : s' = { s with rest := s'.rest, pos := s'.pos }
  rest : s.rest = skipped ++ s'.rest
  pos : s'.pos = s.pos + utf8Len skipped
  gap : Lexeme.Gap skipped

namespace Passed

theorem refl (s : Scanner) : Passed s [] s :=
  ⟨rfl, rfl, rfl, .nil⟩

/-- Passing characters one after another. -/
theorem trans {s s₁ s₂ : Scanner} {a b : List Char} (h₁ : Passed s a s₁) (h₂ : Passed s₁ b s₂) :
    Passed s (a ++ b) s₂ := by
  refine ⟨?_, ?_, ?_, h₁.gap.append h₂.gap⟩
  · rw [h₂.eq, h₁.eq]
  · rw [h₁.rest, h₂.rest, List.append_assoc]
  · rw [h₂.pos, h₁.pos, String.utf8Len_append, Nat.add_assoc]

/-- Passing a gap at the front of the input, then reading on from there. -/
theorem front {s : Scanner} {taken rest : List Char} (hr : s.rest = taken ++ rest) (pos : Nat)
    (hp : pos = s.pos + utf8Len taken) (hg : Lexeme.Gap taken) : Passed s taken { s with rest, pos } :=
  ⟨rfl, hr, hp, hg⟩

theorem valid {src : String} {s s' : Scanner} {skipped : List Char} (h : Passed s skipped s')
    (hv : s.Valid src) : s'.Valid src :=
  hv.consume h.rest h.pos (by rw [h.eq])

variable {s s' : Scanner} {skipped : List Char}

theorem le (h : Passed s skipped s') : s.pos ≤ s'.pos := by
  rw [h.pos]
  exact Nat.le_add_right _ _

theorem brackets (h : Passed s skipped s') : s'.brackets = s.brackets :=
  by rw [h.eq]

theorem failed (h : Passed s skipped s') : s'.failed = s.failed :=
  by rw [h.eq]

theorem pendingDedents (h : Passed s skipped s') : s'.pendingDedents = s.pendingDedents :=
  by rw [h.eq]

theorem indents (h : Passed s skipped s') : s'.indents = s.indents :=
  by rw [h.eq]

end Passed

/-- Skipping to the code of a line moves the scanner on over the source. -/
theorem Valid.skipToCode {src : String} {s : Scanner} {col pos : Nat} {rest : List Char}
    (h : s.Valid src) (hk : skipToCode s.rest s.pos 0 false = (col, rest, pos)) :
    { s with rest, pos, atLineStart := false }.Valid src ∧ s.pos ≤ pos := by
  obtain ⟨skipped, hr, hp⟩ := skipToCode_split s.rest s.pos 0 false
  rw [hk] at hr hp
  dsimp only at hr hp
  refine ⟨h.consume hr hp rfl, ?_⟩
  rw [hp]
  exact Nat.le_add_right _ _

/-- One lexeme read from `s`, which stands where the lexeme starts or at the end of the input,
and the scanner after it. -/
inductive Body (s : Scanner) : Lexeme × Scanner → Prop
  /-- The end of the input with brackets open: a fault at the innermost one. -/
  | unclosed {o : Char} {p : Nat} {outer : List (Char × Nat)} (hr : s.rest = [])
      (hb : s.brackets = (o, p) :: outer) :
      Body s (⟨.invalid (.unclosed o), ⟨p, max s.pos p⟩⟩, { s with failed := true })
  /-- The end of the input with levels open: the first of the dedents that close them. -/
  | closeLevels {a b : Nat} {r : List Nat} (hr : s.rest = []) (hb : s.brackets = [])
      (hi : s.indents = a :: b :: r) :
      Body s (⟨.dedent, ⟨s.pos, s.pos⟩⟩,
        { s with indents := [0], pendingDedents := s.indents.length - 2 })
  /-- The end of the input. -/
  | eof (hr : s.rest = []) (hb : s.brackets = []) (hi : s.indents.length ≤ 1) :
      Body s (⟨.eof, ⟨s.pos, s.pos⟩⟩, s)
  /-- A line feed outside brackets ends the logical line. -/
  | lineEnd {cs : List Char} (hr : s.rest = '\n' :: cs) (hb : s.brackets = []) :
      Body s (⟨.newline, ⟨s.pos, s.pos + 1⟩⟩,
        { s with rest := cs, pos := s.pos + 1, atLineStart := true })
  /-- An opening bracket, open from where it stands. -/
  | opening {c : Char} {cs : List Char} {t : Token} (hr : s.rest = c :: cs)
      (ht : t.opening? = some c) :
      Body s (⟨t, ⟨s.pos, s.pos + 1⟩⟩,
        { s with rest := cs, pos := s.pos + 1, brackets := (c, s.pos) :: s.brackets })
  /-- A closing bracket of the kind of the innermost open one, which it closes. -/
  | closing {c : Char} {cs : List Char} {t : Token} {p : Nat} {outer : List (Char × Nat)}
      (hr : s.rest = c :: cs) (hc : isCloser c = true) (ht : t.closing? = some (openerOf c))
      (hb : s.brackets = (openerOf c, p) :: outer) :
      Body s (⟨t, ⟨s.pos, s.pos + 1⟩⟩, { s with rest := cs, pos := s.pos + 1, brackets := outer })
  /-- A closing bracket with no bracket open. -/
  | unmatched {c : Char} {cs : List Char} (hr : s.rest = c :: cs) (hc : isCloser c = true)
      (hb : s.brackets = []) :
      Body s (⟨.invalid (.unmatchedClose c), ⟨s.pos, s.pos + 1⟩⟩,
        { s with rest := cs, pos := s.pos + 1, failed := true })
  /-- A closing bracket of another kind than the innermost open one. -/
  | mismatched {c : Char} {cs : List Char} {o : Char} {p : Nat} {outer : List (Char × Nat)}
      (hr : s.rest = c :: cs) (hc : isCloser c = true) (hb : s.brackets = (o, p) :: outer)
      (ho : o ≠ openerOf c) :
      Body s (⟨.invalid (.mismatchedClose o c), ⟨s.pos, s.pos + 1⟩⟩,
        { s with rest := cs, pos := s.pos + 1, failed := true })
  /-- Any other token: the scanner moves past the text it spells, and its layout stays. -/
  | token {t : Token} {rest : List Char} {pos : Nat} (ho : t.opening? = none)
      (hc : t.closing? = none) (hl : t.isLayout = false) (hf : t.fault? = none)
      {taken : List Char} (hr : s.rest = taken ++ rest) (hp : pos = s.pos + utf8Len taken)
      (hs : t.Spells taken) :
      Body s (⟨t, ⟨s.pos, pos⟩⟩, { s with rest, pos })
  /-- Any other fault: an unfinished string literal, a bad continuation, a character that
  starts no token. It spans what the scanner read since it stood here. -/
  | fault {f : LexFault} {sp : Span} {rest : List Char} {pos : Nat} (hf : f.isBracket = false)
      {taken : List Char} (hr : s.rest = taken ++ rest) (hp : pos = s.pos + utf8Len taken)
      (hsp : sp = ⟨s.pos, pos⟩) :
      Body s (⟨.invalid f, sp⟩, { s with rest, pos, failed := true })

/-- A lexeme read inside a line that is no lexical fault leaves the scanner live, and owing
the dedents it owed unless it closes the levels at the end of input, outside brackets. -/
theorem Body.keeps {s : Scanner} {r : Lexeme × Scanner} (h : Body s r)
    (hf : r.1.token.fault? = none) :
    r.2.failed = s.failed ∧ (r.2.pendingDedents = s.pendingDedents ∨ r.2.brackets = []) := by
  cases h with
  | unclosed | unmatched | mismatched | fault => exact absurd hf (Option.some_ne_none _)
  | closeLevels _ hb => exact ⟨rfl, .inr hb⟩
  | eof | lineEnd | opening | closing | token => exact ⟨rfl, .inl rfl⟩

/-! ### Reading one lexeme -/

theorem atEnd_body {s : Scanner} (hr : s.rest = []) : Body s s.atEnd := by
  unfold atEnd
  split
  · next o p outer hb => exact .unclosed hr hb
  · next hb =>
    split
    · next a b r hi =>
      have closes := Body.closeLevels (s := s) hr hb hi
      rwa [hi] at closes ⊢
    · next hi =>
      refine .eof hr hb ?_
      rcases h : s.indents with _ | ⟨a, _ | ⟨b, r⟩⟩
      · exact Nat.zero_le _
      · exact Nat.le_refl _
      · exact (hi a b r h).elim

theorem operator_plain {c : Char} {cs : List Char} {t : Token} {n : Nat}
    (h : operator c cs = some (t, n)) :
    t.opening? = none ∧ t.closing? = none ∧ t.isLayout = false ∧ t.fault? = none := by
  unfold operator at h
  repeat' split at h
  all_goals first
    | obtain ⟨rfl, -⟩ := Prod.mk.inj (Option.some.inj h); exact ⟨rfl, rfl, rfl, rfl⟩
    | cases h

/-- An operator spells any text it is read from. -/
theorem operator_spells {c : Char} {cs taken : List Char} {t : Token} {n : Nat}
    (h : operator c cs = some (t, n)) (hne : taken ≠ []) : t.Spells taken := by
  unfold operator at h
  repeat' split at h
  all_goals first
    | obtain ⟨rfl, -⟩ := Prod.mk.inj (Option.some.inj h); exact hne
    | cases h

/-- A character that starts no name is one byte long. -/
theorem utf8Size_of_not_isNameChar {c : Char} (h : isNameChar c = false) : c.utf8Size = 1 := by
  rw [Char.utf8Size_eq_one_iff, UInt32.le_iff_toNat_le]
  simp only [isNameChar, Bool.or_eq_false_iff, decide_eq_false_iff_not, Nat.not_le] at h
  exact Nat.le_of_lt_succ h.2

theorem punctuation_body {s : Scanner} {c : Char} {cs : List Char} (hr : s.rest = c :: cs)
    (hn : isNameChar c = false) : Body s (s.punctuation c cs) := by
  unfold punctuation
  split
  · next open_ =>
    rw [beq_iff_eq.1 open_] at hr ⊢
    exact .opening hr rfl
  split
  · next open_ =>
    rw [beq_iff_eq.1 open_] at hr ⊢
    exact .opening hr rfl
  split
  · next open_ =>
    rw [beq_iff_eq.1 open_] at hr ⊢
    exact .opening hr rfl
  split
  · next closer =>
    have one : max (s.pos + 1) s.pos = s.pos + 1 := Nat.max_eq_left (Nat.le_succ _)
    split
    · next hb =>
      unfold fail
      dsimp only
      rw [one]
      exact .unmatched hr closer hb
    · next o p outer hb =>
      split
      · next same =>
        rw [beq_iff_eq.1 same] at hb
        refine .closing hr closer ?_ hb
        simp only [Bool.or_eq_true, beq_iff_eq] at closer
        rcases closer with (rfl | rfl) | rfl <;> rfl
      · next other =>
        unfold fail
        dsimp only
        rw [one]
        exact .mismatched hr closer hb (by simpa using other)
  split
  · next t n ht =>
    obtain ⟨ho, hc, hl, hf⟩ := operator_plain ht
    obtain ⟨pos, le, len⟩ := operator_taken ht
    obtain ⟨m, rfl⟩ : ∃ m, n = m + 1 := ⟨n - 1, by omega⟩
    refine @Body.token _ _ _ _ ho hc hl hf ((c :: cs).take (m + 1)) ?_ (by rw [len]) ?_
    · rw [hr, List.take_succ_cons, List.cons_append, Nat.add_sub_cancel, List.take_append_drop]
    · exact operator_spells ht (by simp)
  · -- a character that starts no token is one byte, and the fault spans it
    have one : max (s.pos + 1) s.pos = s.pos + 1 := Nat.max_eq_left (Nat.le_succ _)
    refine .fault rfl (show s.rest = [c] ++ cs from hr) ?_ (by rw [one])
    rw [String.utf8Len_cons, String.utf8Len_nil, utf8Size_of_not_isNameChar hn]

/-- A string literal spells its text, the prefix letters and quotes included. -/
theorem literal_spells (p : Prop) [Decidable p] {text : List Char} (hne : text ≠ []) :
    (if p then Token.fstr (String.ofList text) else .str (String.ofList text)).Spells text := by
  by_cases h : p <;> simp only [h, if_true, if_false] <;> exact ⟨hne, rfl⟩

/-- A string literal, plain or formatted, is no bracket, layout or fault. -/
theorem literal_plain (p : Prop) [Decidable p] (raw : String) :
    (if p then Token.fstr raw else .str raw).opening? = none ∧
      (if p then Token.fstr raw else .str raw).closing? = none ∧
      (if p then Token.fstr raw else .str raw).isLayout = false ∧
      (if p then Token.fstr raw else .str raw).fault? = none := by
  by_cases h : p <;> simp only [h, if_true, if_false] <;> exact ⟨rfl, rfl, rfl, rfl⟩

/-- A name or a keyword is no bracket, layout or fault. -/
theorem word_plain (k? : Option Keyword) (text : String) :
    (match k? with | some k => Token.keyword k | none => .name text).opening? = none ∧
      (match k? with | some k => Token.keyword k | none => .name text).closing? = none ∧
      (match k? with | some k => Token.keyword k | none => .name text).isLayout = false ∧
      (match k? with | some k => Token.keyword k | none => .name text).fault? = none := by
  cases k? <;> exact ⟨rfl, rfl, rfl, rfl⟩

theorem lexString_body {s : Scanner} {letters more : List Char} {q : Char}
    (hr : s.rest = letters ++ q :: more) : Body s (s.lexString letters q more) := by
  unfold lexString
  split
  next opening triple body ho =>
  obtain ⟨hopen, opened⟩ : q :: more = opening ++ body ∧ opening ≠ [] := by
    split at ho
    · split at ho
      · next hab =>
        simp only [Bool.and_eq_true, beq_iff_eq] at hab
        simp only [Prod.mk.injEq] at ho
        obtain ⟨⟨rfl, rfl⟩, rfl, -, rfl⟩ := And.intro hab ho
        exact ⟨rfl, List.cons_ne_nil _ _⟩
      · simp only [Prod.mk.injEq] at ho
        obtain ⟨rfl, -, rfl⟩ := ho
        exact ⟨rfl, List.cons_ne_nil _ _⟩
    · simp only [Prod.mk.injEq] at ho
      obtain ⟨rfl, -, rfl⟩ := ho
      exact ⟨rfl, List.cons_ne_nil _ _⟩
  split
  next read ending rest hq =>
  have hbody := quotedBody_append q triple body
  rw [hq] at hbody
  dsimp only at hbody
  have taken : s.rest = (letters ++ opening ++ read) ++ rest := by
    rw [hr, hopen, ← hbody]
    simp only [List.append_assoc]
  have hp : s.pos + utf8Length (letters ++ opening ++ read) =
      s.pos + utf8Len (letters ++ opening ++ read) := by
    rw [utf8Length_eq]
  have ahead : max (s.pos + utf8Length (letters ++ opening ++ read)) s.pos =
      s.pos + utf8Length (letters ++ opening ++ read) :=
    Nat.max_eq_left (Nat.le_add_right _ _)
  split
  · obtain ⟨ho, hc, hl, hf⟩ :=
      literal_plain ((letters.any fun c => c == 'f' || c == 'F') = true) _
    exact .token ho hc hl hf taken hp (literal_spells _ (by simp [opened]))
  · exact .fault rfl taken hp (by simp only [ahead])
  · exact .fault (by rw [apply_ite LexFault.isBracket]; exact ite_self false) taken hp
      (by simp only [ahead])

/-- A blank that the scanner passes inside a line is a gap. -/
theorem gap_of_blank {c : Char} (h : (c == ' ' || c == '\t' || c == '\r' || c == '\x0c') = true) :
    Lexeme.Gap [c] := by
  simp only [Bool.or_eq_true, beq_iff_eq] at h
  refine .single ?_
  rcases h with ((rfl | rfl) | rfl) | rfl <;> simp

/-- The text of a comment runs up to its line feed. -/
theorem lf_not_mem_takeWhile (cs : List Char) : '\n' ∉ cs.takeWhile (· != '\n') := by
  intro m
  simpa using List.mem_takeWhile_imp m

/-- Reading on inside a logical line: the scanner passes blanks, comments, continuations and
line feeds in brackets, and then reads one lexeme from where it stands. -/
theorem scanBody_cases (s : Scanner) (input : List Char) (hr : s.rest = input) :
    ∃ skipped s₀, Passed s skipped s₀ ∧ Body s₀ (s.scanBody input) := by
  fun_induction scanBody s input with
  | case1 s => exact ⟨[], s, .refl s, atEnd_body hr⟩
  | case2 s c cs start blank ih =>
    obtain ⟨skipped, s₀, passed, body⟩ := ih rfl
    refine ⟨[c] ++ skipped, s₀, Passed.trans (Passed.front hr _ ?_ (gap_of_blank blank)) passed,
      body⟩
    rw [String.utf8Len_cons, String.utf8Len_nil, utf8Size_of_blank blank]
  | case3 s c cs start _ newline hb =>
    rw [beq_iff_eq.1 newline] at hr
    exact ⟨[], s, .refl s, .lineEnd hr (List.isEmpty_iff.1 hb)⟩
  | case4 s c cs start _ newline _ ih =>
    obtain ⟨skipped, s₀, passed, body⟩ := ih rfl
    rw [beq_iff_eq.1 newline] at hr
    exact ⟨['\n'] ++ skipped, s₀,
      Passed.trans (Passed.front hr _ rfl (.single (by simp))) passed, body⟩
  | case5 s c start _ _ backslash r ih =>
    obtain ⟨skipped, s₀, passed, body⟩ := ih rfl
    rw [beq_iff_eq.1 backslash] at hr
    exact ⟨['\\', '\r', '\n'] ++ skipped, s₀,
      Passed.trans (Passed.front hr _ rfl (.continuationCR .nil)) passed, body⟩
  | case6 s c start _ _ backslash r ih =>
    obtain ⟨skipped, s₀, passed, body⟩ := ih rfl
    rw [beq_iff_eq.1 backslash] at hr
    exact ⟨['\\', '\n'] ++ skipped, s₀,
      Passed.trans (Passed.front hr _ rfl (.continuation .nil)) passed, body⟩
  | case7 s c start _ _ backslash r =>
    rw [beq_iff_eq.1 backslash] at hr
    exact ⟨[], s, .refl s,
      .fault rfl (show s.rest = ['\\', '\r'] ++ _ from hr) rfl
        (congrArg (Span.mk s.pos) (Nat.max_eq_left (Nat.le_add_right _ 2)))⟩
  | case8 s c start _ _ backslash r =>
    rw [beq_iff_eq.1 backslash] at hr
    exact ⟨[], s, .refl s,
      .fault rfl (show s.rest = ['\\'] ++ _ from hr) rfl
        (congrArg (Span.mk s.pos) (Nat.max_eq_left (Nat.le_succ _)))⟩
  | case9 s c cs start _ _ _ hash r _ comment ih =>
    obtain ⟨skipped, s₀, passed, body⟩ := ih rfl
    have hr' : r = cs.dropWhile (· != '\n') := (congrArg Subtype.val comment).symm
    refine ⟨(c :: cs.takeWhile (· != '\n')) ++ skipped, s₀,
      Passed.trans (Passed.front ?_ _ ?_ ?_) passed, body⟩
    · rw [hr, hr', List.cons_append, List.takeWhile_append_dropWhile]
    · dsimp only [start]
      rw [utf8Length_eq, String.utf8Len_cons, beq_iff_eq.1 hash, show '#'.utf8Size = 1 from rfl]
      omega
    · rw [beq_iff_eq.1 hash]
      exact .commentText (lf_not_mem_takeWhile cs)
  | case10 s c cs _ _ _ _ letters q more opening =>
    exact ⟨[], s, .refl s, lexString_body (by rw [hr, stringStart?_eq opening])⟩
  | case11 s c cs start _ _ _ _ _ number digits after run =>
    obtain ⟨e, ht⟩ := numberRun_split ' ' (c :: cs)
    have ne := numberRun_ne_nil number
    rw [run] at e ht ne
    exact ⟨[], s, .refl s, .token rfl rfl rfl rfl (hr.trans e.symm)
      (by rw [utf8Len_eq_length ht]) ne⟩
  | case12 s c cs start _ _ _ _ _ _ name word after span =>
    obtain ⟨ho, hc, hl, hf⟩ := word_plain (Keyword.ofName? (String.ofList word)) _
    rw [List.span_eq_takeWhile_dropWhile, Prod.mk.injEq] at span
    have e : word ++ after = c :: cs := by
      rw [← span.1, ← span.2, List.takeWhile_append_dropWhile]
    have ne : word ≠ [] := by
      rw [← span.1, List.takeWhile_cons_of_pos name]
      exact List.cons_ne_nil _ _
    refine ⟨[], s, .refl s, .token ho hc hl hf (hr.trans e.symm) (by rw [utf8Length_eq]) ?_⟩
    cases Keyword.ofName? (String.ofList word) with
    | some k => exact ne
    | none => exact ⟨ne, rfl⟩
  | case13 s c cs _ _ _ _ _ _ notName =>
    exact ⟨[], s, .refl s, punctuation_body hr (by simpa using notName)⟩

/-! ### One step -/

/-- One step of the scanner from `s`, and the scanner after it. -/
inductive Step (s : Scanner) : Lexeme × Scanner → Prop
  /-- After a fault only the end of the input comes, at the end of the source. -/
  | ended (hf : s.failed = true) : Step s (⟨.eof, ⟨s.size, s.size⟩⟩, s)
  /-- A dedent that an earlier line start owes. -/
  | owed (hf : s.failed = false) (hd : 0 < s.pendingDedents) :
      Step s (⟨.dedent, ⟨s.pos, s.pos⟩⟩, { s with pendingDedents := s.pendingDedents - 1 })
  /-- At a line start, the line's code stands deeper than the innermost level: a level opens. -/
  | indent {col : Nat} {rest : List Char} {pos : Nat} (hf : s.failed = false)
      (hd : s.pendingDedents = 0) (hl : s.atLineStart = true) (hb : s.brackets = [])
      (hk : skipToCode s.rest s.pos 0 false = (col, rest, pos)) (hne : rest ≠ [])
      (deeper : s.indents.head?.getD 0 < col) :
      Step s (⟨.indent, ⟨pos, pos⟩⟩,
        { s with rest, pos, atLineStart := false, indents := col :: s.indents })
  /-- The line's code stands shallower, at an open level: the levels above it close, the first
  with this dedent and the others owed. -/
  | dedent {col : Nat} {rest : List Char} {pos : Nat} (hf : s.failed = false)
      (hd : s.pendingDedents = 0) (hl : s.atLineStart = true) (hb : s.brackets = [])
      (hk : skipToCode s.rest s.pos 0 false = (col, rest, pos)) (hne : rest ≠ [])
      (shallower : col < s.indents.head?.getD 0)
      (found : (popAbove col s.indents 0).1.head? = some col) :
      Step s (⟨.dedent, ⟨pos, pos⟩⟩,
        { s with
          rest, pos, atLineStart := false, indents := (popAbove col s.indents 0).1,
          pendingDedents := (popAbove col s.indents 0).2 - 1 })
  /-- The line's code stands shallower, at no open level: a fault. -/
  | badDedent {col : Nat} {rest : List Char} {pos : Nat} (hf : s.failed = false)
      (hd : s.pendingDedents = 0) (hl : s.atLineStart = true) (hb : s.brackets = [])
      (hk : skipToCode s.rest s.pos 0 false = (col, rest, pos)) (hne : rest ≠ [])
      (shallower : col < s.indents.head?.getD 0)
      (missing : (popAbove col s.indents 0).1.head? ≠ some col) :
      Step s (⟨.invalid .badDedent, ⟨pos, pos⟩⟩,
        { s with rest, pos, atLineStart := false, failed := true })
  /-- At a line start, the line's code stands at the innermost level, or the input has ended
  after blank lines: the lexeme is read from there. -/
  | lineCode {col : Nat} {rest : List Char} {pos : Nat} {skipped : List Char} {s₀ : Scanner}
      {r : Lexeme × Scanner} (hf : s.failed = false) (hd : s.pendingDedents = 0)
      (hl : s.atLineStart = true) (hb : s.brackets = [])
      (hk : skipToCode s.rest s.pos 0 false = (col, rest, pos))
      (level : rest = [] ∨ col = s.indents.head?.getD 0)
      (passed : Passed { s with rest, pos, atLineStart := false } skipped s₀) (read : Body s₀ r) :
      Step s r
  /-- Inside a logical line, or inside brackets, the lexeme is read from where the scanner
  stands. -/
  | inLine {skipped : List Char} {s₀ : Scanner} {r : Lexeme × Scanner} (hf : s.failed = false)
      (hd : s.pendingDedents = 0) (inside : s.atLineStart = false ∨ s.brackets ≠ [])
      (passed : Passed s skipped s₀) (read : Body s₀ r) : Step s r

/-- Every step of the scanner is one of `Step`'s. -/
theorem next_step (s : Scanner) : Step s s.next := by
  unfold next
  by_cases hf : s.failed = true
  · rw [if_pos hf]
    exact .ended hf
  rw [if_neg hf]
  have live : s.failed = false := by simpa using hf
  by_cases hd : 0 < s.pendingDedents
  · rw [if_pos hd]
    exact .owed live hd
  rw [if_neg hd]
  have none_owed : s.pendingDedents = 0 := by omega
  by_cases hl : (s.atLineStart && s.brackets.isEmpty) = true
  · rw [if_pos hl]
    obtain ⟨start, empty⟩ := Bool.and_eq_true_iff.1 hl
    have empty : s.brackets = [] := List.isEmpty_iff.1 empty
    rcases hk : skipToCode s.rest s.pos 0 false with ⟨col, rest, pos⟩
    unfold lineStart
    rw [hk]
    dsimp only
    cases rest with
    | nil =>
      obtain ⟨skipped, s₀, passed, read⟩ :=
        scanBody_cases { s with rest := [], pos, atLineStart := false } _ rfl
      exact .lineCode live none_owed start empty hk (.inl rfl) passed read
    | cons c cs =>
      have hne : c :: cs ≠ [] := List.cons_ne_nil _ _
      unfold indentTo
      dsimp only
      by_cases deeper : s.indents.head?.getD 0 < col
      · rw [if_pos deeper]
        exact .indent live none_owed start empty hk hne deeper
      rw [if_neg deeper]
      by_cases shallower : col < s.indents.head?.getD 0
      · rw [if_pos shallower]
        by_cases found : (popAbove col s.indents 0).1.head? = some col
        · rw [if_pos (beq_iff_eq.2 found)]
          exact .dedent live none_owed start empty hk hne shallower found
        · rw [if_neg (fun e => found (beq_iff_eq.1 e))]
          unfold fail
          dsimp only
          rw [Nat.max_self]
          exact .badDedent live none_owed start empty hk hne shallower found
      · rw [if_neg shallower]
        dsimp only
        obtain ⟨skipped, s₀, passed, read⟩ :=
          scanBody_cases { s with rest := c :: cs, pos, atLineStart := false } _ rfl
        exact .lineCode live none_owed start empty hk (.inr (by omega)) passed read
  · rw [if_neg hl]
    obtain ⟨skipped, s₀, passed, read⟩ := scanBody_cases s s.rest rfl
    refine .inLine live none_owed ?_ passed read
    cases h : s.atLineStart
    · exact .inl rfl
    · refine .inr fun empty => hl ?_
      rw [h, empty]
      rfl

/-! ### Runs of steps -/

/-- What holds of the scanner before every lexeme up to the first lexical fault: it stands on
the source, has not failed, and owes dedents only outside brackets. -/
structure Live (src : String) (s : Scanner) : Prop where
  valid : s.Valid src
  live : s.failed = false
  owed : 0 < s.pendingDedents → s.brackets = []

theorem Live.start (src : String) : Live src (ofSource src) :=
  ⟨Valid.start src, rfl, fun h => absurd h (Nat.lt_irrefl 0)⟩

/-- A step that gives no lexical fault keeps the scanner live. -/
theorem Step.live {src : String} {s : Scanner} {r : Lexeme × Scanner} (h : Step s r)
    (hs : Live src s) (hf : r.1.token.fault? = none) (hv : r.2.Valid src) : Live src r.2 := by
  cases h with
  | ended failed => exact absurd (hs.live.symm.trans failed) Bool.false_ne_true
  | owed _ hd => exact ⟨hv, hs.live, fun _ => hs.owed hd⟩
  | indent _ hd => exact ⟨hv, hs.live, fun owing => absurd hd (Nat.pos_iff_ne_zero.1 owing)⟩
  | dedent _ _ _ hb => exact ⟨hv, hs.live, fun _ => hb⟩
  | badDedent => exact absurd hf (Option.some_ne_none _)
  | lineCode _ hd _ _ _ _ passed read | inLine _ hd _ passed read =>
    obtain ⟨failed, owes⟩ := read.keeps hf
    refine ⟨hv, by rw [failed, passed.failed]; exact hs.live, fun owing => ?_⟩
    rcases owes with same | closed
    · rw [same, passed.pendingDedents, hd] at owing
      exact absurd owing (Nat.lt_irrefl 0)
    · exact closed

/-- The next step keeps the scanner live, unless it gives a lexical fault or ends the input. -/
theorem Live.next {src : String} {s : Scanner} (hs : Live src s)
    (hf : s.next.1.token.fault? = none) (he : s.next.1.token ≠ .eof) : Live src s.next.2 :=
  (next_step s).live hs hf ((next_steps hs.valid rfl hf).next he).2

/-- The scanner after `k` steps. -/
def after : Nat → Scanner → Scanner
  | 0, s => s
  | k + 1, s => after k s.next.2

theorem after_succ : ∀ (k : Nat) (s : Scanner), after (k + 1) s = (after k s).next.2
  | 0, _ => rfl
  | k + 1, s => after_succ k s.next.2

/-- The lexeme a run gives at `k` is the next one of the scanner after `k` steps. -/
theorem lexemes_getElem? : ∀ (fuel : Nat) (s : Scanner) (k : Nat) {l : Lexeme},
    (lexemes fuel s #[]).toList[k]? = some l → l = (after k s).next.1
  | 0, _, _, _, h => by simp [lexemes] at h
  | fuel + 1, s, 0, l, h => by
    rw [lexemes_cons, List.getElem?_cons_zero, Option.some.injEq] at h
    exact h.symm
  | fuel + 1, s, k + 1, l, h => by
    rw [lexemes_cons, List.getElem?_cons_succ] at h
    split at h
    · simp at h
    · exact lexemes_getElem? fuel s.next.2 k h

/-- A property of the lexemes read so far and of the scanner, kept by every step that gives
neither a lexical fault nor the end of input, holds before every lexeme of a run that no
lexical fault precedes. -/
theorem lexemes_invariant {P : List Lexeme → Scanner → Prop}
    (keep : ∀ pre s, P pre s → s.next.1.token.fault? = none → s.next.1.token ≠ .eof →
      P (pre ++ [s.next.1]) s.next.2)
    (fuel : Nat) (s : Scanner) (start : P [] s) :
    ∀ k, k < (lexemes fuel s #[]).toList.length →
      (∀ x ∈ (lexemes fuel s #[]).toList.take k, x.token.fault? = none) →
      P ((lexemes fuel s #[]).toList.take k) (after k s)
  | 0, _, _ => start
  | k + 1, lt, clean => by
    have at_k : (lexemes fuel s #[]).toList[k]? = some (lexemes fuel s #[]).toList[k] :=
      List.getElem?_eq_getElem (by omega)
    have next := lexemes_getElem? fuel s k at_k
    rw [List.take_add_one, at_k, Option.toList_some] at clean ⊢
    have fresh := clean _ (List.mem_append_right _ (List.mem_singleton_self _))
    -- only the last lexeme ends the input, and the one at `k` has one after it
    have going : (lexemes fuel s #[]).toList[k].token ≠ .eof := fun e => by
      have last := lexemes_eof fuel s k _ at_k e
      omega
    have before := lexemes_invariant keep fuel s start k (by omega)
      (fun x hx => clean x (List.mem_append_left _ hx))
    rw [next] at fresh going ⊢
    rw [after_succ]
    exact keep _ _ before fresh going

end Scanner

end PyTune
