import PyTune.Proofs.Scanning

/-!
# A keyword spans its spelling

The span of every keyword lexeme covers exactly the keyword's spelling, so it is never empty.
The proof follows one lexeme through `Scanner.scanBody`, then the lexemes of a source in turn.
-/

namespace PyTune

open String (utf8Len)

theorem Keyword.spelling_of_ofName? {word : String} {k : Keyword} (h : Keyword.ofName? word = some k) :
    k.spelling = word := by
  unfold Keyword.ofName? at h
  have found := List.find?_some h
  exact beq_iff_eq.mp found

theorem Keyword.spelling_ne_empty (k : Keyword) : k.spelling ≠ "" := by
  cases k <;> decide

namespace Scanner

variable {src : String} {s s' : Scanner} {l : Lexeme}

/-- A lexeme that is a keyword spans the keyword's spelling in `src`. -/
def Spelled (src : String) (l : Lexeme) : Prop :=
  ∀ k, l.token = .keyword k → l.span.text src = k.spelling

theorem Spelled.of_not_keyword (h : ∀ k, l.token ≠ .keyword k) : Spelled src l :=
  fun k hk => absurd hk (h k)

theorem spelled_fail (s : Scanner) (start : Nat) (f : LexFault) : Spelled src (s.fail start f).1 :=
  Spelled.of_not_keyword fun _ hk => Token.noConfusion hk

theorem spelled_emit {t : Token} (s : Scanner) (start : Nat) (ht : ∀ k, t ≠ .keyword k) :
    Spelled src (s.emit start t).1 :=
  Spelled.of_not_keyword ht

/-- A word read where the scanner stands spans its characters. -/
theorem Valid.text_word (h : s.Valid src) {word after : List Char} (hr : s.rest = word ++ after) :
    Span.text ⟨s.pos, s.pos + utf8Length word⟩ src = String.ofList word := by
  obtain ⟨pre, e, p⟩ := h.read
  have whole : pre ++ word <+: src.toList := ⟨after, by rw [List.append_assoc, ← hr, e]⟩
  have extract := extract_prefixes (List.prefix_append pre word) whole
  rw [String.utf8Len_append, p, List.drop_left] at extract
  rw [Span.text, utf8Length_eq]
  exact extract

theorem atEnd_spelled (s : Scanner) : Spelled src s.atEnd.1 := by
  unfold atEnd
  split
  · exact spelled_fail _ _ _
  · split <;> exact Spelled.of_not_keyword fun _ hk => Token.noConfusion hk

theorem lexString_spelled (s : Scanner) (letters : List Char) (q : Char) (more : List Char) :
    Spelled src (s.lexString letters q more).1 := by
  unfold lexString
  dsimp only
  repeat' split
  all_goals first
    | exact spelled_fail _ _ _
    | exact spelled_emit _ _ fun _ hk => Token.noConfusion hk

theorem punctuation_spelled (s : Scanner) (c : Char) (cs : List Char) :
    Spelled src (s.punctuation c cs).1 := by
  unfold punctuation
  dsimp only
  repeat' split
  all_goals first
    | exact spelled_fail _ _ _
    | exact spelled_emit _ _ fun _ hk => Token.noConfusion hk
    | skip
  next t n ht =>
  refine spelled_emit _ _ fun k hk => ?_
  subst hk
  unfold operator at ht
  repeat' split at ht
  all_goals simp at ht

theorem utf8Size_continuation : ∀ d ∈ ['\\', '\r', '\n'], d.utf8Size = 1 := by
  intro d hd
  simp only [List.mem_cons, List.not_mem_nil, or_false] at hd
  rcases hd with rfl | rfl | rfl <;> rfl

/-- One lexeme read inside a logical line spans its keyword, if it is one. -/
theorem scanBody_spelled (s : Scanner) (input : List Char) (h : s.Valid src)
    (hr : s.rest = input) : Spelled src (s.scanBody input).1 := by
  fun_induction scanBody s input with
  | case1 s => exact atEnd_spelled s
  | case2 s c cs start blank ih => exact ih (h.skipOne hr (utf8Size_of_blank blank) rfl rfl) rfl
  | case3 => exact Spelled.of_not_keyword fun _ hk => Token.noConfusion hk
  | case4 s c cs start _ newline _ ih =>
    have one : c.utf8Size = 1 := by rw [beq_iff_eq.1 newline]; rfl
    exact ih (h.skipOne hr one rfl rfl) rfl
  | case5 s c start _ _ backslash r ih =>
    rw [beq_iff_eq.1 backslash] at hr
    exact ih (h.ascii (show s.rest = ['\\', '\r', '\n'] ++ r by rw [hr]; rfl) utf8Size_continuation rfl rfl) rfl
  | case6 s c start _ _ backslash r ih =>
    rw [beq_iff_eq.1 backslash] at hr
    exact ih (h.ascii (show s.rest = ['\\', '\n'] ++ r by rw [hr]; rfl)
      (fun d hd => by
        simp only [List.mem_cons, List.not_mem_nil, or_false] at hd
        rcases hd with rfl | rfl <;> rfl) rfl rfl) rfl
  | case7 => exact spelled_fail _ _ _
  | case8 => exact spelled_fail _ _ _
  | case9 s c cs start _ _ _ hash r _ comment ih =>
    have hr' : r = cs.dropWhile (· != '\n') := (congrArg Subtype.val comment).symm
    have valid : Valid src
        { s with rest := r, pos := start + 1 + utf8Length (cs.takeWhile (· != '\n')) } := by
      refine h.consume (show s.rest = (c :: cs.takeWhile (· != '\n')) ++ r by
        rw [hr, hr', List.cons_append, List.takeWhile_append_dropWhile]) ?_ rfl
      dsimp only [start]
      rw [utf8Length_eq, String.utf8Len_cons, beq_iff_eq.1 hash, show '#'.utf8Size = 1 from rfl]
      omega
    exact ih valid rfl
  | case10 => exact lexString_spelled _ _ _ _
  | case11 => exact spelled_emit _ _ fun _ hk => Token.noConfusion hk
  | case12 s c cs start _ _ _ _ _ _ _ word after span =>
    have e : word ++ after = c :: cs := by
      rw [List.span_eq_takeWhile_dropWhile, Prod.mk.injEq] at span
      rw [← span.1, ← span.2, List.takeWhile_append_dropWhile]
    intro k hk
    simp only [emit] at hk ⊢
    split at hk
    · next k' found =>
      cases hk
      rw [Keyword.spelling_of_ofName? found]
      exact h.text_word (hr.trans e.symm)
    · cases hk
  | case13 s c cs => exact punctuation_spelled _ _ _

theorem indentTo_spelled {col : Nat} (e : s.indentTo col = (some l, s')) : Spelled src l := by
  unfold indentTo at e
  dsimp only at e
  repeat' split at e
  all_goals first
    | (cases e; done)
    | simp only [Prod.mk.injEq, Option.some.injEq] at e
      obtain ⟨rfl, rfl⟩ := e
      first
        | exact spelled_fail _ _ _
        | exact Spelled.of_not_keyword fun _ hk => Token.noConfusion hk

/-- The next lexeme of a scanner on a prefix of the source spans its keyword, if it is one. -/
theorem next_spelled (h : s.Valid src) : Spelled src s.next.1 := by
  unfold next
  split
  · exact Spelled.of_not_keyword fun _ hk => Token.noConfusion hk
  split
  · exact Spelled.of_not_keyword fun _ hk => Token.noConfusion hk
  split
  · obtain ⟨s₁, h₁, -, -, hcases⟩ := lineStart_cases h
    split
    · next l₀ s₀ hl₀ =>
      rcases hcases with hc | ⟨col, hc⟩
      · rw [hc] at hl₀
        cases hl₀
      · rw [hc] at hl₀
        exact indentTo_spelled hl₀
    · next s₀ hl₀ =>
      have same : s₀ = s₁ := by
        rcases hcases with hc | ⟨col, hc⟩
        · rw [hc] at hl₀
          cases hl₀
          rfl
        · rw [hc] at hl₀
          exact indentTo_none hl₀
      subst same
      exact scanBody_spelled s₀ s₀.rest h₁ rfl
  · exact scanBody_spelled s s.rest h rfl

/-- Every lexeme read from a scanner on a prefix of the source spans its keyword, if it is
one, as long as none of them is a lexical fault. -/
theorem lexemes_spelled : ∀ (fuel : Nat) (s : Scanner), s.Valid src →
    (∀ l ∈ (lexemes fuel s #[]).toList, l.token.fault? = none) →
    ∀ l ∈ (lexemes fuel s #[]).toList, Spelled src l
  | 0, _, _, _ => by simp [lexemes]
  | fuel + 1, s, h, hf => by
    rw [lexemes_cons] at hf ⊢
    intro l hl
    rcases List.mem_cons.mp hl with rfl | hl
    · exact next_spelled h
    · split at hl
      · exact absurd hl List.not_mem_nil
      · next hne =>
        have steps : Steps src s s.next.1 s.next.2 := next_steps h rfl (hf _ List.mem_cons_self)
        obtain ⟨-, valid⟩ := steps.next fun he => hne (by rw [he]; rfl)
        rw [if_neg hne] at hf
        exact lexemes_spelled fuel _ valid (fun l hl => hf l (List.mem_cons_of_mem _ hl)) l hl

end Scanner

/-- In the tape of a source with no lexical fault, every keyword lexeme spans the keyword's
spelling. -/
theorem Tape.spelled_ofSource {src : String}
    (hf : ∀ l ∈ (Lexeme.scan src).toList, l.token.fault? = none) (i : Nat) {k : Keyword}
    (hk : ((Tape.ofSource src).lexemeAt i).token = .keyword k) :
    ((Tape.ofSource src).lexemeAt i).span.text src = k.spelling := by
  rw [Tape.lexemeAt_eq] at hk ⊢
  cases hl : (Tape.ofSource src).lexemes.toList[i]? with
  | none =>
    rw [hl] at hk
    cases hk
  | some l =>
    simp only [hl, Option.getD_some] at hk ⊢
    exact Scanner.lexemes_spelled _ _ (Scanner.Valid.start src) hf l (List.mem_of_getElem? hl) k hk

/-- A lexeme that spans a keyword's spelling is not empty. -/
theorem Span.start_lt_stop_of_text {src : String} {sp : Span} {k : Keyword}
    (h : sp.text src = k.spelling) : sp.start < sp.stop := by
  by_contra hle
  apply k.spelling_ne_empty
  rw [← h, Span.text, String.Pos.Raw.extract, if_pos (Nat.le_of_not_lt hle)]

end PyTune
