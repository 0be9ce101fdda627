import PyTune.Proofs.LineEndings
import PyTune.Proofs.Spelling

/-!
# Scanning a text with CR LF line endings

Each test the scanner makes on the characters ahead answers alike on the CRLF form
(`operator_crlfFrom`, `skipToCode_crlfFrom`). The one difference is a backslash before a line
feed inside a string literal in single quotes.
-/

namespace PyTune

open String (utf8Len)
open Text (crlfFrom endsCR crlfFrom_cons_of_ne)

/-- A token as the CRLF form of its text reads it: a string literal keeps its text with CR LF
line endings, and every other token is the same. -/
def Token.crlf : Token → Token
  | .str raw => .str (Text.crlf raw)
  | .fstr raw => .fstr (Text.crlf raw)
  | t => t

/-- A name or a keyword: a token whose text is one word of the source. -/
def Token.isWord : Token → Bool
  | .name _ | .keyword _ => true
  | _ => false

namespace Scanner

/-! ### Runs of characters -/

theorem numberRun_crlfFrom : ∀ (prev : Char) (cr : Bool) (cs : List Char),
    numberRun prev (crlfFrom cr cs) =
      ((numberRun prev cs).1, crlfFrom (endsCR cr (numberRun prev cs).1) (numberRun prev cs).2)
  | _, _, [] => rfl
  | prev, cr, c :: cs => by
    by_cases hc : (c.isAlphanum || c == '_' || c == '.' ||
        ((c == '+' || c == '-') && (prev == 'e' || prev == 'E'))) = true
    · have lf : c ≠ '\n' := by
        rintro rfl
        generalize (prev == 'e' || prev == 'E') = e at hc
        revert e hc
        decide
      rw [crlfFrom_cons_of_ne lf, numberRun, numberRun, if_pos hc, if_pos hc]
      dsimp only
      rw [numberRun_crlfFrom c _ cs]
      rfl
    · -- the run ends here, before the carriage return a line feed gains too
      have stop : numberRun prev (c :: cs) = ([], c :: cs) := by
        rw [numberRun, if_neg hc]
      rw [stop]
      dsimp only [endsCR]
      by_cases lf : c = '\n' ∧ cr = false
      · obtain ⟨rfl, rfl⟩ := lf
        simp [numberRun]
      · have e : crlfFrom cr (c :: cs) = c :: crlfFrom (c = '\r') cs := by
          rw [crlfFrom, if_neg lf]
          rfl
        rw [e, numberRun, if_neg hc]

/-- A number holds no line feed. -/
theorem lf_not_mem_numberRun : ∀ (prev : Char) (cs : List Char), '\n' ∉ (numberRun prev cs).1
  | _, [] => List.not_mem_nil
  | prev, c :: cs => by
    unfold numberRun
    split
    · next hc =>
      have lf : c ≠ '\n' := by
        rintro rfl
        generalize (prev == 'e' || prev == 'E') = e at hc
        revert e hc
        decide
      have ih := lf_not_mem_numberRun c cs
      rcases hn : numberRun c cs with ⟨digits, rest⟩
      rw [hn] at ih
      exact List.not_mem_cons_of_ne_of_not_mem (Ne.symm lf) ih
    · exact List.not_mem_nil

/-- Whether a digit comes next is the same in the CRLF form: neither line end is a digit. -/
theorem head_isDigit_crlfFrom (cr : Bool) (cs : List Char) :
    ((crlfFrom cr cs).head?.map Char.isDigit).getD false =
      (cs.head?.map Char.isDigit).getD false := by
  rcases cs with _ | ⟨c, cs⟩
  · rfl
  by_cases lf : c = '\n' ∧ cr = false
  · obtain ⟨rfl, rfl⟩ := lf
    rw [Text.crlfFrom_lf_false]
    rfl
  · rw [crlfFrom, if_neg lf]
    rfl

/-! ### Operators -/

/-- A line ending after the first character of an operator ends it, as the end of the input
does. -/
theorem operator_line_end (c : Char) {x : Char} (hx : x = '\n' ∨ x = '\r') (ys : List Char) :
    operator c (x :: ys) = operator c [] := by
  unfold operator
  rcases hx with rfl | rfl <;> split <;> simp_all <;> split_ifs <;> subst_vars <;> simp_all

/-- A line ending after the second character of an operator ends it. -/
theorem operator_line_end_second (c x : Char) {y : Char} (hy : y = '\n' ∨ y = '\r')
    (ys : List Char) : operator c (x :: y :: ys) = operator c [x] := by
  unfold operator
  rcases hy with rfl | rfl <;> split <;> simp_all

/-- An operator is read off at most three characters: the match looks no further. -/
theorem operator_two (c x y : Char) (ys zs : List Char) :
    operator c (x :: y :: ys) = operator c (x :: y :: zs) := by
  rw [operator.eq_def]
  split
  case h_12 _ _ tail not_eq heq =>
    -- `**` with no `=` after it: the right side takes the same pattern, as `y` is no `=`
    obtain ⟨rfl, rfl⟩ := heq
    have hy : y ≠ '=' := fun e => not_eq ys (by rw [e])
    rw [operator.eq_12 _ (by simp [hy])]
  all_goals simp_all [operator]

theorem operator_crlfFrom (c : Char) (cr : Bool) : ∀ cs : List Char,
    operator c (crlfFrom cr cs) = operator c cs
  | [] => rfl
  | x :: r => by
    by_cases hx : x = '\n' ∨ x = '\r'
    · -- a line ending right after `c`, with or without the carriage return it gains
      have first : ∃ x' ys, crlfFrom cr (x :: r) = x' :: ys ∧ (x' = '\n' ∨ x' = '\r') := by
        by_cases lf : x = '\n' ∧ cr = false
        · exact ⟨'\r', _, by rw [crlfFrom, if_pos lf]; rfl, .inr rfl⟩
        · exact ⟨x, _, by rw [crlfFrom, if_neg lf]; rfl, hx⟩
      obtain ⟨x', ys, e, hx'⟩ := first
      rw [e, operator_line_end c hx', operator_line_end c hx]
    · have lf : x ≠ '\n' := fun e => hx (.inl e)
      have cr' : decide (x = '\r') = false := decide_eq_false fun e => hx (.inr e)
      rw [crlfFrom_cons_of_ne lf, cr']
      cases r with
      | nil => rfl
      | cons y r =>
        by_cases hy : y = '\n' ∨ y = '\r'
        · have second : ∃ y' ys, crlfFrom false (y :: r) = y' :: ys ∧ (y' = '\n' ∨ y' = '\r') := by
            rcases hy with rfl | rfl
            · exact ⟨'\r', '\n' :: crlfFrom false r, by simp, .inr rfl⟩
            · exact ⟨'\r', _, crlfFrom_cons_of_ne (by decide) _ _, .inr rfl⟩
          obtain ⟨y', ys, e, hy'⟩ := second
          rw [e, operator_line_end_second c x hy', operator_line_end_second c x hy]
        · rw [crlfFrom_cons_of_ne fun e => hy (.inl e)]
          exact operator_two c x y _ _

/-- What an operator takes after its first character holds no line feed. -/
theorem operator_taken_no_lf {c : Char} {cs : List Char} {t : Token} {n : Nat}
    (h : operator c cs = some (t, n)) : '\n' ∉ cs.take (n - 1) := by
  -- the characters taken lie among the first `m`, which hold no line feed
  have within : ∀ m, operator c cs = operator c (cs.take m) →
      '\n' ∉ cs.take m → '\n' ∉ cs.take (n - 1) := by
    intro m e hno mem
    rw [e] at h
    obtain ⟨-, le, -⟩ := operator_taken h
    have hm : n - 1 ≤ m := by
      have := List.length_take_le m cs
      simp only [List.length_cons] at le
      omega
    rw [← Nat.min_eq_left hm, ← List.take_take] at mem
    exact hno (List.mem_of_mem_take mem)
  rcases cs with _ | ⟨x, ys⟩
  · simp
  by_cases hx : x = '\n' ∨ x = '\r'
  · exact within 0 (by rw [operator_line_end c hx]; rfl) (by simp)
  have x_ne : x ≠ '\n' := fun e => hx (.inl e)
  rcases ys with _ | ⟨y, zs⟩
  · exact within 1 rfl (by simpa using x_ne.symm)
  by_cases hy : y = '\n' ∨ y = '\r'
  · exact within 1 (operator_line_end_second c x hy zs) (by simpa using x_ne.symm)
  · have y_ne : '\n' ≠ y := fun e => hy (.inl e.symm)
    exact within 2 (operator_two c x y zs []) (by simp [x_ne.symm, y_ne])

/-- An operator is neither a string literal nor a word: the CRLF form leaves its token as it
is. -/
theorem operator_token_plain {c : Char} {cs : List Char} {t : Token} {n : Nat}
    (h : operator c cs = some (t, n)) : t.crlf = t ∧ t.isWord = false := by
  unfold operator at h
  repeat' split at h
  all_goals first
    | obtain ⟨rfl, -⟩ := Prod.mk.inj (Option.some.inj h); exact ⟨rfl, rfl⟩
    | exact nomatch h

/-! ### String literals -/

theorem isPrefixLetter_lf : isPrefixLetter '\n' = false := by decide

theorem isPrefixLetter_cr : isPrefixLetter '\r' = false := by decide

theorem stringStart?_crlfFrom (cr : Bool) (cs : List Char) :
    stringStart? (crlfFrom cr cs) =
      (stringStart? cs).map fun r => (r.1, r.2.1, crlfFrom false r.2.2) := by
  unfold stringStart?
  rw [List.span_eq_takeWhile_dropWhile, List.span_eq_takeWhile_dropWhile,
    Text.takeWhile_crlfFrom isPrefixLetter_lf isPrefixLetter_cr,
    Text.dropWhile_crlfFrom isPrefixLetter_lf isPrefixLetter_cr]
  dsimp only
  generalize cs.takeWhile isPrefixLetter = letters
  generalize cs.dropWhile isPrefixLetter = after
  cases after with
  | nil => rfl
  | cons q more =>
    by_cases lf : q = '\n' ∧ endsCR cr letters = false
    · -- neither the line feed nor the carriage return before it opens a literal
      obtain ⟨rfl, e⟩ := lf
      rw [e]
      simp [isQuote]
    · rw [crlfFrom, if_neg lf, List.singleton_append]
      by_cases hq : isQuote q = true
      · have cr' : decide (q = '\r') = false := by
          simp only [isQuote, Bool.or_eq_true, beq_iff_eq] at hq
          rcases hq with rfl | rfl <;> rfl
        rw [cr']
        split <;> simp_all
      · simp [hq]

theorem quotedBody_escape (q : Char) (triple : Bool) (c : Char) (cs : List Char) :
    quotedBody q triple ('\\' :: c :: cs) =
      ('\\' :: c :: (quotedBody q triple cs).1, (quotedBody q triple cs).2.1,
        (quotedBody q triple cs).2.2) := by
  rw [quotedBody.eq_2]

/-- A character that neither escapes nor closes goes into the body. -/
theorem quotedBody_plain {q c : Char} {triple : Bool} (hb : c ≠ '\\') (hq : c ≠ q)
    (hl : triple = false → c ≠ '\n') (cs : List Char) :
    quotedBody q triple (c :: cs) =
      (c :: (quotedBody q triple cs).1, (quotedBody q triple cs).2.1,
        (quotedBody q triple cs).2.2) := by
  rcases cs with _ | ⟨c1, _ | ⟨c2, rest⟩⟩ <;> cases triple <;> simp_all [quotedBody]

theorem quotedBody_triple_plain {q c : Char} (hb : c ≠ '\\') {cs : List Char}
    (hq : ¬ (c = q ∧ ∃ r, cs = q :: q :: r)) :
    quotedBody q true (c :: cs) =
      (c :: (quotedBody q true cs).1, (quotedBody q true cs).2.1, (quotedBody q true cs).2.2) := by
  rcases cs with _ | ⟨c1, _ | ⟨c2, rest⟩⟩
  · simp_all [quotedBody]
  · simp_all [quotedBody]
  · rw [quotedBody.eq_4 _ _ _ _ _ _ (fun _ _ e _ => hb e) (fun _ e => List.cons_ne_nil _ _ e), if_pos rfl,
      if_neg]
    simp only [Bool.and_eq_true, beq_iff_eq]
    rintro ⟨⟨rfl, rfl⟩, rfl⟩
    exact hq ⟨rfl, rest, rfl⟩

theorem quotedBody_triple_close {q : Char} (hb : q ≠ '\\') (rest : List Char) :
    quotedBody q true (q :: q :: q :: rest) = ([q, q, q], .closed, rest) := by
  rw [quotedBody.eq_4 _ _ _ _ _ _ (fun _ _ e _ => hb e) (fun _ e => List.cons_ne_nil _ _ e),
    if_pos rfl, if_pos (by simp)]

/-- Two quotes at the front of the CRLF form were two quotes at the front of the text. -/
theorem crlfFrom_quotes {q : Char} (hl : q ≠ '\n') (hr : q ≠ '\r') {cr : Bool} {cs r : List Char}
    (h : crlfFrom cr cs = q :: q :: r) : ∃ r', cs = q :: q :: r' := by
  rcases cs with _ | ⟨c1, cs⟩
  · cases h
  by_cases lf : c1 = '\n' ∧ cr = false
  · rw [crlfFrom, if_pos lf] at h
    exact absurd (List.cons.inj h).1.symm hr
  rw [crlfFrom, if_neg lf, List.singleton_append, List.cons.injEq] at h
  obtain ⟨rfl, h⟩ := h
  rcases cs with _ | ⟨c2, cs⟩
  · cases h
  by_cases lf₂ : c2 = '\n' ∧ decide (c1 = '\r') = false
  · rw [crlfFrom, if_pos lf₂] at h
    exact absurd (List.cons.inj h).1.symm hr
  rw [crlfFrom, if_neg lf₂, List.singleton_append, List.cons.injEq] at h
  obtain ⟨rfl, -⟩ := h
  exact ⟨cs, rfl⟩

theorem crlfFrom_backslash (cr : Bool) (cs : List Char) :
    crlfFrom cr ('\\' :: cs) = '\\' :: crlfFrom false cs :=
  crlfFrom_cons_of_ne (by decide) cr cs

theorem isQuote_ne {q : Char} (hq : isQuote q = true) : q ≠ '\\' ∧ q ≠ '\n' ∧ q ≠ '\r' := by
  simp only [isQuote, Bool.or_eq_true, beq_iff_eq] at hq
  rcases hq with rfl | rfl <;> decide

/-- One character read into a triple-quoted body, in the text and in its CRLF form. -/
theorem quotedBody_crlfFrom_triple_step {q c : Char} (hq : isQuote q = true) (cb : c ≠ '\\')
    {cs : List Char} (more : ¬ (c = q ∧ ∃ r, cs = q :: q :: r))
    (ih : ∀ cr, quotedBody q true (crlfFrom cr cs) =
      (crlfFrom cr (quotedBody q true cs).1, (quotedBody q true cs).2.1,
        crlfFrom (endsCR cr (quotedBody q true cs).1) (quotedBody q true cs).2.2))
    (cr : Bool) : quotedBody q true (crlfFrom cr (c :: cs)) =
      (crlfFrom cr (quotedBody q true (c :: cs)).1, (quotedBody q true (c :: cs)).2.1,
        crlfFrom (endsCR cr (quotedBody q true (c :: cs)).1) (quotedBody q true (c :: cs)).2.2) := by
  obtain ⟨qb, ql, qr⟩ := isQuote_ne hq
  rw [quotedBody_triple_plain cb more]
  by_cases lf : c = '\n' ∧ cr = false
  · -- the carriage return the line feed gains is one more plain character
    obtain ⟨rfl, rfl⟩ := lf
    have plain : ∀ d, d ≠ q → d ≠ '\\' → ∀ ds, quotedBody q true (d :: ds) =
        (d :: (quotedBody q true ds).1, (quotedBody q true ds).2.1, (quotedBody q true ds).2.2) :=
      fun d dq db _ => quotedBody_triple_plain db fun h => dq h.1
    rw [Text.crlfFrom_lf_false, plain '\r' qr.symm (by decide), plain '\n' ql.symm (by decide),
      ih false]
    simp [endsCR]
  · have ahead : ¬ (c = q ∧ ∃ r, crlfFrom (c = '\r') cs = q :: q :: r) := by
      rintro ⟨cq, r, e⟩
      exact more ⟨cq, crlfFrom_quotes ql qr e⟩
    have e : ∀ xs, crlfFrom cr (c :: xs) = c :: crlfFrom (c = '\r') xs := by
      intro xs
      rw [crlfFrom, if_neg lf]
      rfl
    rw [e, quotedBody_triple_plain cb ahead, ih]
    simp only [e, endsCR]

/-- A triple-quoted body reads the CRLF form of what it reads in the text: its line feeds are
plain characters there, and so are the carriage returns they gain. -/
theorem quotedBody_crlfFrom_triple {q : Char} (hq : isQuote q = true) (cs : List Char) :
    ∀ cr, quotedBody q true (crlfFrom cr cs) =
      (crlfFrom cr (quotedBody q true cs).1, (quotedBody q true cs).2.1,
        crlfFrom (endsCR cr (quotedBody q true cs).1) (quotedBody q true cs).2.2) := by
  obtain ⟨qb, ql, qr⟩ := isQuote_ne hq
  induction cs using quotedBody.induct q true with
  | case1 => intro cr; rfl
  | case2 c cs body e rest _ ih =>
    intro cr
    rw [crlfFrom_backslash, quotedBody_escape]
    by_cases lf : c = '\n'
    · -- the backslash takes the carriage return, and the line feed is a plain character
      subst lf
      rw [Text.crlfFrom_lf_false, quotedBody_escape,
        quotedBody_triple_plain (by decide) fun h => ql h.1.symm, ih false]
      simp [crlfFrom_backslash, endsCR]
    · rw [crlfFrom_cons_of_ne lf, quotedBody_escape, ih]
      simp [crlfFrom_backslash, crlfFrom_cons_of_ne lf, endsCR]
  | case3 => intro cr; rfl
  | case4 c _ c1 c2 rest close _ _ _ =>
    intro cr
    simp only [Bool.and_eq_true, beq_iff_eq] at close
    obtain ⟨⟨hc, h1⟩, h2⟩ := close
    subst c c1 c2
    have three : ∀ b xs, crlfFrom b (q :: q :: q :: xs) = q :: q :: q :: crlfFrom false xs := by
      intro b xs
      simp [crlfFrom_cons_of_ne ql, qr]
    rw [three, quotedBody_triple_close qb, quotedBody_triple_close qb]
    simp [crlfFrom_cons_of_ne ql, endsCR, qr]
  | case5 c _ c1 c2 rest open_ not_escape _ ih =>
    refine quotedBody_crlfFrom_triple_step hq (fun e => not_escape _ _ e rfl) ?_ ih
    rintro ⟨rfl, r, e⟩
    simp only [List.cons.injEq] at e
    obtain ⟨rfl, rfl, -⟩ := e
    simp at open_
  | case6 c cs not_escape not_alone _ short ih =>
    have cb : c ≠ '\\' := by
      rintro rfl
      rcases cs with _ | ⟨c1, cs⟩
      · exact not_alone rfl rfl
      · exact not_escape _ _ rfl rfl
    refine quotedBody_crlfFrom_triple_step hq cb ?_ ih
    rintro ⟨-, r, e⟩
    exact short _ _ _ e
  | case7 => contradiction
  | case8 => contradiction
  | case9 => contradiction

theorem quotedBody_single_close {q : Char} (hb : q ≠ '\\') (cs : List Char) :
    quotedBody q false (q :: cs) = ([q], .closed, cs) := by
  rcases cs with _ | ⟨c1, _ | ⟨c2, rest⟩⟩ <;> simp_all [quotedBody]

theorem quotedBody_single_lf {q : Char} (hl : q ≠ '\n') (cs : List Char) :
    quotedBody q false ('\n' :: cs) = ([], .lineEnd, '\n' :: cs) := by
  rcases cs with _ | ⟨c1, _ | ⟨c2, rest⟩⟩ <;> simp_all [quotedBody, Ne.symm hl]

/-- A literal closed in single quotes reads the same body whatever follows its closing quote. -/
theorem quotedBody_closed {q : Char} (hq : isQuote q = true) (cs : List Char) :
    (quotedBody q false cs).2.1 = .closed → ∀ ys,
      quotedBody q false ((quotedBody q false cs).1 ++ ys) = ((quotedBody q false cs).1, .closed, ys) := by
  obtain ⟨qb, ql, -⟩ := isQuote_ne hq
  induction cs using quotedBody.induct q false with
  | case1 => intro h; cases h
  | case2 c cs body e rest _ ih =>
    rw [quotedBody_escape]
    intro h ys
    rw [List.cons_append, List.cons_append, quotedBody_escape, ih h]
  | case3 => intro h; cases h
  | case4 => contradiction
  | case5 => contradiction
  | case6 => contradiction
  | case7 c cs _ _ _ close _ =>
    rw [beq_iff_eq.1 close, quotedBody_single_close qb]
    intro _ ys
    exact quotedBody_single_close qb ys
  | case8 c cs _ _ _ _ lf _ =>
    rw [beq_iff_eq.1 lf, quotedBody_single_lf ql]
    intro h; cases h
  | case9 c cs not_escape not_alone _ not_close not_lf ih =>
    have cb : c ≠ '\\' := by
      rintro rfl
      rcases cs with _ | ⟨c1, cs⟩
      · exact not_alone rfl rfl
      · exact not_escape _ _ rfl rfl
    have plain := @quotedBody_plain q c false cb (by simpa using not_close) fun _ => by simpa using not_lf
    rw [plain]
    intro h ys
    rw [List.cons_append, plain, ih h]

/-- A literal in single quotes that does not close in the text does not close in its CRLF form:
a backslash there takes the carriage return, and the line feed after it ends the literal. -/
theorem quotedBody_crlfFrom_open {q : Char} (hq : isQuote q = true) (cs : List Char) :
    (quotedBody q false cs).2.1 ≠ .closed → ∀ cr, (quotedBody q false (crlfFrom cr cs)).2.1 ≠ .closed := by
  obtain ⟨qb, ql, qr⟩ := isQuote_ne hq
  have plain_cr : ∀ ds, quotedBody q false ('\r' :: ds) =
      ('\r' :: (quotedBody q false ds).1, (quotedBody q false ds).2.1, (quotedBody q false ds).2.2) :=
    quotedBody_plain (by decide) qr.symm fun _ => by decide
  induction cs using quotedBody.induct q false with
  | case1 => intro h cr; exact h
  | case2 c cs body e rest _ ih =>
    rw [quotedBody_escape]
    intro h cr
    rw [crlfFrom_backslash]
    by_cases lf : c = '\n'
    · subst lf
      rw [Text.crlfFrom_lf_false, quotedBody_escape, quotedBody_single_lf ql]
      nofun
    · rw [crlfFrom_cons_of_ne lf, quotedBody_escape]
      exact ih h _
  | case3 => intro h cr; rw [crlfFrom_backslash]; exact h
  | case4 => contradiction
  | case5 => contradiction
  | case6 => contradiction
  | case7 c cs _ _ _ close _ =>
    rw [beq_iff_eq.1 close, quotedBody_single_close qb]
    intro h; exact absurd rfl h
  | case8 c cs _ _ _ _ lf _ =>
    rw [beq_iff_eq.1 lf]
    intro _ cr
    cases cr
    · rw [Text.crlfFrom_lf_false, plain_cr, quotedBody_single_lf ql]
      nofun
    · rw [Text.crlfFrom_lf_true, quotedBody_single_lf ql]
      nofun
  | case9 c cs not_escape not_alone _ not_close not_lf ih =>
    have cb : c ≠ '\\' := by
      rintro rfl
      rcases cs with _ | ⟨c1, cs⟩
      · exact not_alone rfl rfl
      · exact not_escape _ _ rfl rfl
    have cl : c ≠ '\n' := by simpa using not_lf
    have plain := @quotedBody_plain q c false cb (by simpa using not_close) fun _ => cl
    rw [plain]
    intro h cr
    rw [crlfFrom_cons_of_ne cl, plain]
    exact ih h _

/-! ### Comments -/

/-- A comment's text and what follows it, in the CRLF form: the carriage return that the line
feed after the comment gains is read as part of the comment. -/
theorem comment_crlfFrom : ∀ (cr : Bool) (cs : List Char),
    (crlfFrom cr cs).dropWhile (· != '\n') = crlfFrom true (cs.dropWhile (· != '\n')) ∧
      (crlfFrom cr cs).takeWhile (· != '\n') = cs.takeWhile (· != '\n') ++
        if cs.dropWhile (· != '\n') ≠ [] ∧ endsCR cr (cs.takeWhile (· != '\n')) = false
        then ['\r'] else []
  | _, [] => by simp
  | cr, c :: cs => by
    by_cases lf : c = '\n'
    · subst lf
      cases cr <;> simp [endsCR]
    · have hc : (c != '\n') = true := by simpa using lf
      obtain ⟨ih₁, ih₂⟩ := comment_crlfFrom (c = '\r') cs
      rw [crlfFrom_cons_of_ne lf]
      simp only [List.dropWhile_cons, List.takeWhile_cons, hc, if_true, ih₁, ih₂]
      exact ⟨trivial, rfl⟩

/-! ### The start of a line -/

/-- Skipping `taken` and then the rest, in the text and in its CRLF form. -/
theorem skipped_crlfFrom (taken : List Char) {cs rest : List Char} {cr : Bool}
    {pos pos' stop pos₂ : Nat} {res res₂ : Nat × List Char × Nat}
    (ih : ∃ u, cs = u ++ rest ∧ stop = pos' + utf8Len u ∧
      res₂ = (res.1, crlfFrom (endsCR (endsCR cr taken) u) rest,
        pos₂ + utf8Len (crlfFrom cr taken) + utf8Len (crlfFrom (endsCR cr taken) u)))
    (hp : pos' = pos + utf8Len taken) :
    ∃ u, taken ++ cs = u ++ rest ∧ stop = pos + utf8Len u ∧
      res₂ = (res.1, crlfFrom (endsCR cr u) rest, pos₂ + utf8Len (crlfFrom cr u)) := by
  obtain ⟨u, rfl, rfl, rfl⟩ := ih
  refine ⟨taken ++ u, (List.append_assoc _ _ _).symm, ?_, ?_⟩
  · rw [hp, String.utf8Len_append, Nat.add_assoc]
  · rw [Text.endsCR_append, Text.crlfFrom_append, String.utf8Len_append, Nat.add_assoc]

theorem skipToCode_comment_lf (cs : List Char) (pos col : Nat) :
    skipToCode ('\n' :: cs) pos col true = skipToCode cs (pos + 1) 0 false := by
  rw [skipToCode.eq_2, if_pos (show ('\n' == '\n') = true from rfl)]

theorem skipToCode_comment_other {c : Char} (hc : c ≠ '\n') (cs : List Char) (pos col : Nat) :
    skipToCode (c :: cs) pos col true = skipToCode cs (pos + c.utf8Size) col true := by
  rw [skipToCode.eq_2, if_neg (by simpa using hc)]

/-- Skipping to a line's code skips the CRLF form of what it skips in the text, and stops at
the same code at the same column. -/
theorem skipToCode_crlfFrom (cs : List Char) (pos col : Nat) (inComment : Bool) :
    ∀ cr pos₂, ∃ u, cs = u ++ (skipToCode cs pos col inComment).2.1 ∧
      (skipToCode cs pos col inComment).2.2 = pos + utf8Len u ∧
      skipToCode (crlfFrom cr cs) pos₂ col inComment =
        ((skipToCode cs pos col inComment).1,
          crlfFrom (endsCR cr u) (skipToCode cs pos col inComment).2.1,
          pos₂ + utf8Len (crlfFrom cr u)) := by
  induction cs, pos, col, inComment using skipToCode.induct with
  | case1 pos col m => intro cr pos₂; exact ⟨[], rfl, rfl, by cases m <;> rfl⟩
  | case2 c cs pos col newline ih =>
    obtain rfl := beq_iff_eq.1 newline
    intro cr pos₂
    rw [skipToCode_comment_lf]
    cases cr
    · -- inside a comment the carriage return is one more character of it
      obtain ⟨u, h₁, h₂, h₃⟩ := ih false (pos₂ + 2)
      refine skipped_crlfFrom ['\n'] ⟨u, h₁, h₂, ?_⟩ rfl
      rw [Text.crlfFrom_lf_false, skipToCode_comment_other (by decide), skipToCode_comment_lf]
      exact h₃
    · obtain ⟨u, h₁, h₂, h₃⟩ := ih false (pos₂ + 1)
      refine skipped_crlfFrom ['\n'] ⟨u, h₁, h₂, ?_⟩ rfl
      rw [Text.crlfFrom_lf_true, skipToCode_comment_lf]
      exact h₃
  | case3 c cs pos col other ih =>
    intro cr pos₂
    have lf : c ≠ '\n' := by simpa using other
    rw [skipToCode_comment_other lf]
    obtain ⟨u, h₁, h₂, h₃⟩ := ih (c = '\r') (pos₂ + c.utf8Size)
    refine skipped_crlfFrom [c] ⟨u, h₁, h₂, ?_⟩ (by simp)
    rw [crlfFrom_cons_of_ne lf, skipToCode_comment_other lf, h₃]
    simp [crlfFrom_cons_of_ne lf, endsCR]
  | case4 cs pos col ih =>
    intro cr pos₂
    obtain ⟨u, h₁, h₂, h₃⟩ := ih false (pos₂ + 1)
    rw [skipToCode.eq_3]
    refine skipped_crlfFrom [' '] ⟨u, h₁, h₂, ?_⟩ rfl
    rw [crlfFrom_cons_of_ne (by decide), skipToCode.eq_3]
    exact h₃
  | case5 cs pos col ih =>
    intro cr pos₂
    obtain ⟨u, h₁, h₂, h₃⟩ := ih false (pos₂ + 1)
    rw [skipToCode.eq_4]
    refine skipped_crlfFrom ['\t'] ⟨u, h₁, h₂, ?_⟩ rfl
    rw [crlfFrom_cons_of_ne (by decide), skipToCode.eq_4]
    exact h₃
  | case6 cs pos col ih =>
    intro cr pos₂
    obtain ⟨u, h₁, h₂, h₃⟩ := ih false (pos₂ + 1)
    rw [skipToCode.eq_5]
    refine skipped_crlfFrom ['\x0c'] ⟨u, h₁, h₂, ?_⟩ rfl
    rw [crlfFrom_cons_of_ne (by decide), skipToCode.eq_5]
    exact h₃
  | case7 cs pos col ih =>
    intro cr pos₂
    rw [skipToCode.eq_6]
    cases cr
    · -- a blank line's line feed: with its carriage return, the pair the scanner skips
      obtain ⟨u, h₁, h₂, h₃⟩ := ih false (pos₂ + 2)
      refine skipped_crlfFrom ['\n'] ⟨u, h₁, h₂, ?_⟩ rfl
      rw [Text.crlfFrom_lf_false, skipToCode.eq_7]
      exact h₃
    · obtain ⟨u, h₁, h₂, h₃⟩ := ih false (pos₂ + 1)
      refine skipped_crlfFrom ['\n'] ⟨u, h₁, h₂, ?_⟩ rfl
      rw [Text.crlfFrom_lf_true, skipToCode.eq_6]
      exact h₃
  | case8 cs pos col ih =>
    intro cr pos₂
    obtain ⟨u, h₁, h₂, h₃⟩ := ih false (pos₂ + 2)
    rw [skipToCode.eq_7]
    refine skipped_crlfFrom ['\r', '\n'] ⟨u, h₁, h₂, ?_⟩ rfl
    rw [crlfFrom_cons_of_ne (by decide), show decide ('\r' = '\r') = true from rfl,
      Text.crlfFrom_lf_true, skipToCode.eq_7]
    exact h₃
  | case9 cs pos col no_lf ih =>
    intro cr pos₂
    obtain ⟨u, h₁, h₂, h₃⟩ := ih true (pos₂ + 1)
    rw [skipToCode.eq_8 _ _ _ no_lf]
    refine skipped_crlfFrom ['\r'] ⟨u, h₁, h₂, ?_⟩ rfl
    have still : ∀ r, crlfFrom true cs = '\n' :: r → False := by
      intro r e
      rcases cs with _ | ⟨d, cs⟩
      · cases e
      · have keep : crlfFrom true (d :: cs) = d :: crlfFrom (d = '\r') cs := by
          rw [crlfFrom, if_neg fun h => Bool.noConfusion h.2]
          rfl
        rw [keep, List.cons.injEq] at e
        exact no_lf _ (by rw [e.1])
    rw [crlfFrom_cons_of_ne (by decide), show decide ('\r' = '\r') = true from rfl,
      skipToCode.eq_8 _ _ _ still]
    exact h₃
  | case10 cs pos col ih =>
    intro cr pos₂
    obtain ⟨u, h₁, h₂, h₃⟩ := ih false (pos₂ + 1)
    rw [skipToCode.eq_9]
    refine skipped_crlfFrom ['#'] ⟨u, h₁, h₂, ?_⟩ rfl
    rw [crlfFrom_cons_of_ne (by decide), skipToCode.eq_9]
    exact h₃
  | case11 cs pos col ne_nil no_space no_tab no_ff no_lf no_crlf no_cr no_hash =>
    intro cr pos₂
    rw [skipToCode.eq_10 _ _ _ ne_nil no_space no_tab no_ff no_lf no_crlf no_cr no_hash]
    refine ⟨[], rfl, rfl, ?_⟩
    obtain ⟨c, cs, rfl⟩ : ∃ c cs', cs = c :: cs' := List.exists_cons_of_ne_nil ne_nil
    have lf : c ≠ '\n' := fun e => no_lf cs (e ▸ rfl)
    rw [crlfFrom_cons_of_ne lf]
    rw [skipToCode.eq_10 (c :: crlfFrom (c = '\r') cs) pos₂ col (List.cons_ne_nil _ _)
      (fun _ e => no_space cs (by rw [(List.cons.inj e).1]))
      (fun _ e => no_tab cs (by rw [(List.cons.inj e).1])) (fun _ e => no_ff cs (by rw [(List.cons.inj e).1]))
      (fun _ e => no_lf cs (by rw [(List.cons.inj e).1])) (fun _ e => no_cr cs (by rw [(List.cons.inj e).1]))
      (fun _ e => no_cr cs (by rw [(List.cons.inj e).1])) (fun _ e => no_hash cs (by rw [(List.cons.inj e).1]))]
    rw [crlfFrom_cons_of_ne lf]
    rfl

end Scanner

end PyTune
