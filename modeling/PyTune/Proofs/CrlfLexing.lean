import PyTune.Proofs.CrlfScanning
import PyTune.Proofs.LexemeCount

/-!
# The lexemes of a text and of its CRLF form

Scanners on a text and on its CRLF form stay alike step by step (`Scanner.Crlf`) and give
lexemes that match (`Scanner.LexAlike`), unless a string literal in single quotes runs on over a
line end (`Token.continuesQuote`).
-/

namespace PyTune

open String (utf8Len)
open Text (crlfFrom endsCR crlfFrom_cons_of_ne OffsetsMatch StartsMatch)

/-- The text of a string literal opens with three quotes after its prefix letters. -/
def Scanner.opensTriple (raw : List Char) : Bool :=
  match raw.dropWhile Scanner.isPrefixLetter with
  | a :: b :: c :: _ => Scanner.isQuote a && b == a && c == a
  | _ => false

/-- A string literal in single quotes, not three, whose text holds a line feed: a backslash
before the line feed carries the literal onto the next line. -/
def Token.continuesQuote : Token → Bool
  | .str raw | .fstr raw => raw.toList.contains '\n' && !Scanner.opensTriple raw.toList
  | _ => false

namespace Scanner

/-! ### Steps of `scanBody` by the character ahead -/

theorem scanBody_blank {c : Char} (hc : (c == ' ' || c == '\t' || c == '\r' || c == '\x0c') = true)
    (s : Scanner) (cs : List Char) :
    s.scanBody (c :: cs) = scanBody { s with rest := cs, pos := s.pos + 1 } cs := by
  rw [scanBody.eq_def]
  simp only [hc, if_true]

theorem scanBody_newline (s : Scanner) (cs : List Char) :
    s.scanBody ('\n' :: cs) =
      if s.brackets.isEmpty then
        (⟨.newline, ⟨s.pos, s.pos + 1⟩⟩, { s with rest := cs, pos := s.pos + 1, atLineStart := true })
      else scanBody { s with rest := cs, pos := s.pos + 1 } cs := by
  rw [scanBody.eq_def]
  simp

theorem scanBody_continuation (s : Scanner) (r : List Char) :
    s.scanBody ('\\' :: '\r' :: '\n' :: r) = scanBody { s with rest := r, pos := s.pos + 3 } r := by
  rw [scanBody.eq_def]
  simp

theorem scanBody_comment (s : Scanner) (cs : List Char) :
    s.scanBody ('#' :: cs) =
      scanBody { s with
        rest := (afterComment cs).1
        pos := s.pos + 1 + utf8Length (cs.takeWhile fun x => x != '\n') } (afterComment cs).1 := by
  rw [scanBody.eq_def]
  simp [afterComment]

/-- At the first character of a lexeme of code. -/
theorem scanBody_code {c : Char} (hb : (c == ' ' || c == '\t' || c == '\r' || c == '\x0c') = false)
    (hl : c ≠ '\n') (hs : c ≠ '\\') (hh : c ≠ '#') (s : Scanner) (cs : List Char) :
    s.scanBody (c :: cs) =
      match stringStart? (c :: cs) with
      | some (letters, q, more) => s.lexString letters q more
      | none =>
        if c.isDigit || (c == '.' && (cs.head?.map Char.isDigit).getD false) then
          let (digits, after) := numberRun ' ' (c :: cs)
          { s with rest := after, pos := s.pos + digits.length }.emit s.pos .number
        else if isNameChar c then
          let (word, after) := (c :: cs).span isNameChar
          let text := String.ofList word
          { s with rest := after, pos := s.pos + utf8Length word }.emit s.pos
            (match Keyword.ofName? text with
              | some k => .keyword k
              | none => .name text)
        else s.punctuation c cs := by
  rw [scanBody.eq_def]
  dsimp only
  rewrite [if_neg (by simpa using hb), if_neg (by simpa using hl), if_neg (by simpa using hs),
    if_neg (by simpa using hh)]
  rfl

/-! ### Two scanners that read alike -/

/-- Where two scanners stand, one on `src` and one on its CRLF form: the first has read `pre`
and the second the same characters with CR LF line endings. When `ahead`, the next character
of `src` is a line feed that gains a carriage return, and the second has read that carriage
return too. -/
structure Along (src : String) (pre : List Char) (ahead : Bool) (s₁ s₂ : Scanner) : Prop where
  whole : pre ++ s₁.rest = src.toList
  pos₁ : s₁.pos = utf8Len pre
  rest₂ : s₂.rest = crlfFrom (ahead || endsCR false pre) s₁.rest
  pos₂ : s₂.pos = utf8Len (crlfFrom false pre) + ahead.toNat
  lf : ahead = true → s₁.rest.head? = some '\n' ∧ endsCR false pre = false

namespace Along

variable {src : String} {pre : List Char} {ahead : Bool} {s₁ s₂ s₁' s₂' : Scanner}

theorem isPrefix (h : Along src pre ahead s₁ s₂) : pre <+: src.toList :=
  ⟨_, h.whole⟩

theorem starts (h : Along src pre ahead s₁ s₂) : StartsMatch src s₁.pos s₂.pos := by
  cases ahead with
  | false => exact .inl ⟨pre, h.isPrefix, h.pos₁.symm, by rw [h.pos₂]; rfl⟩
  | true =>
    obtain ⟨hd, plain⟩ := h.lf rfl
    obtain ⟨r, hr⟩ : ∃ r, s₁.rest = '\n' :: r := by
      rcases e : s₁.rest with _ | ⟨d, r⟩
      · rw [e] at hd
        cases hd
      · rw [e, List.head?_cons, Option.some.injEq] at hd
        exact ⟨r, by rw [hd]⟩
    refine .inr ⟨pre, ⟨r, ?_⟩, plain, h.pos₁.symm, by rw [h.pos₂]; rfl⟩
    rw [List.append_assoc, List.singleton_append, ← hr, h.whole]

theorem offsets (h : Along src pre false s₁ s₂) : OffsetsMatch src s₁.pos s₂.pos :=
  ⟨pre, h.isPrefix, h.pos₁.symm, by rw [h.pos₂]; rfl⟩

/-- Both read on, past `u` in the text and past its CRLF form in the other. -/
theorem consume (h : Along src pre ahead s₁ s₂) {u : List Char} (hne : u ≠ [])
    (hu : s₁.rest = u ++ s₁'.rest) (hp₁ : s₁'.pos = s₁.pos + utf8Len u)
    (hr₂ : s₂'.rest = crlfFrom (endsCR (ahead || endsCR false pre) u) s₁'.rest)
    (hp₂ : s₂'.pos = s₂.pos + utf8Len (crlfFrom (ahead || endsCR false pre) u)) :
    Along src (pre ++ u) false s₁' s₂' where
  whole := by rw [List.append_assoc, ← hu, h.whole]
  pos₁ := by rw [hp₁, h.pos₁, String.utf8Len_append]
  rest₂ := by
    rw [hr₂, Bool.false_or, Text.endsCR_append, Text.endsCR_of_ne_nil hne _ (endsCR false pre)]
  pos₂ := by
    rw [hp₂, h.pos₂, Text.crlfFrom_append, String.utf8Len_append]
    cases ahead with
    | false => simp
    | true =>
      -- the carriage return read ahead is the one that the line feed opening `u` gains
      obtain ⟨hd, plain⟩ := h.lf rfl
      obtain ⟨u', rfl⟩ : ∃ u', u = '\n' :: u' := by
        rcases u with _ | ⟨d, u'⟩
        · exact absurd rfl hne
        · rw [hu, List.cons_append, List.head?_cons, Option.some.injEq] at hd
          exact ⟨u', by rw [hd]⟩
      rw [plain]
      simp only [Bool.true_or, Text.crlfFrom_lf_true, Text.crlfFrom_lf_false, Bool.toNat_true,
        Bool.toNat_false, String.utf8Len_cons]
      have : '\r'.utf8Size = 1 := rfl
      have : '\n'.utf8Size = 1 := rfl
      omega
  lf := fun h => nomatch h

/-- The carriage return that the line feed ahead gains, read in the CRLF form alone. -/
theorem skipCR (h : Along src pre false s₁ s₂) {r : List Char} (hr : s₁.rest = '\n' :: r)
    (plain : endsCR false pre = false) (hr₂ : s₂'.rest = '\n' :: crlfFrom false r)
    (hp₂ : s₂'.pos = s₂.pos + 1) : Along src pre true s₁ s₂' where
  whole := h.whole
  pos₁ := h.pos₁
  rest₂ := by rw [hr₂, hr, Bool.true_or, Text.crlfFrom_lf_true]
  pos₂ := by rw [hp₂, h.pos₂]; rfl
  lf := fun _ => ⟨by rw [hr]; rfl, plain⟩

theorem rest₂_lf (h : Along src pre false s₁ s₂) {r : List Char} (hr : s₁.rest = '\n' :: r)
    (plain : endsCR false pre = false) : s₂.rest = '\r' :: '\n' :: crlfFrom false r := by
  rw [h.rest₂, hr, Bool.false_or, plain, Text.crlfFrom_lf_false]

/-- Ahead of the first character of code, the second scanner has read no carriage return. -/
theorem not_ahead (h : Along src pre ahead s₁ s₂) {c : Char} {cs : List Char}
    (hr : s₁.rest = c :: cs) (hc : c ≠ '\n') : ahead = false := by
  cases ahead with
  | false => rfl
  | true =>
    have := (h.lf rfl).1
    rw [hr, List.head?_cons, Option.some.injEq] at this
    exact absurd this hc

/-- Where two scanners stand depends only on their unread input and their offsets. -/
theorem congr (h : Along src pre ahead s₁ s₂) (hr₁ : s₁'.rest = s₁.rest) (hp₁ : s₁'.pos = s₁.pos)
    (hr₂ : s₂'.rest = s₂.rest) (hp₂ : s₂'.pos = s₂.pos) : Along src pre ahead s₁' s₂' where
  whole := by rw [hr₁]; exact h.whole
  pos₁ := by rw [hp₁]; exact h.pos₁
  rest₂ := by rw [hr₁, hr₂]; exact h.rest₂
  pos₂ := by rw [hp₂]; exact h.pos₂
  lf := by rw [hr₁]; exact h.lf

/-- Both read `u`, which holds no line feed. -/
theorem onLine (h : Along src pre false s₁ s₂) {u : List Char} (hlf : '\n' ∉ u)
    (hu : s₁.rest = u ++ s₁'.rest) (hp₁ : s₁'.pos = s₁.pos + utf8Len u)
    (hr₂ : s₂'.rest = crlfFrom (endsCR (endsCR false pre) u) s₁'.rest)
    (hp₂ : s₂'.pos = s₂.pos + utf8Len u) : Along src (pre ++ u) false s₁' s₂' where
  whole := by rw [List.append_assoc, ← hu, h.whole]
  pos₁ := by rw [hp₁, h.pos₁, String.utf8Len_append]
  rest₂ := by rw [hr₂, Bool.false_or, Text.endsCR_append]
  pos₂ := by
    rw [hp₂, h.pos₂, Text.crlfFrom_append, Text.crlfFrom_of_not_mem hlf, String.utf8Len_append]
    simp only [Bool.toNat_false, Nat.add_zero]
  lf := nofun

/-- Both read one character of one byte other than a line feed. -/
theorem char (h : Along src pre ahead s₁ s₂) {c : Char} {cs : List Char} (hr : s₁.rest = c :: cs)
    (hl : c ≠ '\n') (size : c.utf8Size = 1) (hr₁ : s₁'.rest = cs) (hp₁ : s₁'.pos = s₁.pos + 1)
    (hr₂ : s₂'.rest = crlfFrom (c = '\r') cs) (hp₂ : s₂'.pos = s₂.pos + 1) :
    Along src (pre ++ [c]) false s₁' s₂' := by
  obtain rfl := h.not_ahead hr hl
  refine h.onLine (fun m => hl (List.mem_singleton.1 m).symm) (by rw [hr, hr₁]; rfl) ?_
    (by rw [hr₂, hr₁]; rfl) ?_
  · rw [hp₁, String.utf8Len_cons, String.utf8Len_nil, size]
  · rw [hp₂, String.utf8Len_cons, String.utf8Len_nil, size]

/-- Ahead of a character other than a line feed, the second scanner reads the same one. -/
theorem code (h : Along src pre ahead s₁ s₂) {c : Char} {cs : List Char}
    (hr : s₁.rest = c :: cs) (hl : c ≠ '\n') :
    ahead = false ∧ s₂.rest = c :: crlfFrom (c = '\r') cs := by
  obtain rfl := h.not_ahead hr hl
  exact ⟨rfl, by rw [h.rest₂, hr, crlfFrom_cons_of_ne hl]⟩

/-- At a line feed, the second scanner first reads the carriage return it gains, if it has not
read it already. -/
theorem at_lf (h : Along src pre ahead s₁ s₂) {cs : List Char} (hr : s₁.rest = '\n' :: cs) :
    ∃ ahead' p, Along src pre ahead' s₁ { s₂ with rest := '\n' :: crlfFrom false cs, pos := p } ∧
      s₂.scanBody s₂.rest =
        scanBody { s₂ with rest := '\n' :: crlfFrom false cs, pos := p } ('\n' :: crlfFrom false cs) := by
  by_cases gained : ahead = false ∧ endsCR false pre = false
  · obtain ⟨rfl, plain⟩ := gained
    refine ⟨true, s₂.pos + 1, h.skipCR hr plain rfl rfl, ?_⟩
    rw [h.rest₂_lf hr plain, scanBody_blank (by decide)]
  · -- the carriage return is in the text already, or was read ahead
    have hr₂ : s₂.rest = '\n' :: crlfFrom false cs := by
      have read : (ahead || endsCR false pre) = true := by
        cases ahead <;> simp_all
      rw [h.rest₂, hr, read, Text.crlfFrom_lf_true]
    exact ⟨ahead, s₂.pos, ⟨h.whole, h.pos₁, hr₂.symm.trans h.rest₂, h.pos₂, h.lf⟩, by rw [← hr₂]⟩

/-- Both read the line feed ahead, the second after the carriage return before it. -/
theorem lineFeed (h : Along src pre ahead s₁ s₂) {cs : List Char} (hr : s₁.rest = '\n' :: cs)
    (hr₂ : s₂.rest = '\n' :: crlfFrom false cs) (hs₁ : s₁'.rest = cs) (hp₁ : s₁'.pos = s₁.pos + 1)
    (hs₂ : s₂'.rest = crlfFrom false cs) (hp₂ : s₂'.pos = s₂.pos + 1) :
    Along src (pre ++ ['\n']) false s₁' s₂' := by
  have read : (ahead || endsCR false pre) = true := by
    have e := h.rest₂
    rw [hr₂, hr] at e
    cases b : (ahead || endsCR false pre)
    · rw [b, Text.crlfFrom_lf_false] at e
      exact absurd (List.cons.inj e).1 (by decide)
    · rfl
  refine h.consume (List.cons_ne_nil _ _) (by rw [hr, hs₁]; rfl) (by rw [hp₁]; rfl) ?_ ?_
  · rw [hs₂, hs₁]
    rfl
  · rw [hp₂, read, Text.crlfFrom_lf_true]
    rfl

/-- Both read a comment. The second also reads the carriage return that the line feed after
the comment gains, and then stands ahead. -/
theorem comment (h : Along src pre ahead s₁ s₂) {cs : List Char} (hr : s₁.rest = '#' :: cs)
    (hs₁ : s₁'.rest = cs.dropWhile (· != '\n'))
    (hp₁ : s₁'.pos = s₁.pos + 1 + utf8Len (cs.takeWhile (· != '\n')))
    (hs₂ : s₂'.rest = (crlfFrom false cs).dropWhile (· != '\n'))
    (hp₂ : s₂'.pos = s₂.pos + 1 + utf8Len ((crlfFrom false cs).takeWhile (· != '\n'))) :
    ∃ ahead', Along src (pre ++ '#' :: cs.takeWhile (· != '\n')) ahead' s₁' s₂' := by
  obtain rfl := h.not_ahead hr (by decide)
  obtain ⟨drop, take⟩ := comment_crlfFrom false cs
  have split : cs.takeWhile (· != '\n') ++ cs.dropWhile (· != '\n') = cs :=
    List.takeWhile_append_dropWhile
  have hlf : '\n' ∉ cs.takeWhile (· != '\n') := fun m => by
    simpa using List.mem_takeWhile_imp m
  have head : ∀ d ds, cs.dropWhile (· != '\n') = d :: ds → d = '\n' := fun d ds e => by
    have := List.head?_dropWhile_not (· != '\n') cs
    rw [e] at this
    simpa using this
  rw [drop] at hs₂
  rw [take] at hp₂
  generalize cs.takeWhile (· != '\n') = t at *
  generalize cs.dropWhile (· != '\n') = d at *
  subst split
  have ends : endsCR false (pre ++ '#' :: t) = endsCR false t := by
    rw [Text.endsCR_append]
    rfl
  have text₂ : crlfFrom false (pre ++ '#' :: t) = crlfFrom false pre ++ '#' :: t := by
    rw [Text.crlfFrom_append, crlfFrom_cons_of_ne (by decide), Text.crlfFrom_of_not_mem hlf]
  refine ⟨d ≠ [] ∧ endsCR false t = false, ?_, ?_, ?_, ?_, ?_⟩
  · rw [hs₁, List.append_assoc, List.cons_append, ← hr, h.whole]
  · rw [hp₁, h.pos₁, String.utf8Len_append, String.utf8Len_cons]
    have : '#'.utf8Size = 1 := rfl
    omega
  · rw [hs₂, hs₁, ends]
    rcases d with _ | ⟨d, ds⟩
    · rfl
    · cases endsCR false t <;> rfl
  · rw [hp₂, h.pos₂, text₂]
    have : '#'.utf8Size = 1 := rfl
    have : '\r'.utf8Size = 1 := rfl
    by_cases gain : d ≠ [] ∧ endsCR false t = false
    · rw [if_pos gain, decide_eq_true gain]
      simp only [Bool.toNat_true, Bool.toNat_false, String.utf8Len_append, String.utf8Len_cons,
        String.utf8Len_nil]
      omega
    · rw [if_neg gain, decide_eq_false gain]
      simp only [Bool.toNat_false, String.utf8Len_append, String.utf8Len_cons, String.utf8Len_nil]
      omega
  · intro gain
    simp only [decide_eq_true_eq] at gain
    obtain ⟨ne, plain⟩ := gain
    obtain ⟨d', ds, rfl⟩ := List.exists_cons_of_ne_nil ne
    rw [hs₁, head d' ds rfl, ends]
    exact ⟨rfl, plain⟩

end Along

/-- An open bracket on both scanners: the same character, opened at corresponding offsets. -/
def BracketAlike (src : String) (b₁ b₂ : Char × Nat) : Prop :=
  b₂.1 = b₁.1 ∧ OffsetsMatch src b₁.2 b₂.2

/-- Two scanners, one on `src` and one on its CRLF form, that read alike: the same state but
for where they stand, brackets opened at corresponding offsets, and, unless a fault has ended
both, corresponding places in their texts. -/
structure Crlf (src : String) (s₁ s₂ : Scanner) : Prop where
  size₁ : s₁.size = src.utf8ByteSize
  size₂ : s₂.size = (Text.crlf src).utf8ByteSize
  failed : s₂.failed = s₁.failed
  indents : s₂.indents = s₁.indents
  pending : s₂.pendingDedents = s₁.pendingDedents
  atLineStart : s₂.atLineStart = s₁.atLineStart
  brackets : List.Forall₂ (BracketAlike src) s₁.brackets s₂.brackets
  along : s₁.failed = false → ∃ pre ahead, Along src pre ahead s₁ s₂

theorem Crlf.start (src : String) : Crlf src (ofSource src) (ofSource (Text.crlf src)) where
  size₁ := rfl
  size₂ := rfl
  failed := rfl
  indents := rfl
  pending := rfl
  atLineStart := rfl
  brackets := .nil
  along := fun _ => ⟨[], false, rfl, rfl, Text.crlf_toList src, rfl, nofun⟩

/-- A lexeme of `src` and the one read at the same step from its CRLF form: the same token,
with a string literal's text in CR LF line endings; corresponding starts; corresponding ends
for a lexeme of code; and the same text for a name or a keyword. -/
structure LexAlike (src : String) (l₁ l₂ : Lexeme) : Prop where
  token : l₂.token = l₁.token.crlf
  start : StartsMatch src l₁.span.start l₂.span.start
  stop : l₁.token.fault? = none → l₁.token.isLayout = false →
    OffsetsMatch src l₁.span.stop l₂.span.stop
  text : l₁.token.isWord = true → l₂.span.text (Text.crlf src) = l₁.span.text src

namespace LexAlike

variable {src : String}

theorem fault {f : LexFault} {a₁ a₂ b₁ b₂ : Nat} (h : StartsMatch src a₁ a₂) :
    LexAlike src ⟨.invalid f, ⟨a₁, b₁⟩⟩ ⟨.invalid f, ⟨a₂, b₂⟩⟩ :=
  ⟨rfl, h, fun hf => (by cases hf), fun hw => (by cases hw)⟩

theorem layout {t : Token} (ht : t.isLayout = true) {a₁ a₂ b₁ b₂ : Nat}
    (h : StartsMatch src a₁ a₂) : LexAlike src ⟨t, ⟨a₁, b₁⟩⟩ ⟨t, ⟨a₂, b₂⟩⟩ := by
  have plain : t.crlf = t := by cases t <;> first | rfl | cases ht
  have notWord : t.isWord = false := by cases t <;> first | rfl | cases ht
  refine ⟨plain.symm, h, fun _ hl => ?_, fun hw => ?_⟩
  · rw [ht] at hl
    cases hl
  · rw [notWord] at hw
    cases hw

/-- A lexeme read over `u`, from where the two scanners stood to where they stand after. -/
theorem read {pre u : List Char} {ahead : Bool} {s₁ s₂ s₁' s₂' : Scanner} {t₁ t₂ : Token}
    (h : Along src pre ahead s₁ s₂) (h' : Along src (pre ++ u) false s₁' s₂') (ht : t₂ = t₁.crlf)
    (hword : t₁.isWord = true → '\n' ∉ u ∧ ahead = false) :
    LexAlike src ⟨t₁, ⟨s₁.pos, s₁'.pos⟩⟩ ⟨t₂, ⟨s₂.pos, s₂'.pos⟩⟩ := by
  refine ⟨ht, h.starts, fun _ _ => h'.offsets, fun hw => ?_⟩
  obtain ⟨hu, rfl⟩ := hword hw
  show Span.text ⟨s₂.pos, s₂'.pos⟩ _ = Span.text ⟨s₁.pos, s₁'.pos⟩ _
  rw [h.pos₁, h.pos₂, h'.pos₁, h'.pos₂]
  exact Text.text_of_not_mem h'.isPrefix hu

/-- A lexeme whose token the CRLF form leaves as it is, read over `u`. -/
theorem readPlain {pre u : List Char} {ahead : Bool} {s₁ s₂ s₁' s₂' : Scanner} {t : Token}
    (h : Along src pre ahead s₁ s₂) (h' : Along src (pre ++ u) false s₁' s₂') (ht : t.crlf = t)
    (hword : t.isWord = true → '\n' ∉ u ∧ ahead = false) :
    LexAlike src ⟨t, ⟨s₁.pos, s₁'.pos⟩⟩ ⟨t, ⟨s₂.pos, s₂'.pos⟩⟩ :=
  read h h' ht.symm hword

end LexAlike

namespace Crlf

variable {src : String} {s₁ s₂ : Scanner}

theorem moved (h : Crlf src s₁ s₂) {r₁ r₂ : List Char} {p₁ p₂ : Nat} {pre : List Char}
    {ahead : Bool}
    (ha : Along src pre ahead { s₁ with rest := r₁, pos := p₁ } { s₂ with rest := r₂, pos := p₂ }) :
    Crlf src { s₁ with rest := r₁, pos := p₁ } { s₂ with rest := r₂, pos := p₂ } :=
  ⟨h.size₁, h.size₂, h.failed, h.indents, h.pending, h.atLineStart, h.brackets,
    fun _ => ⟨pre, ahead, ha⟩⟩

theorem lineEnd (h : Crlf src s₁ s₂) {r₁ r₂ : List Char} {p₁ p₂ : Nat} {pre : List Char}
    {ahead : Bool}
    (ha : Along src pre ahead { s₁ with rest := r₁, pos := p₁, atLineStart := true }
      { s₂ with rest := r₂, pos := p₂, atLineStart := true }) :
    Crlf src { s₁ with rest := r₁, pos := p₁, atLineStart := true }
      { s₂ with rest := r₂, pos := p₂, atLineStart := true } :=
  ⟨h.size₁, h.size₂, h.failed, h.indents, h.pending, rfl, h.brackets, fun _ => ⟨pre, ahead, ha⟩⟩

theorem fail (h : Crlf src s₁ s₂) (r₁ r₂ : List Char) (p₁ p₂ : Nat) {bs₁ bs₂ : List (Char × Nat)}
    (hb : List.Forall₂ (BracketAlike src) bs₁ bs₂) :
    Crlf src { s₁ with rest := r₁, pos := p₁, brackets := bs₁, failed := true }
      { s₂ with rest := r₂, pos := p₂, brackets := bs₂, failed := true } :=
  ⟨h.size₁, h.size₂, rfl, h.indents, h.pending, h.atLineStart, hb, nofun⟩

end Crlf

/-- One step read alike on the two scanners: matching lexemes, and scanners that read alike
after them. -/
def StepAlike (src : String) (r₁ r₂ : Lexeme × Scanner) : Prop :=
  LexAlike src r₁.1 r₂.1 ∧ Crlf src r₁.2 r₂.2

variable {src : String} {s₁ s₂ : Scanner} {pre : List Char} {ahead : Bool}

/-- The same fault, found at corresponding places, ends both. -/
theorem fail_alike (h : Crlf src s₁ s₂) {r₁ r₂ : List Char} {p₁ p₂ a₁ a₂ : Nat}
    {bs₁ bs₂ : List (Char × Nat)} (hb : List.Forall₂ (BracketAlike src) bs₁ bs₂)
    (hs : StartsMatch src a₁ a₂) (f : LexFault) :
    StepAlike src ({ s₁ with rest := r₁, pos := p₁, brackets := bs₁ }.fail a₁ f)
      ({ s₂ with rest := r₂, pos := p₂, brackets := bs₂ }.fail a₂ f) :=
  ⟨LexAlike.fault hs, h.fail r₁ r₂ p₁ p₂ hb⟩

/-! ### The end of the input -/

theorem atEnd_crlf (h : Crlf src s₁ s₂) (ha : Along src pre ahead s₁ s₂) :
    StepAlike src s₁.atEnd s₂.atEnd := by
  have hb := h.brackets
  unfold atEnd
  rcases e₁ : s₁.brackets with _ | ⟨⟨o, a₁⟩, outer₁⟩
  · -- no bracket open: the same dedents, then the end
    rw [e₁, List.forall₂_nil_left_iff] at hb
    rw [hb, h.indents]
    rcases s₁.indents with _ | ⟨i, _ | ⟨j, is⟩⟩
    · exact ⟨LexAlike.layout rfl ha.starts, h⟩
    · exact ⟨LexAlike.layout rfl ha.starts, h⟩
    · exact ⟨LexAlike.layout rfl ha.starts, ⟨h.size₁, h.size₂, h.failed, rfl, rfl, h.atLineStart,
        .nil, fun _ => ⟨pre, ahead, ha.congr rfl rfl rfl rfl⟩⟩⟩
  · -- the innermost open bracket is a fault, opened at corresponding offsets
    rw [e₁, List.forall₂_cons_left_iff] at hb
    obtain ⟨⟨o₂, a₂⟩, outer₂, ⟨ho, hoff⟩, -, e₂⟩ := hb
    dsimp only at ho hoff
    rw [e₂, ho]
    exact fail_alike h h.brackets hoff.starts _

/-! ### String literals -/

theorem stringStart?_letters {cs letters more : List Char} {q : Char}
    (h : stringStart? cs = some (letters, q, more)) :
    (∀ x ∈ letters, isPrefixLetter x = true) ∧ isQuote q = true := by
  unfold stringStart? at h
  rw [List.span_eq_takeWhile_dropWhile] at h
  dsimp only at h
  split at h
  · next q' more' _ =>
    obtain ⟨ok, h⟩ := Option.ite_none_right_eq_some.1 h
    simp only [Option.some.injEq, Prod.mk.injEq] at h
    obtain ⟨rfl, rfl, rfl⟩ := h
    simp only [Bool.and_eq_true] at ok
    exact ⟨fun x hx => List.mem_takeWhile_imp hx, ok.2⟩
  · cases h

theorem isPrefixLetter_of_isQuote {q : Char} (hq : isQuote q = true) : isPrefixLetter q = false := by
  simp only [isQuote, Bool.or_eq_true, beq_iff_eq] at hq
  rcases hq with rfl | rfl <;> decide

/-- The token of a closed literal: its whole text. -/
theorem literal_token {s : Scanner} {letters opening body : List Char} {q : Char}
    {triple : Bool} (hc : (quotedBody q triple body).2.1 = .closed) :
    (s.literal letters opening q triple body).1.token =
      let raw := String.ofList (letters ++ opening ++ (quotedBody q triple body).1)
      if letters.any (fun c => c == 'f' || c == 'F') then .fstr raw else .str raw := by
  unfold literal
  rcases hb : quotedBody q triple body with ⟨read, e, rest⟩
  rw [hb] at hc
  cases hc
  rfl

theorem isWord_literal (c : Prop) [Decidable c] (raw : String) :
    (if c then Token.fstr raw else Token.str raw).isWord = false := by
  split <;> rfl

theorem crlf_literal (c : Prop) [Decidable c] (raw : String) :
    (if c then Token.fstr raw else Token.str raw).crlf =
      if c then Token.fstr (Text.crlf raw) else Token.str (Text.crlf raw) := by
  split <;> rfl

theorem continuesQuote_literal (c : Prop) [Decidable c] (raw : String) :
    (if c then Token.fstr raw else Token.str raw).continuesQuote =
      (raw.toList.contains '\n' && !opensTriple raw.toList) := by
  split <;> rfl

/-- A literal in single quotes reads no body that opens with two more quotes. -/
theorem quotedBody_single_head {q : Char} (hq : isQuote q = true) (cs : List Char) (x : Char)
    (ys : List Char) : (quotedBody q false cs).1 ≠ q :: x :: ys := by
  obtain ⟨qb, ql, -⟩ := isQuote_ne hq
  rcases cs with _ | ⟨c, cs⟩
  · simp [quotedBody]
  by_cases hb : c = '\\'
  · subst hb
    rcases cs with _ | ⟨d, cs⟩
    · simp [quotedBody]
    · rw [quotedBody_escape]
      intro e
      exact qb (List.cons.inj e).1.symm
  by_cases hc : c = q
  · subst hc
    rw [quotedBody_single_close qb]
    simp
  by_cases hl : c = '\n'
  · subst hl
    rw [quotedBody_single_lf ql]
    simp
  · rw [quotedBody_plain hb hc fun _ => hl]
    intro e
    exact hc (List.cons.inj e).1

theorem opensTriple_single {letters read : List Char} {q : Char}
    (hl : ∀ x ∈ letters, isPrefixLetter x = true) (hq : isQuote q = true)
    (hr : ∀ x ys, read ≠ q :: x :: ys) : opensTriple (letters ++ q :: read) = false := by
  unfold opensTriple
  rw [List.dropWhile_append_of_pos hl,
    List.dropWhile_cons_of_neg (by rw [isPrefixLetter_of_isQuote hq]; decide)]
  rcases read with _ | ⟨b, _ | ⟨c, rest⟩⟩
  · rfl
  · rfl
  · have hb : (b == q) = false := by
      rw [beq_eq_false_iff_ne]
      rintro rfl
      exact hr c rest rfl
    simp [hb]

/-- A string literal read alike, given what the second scanner reads of its body: the same
body in CR LF line endings when the literal closes, and an open body with the same fault
otherwise. -/
theorem literal_alike (h : Crlf src s₁ s₂) (ha : Along src pre false s₁ s₂)
    {letters opening body : List Char} {q : Char} {triple : Bool}
    (hr : s₁.rest = letters ++ opening ++ body) (hne : opening ≠ [])
    (hlf : '\n' ∉ letters ++ opening) (hend : endsCR false (letters ++ opening) = false)
    (hclosed : (quotedBody q triple body).2.1 = .closed →
      quotedBody q triple (crlfFrom false body) =
        (crlfFrom false (quotedBody q triple body).1, .closed,
          crlfFrom (endsCR false (quotedBody q triple body).1) (quotedBody q triple body).2.2))
    (hopen : (quotedBody q triple body).2.1 ≠ .closed →
      (quotedBody q triple (crlfFrom false body)).2.1 ≠ .closed ∧
        (triple = true →
          (quotedBody q triple (crlfFrom false body)).2.1 = (quotedBody q triple body).2.1)) :
    StepAlike src (s₁.literal letters opening q triple body)
      (s₂.literal letters opening q triple (crlfFrom false body)) := by
  have whole := quotedBody_append q triple body
  rcases hb₁ : quotedBody q triple body with ⟨read, e, rest⟩
  rw [hb₁] at hclosed hopen whole
  dsimp only at hclosed hopen whole
  cases e with
  | closed =>
    have hb₂ := hclosed rfl
    have lead : crlfFrom false (letters ++ opening ++ read) =
        letters ++ opening ++ crlfFrom false read := by
      rw [Text.crlfFrom_append_of_not_mem hlf, hend]
    have ends : ∀ b, endsCR b (letters ++ opening) = false := fun b => by
      rw [← hend]
      exact Text.endsCR_of_ne_nil (by simp [hne]) _ _
    have lead₂ : ∀ b, crlfFrom b (letters ++ opening ++ read) =
        letters ++ opening ++ crlfFrom false read := fun b => by
      rw [Text.crlfFrom_append_of_not_mem hlf, ends]
    have ha' : Along src (pre ++ (letters ++ opening ++ read)) false
        { s₁ with rest, pos := s₁.pos + utf8Length (letters ++ opening ++ read) }
        { s₂ with
          rest := crlfFrom (endsCR false read) rest
          pos := s₂.pos + utf8Length (letters ++ opening ++ crlfFrom false read) } := by
      refine ha.consume (by simp [hne]) ?_ (by rw [utf8Length_eq]) ?_ ?_
      · rw [hr, ← whole]
        simp only [List.append_assoc]
      · rw [Text.endsCR_append, ends]
      · rw [utf8Length_eq, lead₂]
    simp only [literal, hb₁, hb₂]
    refine ⟨LexAlike.read ha ha' ?_ fun hw => absurd hw (by rw [isWord_literal]; decide),
      h.moved ha'⟩
    rw [crlf_literal, Text.crlf, String.toList_ofList, lead]
  | lineEnd | inputEnd =>
    obtain ⟨ne₂, same⟩ := hopen (by intro e; cases e)
    rcases hb₂ : quotedBody q triple (crlfFrom false body) with ⟨read₂, e₂, rest₂⟩
    rw [hb₂] at ne₂ same
    simp only [literal, hb₁, hb₂]
    cases e₂ <;> cases triple <;> first
      | exact absurd rfl ne₂
      | exact fail_alike h h.brackets ha.starts _
      | cases same rfl

/-- A string literal read alike on the two scanners, unless it is in single quotes and a
backslash carries it onto the next line. -/
theorem lexString_crlf (h : Crlf src s₁ s₂) (ha : Along src pre false s₁ s₂)
    {letters more : List Char} {q : Char} (hs : stringStart? s₁.rest = some (letters, q, more))
    (hq : (s₁.lexString letters q more).1.token.continuesQuote = false) :
    StepAlike src (s₁.lexString letters q more) (s₂.lexString letters q (crlfFrom false more)) := by
  obtain ⟨hl, hquote⟩ := stringStart?_letters hs
  obtain ⟨qb, ql, qr⟩ := isQuote_ne hquote
  have hr := stringStart?_eq hs
  have lead : ∀ opening : List Char, opening ≠ [] → (∀ x ∈ opening, x = q) →
      '\n' ∉ letters ++ opening ∧ endsCR false (letters ++ opening) = false := by
    intro opening hne hq'
    refine ⟨fun m => ?_, ?_⟩
    · rcases List.mem_append.1 m with m | m
      · exact absurd (hl _ m) (by rw [isPrefixLetter_lf]; decide)
      · exact ql (hq' _ m).symm
    · obtain ⟨init, last, e⟩ := List.eq_nil_or_concat opening |>.resolve_left hne
      rw [e, List.concat_eq_append, ← List.append_assoc, Text.endsCR_append,
        hq' last (by rw [e]; simp)]
      exact decide_eq_false qr
  by_cases three : ∃ r, more = q :: q :: r
  · obtain ⟨r, rfl⟩ := three
    have more₂ : crlfFrom false (q :: q :: r) = q :: q :: crlfFrom false r := by
      rw [crlfFrom_cons_of_ne ql, crlfFrom_cons_of_ne ql, decide_eq_false qr]
    obtain ⟨hlf, hend⟩ := lead [q, q, q] (by simp) (by simp)
    rw [lexString_triple] at hq ⊢
    rw [more₂, lexString_triple]
    have body := quotedBody_crlfFrom_triple hquote r false
    exact literal_alike h ha (by rw [hr]; simp) (by simp) hlf hend (fun hc => by rw [body, hc])
      fun ne => ⟨by rw [body]; exact ne, fun _ => by rw [body]⟩
  · have three₂ : ¬ ∃ r, crlfFrom false more = q :: q :: r :=
      fun ⟨_, e⟩ => three (crlfFrom_quotes ql qr e)
    obtain ⟨hlf, hend⟩ := lead [q] (by simp) (by simp)
    rw [lexString_single _ _ three] at hq ⊢
    rw [lexString_single _ _ three₂]
    refine literal_alike h ha (by rw [hr]; simp) (by simp) hlf hend (fun closed => ?_)
      fun ne => ⟨quotedBody_crlfFrom_open hquote more ne false, nofun⟩
    -- a literal closed in single quotes holds no line feed, so reads alike
    have text : opensTriple (letters ++ q :: (quotedBody q false more).1) = false :=
      opensTriple_single hl hquote (quotedBody_single_head hquote more)
    rw [literal_token closed] at hq
    have nolf : '\n' ∉ (quotedBody q false more).1 := by
      dsimp only at hq
      rw [continuesQuote_literal, String.toList_ofList, List.append_assoc, List.singleton_append,
        text, Bool.not_false, Bool.and_true] at hq
      intro m
      have inText : (letters ++ q :: (quotedBody q false more).1).contains '\n' = true :=
        List.contains_iff_mem.2 (List.mem_append_right _ (List.mem_cons_of_mem _ m))
      rw [inText] at hq
      cases hq
    have whole := quotedBody_append q false more
    have closed' := quotedBody_closed hquote more closed
      (crlfFrom (endsCR false (quotedBody q false more).1) (quotedBody q false more).2.2)
    have split : crlfFrom false more = (quotedBody q false more).1 ++
        crlfFrom (endsCR false (quotedBody q false more).1) (quotedBody q false more).2.2 := by
      conv_lhs => rw [← whole]
      rw [Text.crlfFrom_append_of_not_mem nolf]
    rw [split, closed', Text.crlfFrom_of_not_mem nolf]

/-! ### Brackets, operators and delimiters -/

/-- A bracket, operator or delimiter read alike: the same one, from the same characters, and
the same bracket pushed or popped at corresponding offsets. -/
theorem punctuation_crlf (h : Crlf src s₁ s₂) (ha : Along src pre false s₁ s₂) {c : Char}
    {cs : List Char} (hr : s₁.rest = c :: cs) (hl : c ≠ '\n') (hcr : c ≠ '\r') :
    StepAlike src (s₁.punctuation c cs) (s₂.punctuation c (crlfFrom false cs)) := by
  have after : ∀ u : List Char, crlfFrom (endsCR (endsCR false pre) (c :: u)) =
      crlfFrom (endsCR false u) := fun u => by
    show crlfFrom (endsCR (decide (c = '\r')) u) = _
    rw [decide_eq_false hcr]
  have one : ∀ {t₁ t₂ : Scanner}, c.utf8Size = 1 → t₁.rest = cs → t₁.pos = s₁.pos + 1 →
      t₂.rest = crlfFrom false cs → t₂.pos = s₂.pos + 1 → Along src (pre ++ [c]) false t₁ t₂ :=
    fun size hr₁ hp₁ hr₂ hp₂ =>
      ha.char hr hl size hr₁ hp₁ (by rw [hr₂, decide_eq_false hcr]) hp₂
  have opened : ∀ t : Token, t.crlf = t → t.isWord = false → c.utf8Size = 1 → StepAlike src
      ({ s₁ with rest := cs, pos := s₁.pos + 1, brackets := (c, s₁.pos) :: s₁.brackets }.emit
        s₁.pos t)
      ({ s₂ with
          rest := crlfFrom false cs
          pos := s₂.pos + 1
          brackets := (c, s₂.pos) :: s₂.brackets }.emit s₂.pos t) := fun t plain word size =>
    ⟨LexAlike.read ha (one size rfl rfl rfl rfl) plain.symm fun hw => absurd hw (by rw [word]; decide),
      ⟨h.size₁, h.size₂, h.failed, h.indents, h.pending, h.atLineStart,
        .cons ⟨rfl, ha.offsets⟩ h.brackets, fun _ => ⟨_, _, one size rfl rfl rfl rfl⟩⟩⟩
  unfold punctuation
  dsimp only
  by_cases lp : (c == '(') = true
  · rw [if_pos lp, if_pos lp]
    exact opened _ rfl rfl (by rw [beq_iff_eq.1 lp]; rfl)
  rw [if_neg lp, if_neg lp]
  by_cases lb : (c == '[') = true
  · rw [if_pos lb, if_pos lb]
    exact opened _ rfl rfl (by rw [beq_iff_eq.1 lb]; rfl)
  rw [if_neg lb, if_neg lb]
  by_cases lc : (c == '{') = true
  · rw [if_pos lc, if_pos lc]
    exact opened _ rfl rfl (by rw [beq_iff_eq.1 lc]; rfl)
  rw [if_neg lc, if_neg lc]
  by_cases cl : (c == ')' || c == ']' || c == '}') = true
  · -- a closing bracket: both pop the same innermost bracket, or fail alike
    rw [if_pos cl, if_pos cl]
    have size : c.utf8Size = 1 := by
      simp only [Bool.or_eq_true, beq_iff_eq] at cl
      rcases cl with (rfl | rfl) | rfl <;> rfl
    have hb := h.brackets
    rcases e₁ : s₁.brackets with _ | ⟨⟨o, a₁⟩, outer₁⟩
    · rw [e₁, List.forall₂_nil_left_iff] at hb
      rw [hb]
      exact fail_alike h .nil ha.starts _
    have hb' := hb
    rw [e₁, List.forall₂_cons_left_iff] at hb
    obtain ⟨⟨o₂, a₂⟩, outer₂, ⟨ho, -⟩, houter, e₂⟩ := hb
    dsimp only at ho
    rw [e₁, e₂] at hb'
    rw [e₂, ho]
    dsimp only
    by_cases m : (o == openerOf c) = true
    · rw [if_pos m, if_pos m]
      have plain : ∀ t : Token, t = (if c == ')' then .rParen else if c == ']' then .rBracket
          else .rBrace) → t.crlf = t ∧ t.isWord = false := by
        rintro t rfl
        split
        · exact ⟨rfl, rfl⟩
        · split <;> exact ⟨rfl, rfl⟩
      obtain ⟨tc, tw⟩ := plain _ rfl
      exact ⟨LexAlike.read ha (one size rfl rfl rfl rfl) tc.symm
          fun hw => absurd hw (by rw [tw]; decide),
        ⟨h.size₁, h.size₂, h.failed, h.indents, h.pending, h.atLineStart, houter,
          fun _ => ⟨_, _, one size rfl rfl rfl rfl⟩⟩⟩
    · rw [if_neg m, if_neg m]
      rw [ho] at hb'
      exact fail_alike h hb' ha.starts _
  rw [if_neg cl, if_neg cl, operator_crlfFrom]
  rcases ho : operator c cs with _ | ⟨t, n⟩
  · exact fail_alike h h.brackets ha.starts _
  obtain ⟨pos, le, len⟩ := operator_taken ho
  obtain ⟨plain, word⟩ := operator_token_plain ho
  have nolf := operator_taken_no_lf ho
  obtain ⟨m, rfl⟩ : ∃ m, n = m + 1 := ⟨n - 1, by omega⟩
  simp only [Nat.add_sub_cancel] at nolf ⊢
  have taken : (cs.take m).length = m := by
    simp only [List.length_cons] at le
    exact List.length_take_of_le (by omega)
  have drop₂ : (crlfFrom false cs).drop m = crlfFrom (endsCR false (cs.take m)) (cs.drop m) := by
    conv_lhs => rw [← List.take_append_drop m cs]
    rw [Text.crlfFrom_append_of_not_mem nolf, List.drop_left' taken]
  have ha' : Along src (pre ++ c :: cs.take m) false { s₁ with rest := cs.drop m, pos := s₁.pos + (m + 1) }
      { s₂ with rest := (crlfFrom false cs).drop m, pos := s₂.pos + (m + 1) } := by
    rw [List.take_succ_cons] at len
    refine ha.onLine (List.not_mem_cons_of_ne_of_not_mem hl.symm nolf) ?_ ?_ ?_ ?_
    · rw [hr]
      exact congrArg (c :: ·) (List.take_append_drop m cs).symm
    · rw [len]
    · rw [drop₂, after]
    · rw [len]
  exact ⟨LexAlike.read ha ha' plain.symm fun hw => absurd hw (by rw [word]; decide), h.moved ha'⟩

/-! ### Reading on inside a logical line -/

theorem scanBody_badCR (s : Scanner) {r : List Char} (hr : ∀ r', r ≠ '\n' :: r') :
    s.scanBody ('\\' :: '\r' :: r) =
      { s with rest := r, pos := s.pos + 2 }.fail s.pos .badContinuation := by
  rw [scanBody.eq_def]
  rcases r with _ | ⟨d, r⟩
  · simp
  · have hd : d ≠ '\n' := fun e => hr r (by rw [e])
    simp

theorem scanBody_badBackslash (s : Scanner) {r : List Char} (hn : ∀ r', r ≠ '\n' :: r')
    (hc : ∀ r', r ≠ '\r' :: r') :
    s.scanBody ('\\' :: r) = { s with rest := r, pos := s.pos + 1 }.fail s.pos .badContinuation := by
  rw [scanBody.eq_def]
  rcases r with _ | ⟨d, r⟩
  · simp
  · have h₁ : d ≠ '\n' := fun e => hn r (by rw [e])
    have h₂ : d ≠ '\r' := fun e => hc r (by rw [e])
    simp [h₂]

theorem crlfFrom_crlf_pair (cr : Bool) (r : List Char) :
    crlfFrom cr ('\r' :: '\n' :: r) = '\r' :: '\n' :: crlfFrom false r := by
  rw [crlfFrom_cons_of_ne (by decide)]
  exact congrArg _ (Text.crlfFrom_lf_true r)

/-- At the first character of a lexeme of code, the second scanner reads the same character
and makes the same choice: a string literal with the CRLF form of what follows its quote, a
number or a word over the same characters, or the same punctuation. -/
theorem scanBody_code_crlf (ha : Along src pre ahead s₁ s₂) {c : Char} {cs : List Char}
    (hr : s₁.rest = c :: cs) (hb : ¬(c == ' ' || c == '\t' || c == '\r' || c == '\x0c') = true)
    (hl : ¬(c == '\n') = true) (hs : ¬(c == '\\') = true) (hh : ¬(c == '#') = true) :
    ahead = false ∧ s₂.scanBody s₂.rest =
      match stringStart? (c :: cs) with
      | some (letters, q, more) => s₂.lexString letters q (crlfFrom false more)
      | none =>
        if c.isDigit || (c == '.' && (cs.head?.map Char.isDigit).getD false) then
          { s₂ with
            rest := crlfFrom (endsCR false (numberRun ' ' (c :: cs)).1) (numberRun ' ' (c :: cs)).2
            pos := s₂.pos + (numberRun ' ' (c :: cs)).1.length }.emit s₂.pos .number
        else if isNameChar c then
          { s₂ with
            rest := crlfFrom (endsCR false ((c :: cs).takeWhile isNameChar))
              ((c :: cs).dropWhile isNameChar)
            pos := s₂.pos + utf8Length ((c :: cs).takeWhile isNameChar) }.emit s₂.pos
            (match Keyword.ofName? (String.ofList ((c :: cs).takeWhile isNameChar)) with
              | some k => .keyword k
              | none => .name (String.ofList ((c :: cs).takeWhile isNameChar)))
        else s₂.punctuation c (crlfFrom false cs) := by
  have hl' : c ≠ '\n' := fun e => hl (by rw [e]; rfl)
  have hcr : c ≠ '\r' := fun e => hb (by rw [e]; rfl)
  obtain ⟨rfl, hr₂⟩ := ha.code hr hl'
  rw [decide_eq_false hcr] at hr₂
  have front : crlfFrom false (c :: cs) = c :: crlfFrom false cs := by
    rw [crlfFrom_cons_of_ne hl', decide_eq_false hcr]
  refine ⟨rfl, ?_⟩
  rw [hr₂, scanBody_code (by simpa using hb) hl' (fun e => hs (by rw [e]; rfl))
    (fun e => hh (by rw [e]; rfl)), ← front, stringStart?_crlfFrom]
  rcases stringStart? (c :: cs) with _ | ⟨letters, q, more⟩
  · have name_lf : isNameChar '\n' = false := by decide
    have name_cr : isNameChar '\r' = false := by decide
    simp only [Option.map_none, head_isDigit_crlfFrom, numberRun_crlfFrom,
      List.span_eq_takeWhile_dropWhile, Text.takeWhile_crlfFrom name_lf name_cr,
      Text.dropWhile_crlfFrom name_lf name_cr]
  · rfl

/-- One lexeme read inside a logical line, alike on the two scanners: blanks, comments,
continuations and line feeds inside brackets are skipped alike, and the lexeme after them
matches, unless it is a string literal that a backslash carries across a line in single
quotes. -/
theorem scanBody_crlf (s₁ : Scanner) (input : List Char) {s₂ : Scanner} {pre : List Char}
    {ahead : Bool} (h : Crlf src s₁ s₂) (ha : Along src pre ahead s₁ s₂) (hr : s₁.rest = input)
    (hq : (s₁.scanBody input).1.token.continuesQuote = false) :
    StepAlike src (s₁.scanBody input) (s₂.scanBody s₂.rest) := by
  fun_induction scanBody s₁ input generalizing s₂ pre ahead with
  | case1 s =>
    have hr₂ : s₂.rest = [] := by rw [ha.rest₂, hr]; rfl
    rw [hr₂, scanBody.eq_1]
    exact atEnd_crlf h ha
  | case2 s c cs start blank =>
    rename_i ih
    have hl : c ≠ '\n' := by
      rintro rfl
      cases blank
    obtain ⟨rfl, hr₂⟩ := ha.code hr hl
    rw [hr₂, scanBody_blank blank]
    have ha' : Along src (pre ++ [c]) false { s with rest := cs, pos := s.pos + 1 }
        { s₂ with rest := crlfFrom (c = '\r') cs, pos := s₂.pos + 1 } :=
      ha.char hr hl (utf8Size_of_blank blank) rfl rfl rfl rfl
    exact ih (h.moved ha') ha' rfl hq
  | case3 s c cs start _ newline =>
    rename_i empty
    rw [beq_iff_eq.1 newline] at hr
    obtain ⟨ahead', p, ha', e⟩ := ha.at_lf hr
    have empty₂ : s₂.brackets.isEmpty = true := by
      have hb := h.brackets
      rw [List.isEmpty_iff] at empty ⊢
      rwa [empty, List.forall₂_nil_left_iff] at hb
    rw [e, scanBody_newline]
    simp only [empty₂, if_true]
    exact ⟨LexAlike.layout rfl ha'.starts, h.lineEnd (ha'.lineFeed hr rfl rfl rfl rfl rfl)⟩
  | case4 s c cs start _ newline nonempty =>
    rename_i ih
    rw [beq_iff_eq.1 newline] at hr
    obtain ⟨ahead', p, ha', e⟩ := ha.at_lf hr
    have nonempty₂ : s₂.brackets.isEmpty = false := by
      have hb := h.brackets
      cases e₂ : s₂.brackets.isEmpty
      · rfl
      · rw [List.isEmpty_iff] at e₂
        rw [e₂, List.forall₂_nil_right_iff] at hb
        rw [hb] at nonempty
        exact absurd rfl nonempty
    rw [e, scanBody_newline]
    simp only [nonempty₂, Bool.false_eq_true, if_false]
    have ha'' : Along src (pre ++ ['\n']) false { s with rest := cs, pos := s.pos + 1 }
        { s₂ with rest := crlfFrom false cs, pos := p + 1 } :=
      ha'.lineFeed hr rfl rfl rfl rfl rfl
    exact ih (h.moved ha'') ha'' rfl hq
  | case5 s c start _ _ backslash r =>
    rename_i ih
    rw [beq_iff_eq.1 backslash] at hr
    obtain ⟨rfl, hr₂⟩ := ha.code hr (by decide)
    rw [hr₂, crlfFrom_crlf_pair, scanBody_continuation]
    have ha' : Along src (pre ++ ['\\', '\r', '\n']) false { s with rest := r, pos := s.pos + 3 }
        { s₂ with rest := crlfFrom false r, pos := s₂.pos + 3 } :=
      ha.consume (by simp) (by rw [hr]; rfl) rfl rfl
        (by rw [crlfFrom_cons_of_ne (by decide), crlfFrom_crlf_pair]; rfl)
    exact ih (h.moved ha') ha' rfl hq
  | case6 s c start _ _ backslash r =>
    rename_i ih
    rw [beq_iff_eq.1 backslash] at hr
    obtain ⟨rfl, hr₂⟩ := ha.code hr (by decide)
    have tail : crlfFrom (decide ('\\' = '\r')) ('\n' :: r) = '\r' :: '\n' :: crlfFrom false r :=
      Text.crlfFrom_lf_false r
    rw [hr₂, tail, scanBody_continuation]
    have ha' : Along src (pre ++ ['\\', '\n']) false { s with rest := r, pos := s.pos + 2 }
        { s₂ with rest := crlfFrom false r, pos := s₂.pos + 3 } :=
      ha.consume (by simp) (by rw [hr]; rfl) rfl rfl
        (by rw [crlfFrom_cons_of_ne (by decide)]; rfl)
    exact ih (h.moved ha') ha' rfl hq
  | case7 s c start _ _ backslash r =>
    rename_i noLF
    rw [beq_iff_eq.1 backslash] at hr
    obtain ⟨rfl, hr₂⟩ := ha.code hr (by decide)
    -- the carriage return after the backslash gains nothing, and no line feed follows it
    have next : ∀ r', crlfFrom true r ≠ '\n' :: r' := by
      rcases r with _ | ⟨d, r⟩
      · nofun
      · have hd : d ≠ '\n' := fun e => noLF r (by rw [e])
        rw [crlfFrom_cons_of_ne hd]
        intro r' e
        exact hd (List.cons.inj e).1
    have tail : crlfFrom (decide ('\\' = '\r')) ('\r' :: r) = '\r' :: crlfFrom true r :=
      crlfFrom_cons_of_ne (by decide) _ _
    rw [hr₂, tail, scanBody_badCR _ next]
    exact fail_alike h h.brackets ha.starts _
  | case8 s c start _ _ backslash r noPair noLF =>
    rename_i noCR
    rw [beq_iff_eq.1 backslash] at hr
    obtain ⟨rfl, hr₂⟩ := ha.code hr (by decide)
    have next : (∀ r', crlfFrom false r ≠ '\n' :: r') ∧ ∀ r', crlfFrom false r ≠ '\r' :: r' := by
      rcases r with _ | ⟨d, r⟩
      · exact ⟨nofun, nofun⟩
      · have hd : d ≠ '\n' := fun e => noLF r (by rw [e])
        have hd' : d ≠ '\r' := fun e => noCR r (by rw [e])
        rw [crlfFrom_cons_of_ne hd]
        exact ⟨fun r' e => hd (List.cons.inj e).1, fun r' e => hd' (List.cons.inj e).1⟩
    have tail : crlfFrom (decide ('\\' = '\r')) r = crlfFrom false r := rfl
    rw [hr₂, tail, scanBody_badBackslash _ next.1 next.2]
    exact fail_alike h h.brackets ha.starts _
  | case9 s c cs start _ _ _ hash r _ comment =>
    rename_i ih
    rw [beq_iff_eq.1 hash] at hr
    obtain rfl : r = cs.dropWhile (· != '\n') := (congrArg Subtype.val comment).symm
    obtain ⟨rfl, hr₂⟩ := ha.code hr (by decide)
    rw [show decide ('#' = '\r') = false from rfl] at hr₂
    rw [hr₂, scanBody_comment]
    obtain ⟨ahead', ha'⟩ : ∃ ahead', Along src (pre ++ '#' :: cs.takeWhile (· != '\n')) ahead'
        { s with
          rest := cs.dropWhile (· != '\n')
          pos := s.pos + 1 + utf8Length (cs.takeWhile fun x => x != '\n') }
        { s₂ with
          rest := (afterComment (crlfFrom false cs)).1
          pos := s₂.pos + 1 + utf8Length ((crlfFrom false cs).takeWhile fun x => x != '\n') } :=
      ha.comment hr rfl (by rw [utf8Length_eq]) rfl (by rw [utf8Length_eq])
    exact ih (h.moved ha') ha' rfl hq
  | case10 s c cs blank lf bs hash letters q more opening =>
    obtain ⟨rfl, e⟩ := scanBody_code_crlf ha hr blank lf bs hash
    rw [e, opening]
    exact lexString_crlf h ha (by rw [hr]; exact opening) hq
  | case11 s c cs start blank lf bs hash none number digits after =>
    rename_i run
    obtain ⟨rfl, e⟩ := scanBody_code_crlf ha hr blank lf bs hash
    rw [e, none]
    dsimp only
    rw [if_pos number, run]
    obtain ⟨split, ascii⟩ := numberRun_split ' ' (c :: cs)
    have nolf := lf_not_mem_numberRun ' ' (c :: cs)
    rw [run] at split ascii nolf
    have first := numberRun_ne_nil number
    rw [run] at first
    have ha' : Along src (pre ++ digits) false
        { s with rest := after, pos := s.pos + digits.length }
        { s₂ with rest := crlfFrom (endsCR false digits) after, pos := s₂.pos + digits.length } :=
      ha.onLine nolf (hr.trans split.symm) (by rw [utf8Len_eq_length ascii])
        (by rw [Text.endsCR_of_ne_nil first (endsCR false pre) false]) (by rw [utf8Len_eq_length ascii])
    exact ⟨LexAlike.read ha ha' rfl nofun, h.moved ha'⟩
  | case12 s c cs start blank lf bs hash none notNumber name word after =>
    rename_i span _
    obtain ⟨rfl, e⟩ := scanBody_code_crlf ha hr blank lf bs hash
    rw [e, none]
    dsimp only
    rw [if_neg notNumber, if_pos name]
    rw [List.span_eq_takeWhile_dropWhile, Prod.mk.injEq] at span
    obtain ⟨rfl, rfl⟩ := span
    have first : (c :: cs).takeWhile isNameChar ≠ [] := by
      rw [List.takeWhile_cons_of_pos name]
      exact List.cons_ne_nil _ _
    have nolf : '\n' ∉ (c :: cs).takeWhile isNameChar :=
      Text.not_mem_takeWhile (show isNameChar '\n' = false by decide) _
    have ha' : Along src (pre ++ (c :: cs).takeWhile isNameChar) false
        { s with
          rest := (c :: cs).dropWhile isNameChar
          pos := s.pos + utf8Length ((c :: cs).takeWhile isNameChar) }
        { s₂ with
          rest := crlfFrom (endsCR false ((c :: cs).takeWhile isNameChar))
            ((c :: cs).dropWhile isNameChar)
          pos := s₂.pos + utf8Length ((c :: cs).takeWhile isNameChar) } :=
      ha.onLine nolf (by rw [hr, List.takeWhile_append_dropWhile]) (by rw [utf8Length_eq])
        (by rw [Text.endsCR_of_ne_nil first (endsCR false pre) false]) (by rw [utf8Length_eq])
    exact ⟨LexAlike.readPlain ha ha' (by split <;> rfl) fun _ => ⟨nolf, rfl⟩, h.moved ha'⟩
  | case13 s c cs blank lf bs hash none notNumber notName =>
    obtain ⟨rfl, e⟩ := scanBody_code_crlf ha hr blank lf bs hash
    rw [e, none]
    dsimp only
    rw [if_neg notNumber, if_neg notName]
    exact punctuation_crlf h ha hr (fun e => lf (by rw [e]; rfl)) (fun e => blank (by rw [e]; rfl))

/-! ### The start of a logical line -/

/-- Two results of a line start read alike: no lexeme on either or matching ones, and
scanners that read alike after them. -/
def LineAlike (src : String) (r₁ r₂ : Option Lexeme × Scanner) : Prop :=
  Option.Rel (LexAlike src) r₁.1 r₂.1 ∧ Crlf src r₁.2 r₂.2

theorem indentTo_crlf (h : Crlf src s₁ s₂) (ha : Along src pre ahead s₁ s₂) (col : Nat) :
    LineAlike src (s₁.indentTo col) (s₂.indentTo col) := by
  have same : ∀ {t₁ t₂ : Scanner}, t₁.rest = s₁.rest → t₁.pos = s₁.pos → t₂.rest = s₂.rest →
      t₂.pos = s₂.pos → ∃ pre ahead, Along src pre ahead t₁ t₂ :=
    fun hr₁ hp₁ hr₂ hp₂ => ⟨pre, ahead, ha.congr hr₁ hp₁ hr₂ hp₂⟩
  unfold indentTo
  rw [h.indents]
  dsimp only
  split
  · -- a deeper column opens a level on both
    exact ⟨.some (LexAlike.layout rfl ha.starts), ⟨h.size₁, h.size₂, h.failed, rfl, h.pending,
      h.atLineStart, h.brackets, fun _ => same rfl rfl rfl rfl⟩⟩
  split
  · -- a shallower column closes the same levels on both, or fails alike
    rcases hp : popAbove col s₁.indents 0 with ⟨stack, n⟩
    dsimp only
    split
    · exact ⟨.some (LexAlike.layout rfl ha.starts), ⟨h.size₁, h.size₂, h.failed, rfl, rfl,
        h.atLineStart, h.brackets, fun _ => same rfl rfl rfl rfl⟩⟩
    · exact ⟨.some (LexAlike.fault ha.starts), h.fail s₁.rest s₂.rest s₁.pos s₂.pos h.brackets⟩
  · exact ⟨.none, h⟩

theorem lineStart_none {s t : Scanner} (e : s.lineStart = (none, t)) : t.failed = s.failed := by
  unfold lineStart at e
  rcases hk : skipToCode s.rest s.pos 0 false with ⟨col, rest, pos⟩
  rw [hk] at e
  dsimp only at e
  split at e
  · cases e
    rfl
  · rw [indentTo_none e]

/-- At the start of a logical line both skip the same blank lines and comments, and then
read the same indentation. -/
theorem lineStart_crlf (h : Crlf src s₁ s₂) (ha : Along src pre ahead s₁ s₂) :
    LineAlike src s₁.lineStart s₂.lineStart := by
  obtain ⟨u, hu, hp, e₂⟩ :=
    skipToCode_crlfFrom s₁.rest s₁.pos 0 false (ahead || endsCR false pre) s₂.pos
  rw [← ha.rest₂] at e₂
  unfold lineStart
  rw [e₂]
  rcases hk : skipToCode s₁.rest s₁.pos 0 false with ⟨col, rest, pos⟩
  rw [hk] at hu hp
  dsimp only at hu hp ⊢
  have along : ∃ pre' ahead', Along src pre' ahead' { s₁ with rest, pos, atLineStart := false }
      { s₂ with
        rest := crlfFrom (endsCR (ahead || endsCR false pre) u) rest
        pos := s₂.pos + utf8Len (crlfFrom (ahead || endsCR false pre) u)
        atLineStart := false } := by
    rcases u with _ | ⟨d, u⟩
    · refine ⟨pre, ahead, ha.congr hu.symm ?_ ?_ (Nat.add_zero _)⟩
      · rw [hp]
        rfl
      · show crlfFrom (ahead || endsCR false pre) rest = s₂.rest
        rw [ha.rest₂, hu]
        rfl
    · exact ⟨_, _, ha.consume (List.cons_ne_nil _ _) hu hp rfl rfl⟩
  have hc : Crlf src { s₁ with rest, pos, atLineStart := false }
      { s₂ with
        rest := crlfFrom (endsCR (ahead || endsCR false pre) u) rest
        pos := s₂.pos + utf8Len (crlfFrom (ahead || endsCR false pre) u)
        atLineStart := false } :=
    ⟨h.size₁, h.size₂, h.failed, h.indents, h.pending, rfl, h.brackets, fun _ => along⟩
  rcases rest with _ | ⟨d, ds⟩
  · exact ⟨.none, hc⟩
  · obtain ⟨pre', ahead', ha'⟩ := along
    have ne : crlfFrom (endsCR (ahead || endsCR false pre) u) (d :: ds) ≠ [] := by
      rw [crlfFrom]
      split <;> simp
    generalize crlfFrom (endsCR (ahead || endsCR false pre) u) (d :: ds) = x at ne hc ha' ⊢
    rcases x with _ | ⟨x, xs⟩
    · exact absurd rfl ne
    · exact indentTo_crlf hc ha' col

/-! ### The next lexeme -/

theorem OffsetsMatch.whole (src : String) :
    OffsetsMatch src src.utf8ByteSize (Text.crlf src).utf8ByteSize :=
  ⟨src.toList, List.prefix_refl _, String.utf8Len_toList src, by
    rw [← String.utf8Len_toList (Text.crlf src), Text.crlf_toList]⟩

/-- The next lexemes of two scanners that read alike match, and the scanners after them read
alike, unless the lexeme is a string literal that a backslash carries across a line in single
quotes. -/
theorem next_crlf (h : Crlf src s₁ s₂) (hq : s₁.next.1.token.continuesQuote = false) :
    StepAlike src s₁.next s₂.next := by
  unfold next at hq ⊢
  rw [h.failed, h.pending, h.atLineStart]
  by_cases hf : s₁.failed = true
  · -- after a fault: the end of input, at the end of each text
    rw [if_pos hf, if_pos hf]
    have ends := (OffsetsMatch.whole src).starts
    rw [← h.size₁, ← h.size₂] at ends
    exact ⟨LexAlike.layout rfl ends, h⟩
  rw [if_neg hf, if_neg hf] at *
  obtain ⟨pre, ahead, ha⟩ := h.along (by simpa using hf)
  by_cases hd : 0 < s₁.pendingDedents
  · rw [if_pos hd, if_pos hd]
    exact ⟨LexAlike.layout rfl ha.starts, ⟨h.size₁, h.size₂, rfl, h.indents, rfl, rfl, h.brackets,
      fun _ => ⟨pre, ahead, ha.congr rfl rfl rfl rfl⟩⟩⟩
  rw [if_neg hd, if_neg hd] at *
  have empty : s₂.brackets.isEmpty = s₁.brackets.isEmpty := by
    have hb := h.brackets
    cases e : s₁.brackets with
    | nil =>
      rw [e, List.forall₂_nil_left_iff] at hb
      rw [hb]
    | cons b bs =>
      rw [e, List.forall₂_cons_left_iff] at hb
      obtain ⟨b₂, bs₂, -, -, e₂⟩ := hb
      rw [e₂]
      rfl
  rw [empty]
  by_cases hl : (s₁.atLineStart && s₁.brackets.isEmpty) = true
  · rw [if_pos hl, if_pos hl] at *
    obtain ⟨hrel, hc⟩ := lineStart_crlf h ha
    rcases e₁ : s₁.lineStart with ⟨o₁, t₁⟩
    rcases e₂ : s₂.lineStart with ⟨o₂, t₂⟩
    rw [e₁, e₂] at hrel hc
    rw [e₁] at hq
    dsimp only at hrel hc
    cases hrel with
    | some hl => exact ⟨hl, hc⟩
    | none =>
      have live : t₁.failed = false := by
        rw [lineStart_none e₁]
        simpa using hf
      obtain ⟨pre', ahead', ha'⟩ := hc.along live
      exact scanBody_crlf t₁ t₁.rest hc ha' rfl hq
  · rw [if_neg hl, if_neg hl] at *
    exact scanBody_crlf s₁ s₁.rest h ha rfl hq

/-! ### The lexemes of a text and of its CRLF form -/

theorem crlf_eq_eof {t : Token} : t.crlf = .eof ↔ t = .eof := by
  cases t <;> simp [Token.crlf]

/-- Two scanners that read alike read matching lexemes, one for one, as long as no string
literal in single quotes continues across a line. -/
theorem lexemes_crlf : ∀ (fuel : Nat) {s₁ s₂ : Scanner}, Crlf src s₁ s₂ →
    (∀ l ∈ (lexemes fuel s₁ #[]).toList, l.token.continuesQuote = false) →
    List.Forall₂ (LexAlike src) (lexemes fuel s₁ #[]).toList (lexemes fuel s₂ #[]).toList
  | 0, _, _, _, _ => by simp [lexemes]
  | fuel + 1, s₁, s₂, h, hq => by
    rw [lexemes_cons] at hq ⊢
    rw [lexemes_cons]
    have first := next_crlf h (hq _ List.mem_cons_self)
    obtain ⟨hl, hc⟩ := first
    have same : (s₂.next.1.token == .eof) = (s₁.next.1.token == .eof) := by
      rw [hl.token]
      cases e : s₁.next.1.token <;> rfl
    rw [same]
    refine .cons hl ?_
    split
    · exact .nil
    · next going =>
      rw [if_neg going] at hq
      exact lexemes_crlf fuel hc fun l m => hq l (List.mem_cons_of_mem _ m)

/-- Of two lists of lexemes that match one for one, either holds the end of input iff the
other does. -/
theorem eof_mem_of_forall₂ {ls₁ ls₂ : List Lexeme} (h : List.Forall₂ (LexAlike src) ls₁ ls₂)
    (he : ∃ l ∈ ls₁, l.token = .eof) : ∃ l ∈ ls₂, l.token = .eof := by
  induction h with
  | nil => exact he
  | cons hl _ ih =>
    obtain ⟨l, m, e⟩ := he
    rcases List.mem_cons.1 m with rfl | m
    · exact ⟨_, List.mem_cons_self, by rw [hl.token, e]; rfl⟩
    · obtain ⟨l', m', e'⟩ := ih ⟨l, m, e⟩
      exact ⟨l', List.mem_cons_of_mem _ m', e'⟩

end Scanner

/-- A text and its CRLF form scan to lexemes that match one for one, as long as no string
literal in single quotes continues across a line. The CRLF form is the longer text and gets
more steps, but its scan has ended within the steps of the shorter one. -/
theorem Lexeme.scan_crlf (src : String)
    (hq : ∀ l ∈ (Lexeme.scan src).toList, l.token.continuesQuote = false) :
    List.Forall₂ (Scanner.LexAlike src) (Lexeme.scan src).toList
      (Lexeme.scan (Text.crlf src)).toList := by
  have alike := Scanner.lexemes_crlf _ (Scanner.Crlf.start src) hq
  have ends := Scanner.eof_mem_of_forall₂ alike (Lexeme.scan_ends src)
  have longer : src.utf8ByteSize ≤ (Text.crlf src).utf8ByteSize := by
    rw [← String.utf8Len_toList src, ← String.utf8Len_toList (Text.crlf src), Text.crlf_toList]
    exact Text.utf8Len_le_crlfFrom false _
  unfold Lexeme.scan
  rw [Scanner.lexemes_stable _ _ _ (by omega) ends]
  exact alike

end PyTune
