import PyTune.Proofs.CrlfLexing
import PyTune.Proofs.ScanStep

/-!
# The values of the string literals the scanner reads

The scanner and `LiteralValue.read` take a literal apart each on their own, and agree: a plain
literal reads as the unescaped body between the scanner's quotes, an f-string as no value
(`Lexeme.scan_literal_values`).
-/

namespace PyTune

open String (utf8Len)

namespace Scanner

/-- The quotes that open and close a string literal in quotes `q`: three of them, or one. -/
def quotes (q : Char) (triple : Bool) : List Char :=
  if triple then [q, q, q] else [q]

theorem quotes_ascii {q : Char} (hq : isQuote q = true) (triple : Bool) :
    ∀ c ∈ quotes q triple, c.utf8Size = 1 := by
  have one : q.utf8Size = 1 := by
    simp only [isQuote, Bool.or_eq_true, beq_iff_eq] at hq
    rcases hq with rfl | rfl <;> rfl
  cases triple <;> simp [quotes, one]

/-- How the scanner reads the text `raw` of a plain string literal in quotes `q`: prefix letters
with no `f`, the opening quotes, the body `inner`, and closing quotes like the opening ones. Read
from after the opening, the body runs exactly to the end of the text. -/
structure LiteralParts (raw : String) (letters : List Char) (q : Char) (triple : Bool)
    (inner : List Char) : Prop where
  split : raw.toList = letters ++ quotes q triple ++ inner ++ quotes q triple
  letters : ∀ c ∈ letters, c ∈ ['r', 'R', 'b', 'B', 'u', 'U']
  quote : isQuote q = true
  body : quotedBody q triple (inner ++ quotes q triple) = (inner ++ quotes q triple, .closed, [])

/-! ### The body of a closed literal -/

theorem not_backslash {c : Char} {cs : List Char}
    (escape : ∀ d ds, c = '\\' → cs = d :: ds → False) (alone : c = '\\' → cs = [] → False) :
    c ≠ '\\' := by
  rintro rfl
  rcases cs with _ | ⟨d, ds⟩
  · exact alone rfl rfl
  · exact escape d ds rfl rfl

/-- The body of a literal that closes ends with its closing quotes. -/
theorem quotedBody_closed_split {q : Char} (hq : isQuote q = true) {triple : Bool} (cs : List Char)
    (h : (quotedBody q triple cs).2.1 = .closed) :
    ∃ inner, (quotedBody q triple cs).1 = inner ++ quotes q triple := by
  obtain ⟨qb, ql, -⟩ := isQuote_ne hq
  induction cs using quotedBody.induct q triple with
  | case1 => cases h
  | case2 c cs body e rest _ ih =>
    rw [quotedBody_escape] at h ⊢
    obtain ⟨inner, e⟩ := ih h
    exact ⟨'\\' :: c :: inner, by rw [e]; rfl⟩
  | case3 => cases h
  | case4 c three c1 c2 rest close _ _ _ =>
    simp only [Bool.and_eq_true, beq_iff_eq] at close
    obtain ⟨⟨rfl, rfl⟩, rfl⟩ := close
    subst three
    rw [quotedBody_triple_close qb]
    exact ⟨[], rfl⟩
  | case5 c three c1 c2 rest open_ escape alone ih =>
    subst three
    have plain := @quotedBody_triple_plain _ _ (not_backslash escape alone) (c1 :: c2 :: rest)
      (by simpa using open_)
    rw [plain] at h ⊢
    obtain ⟨inner, e⟩ := ih h
    exact ⟨c :: inner, by rw [e]; rfl⟩
  | case6 c cs escape alone three short ih =>
    subst three
    have plain := @quotedBody_triple_plain _ _ (not_backslash escape alone) cs
      (by rintro ⟨-, r, e⟩; exact short q q r e)
    rw [plain] at h ⊢
    obtain ⟨inner, e⟩ := ih h
    exact ⟨c :: inner, by rw [e]; rfl⟩
  | case7 c cs _ _ single close _ =>
    rw [beq_iff_eq.1 close, Bool.not_eq_true] at *
    subst single
    rw [quotedBody_single_close qb]
    exact ⟨[], rfl⟩
  | case8 c cs _ _ single _ lf _ =>
    rw [Bool.not_eq_true] at single
    subst single
    rw [beq_iff_eq.1 lf, quotedBody_single_lf ql] at h
    cases h
  | case9 c cs escape alone single not_close not_lf ih =>
    rw [Bool.not_eq_true] at single
    subst single
    have plain := @quotedBody_plain q c false (not_backslash escape alone) (by simpa using not_close)
      (fun _ => by simpa using not_lf) cs
    rw [plain] at h ⊢
    obtain ⟨inner, e⟩ := ih h
    exact ⟨c :: inner, by rw [e]; rfl⟩

/-- A closed body is at least as long as its closing quotes, so it starts with the first two
characters it was read from. -/
theorem quotedBody_closed_head {q : Char} (hq : isQuote q = true) {c1 c2 : Char} {rest : List Char}
    (h : (quotedBody q true (c1 :: c2 :: rest)).2.1 = .closed) :
    ∃ tail, (quotedBody q true (c1 :: c2 :: rest)).1 = c1 :: c2 :: tail := by
  have whole := quotedBody_append q true (c1 :: c2 :: rest)
  obtain ⟨inner, e⟩ := quotedBody_closed_split hq _ h
  generalize (quotedBody q true (c1 :: c2 :: rest)).1 = body at whole e ⊢
  subst e
  rcases inner with _ | ⟨a, _ | ⟨b, tail⟩⟩ <;>
    simp only [quotes, if_true, List.nil_append, List.cons_append, List.cons.injEq] at whole
  all_goals
    obtain ⟨rfl, rfl, -⟩ := whole
    exact ⟨_, rfl⟩

/-- A literal closed in three quotes reads the same body whatever follows its closing quotes. -/
theorem quotedBody_triple_closed {q : Char} (hq : isQuote q = true) (cs : List Char) :
    (quotedBody q true cs).2.1 = .closed → ∀ ys,
      quotedBody q true ((quotedBody q true cs).1 ++ ys) = ((quotedBody q true cs).1, .closed, ys) := by
  obtain ⟨qb, -, -⟩ := isQuote_ne hq
  induction cs using quotedBody.induct q true with
  | case1 => intro h; cases h
  | case2 c cs body e rest _ ih =>
    rw [quotedBody_escape]
    intro h ys
    rw [List.cons_append, List.cons_append, quotedBody_escape, ih h]
  | case3 => intro h; cases h
  | case4 c _ c1 c2 rest close _ _ _ =>
    simp only [Bool.and_eq_true, beq_iff_eq] at close
    obtain ⟨⟨rfl, rfl⟩, rfl⟩ := close
    rw [quotedBody_triple_close qb]
    intro _ ys
    exact quotedBody_triple_close qb ys
  | case5 c _ c1 c2 rest open_ escape alone ih =>
    have cb := not_backslash escape alone
    rw [quotedBody_triple_plain cb (by simpa using open_)]
    intro h ys
    -- the test at `c` sees the same two characters after it as in the source
    obtain ⟨tail, e⟩ := quotedBody_closed_head hq h
    have still : ¬ (c = q ∧ ∃ r, (quotedBody q true (c1 :: c2 :: rest)).1 ++ ys = q :: q :: r) := by
      rw [e]
      rintro ⟨rfl, r, er⟩
      simp only [List.cons_append, List.cons.injEq] at er
      simp [er.1, er.2.1] at open_
    rw [List.cons_append, quotedBody_triple_plain cb still, ih h]
  | case6 c cs escape alone _ short _ =>
    rw [quotedBody_triple_plain (not_backslash escape alone)
      (by rintro ⟨-, r, e⟩; exact short q q r e)]
    intro h
    -- a body of fewer than two characters holds no three closing quotes
    have whole := quotedBody_append q true cs
    obtain ⟨inner, e⟩ := quotedBody_closed_split hq cs h
    rw [e] at whole
    have lengths := congrArg List.length whole
    rcases cs with _ | ⟨c1, _ | ⟨c2, r⟩⟩
    · simp [quotes] at lengths
    · simp [quotes] at lengths
      omega
    · exact absurd rfl (short c1 c2 r)
  | case7 | case8 | case9 => contradiction

/-- Read on its own, the body of a closed literal closes at its end. -/
theorem quotedBody_closed_whole {q : Char} (hq : isQuote q = true) (triple : Bool) (cs : List Char)
    (h : (quotedBody q triple cs).2.1 = .closed) :
    quotedBody q triple (quotedBody q triple cs).1 = ((quotedBody q triple cs).1, .closed, []) := by
  have again : ∀ ys, quotedBody q triple ((quotedBody q triple cs).1 ++ ys) =
      ((quotedBody q triple cs).1, .closed, ys) := by
    cases triple
    · exact quotedBody_closed hq cs h
    · exact quotedBody_triple_closed hq cs h
  simpa using again []

/-- A body in one quote that closes at its end does not start with the quote. -/
theorem LiteralParts.lead {raw : String} {letters inner : List Char} {q : Char}
    (h : LiteralParts raw letters q false inner) : ∀ r, inner ≠ q :: r := by
  rintro r rfl
  have body := h.body
  obtain ⟨qb, -, -⟩ := isQuote_ne h.quote
  rw [List.cons_append, quotes, if_neg Bool.false_ne_true, quotedBody_single_close qb] at body
  simp at body

end Scanner

/-! ### Reading a literal's text -/

namespace LiteralValue

open Scanner

/-- What the reader does once it knows how many bytes the closing quotes take: it cuts them off
the end, and decodes what lies between them and the opening. -/
theorem cut_body {raw : String} {pre inner closing : List Char} {w p : Nat}
    (h : raw.toList = pre ++ inner ++ closing) (hw : utf8Len closing = w) (hp : utf8Len pre = p) :
    (if (decide (raw.utf8ByteSize < w) || decide (raw.utf8ByteSize - w < p)) = true then
        LiteralValue.none
      else if (!String.Pos.Raw.isValid raw ⟨raw.utf8ByteSize - w⟩) = true then .splitChar
      else .text (String.ofList (unescape
        (String.Pos.Raw.extract raw ⟨p⟩ ⟨raw.utf8ByteSize - w⟩).toList))) =
      .text (String.ofList (unescape inner)) := by
  have whole : raw = String.ofList (pre ++ inner ++ closing) := by
    rw [← h, String.ofList_toList]
  have size : raw.utf8ByteSize = p + utf8Len inner + w := by
    rw [whole, String.utf8ByteSize_ofList, String.utf8Len_append, String.utf8Len_append, hp, hw]
  have cut : raw.utf8ByteSize - w = utf8Len pre + utf8Len inner := by omega
  have valid : String.Pos.Raw.isValid raw ⟨raw.utf8ByteSize - w⟩ = true := by
    refine String.Pos.Raw.isValid_eq_true_iff.2 (String.Pos.Raw.isValid_iff_exists_append.2
      ⟨String.ofList (pre ++ inner), String.ofList closing, ?_, ?_⟩)
    · rw [whole, String.ofList_append]
    · simp only [String.rawEndPos, String.utf8ByteSize_ofList, String.utf8Len_append, cut]
  rw [if_neg (by simp only [Bool.or_eq_true, decide_eq_true_eq]; omega), valid, Bool.not_true,
    if_neg Bool.false_ne_true, cut, ← hp, whole, String.extract_of_valid, String.toList_ofList]

/-- A plain literal's text reads as the unescaped body between the quotes that the scanner
read. -/
theorem read_parts {raw : String} {letters inner : List Char} {q : Char} {triple : Bool}
    (h : LiteralParts raw letters q triple inner) :
    read raw = .text (String.ofList (unescape inner)) := by
  have hp : ∀ c ∈ letters, (['r', 'R', 'b', 'B', 'u', 'U'].contains c) = true := by
    intro c hc
    simpa using h.letters c hc
  have ascii : utf8Len letters = letters.length := utf8Len_eq_length fun c hc => by
    have hl := h.letters c hc
    simp only [List.mem_cons, List.not_mem_nil, or_false] at hl
    rcases hl with rfl | rfl | rfl | rfl | rfl | rfl <;> rfl
  have hq := h.quote
  have quote : q = '"' ∨ q = '\'' := by simpa [isQuote] using hq
  have hq' : (['r', 'R', 'b', 'B', 'u', 'U'].contains q) = false := by
    rcases quote with rfl | rfl <;> rfl
  have notF : (q == 'f' || q == 'F' || !isQuote q) = false := by
    rcases quote with rfl | rfl <;> rfl
  have closing := utf8Len_eq_length (quotes_ascii hq triple)
  have q1 : q.utf8Size = 1 := quotes_ascii hq false q List.mem_cons_self
  rw [read, h.split, List.span_eq_takeWhile_dropWhile, List.append_assoc, List.append_assoc,
    List.takeWhile_append_of_pos hp, List.dropWhile_append_of_pos hp]
  cases triple
  · -- one quote: the body does not start with the quote, so no three quotes open it
    have lead := h.lead
    rw [quotes, if_neg Bool.false_ne_true, List.singleton_append,
      List.takeWhile_cons_of_neg (by rw [hq']; decide),
      List.dropWhile_cons_of_neg (by rw [hq']; decide)]
    dsimp only
    rw [if_neg (by rw [notF]; decide)]
    have width : ∀ a b tail, inner ++ [q] = a :: b :: tail → (a == q && b == q) = false := by
      intro a b tail e
      rcases inner with _ | ⟨x, r⟩
      · cases e
      · simp only [List.cons_append, List.cons.injEq] at e
        obtain ⟨rfl, -⟩ := e
        have ne : x ≠ q := fun e => lead r (by rw [e])
        simp [ne]
    split
    · next a b tail e =>
      simp only [width a b tail e, Bool.false_eq_true, if_false]
      exact @cut_body _ (letters ++ [q]) _ [q] _ _ (by rw [h.split]; simp [quotes])
        (by simpa [quotes] using closing) (by simp [ascii, q1])
    · exact @cut_body _ (letters ++ [q]) _ [q] _ _ (by rw [h.split]; simp [quotes])
        (by simpa [quotes] using closing) (by simp [ascii, q1])
  · -- three quotes: the reader sees them too
    rw [quotes, if_pos rfl, List.cons_append, List.takeWhile_cons_of_neg (by rw [hq']; decide),
      List.dropWhile_cons_of_neg (by rw [hq']; decide)]
    dsimp only
    rw [if_neg (by rw [notF]; decide)]
    simp only [List.cons_append, beq_self_eq_true, Bool.and_self, if_true]
    exact @cut_body _ (letters ++ [q, q, q]) _ [q, q, q] _ _
      (by rw [h.split]; simp [quotes]) (by simpa [quotes] using closing) (by simp [ascii, q1])

/-- Prefix letters with an `f` or `F` among them make the text an f-string, which has no
value. -/
theorem read_fstring {raw : String} {letters more : List Char} {q : Char}
    (h : raw.toList = letters ++ q :: more) (hl : ∀ c ∈ letters, isPrefixLetter c = true)
    (hf : letters.any (fun c => c == 'f' || c == 'F') = true) : read raw = .none := by
  have stops : ∀ letters : List Char, (∀ c ∈ letters, isPrefixLetter c = true) →
      letters.any (fun c => c == 'f' || c == 'F') = true → ∀ rest : List Char,
      ∃ f tail, (f = 'f' ∨ f = 'F') ∧
        (letters ++ rest).dropWhile (fun c => ['r', 'R', 'b', 'B', 'u', 'U'].contains c) =
          f :: tail := by
    intro letters
    induction letters with
    | nil => intro _ hf; cases hf
    | cons c cs ih =>
      intro hl hf rest
      have hc := hl c List.mem_cons_self
      by_cases fc : c = 'f' ∨ c = 'F'
      · refine ⟨c, cs ++ rest, fc, List.dropWhile_cons_of_neg ?_⟩
        rcases fc with rfl | rfl <;> decide
      · have value : (['r', 'R', 'b', 'B', 'u', 'U'].contains c) = true := by
          simp only [isPrefixLetter, List.contains_eq_mem, List.mem_cons, List.not_mem_nil,
            or_false, decide_eq_true_eq] at hc fc ⊢
          tauto
        rw [List.cons_append, List.dropWhile_cons_of_pos value]
        refine ih (fun d hd => hl d (List.mem_cons_of_mem c hd)) ?_ rest
        simp only [List.any_cons, Bool.or_eq_true, beq_iff_eq] at hf
        rcases hf with (rfl | rfl) | rest
        · exact absurd (.inl rfl) fc
        · exact absurd (.inr rfl) fc
        · exact rest
  obtain ⟨f, tail, fF, e⟩ := stops letters hl hf (q :: more)
  rw [read, h, List.span_eq_takeWhile_dropWhile]
  dsimp only
  rw [e]
  dsimp only
  rcases fF with rfl | rfl <;> rfl

end LiteralValue

/-! ### Every literal the scanner gives -/

/-- A string literal token that reads as the scanner read it: a plain literal as the unescaped
body between its quotes, an f-string as no value. Other tokens carry no literal. -/
def Token.ReadsBack : Token → Prop
  | .str raw => ∃ letters q triple inner, Scanner.LiteralParts raw letters q triple inner ∧
      LiteralValue.read raw = .text (String.ofList (LiteralValue.unescape inner))
  | .fstr raw => LiteralValue.read raw = .none
  | _ => True

namespace Scanner

variable {s s' : Scanner} {l : Lexeme}

theorem literal_readsBack {letters opening body : List Char} {q : Char} {triple : Bool}
    (hl : ∀ c ∈ letters, isPrefixLetter c = true) (hq : isQuote q = true)
    (ho : opening = quotes q triple) :
    (s.literal letters opening q triple body).1.token.ReadsBack := by
  by_cases closed : (quotedBody q triple body).2.1 = .closed
  · rw [literal_token closed]
    obtain ⟨inner, e⟩ := quotedBody_closed_split hq body closed
    have whole := quotedBody_closed_whole hq triple body closed
    rw [e] at whole
    dsimp only
    split
    · next hf =>
      exact @LiteralValue.read_fstring _ _ ((quotes q triple).tail ++ (quotedBody q triple body).1) q
        (by rw [String.toList_ofList, ho, List.append_assoc]; cases triple <;> rfl) hl hf
    · next hf =>
      have parts : LiteralParts (String.ofList (letters ++ opening ++
          (quotedBody q triple body).1)) letters q triple inner := by
        refine ⟨by rw [String.toList_ofList, e, ho]; simp only [List.append_assoc], fun c hc => ?_,
          hq, whole⟩
        have pre := hl c hc
        simp only [Bool.not_eq_true, List.any_eq_false, Bool.or_eq_false_iff, beq_eq_false_iff_ne]
          at hf
        simp only [isPrefixLetter, List.contains_eq_mem, List.mem_cons, List.not_mem_nil,
          or_false, decide_eq_true_eq] at pre ⊢
        have := hf c hc
        tauto
      exact ⟨letters, q, triple, inner, parts, LiteralValue.read_parts parts⟩
  · unfold literal
    rcases hb : quotedBody q triple body with ⟨read, e, rest⟩
    rw [hb] at closed
    cases e with
    | closed => exact absurd rfl closed
    | lineEnd | inputEnd => trivial

theorem lexString_readsBack {letters more : List Char} {q : Char}
    (h : stringStart? (letters ++ q :: more) = some (letters, q, more)) :
    (s.lexString letters q more).1.token.ReadsBack := by
  obtain ⟨hl, hq⟩ := stringStart?_letters h
  by_cases three : ∃ r, more = q :: q :: r
  · obtain ⟨r, rfl⟩ := three
    rw [lexString_triple]
    exact literal_readsBack hl hq rfl
  · rw [lexString_single _ _ three]
    exact literal_readsBack hl hq rfl

theorem punctuation_readsBack (c : Char) (cs : List Char) :
    (s.punctuation c cs).1.token.ReadsBack := by
  unfold punctuation
  dsimp only
  repeat' split
  all_goals first
    | trivial
    | skip
  next t n ht =>
  unfold operator at ht
  repeat' split at ht
  all_goals
    first
    | (obtain ⟨rfl, -⟩ := Prod.mk.inj (Option.some.inj ht); trivial)
    | cases ht

theorem atEnd_readsBack (s : Scanner) : s.atEnd.1.token.ReadsBack := by
  unfold atEnd
  repeat' split
  all_goals trivial

/-- One lexeme read inside a logical line reads back, if it is a string literal. -/
theorem scanBody_readsBack (s : Scanner) (input : List Char) :
    (s.scanBody input).1.token.ReadsBack := by
  fun_induction scanBody s input with
  | case1 s => exact atEnd_readsBack s
  | case2 _ _ _ _ _ ih | case4 _ _ _ _ _ _ _ ih | case5 _ _ _ _ _ _ _ ih
  | case6 _ _ _ _ _ _ _ ih | case9 _ _ _ _ _ _ _ _ _ _ _ ih => exact ih
  | case3 | case7 | case8 | case11 => trivial
  | case10 s c cs _ _ _ _ letters q more hs =>
    have e := stringStart?_eq hs
    rw [e] at hs
    exact lexString_readsBack hs
  | case12 => split <;> trivial
  | case13 s c cs => exact punctuation_readsBack c cs

theorem lineStart_readsBack (e : s.lineStart = (some l, s')) : l.token.ReadsBack := by
  unfold lineStart indentTo at e
  dsimp only at e
  repeat' split at e
  all_goals first
    | (cases e; done)
    | (simp only [Prod.mk.injEq, Option.some.injEq] at e
       obtain ⟨rfl, rfl⟩ := e
       trivial)

/-- Every lexeme the scanner gives reads back, if it is a string literal. -/
theorem next_readsBack (s : Scanner) : s.next.1.token.ReadsBack := by
  unfold next
  split
  · trivial
  split
  · trivial
  split
  · split
    · next l₀ s₀ hl₀ => exact lineStart_readsBack hl₀
    · exact scanBody_readsBack _ _
  · exact scanBody_readsBack _ _

end Scanner

/-- The scanner and the reader of literal values agree on every string literal of a source.
A plain literal's text is prefix letters without `f`, one quote or three, a body, and the same
quotes again, where the body is exactly what the scanner reads before those closing quotes;
the reader skips the same letters, sees the same quotes, and gives the body with its escapes
decoded. So cutting the closing quotes off by their byte count never splits a character. An
f-string reads as no value. -/
theorem Lexeme.scan_literal_values (src : String) {l : Lexeme}
    (hl : l ∈ (Lexeme.scan src).toList) :
    (∀ raw, l.token = .str raw → ∃ letters q triple inner,
      Scanner.LiteralParts raw letters q triple inner ∧
        LiteralValue.read raw = .text (String.ofList (LiteralValue.unescape inner))) ∧
      (∀ raw, l.token = .fstr raw → LiteralValue.read raw = .none) := by
  obtain ⟨k, hk⟩ := List.mem_iff_getElem?.1 hl
  have reads := Scanner.next_readsBack (Scanner.after k (Scanner.ofSource src))
  rw [← Scanner.lexemes_getElem? _ _ k hk] at reads
  refine ⟨fun raw e => ?_, fun raw e => ?_⟩
  · rw [e] at reads
    exact reads
  · rw [e] at reads
    exact reads

/-- A raw bytes literal in three quotes, with an escape in its body. -/
theorem Lexeme.scan_literal_values_triple :
    (⟨.str "rb'''a\\n'''", ⟨4, 15⟩⟩ : Lexeme) ∈ (Lexeme.scan "x = rb'''a\\n'''\n").toList ∧
      (∀ raw, Token.str "rb'''a\\n'''" = .str raw → ∃ letters q triple inner,
        Scanner.LiteralParts raw letters q triple inner ∧
          LiteralValue.read raw = .text (String.ofList (LiteralValue.unescape inner))) ∧
      (∀ raw, Token.str "rb'''a\\n'''" = .fstr raw → LiteralValue.read raw = .none) :=
  have mem : (⟨.str "rb'''a\\n'''", ⟨4, 15⟩⟩ : Lexeme) ∈ (Lexeme.scan "x = rb'''a\\n'''\n").toList := by
    decide +kernel
  ⟨mem, Lexeme.scan_literal_values _ mem⟩

end PyTune
