import PyTune.Proofs.LineBrackets

/-!
# Relative imports count their dots

The grammar counts one level for each `.` lexeme and three for each `...`; between `from` and
the module name the scanner passes no dot, so the level counts the dots of the source there
(`Module.importFrom_level`).
-/

namespace PyTune

open String (utf8Len)

/-- The dots a token stands for in a relative import: one for `.`, three for `...`. -/
def Token.dots : Token → Nat
  | .dot => 1
  | .ellipsis => 3
  | _ => 0


namespace Lexeme

/-- Text that the scanner passes inside a logical line and outside brackets, before a lexeme of
code: blanks other than line feeds, and backslash continuations. -/
inductive Inline : List Char → Prop
  | nil : Inline []
  | blank {c : Char} {cs : List Char} (hc : c = ' ' ∨ c = '\t' ∨ c = '\r' ∨ c = '\x0c')
      (h : Inline cs) : Inline (c :: cs)
  | continuation {cs : List Char} (h : Inline cs) : Inline ('\\' :: '\n' :: cs)
  | continuationCR {cs : List Char} (h : Inline cs) : Inline ('\\' :: '\r' :: '\n' :: cs)

/-- An inline gap holds no dot. -/
theorem Inline.count_dot {g : List Char} (h : Inline g) : g.count '.' = 0 := by
  induction h with
  | nil => rfl
  | blank hc _ ih => rcases hc with rfl | rfl | rfl | rfl <;> simpa using ih
  | continuation _ ih => simpa using ih
  | continuationCR _ ih => simpa using ih

/-- A gap before a character that no gap starts with is empty. -/
theorem Gap.nil_of_head {g rest cs : List Char} {c : Char} (hg : Gap g) (h : g ++ rest = c :: cs)
    (hc : c ≠ ' ' ∧ c ≠ '\t' ∧ c ≠ '\x0c' ∧ c ≠ '\r' ∧ c ≠ '\n' ∧ c ≠ '#' ∧ c ≠ '\\') :
    g = [] := by
  cases hg with
  | nil => rfl
  | blank hb _ =>
    obtain ⟨rfl, -⟩ := List.cons.inj h
    rcases hb with rfl | rfl | rfl | rfl | rfl <;> simp at hc
  | comment _ _ =>
    obtain ⟨rfl, -⟩ := List.cons.inj h
    simp at hc
  | continuation _ =>
    obtain ⟨rfl, -⟩ := List.cons.inj h
    simp at hc
  | continuationCR _ =>
    obtain ⟨rfl, -⟩ := List.cons.inj h
    simp at hc

end Lexeme

namespace Scanner

theorem Passed.nil {s s' : Scanner} (h : Passed s [] s') : s' = s := by
  have rest : s'.rest = s.rest := by rw [h.rest, List.nil_append]
  have pos : s'.pos = s.pos := by rw [h.pos, String.utf8Len_nil, Nat.add_zero]
  calc s' = { s with rest := s'.rest, pos := s'.pos } := h.eq
    _ = s := by rw [rest, pos]

/-- A lexeme of code read inside a line that is no bracket: the scanner reads its text from
where it stands and moves past it, and nothing else changes. -/
theorem Body.of_plain {s : Scanner} {r : Lexeme × Scanner} (h : Body s r)
    (hu : r.1.token.Plain) :
    ∃ taken rest, s.rest = taken ++ rest ∧ r.1.span = ⟨s.pos, s.pos + utf8Len taken⟩ ∧
      r.2 = { s with rest, pos := s.pos + utf8Len taken } := by
  obtain ⟨hl, hf, ho, hc, -⟩ := hu
  cases h with
  | token _ _ _ _ hr hp _ => exact ⟨_, _, hr, by rw [hp], by rw [hp]⟩
  | unclosed | unmatched | mismatched | fault => cases hf
  | closeLevels | eof | lineEnd => cases hl
  | opening _ ht => exact absurd (ht.symm.trans ho) (Option.some_ne_none _)
  | closing _ _ ht => exact absurd (ht.symm.trans hc) (Option.some_ne_none _)

/-- `operator` reads `.` as one dot, and `...` only from three. -/
theorem operator_dots {c : Char} {cs : List Char} {t : Token} {n : Nat}
    (h : operator c cs = some (t, n)) :
    (t = .dot → c = '.' ∧ n = 1) ∧ (t = .ellipsis → c = '.' ∧ n = 3 ∧ ∃ r, cs = '.' :: '.' :: r) := by
  unfold operator at h
  repeat' split at h
  all_goals cases h
  all_goals simp

/-- A `.` or `...` read as punctuation is the dots it stands for, and the scanner moves past
them. -/
theorem punctuation_dots {s : Scanner} {c : Char} {cs : List Char} :
    ((s.punctuation c cs).1.token = .dot → c = '.' ∧ (s.punctuation c cs).2.rest = cs) ∧
      ((s.punctuation c cs).1.token = .ellipsis →
        c = '.' ∧ ∃ r, cs = '.' :: '.' :: r ∧ (s.punctuation c cs).2.rest = r) := by
  unfold punctuation
  dsimp only
  repeat' split
  all_goals first
    | (refine ⟨fun h => ?_, fun h => ?_⟩ <;> simp [emit, fail] at h <;> done)
    | skip
  next t n ht =>
    obtain ⟨dot, dots⟩ := operator_dots ht
    refine ⟨fun h => ?_, fun h => ?_⟩
    · obtain ⟨rfl, rfl⟩ := dot h
      exact ⟨rfl, rfl⟩
    · obtain ⟨rfl, rfl, r, rfl⟩ := dots h
      exact ⟨rfl, r, rfl, rfl⟩

/-- A string literal is no dot. -/
theorem lexString_not_dots {s : Scanner} {letters more : List Char} {q : Char} :
    (s.lexString letters q more).1.token ≠ .dot ∧ (s.lexString letters q more).1.token ≠ .ellipsis := by
  unfold lexString
  dsimp only
  repeat' split
  all_goals simp [emit, fail]

/-- Outside brackets, the end of input is a dedent or the end of input, no code. -/
theorem atEnd_not_plain {s : Scanner} (hu : s.atEnd.1.token.Plain)
    (hb : s.brackets = []) : False := by
  have layout := hu.1
  unfold atEnd at layout
  rw [hb] at layout
  dsimp only at layout
  split at layout <;> cases layout

/-- Outside brackets, a line feed ends the logical line: no code. -/
theorem lineFeed_not_plain {s : Scanner} {cs : List Char}
    (hu : (s.scanBody ('\n' :: cs)).1.token.Plain) (hb : s.brackets = []) : False := by
  have layout := hu.1
  rw [scanBody.eq_def] at layout
  simp [hb, Token.isLayout] at layout

/-- What a comment leaves: nothing, or the line feed that ends it. -/
theorem dropWhile_lineFeed (cs : List Char) :
    cs.dropWhile (· != '\n') = [] ∨ ∃ r, cs.dropWhile (· != '\n') = '\n' :: r := by
  induction cs with
  | nil => exact .inl rfl
  | cons x xs ih =>
    by_cases hx : x = '\n'
    · exact .inr ⟨xs, by simp [hx]⟩
    · rw [List.dropWhile_cons_of_pos (by simpa using hx)]
      exact ih

/-- Where the scanner reads a lexeme of code that is no bracket, from inside a line with no
bracket open: it passes an inline gap `g`, then reads the lexeme's text `taken`, which for `.`
and `...` is as many dots; the scanner moves past it, and nothing else changes. -/
def ReadsInline (s : Scanner) (r : Lexeme × Scanner) : Prop :=
  ∃ g taken rest, s.rest = g ++ taken ++ rest ∧ Lexeme.Inline g ∧
    r.1.span = ⟨s.pos + utf8Len g, s.pos + utf8Len g + utf8Len taken⟩ ∧
    r.2 = { s with rest, pos := s.pos + utf8Len g + utf8Len taken } ∧
    (r.1.token = .dot → taken = ['.']) ∧ (r.1.token = .ellipsis → taken = ['.', '.', '.'])

/-- Passing inline text `a` first. -/
theorem ReadsInline.cons {s : Scanner} {r : Lexeme × Scanner} {a rest : List Char} {p : Nat}
    (h : ReadsInline { s with rest, pos := p } r) (hr : s.rest = a ++ rest)
    (hp : p = s.pos + utf8Len a) (ha : ∀ g, Lexeme.Inline g → Lexeme.Inline (a ++ g)) :
    ReadsInline s r := by
  subst hp
  obtain ⟨g, taken, rest', split, inline, span, after, dot, dots⟩ := h
  dsimp only at split span after
  refine ⟨a ++ g, taken, rest', ?_, ha g inline, ?_, ?_, dot, dots⟩
  · rw [hr, split]
    simp only [List.append_assoc]
  · rw [span, String.utf8Len_append]
    simp only [Nat.add_assoc]
  · rw [after, String.utf8Len_append]
    simp only [Nat.add_assoc]

/-- Where no gap starts, the scanner reads the lexeme from where it stands. -/
theorem readsInline_here {s : Scanner} {r : Lexeme × Scanner} {c : Char} {cs : List Char}
    (hr : s.rest = c :: cs)
    (hc : c ≠ ' ' ∧ c ≠ '\t' ∧ c ≠ '\x0c' ∧ c ≠ '\r' ∧ c ≠ '\n' ∧ c ≠ '#' ∧ c ≠ '\\')
    (cases : ∃ skipped s₀, Passed s skipped s₀ ∧ Body s₀ r) (hu : r.1.token.Plain)
    (dots : ∀ taken, taken ++ r.2.rest = c :: cs →
      (r.1.token = .dot → taken = ['.']) ∧ (r.1.token = .ellipsis → taken = ['.', '.', '.'])) :
    ReadsInline s r := by
  obtain ⟨skipped, s₀, passed, body⟩ := cases
  have none : skipped = [] :=
    Lexeme.Gap.nil_of_head passed.gap (passed.rest.symm.trans hr) hc
  subst none
  rw [passed.nil] at body
  obtain ⟨taken, rest, split, span, after⟩ := body.of_plain hu
  have moved : taken ++ r.2.rest = c :: cs := by rw [after, ← hr, split]
  refine ⟨[], taken, rest, split, .nil, ?_, ?_, dots taken moved⟩
  · rw [span, String.utf8Len_nil, Nat.add_zero]
  · rw [after, String.utf8Len_nil, Nat.add_zero]

/-- A character where the scanner reads a lexeme, not a gap. -/
theorem code_head {c : Char} (blank : ¬ (c == ' ' || c == '\t' || c == '\r' || c == '\x0c') = true)
    (lf : ¬ (c == '\n') = true) (bs : ¬ (c == '\\') = true) (hash : ¬ (c == '#') = true) :
    c ≠ ' ' ∧ c ≠ '\t' ∧ c ≠ '\x0c' ∧ c ≠ '\r' ∧ c ≠ '\n' ∧ c ≠ '#' ∧ c ≠ '\\' := by
  simp only [Bool.or_eq_true, beq_iff_eq, not_or] at blank lf bs hash
  exact ⟨blank.1.1.1, blank.1.1.2, blank.2, blank.1.2, lf, hash, bs⟩

/-- Inside a line with no bracket open, the scanner reads a lexeme of code that is no bracket
after an inline gap: no comment and no line feed comes before it. -/
theorem scanBody_readsInline (s : Scanner) (input : List Char) (hr : s.rest = input)
    (hb : s.brackets = []) (hu : (s.scanBody input).1.token.Plain) :
    ReadsInline s (s.scanBody input) := by
  have cases := scanBody_cases s input hr
  revert cases hu
  fun_induction scanBody s input with
  | case1 s => intro hu; exact (atEnd_not_plain hu hb).elim
  | case2 s c cs start blank ih =>
    intro hu _
    refine ReadsInline.cons (a := [c]) (ih rfl hb hu (scanBody_cases _ _ rfl)) hr ?_ (fun g h => ?_)
    · rw [String.utf8Len_cons, String.utf8Len_nil, utf8Size_of_blank blank]
    · simp only [Bool.or_eq_true, beq_iff_eq] at blank
      exact .blank (by rcases blank with ((rfl | rfl) | rfl) | rfl <;> simp) h
  | case3 => intro hu; cases hu.1
  | case4 s c cs start _ _ nonempty => exact absurd (List.isEmpty_iff.2 hb) nonempty
  | case5 s c start _ _ backslash r ih =>
    intro hu _
    rw [beq_iff_eq.1 backslash] at hr
    exact ReadsInline.cons (a := ['\\', '\r', '\n']) (ih rfl hb hu (scanBody_cases _ _ rfl)) hr rfl
      fun g h => .continuationCR h
  | case6 s c start _ _ backslash r ih =>
    intro hu _
    rw [beq_iff_eq.1 backslash] at hr
    exact ReadsInline.cons (a := ['\\', '\n']) (ih rfl hb hu (scanBody_cases _ _ rfl)) hr rfl
      fun g h => .continuation h
  | case7 => intro hu; cases hu.2.1
  | case8 => intro hu; cases hu.2.1
  | case9 s c cs start _ _ _ hash r _ comment ih =>
    -- after a comment comes the line feed that ends it, or the end of input: layout
    intro hu _
    have hr' : r = cs.dropWhile (· != '\n') := (congrArg Subtype.val comment).symm
    rcases dropWhile_lineFeed cs with ends | ⟨r', lf⟩
    · rw [hr', ends, scanBody.eq_1] at hu
      exact (atEnd_not_plain hu hb).elim
    · rw [hr', lf] at hu
      exact (lineFeed_not_plain hu hb).elim
  | case10 s c cs blank lf bs hash letters q more opening =>
    intro hu cases
    refine readsInline_here hr (code_head blank lf bs hash) cases hu fun _ _ => ?_
    exact ⟨fun h => absurd h lexString_not_dots.1, fun h => absurd h lexString_not_dots.2⟩
  | case11 s c cs start blank lf bs hash _ number digits after run =>
    intro hu cases
    refine readsInline_here hr (code_head blank lf bs hash) cases hu fun _ _ => ?_
    simp only [emit]
    constructor <;> intro h <;> cases h
  | case12 s c cs start blank lf bs hash _ _ name word after span =>
    intro hu cases
    refine readsInline_here hr (code_head blank lf bs hash) cases hu fun _ _ => ?_
    simp only [emit]
    split <;> constructor <;> intro h <;> cases h
  | case13 s c cs blank lf bs hash _ _ notName =>
    intro hu cases
    refine readsInline_here hr (code_head blank lf bs hash) cases hu fun taken moved => ?_
    obtain ⟨dot, dots⟩ := @punctuation_dots s c cs
    refine ⟨fun h => ?_, fun h => ?_⟩
    · obtain ⟨rfl, rest⟩ := dot h
      rw [rest] at moved
      exact List.append_cancel_right moved
    · obtain ⟨rfl, r, rfl, rest⟩ := dots h
      rw [rest] at moved
      exact List.append_cancel_right moved

/-- The scanner stands inside a logical line, with no bracket open and no dedent owed. -/
structure InLine (s : Scanner) : Prop where
  live : s.failed = false
  owes : s.pendingDedents = 0
  midLine : s.atLineStart = false
  flat : s.brackets = []

namespace InLine

variable {s : Scanner}

/-- Inside a line, the scanner reads on from where it stands. -/
theorem next_eq (h : InLine s) : s.next = s.scanBody s.rest := by
  unfold next
  simp [h.live, h.owes, h.midLine]

/-- Inside a line, a plain lexeme is read after an inline gap. -/
theorem readsInline (h : InLine s) (hu : s.next.1.token.Plain) : ReadsInline s s.next := by
  rw [h.next_eq] at hu ⊢
  exact scanBody_readsInline s s.rest rfl h.flat hu

/-- Reading a lexeme inline keeps the scanner inside the line. -/
theorem of_readsInline {r : Lexeme × Scanner} (h : InLine s) (hr : ReadsInline s r) :
    InLine r.2 := by
  obtain ⟨_, _, _, _, _, _, after, _⟩ := hr
  rw [after]
  exact ⟨h.live, h.owes, h.midLine, h.flat⟩

end InLine

/-- A plain lexeme read with no bracket open leaves the scanner inside the line, where the
lexeme ends. -/
theorem Step.plain_inLine {s : Scanner} {r : Lexeme × Scanner} (h : Step s r) (hu : r.1.token.Plain)
    (hb : s.brackets = []) : InLine r.2 ∧ r.1.span.stop = r.2.pos := by
  cases h with
  | ended | owed | indent | dedent => cases hu.1
  | badDedent => cases hu.2.1
  | lineCode hf hd _ _ _ _ passed read =>
    obtain ⟨taken, rest, -, span, after⟩ := read.of_plain hu
    have midLine := congrArg Scanner.atLineStart passed.eq
    rw [after, span]
    refine ⟨⟨?_, ?_, midLine, ?_⟩, rfl⟩
    · rw [← hf, ← passed.failed]
    · rw [← hd, ← passed.pendingDedents]
    · rw [← hb, ← passed.brackets]
  | inLine hf hd inside passed read =>
    obtain ⟨taken, rest, -, span, after⟩ := read.of_plain hu
    -- with no bracket open, the scanner stood inside the line already
    have midLine : s.atLineStart = false := inside.resolve_right fun open_ => open_ hb
    rw [after, span]
    refine ⟨⟨?_, ?_, ?_, ?_⟩, rfl⟩
    · rw [← hf, ← passed.failed]
    · rw [← hd, ← passed.pendingDedents]
    · rw [← midLine, congrArg Scanner.atLineStart passed.eq]
    · rw [← hb, ← passed.brackets]

/-- From inside a line, a run of `n` lexemes of dots leaves the scanner inside the line, past
text holding one `.` for each dot they stand for. -/
theorem InLine.dotRun {s : Scanner} (hs : InLine s) : ∀ n, (∀ k < n,
      (after k s).next.1.token = .dot ∨ (after k s).next.1.token = .ellipsis) →
    InLine (after n s) ∧ ∃ D, s.rest = D ++ (after n s).rest ∧
      (after n s).pos = s.pos + utf8Len D ∧
      D.count '.' = (((List.range n).map fun k => (after k s).next.1).map (·.token.dots)).sum
  | 0, _ => ⟨hs, [], rfl, rfl, rfl⟩
  | n + 1, hd => by
    obtain ⟨inside, D, rest, pos, count⟩ := InLine.dotRun hs n fun k hk => hd k (by omega)
    have dots := hd n (Nat.lt_succ_self n)
    have plain : (after n s).next.1.token.Plain := by
      rcases dots with e | e <;> rw [e] <;> decide
    have reads := inside.readsInline plain
    have still := inside.of_readsInline reads
    obtain ⟨g, taken, rest', split, gap, -, moved, dot, ellipsis⟩ := reads
    have these : taken.count '.' = (after n s).next.1.token.dots := by
      rcases dots with e | e
      · rw [dot e, e]
        rfl
      · rw [ellipsis e, e]
        rfl
    rw [after_succ]
    refine ⟨still, D ++ g ++ taken, ?_, ?_, ?_⟩
    · rw [rest, split, moved]
      simp only [List.append_assoc]
    · rw [moved, pos]
      simp only [String.utf8Len_append, Nat.add_assoc]
    · rw [List.range_succ, List.map_append, List.map_append, List.sum_append, ← count,
        List.count_append, List.count_append, gap.count_dot, these]
      simp

end Scanner


/-! ### The source between two lexemes -/

namespace Tape

/-- The lexemes of a source from `i` on are those the scanner gives from where it stood
before the `i`-th. -/
theorem between_ofSource {src : String} {i j : Nat} (hj : j ≤ (Lexeme.scan src).size) :
    (Tape.ofSource src).between i j = (List.range (j - i)).map fun k =>
      (Scanner.after k (Scanner.after i (Scanner.ofSource src))).next.1 := by
  unfold between
  rw [List.range'_eq_map_range, List.map_map]
  refine List.map_congr_left fun k hk => ?_
  have lt : i + k < (Lexeme.scan src).size := by
    rw [List.mem_range] at hk
    omega
  have at_k : (Lexeme.scan src).toList[i + k]? = some ((Tape.ofSource src).lexemeAt (i + k)) := by
    rw [Array.getElem?_toList]
    exact Tape.getElem?_ofSource lt
  rw [Function.comp_apply, ← Scanner.after_add]
  exact Scanner.lexemes_getElem? _ _ (i + k) at_k

/-- In a source with no lexical fault, between a plain lexeme read outside brackets and a
later plain one with only dots and ellipses between them, the text holds one `.` for each dot
that those stand for. -/
theorem dots_text {src : String} (hf : ∀ l ∈ (Lexeme.scan src).toList, l.token.fault? = none)
    {i j : Nat} (hij : i < j) (hi : ((Tape.ofSource src).lexemeAt i).token.Plain)
    (hj : ((Tape.ofSource src).lexemeAt j).token.Plain)
    (hd : ∀ k, i < k → k < j → ((Tape.ofSource src).lexemeAt k).token = .dot ∨
      ((Tape.ofSource src).lexemeAt k).token = .ellipsis)
    (hb : Lexeme.nest [] ((Tape.ofSource src).between 0 i) = some []) :
    (Span.text ⟨((Tape.ofSource src).lexemeAt i).span.stop,
        ((Tape.ofSource src).lexemeAt j).span.start⟩ src).toList.count '.' =
      (((Tape.ofSource src).between (i + 1) j).map (·.token.dots)).sum := by
  have size : j < (Lexeme.scan src).size :=
    Tape.lexemeAt_lt_size (t := Tape.ofSource src) (Token.ne_eof_of_isLayout hj.1)
  have lexeme : ∀ k, k < (Lexeme.scan src).size →
      (Tape.ofSource src).lexemeAt k = (Scanner.after k (Scanner.ofSource src)).next.1 := by
    intro k hk
    have at_k : (Lexeme.scan src).toList[k]? = some ((Tape.ofSource src).lexemeAt k) := by
      rw [Array.getElem?_toList]
      exact Tape.getElem?_ofSource hk
    exact Scanner.lexemes_getElem? _ _ k at_k
  have clean : ∀ k, ∀ x ∈ (Lexeme.scan src).toList.take k, x.token.fault? = none :=
    fun _ x hx => hf x (List.mem_of_mem_take hx)
  have start : Scanner.Nested src [] (Scanner.ofSource src) :=
    ⟨Scanner.Live.start src, rfl, fun _ he => absurd he List.not_mem_nil⟩
  obtain ⟨-, nested, -⟩ := Scanner.lexemes_invariant (fun _ s h => h.next) _ _ start i
    (by rw [Array.length_toList]; exact Nat.lt_trans hij size) (clean i)
  have prefix_ : (Tape.ofSource src).between 0 i = (Lexeme.scan src).toList.take i := by
    rw [Tape.between_eq_extract _ (by rw [Tape.lexemes_ofSource]; omega), Tape.lexemes_ofSource,
      Array.toList_extract, List.extract_eq_take_drop, List.drop_zero, Nat.sub_zero]
  have flat : (Scanner.after i (Scanner.ofSource src)).brackets = [] := by
    have before : Lexeme.nest [] ((Lexeme.scan src).toList.take i) =
        some (Scanner.after i (Scanner.ofSource src)).brackets := nested
    rw [← prefix_, hb] at before
    exact (Option.some.inj before).symm
  rw [lexeme i (by omega)] at hi ⊢
  obtain ⟨inside, stop⟩ := (Scanner.next_step _).plain_inLine hi flat
  rw [← Scanner.after_succ] at inside stop
  have valid := (Scanner.lexemes_invariant (fun _ s h => h.next) _ _ start (i + 1)
    (by rw [Array.length_toList]; exact Nat.lt_of_le_of_lt hij size) (clean (i + 1))).1.valid
  obtain ⟨inside', D, rest, pos, count⟩ := inside.dotRun (j - (i + 1)) fun k hk => by
    rw [← Scanner.after_add, ← lexeme _ (by omega)]
    exact hd _ (by omega) (by omega)
  have at_j : (Tape.ofSource src).lexemeAt j =
      (Scanner.after (j - (i + 1)) (Scanner.after (i + 1) (Scanner.ofSource src))).next.1 := by
    rw [← Scanner.after_add, show i + 1 + (j - (i + 1)) = j by omega]
    exact lexeme j size
  rw [at_j] at hj ⊢
  obtain ⟨g, taken, rest', split, gap, span, -⟩ := inside'.readsInline hj
  obtain ⟨pre, whole, at_pre⟩ := valid.read
  have text : Span.text ⟨utf8Len pre, utf8Len (pre ++ (D ++ g))⟩ src = String.ofList (D ++ g) := by
    unfold Span.text
    rw [extract_prefixes (List.prefix_append pre (D ++ g)) ⟨taken ++ rest', ?_⟩, List.drop_left]
    rw [← whole, rest, split]
    simp only [List.append_assoc]
  rw [span, stop]
  dsimp only
  rw [pos, ← at_pre, ← String.utf8Len_append, ← String.utf8Len_append, List.append_assoc, text,
    String.toList_ofList, List.count_append, gap.count_dot, Nat.add_zero, count,
    between_ofSource (Nat.le_of_lt size)]

end Tape

/-! ### Reading a `from` import -/

namespace Grammar

variable {α : Type} {t : Tape} {c c' : Cursor}

theorem Reads.map_some {x : Grammar α} {b : Option α} (h : (some <$> x).Reads t c b c') :
    ∃ a, x.Reads t c a c' ∧ b = some a := by
  obtain ⟨a, c₁, hx, hp⟩ := Reads.bind (x := x) (f := fun a => Pure.pure (some a)) h
  obtain ⟨rfl, rfl⟩ := hp.pure
  exact ⟨a, hx, rfl⟩

/-- Reading a relative level passes only dots and ellipses, and adds the dots they stand
for. -/
theorem Reads.relativeLevel : ∀ {n level r : Nat} {c c' : Cursor},
    (relativeLevel n level).Reads t c r c' → c.index ≤ c'.index ∧
      (∀ k, c.index ≤ k → k < c'.index →
        (t.lexemeAt k).token = .dot ∨ (t.lexemeAt k).token = .ellipsis) ∧
      r = level + ((t.between c.index c'.index).map (·.token.dots)).sum
  | 0, _, _, _, _, h => by
    rw [relativeLevel.eq_1] at h
    exact absurd h Reads.not_exhausted
  | n + 1, level, r, c, c', h => by
    rw [relativeLevel.eq_2] at h
    have h := h.look_bind
    have passed : ∀ {add : Nat} {tok : Token}, (t.lexemeAt c.index).token = tok →
        tok.dots = add → (tok = .dot ∨ tok = .ellipsis) →
        (Grammar.skip >>= fun _ => Grammar.relativeLevel n (level + add)).Reads t c r c' →
        c.index ≤ c'.index ∧ (∀ k, c.index ≤ k → k < c'.index →
          (t.lexemeAt k).token = .dot ∨ (t.lexemeAt k).token = .ellipsis) ∧
        r = level + ((t.between c.index c'.index).map (·.token.dots)).sum := by
      intro add tok here count dots h
      obtain ⟨_, c₁, first, rest⟩ := h.bind
      obtain ⟨rfl, -⟩ := first.skip
      obtain ⟨le, inside, sum⟩ := Reads.relativeLevel rest
      have split : t.between c.index c'.index = t.lexemeAt c.index :: t.between (c.index + 1) c'.index := by
        rw [Tape.between_append (Nat.le_succ c.index) le, Tape.between_succ]
        rfl
      refine ⟨Nat.le_of_succ_le le, fun k lo hi => ?_, ?_⟩
      · rcases Nat.eq_or_lt_of_le lo with rfl | lt
        · rw [here]
          exact dots
        · exact inside k lt hi
      · rw [split, List.map_cons, List.sum_cons, here, count, sum]
        dsimp only [Cursor.past]
        omega
    split at h
    next dot => exact passed dot rfl (.inl rfl) h
    next ellipsis => exact passed ellipsis rfl (.inr rfl) h
    next =>
      obtain ⟨rfl, rfl⟩ := h.pure
      refine ⟨Nat.le_refl _, fun k lo hi => absurd hi (Nat.not_lt.2 lo), ?_⟩
      rw [Tape.between_self]
      rfl

/-- A dotted name gives the source text from where its first name starts. -/
theorem Reads.dottedName_text {str : String} (h : dottedName.Reads t c str c') :
    ∃ stop, str = Span.text ⟨(t.lexemeAt c.index).span.start, stop⟩ t.source := by
  rw [dottedName.eq_1] at h
  obtain ⟨_, c₁, -, h⟩ := h.look_bind.bind
  obtain ⟨_, c₂, -, h⟩ := h.read_bind.bind
  have h := h.look_bind
  unfold text at h
  obtain ⟨rfl, -⟩ := h.read_bind.pure
  exact ⟨_, rfl⟩

/-- A `from` import reads `from`, a relative level, and then either a module name or, with no
module, the keyword `import`; the statement keeps that module and level. -/
theorem Reads.fromImportStmt_parts {module : Option String} {names : List ImportAlias}
    {level : Nat} (h : fromImportStmt.Reads t c (.importFrom module names level) c') :
    ∃ c₂, (Grammar.relativeLevel t.lexemes.size 0).Reads t (c.past (t.lexemeAt c.index)) level c₂ ∧
      (module = none ∧ (t.lexemeAt c₂.index).token = .keyword .import ∨
        (t.lexemeAt c₂.index).token.nameText?.isSome ∧
          ∃ str c₃, dottedName.Reads t c₂ str c₃ ∧ module = some str) := by
  rw [fromImportStmt.eq_1] at h
  obtain ⟨_, c₁, first, h⟩ := h.bind
  obtain ⟨rfl, -⟩ := first.skip
  obtain ⟨lvl, c₂, dots, h⟩ := h.read_bind.bind
  have h := h.look_bind
  extract_lets after at h
  have rest : ∀ mod c₃, Yields (after mod) t c₃ fun r _ =>
      (t.lexemeAt c₃.index).token = .keyword .import ∧ ∃ names, r = .importFrom mod names lvl := by
    intro mod c₃
    dsimp only [after]
    split
    · exact Yields.bind fun _ _ h => absurd h Reads.not_fail
    · refine Yields.bind fun _ _ hexp => ?_
      have imp := hexp.expect.1
      repeat' first
        | exact Yields.pure ⟨imp, _, rfl⟩
        | exact Yields.fail
        | (refine Yields.bind fun _ _ _ => ?_)
        | split
  split at h
  · next named =>
    obtain ⟨mod, c₃, hmod, tail⟩ := h.bind
    obtain ⟨str, hname, rfl⟩ := hmod.map_some
    obtain ⟨-, names', same⟩ := rest _ _ _ _ tail
    obtain ⟨rfl, -, rfl⟩ := StmtKind.importFrom.inj same
    exact ⟨c₂, dots, .inr ⟨named, str, c₃, hname, rfl⟩⟩
  · obtain ⟨mod, c₃, hmod, tail⟩ := h.bind
    obtain ⟨rfl, rfl⟩ := hmod.pure
    obtain ⟨imp, names', same⟩ := rest _ _ _ _ tail
    obtain ⟨rfl, -, rfl⟩ := StmtKind.importFrom.inj same
    exact ⟨_, dots, .inl ⟨rfl, imp⟩⟩

theorem importStmt_imports : Yields importStmt t c fun k _ => ∃ aliases, k = .imports aliases := by
  rw [importStmt.eq_1]
  exact Yields.bind fun _ _ _ => Yields.read_bind (Yields.bind fun _ _ _ => Yields.pure ⟨_, rfl⟩)

/-- A simple statement read as a `from` import starts with `from`, and is read by
`fromImportStmt` from there. -/
theorem Reads.simpleStmt_importFrom (n : Nat) {s : Stmt} (h : (simpleStmt n).Reads t c s c')
    {module : Option String} {names : List ImportAlias} {level : Nat}
    (hk : s.kind = .importFrom module names level) :
    (t.lexemeAt c.index).token = .keyword .from ∧
      s.origin = .source ⟨(t.lexemeAt c.index).span.start, c'.lastEnd⟩ ∧
      ∃ c₁, fromImportStmt.Reads t c s.kind c₁ := by
  -- only the `from` case gives this kind
  have kw : (t.lexemeAt c.index).token = .keyword .from := by
    have kinds := simpleStmt_kinds (c := c) (Q := fun k => ∀ m ns l, k = .importFrom m ns l →
        (t.lexemeAt c.index).token = .keyword .from)
      (fun c₀ k c₁ hr => by
        obtain ⟨_, rfl⟩ := importStmt_imports k c₁ hr
        intro m ns l e
        cases e)
      (fun kw _ _ _ _ _ _ _ => kw) (fun _ _ _ e => by cases e) (fun _ _ _ e => by cases e)
      (fun _ _ _ _ e => by cases e) n s c' h
    exact kinds.2 _ _ _ hk
  cases n with
  | zero =>
    rw [simpleStmt.eq_1] at h
    exact absurd h Reads.not_exhausted
  | succ n =>
    rw [simpleStmt.eq_2] at h
    have h := h.look_bind.look_bind
    rw [kw] at h
    obtain ⟨kind, c₁, hf, h⟩ := h.bind
    obtain ⟨rfl, rfl⟩ := h.look_bind.pure
    exact ⟨kw, rfl, _, hf⟩

/-- How a `from` import is read as a simple statement: `from` at `c`, only dots and ellipses
after it up to `j`, and at `j` the keyword `import` where no module is named, or else the name
where the module's text starts. The level adds up the dots of the lexemes in between. -/
theorem Reads.importFrom_parts (n : Nat) {s : Stmt} (h : (simpleStmt n).Reads t c s c')
    {module : Option String} {names : List ImportAlias} {level : Nat}
    (hk : s.kind = .importFrom module names level) :
    (t.lexemeAt c.index).token = .keyword .from ∧
      s.origin = .source ⟨(t.lexemeAt c.index).span.start, c'.lastEnd⟩ ∧
      ∃ j, c.index < j ∧ (∀ k, c.index < k → k < j →
        (t.lexemeAt k).token = .dot ∨ (t.lexemeAt k).token = .ellipsis) ∧
      level = ((t.between (c.index + 1) j).map (·.token.dots)).sum ∧
      (module = none ∧ (t.lexemeAt j).token = .keyword .import ∨
        (t.lexemeAt j).token.nameText?.isSome ∧
          ∃ stop, module = some (Span.text ⟨(t.lexemeAt j).span.start, stop⟩ t.source)) := by
  obtain ⟨kw, origin, c₁, reads⟩ := Reads.simpleStmt_importFrom n h hk
  rw [hk] at reads
  obtain ⟨c₂, dots, ends⟩ := Reads.fromImportStmt_parts reads
  obtain ⟨le, inside, sum⟩ := Reads.relativeLevel dots
  refine ⟨kw, origin, c₂.index, le, fun k lo hi => inside k lo hi, ?_, ?_⟩
  · rw [sum, Nat.zero_add]
    rfl
  · rcases ends with ⟨none, imp⟩ | ⟨named, str, c₃, name, rfl⟩
    · exact .inl ⟨none, imp⟩
    · obtain ⟨stop, rfl⟩ := Reads.dottedName_text name
      exact .inr ⟨named, stop, rfl⟩

end Grammar

/-! ### The level of a relative import -/

/-- The module and the level of a `from` import; nothing for another kind of statement. -/
def StmtKind.fromImport? : StmtKind → Option (Option String × Nat)
  | .importFrom module _ level => some (module, level)
  | _ => none

/-- The level of every `from` import of a source that fits, at any depth, counts the `.`
characters of the source between `from` and the module name, or `import` where no module is
named: however the scanner split them into `.` and `...` lexemes, and whatever blanks and line
continuations stand between them. -/
theorem Module.importFrom_level {src : String} {m : Module} (_fits : Source.Fits src)
    (h : Module.parse src = .ok m)
    {s : Stmt} (hs : s.Occurs m.body) {module : Option String} {names : List ImportAlias}
    {level : Nat} (hk : s.kind = .importFrom module names level) :
    ∃ i j, i < j ∧ ((Tape.ofSource src).lexemeAt i).token = .keyword .from ∧
      (∃ stop, s.origin = .source ⟨((Tape.ofSource src).lexemeAt i).span.start, stop⟩) ∧
      (∀ k, i < k → k < j → ((Tape.ofSource src).lexemeAt k).token = .dot ∨
        ((Tape.ofSource src).lexemeAt k).token = .ellipsis) ∧
      (module = none ∧ ((Tape.ofSource src).lexemeAt j).token = .keyword .import ∨
        ∃ stop, module = some (Span.text ⟨((Tape.ofSource src).lexemeAt j).span.start, stop⟩ src)) ∧
      level = (Span.text ⟨((Tape.ofSource src).lexemeAt i).span.stop,
        ((Tape.ofSource src).lexemeAt j).span.start⟩ src).toList.count '.' := by
  have leaf : s.kind.Leaf := by
    rw [hk]
    trivial
  obtain ⟨n, c, c', reads, closed⟩ := Module.leaves_outside_brackets h hs leaf
  obtain ⟨kw, origin, j, lt, dots, sum, ends⟩ := Grammar.Reads.importFrom_parts n reads hk
  have first : ((Tape.ofSource src).lexemeAt c.index).token.Plain := by
    rw [kw]
    decide
  have last : ((Tape.ofSource src).lexemeAt j).token.Plain := by
    rcases ends with ⟨-, imp⟩ | ⟨named, -⟩
    · rw [imp]
      decide
    · exact Token.Plain.of_nameText named
  have text := Tape.dots_text (Module.parse_noFault h) lt first last dots closed
  refine ⟨c.index, j, lt, kw, ⟨_, origin⟩, dots, ?_, by rw [text, sum]⟩
  rcases ends with ⟨none, imp⟩ | ⟨-, stop, named⟩
  · exact .inl ⟨none, imp⟩
  · exact .inr ⟨stop, named⟩

/-- Dots split by a line continuation, and `...` read as one lexeme, count four. -/
theorem Module.importFrom_level_spread :
    Source.Fits "from .\\\n... import b\n" ∧
    ∃ m, Module.parse "from .\\\n... import b\n" = .ok m ∧ ∃ s : Stmt, s.Occurs m.body ∧
      ∃ names, s.kind = .importFrom none names 4 ∧
      ∃ i j, i < j ∧ ((Tape.ofSource "from .\\\n... import b\n").lexemeAt i).token = .keyword .from ∧
        (∃ stop, s.origin =
          .source ⟨((Tape.ofSource "from .\\\n... import b\n").lexemeAt i).span.start, stop⟩) ∧
        (∀ k, i < k → k < j → ((Tape.ofSource "from .\\\n... import b\n").lexemeAt k).token = .dot ∨
          ((Tape.ofSource "from .\\\n... import b\n").lexemeAt k).token = .ellipsis) ∧
        ((none : Option String) = none ∧
            ((Tape.ofSource "from .\\\n... import b\n").lexemeAt j).token = .keyword .import ∨
          ∃ stop, (none : Option String) = some (Span.text
            ⟨((Tape.ofSource "from .\\\n... import b\n").lexemeAt j).span.start, stop⟩
            "from .\\\n... import b\n")) ∧
        4 = (Span.text ⟨((Tape.ofSource "from .\\\n... import b\n").lexemeAt i).span.stop,
          ((Tape.ofSource "from .\\\n... import b\n").lexemeAt j).span.start⟩
          "from .\\\n... import b\n").toList.count '.' := by
  obtain ⟨m, parsed⟩ := exists_parse_of_isSome "from .\\\n... import b\n" (by decide +kernel)
  have shape : m.body.map (·.kind.fromImport?) = [some (none, 4)] := by
    have computed : (Module.parse "from .\\\n... import b\n").toOption.map
        (fun m => m.body.map (·.kind.fromImport?)) = some [some (none, 4)] := by
      decide +kernel
    simpa [parsed, Except.toOption] using computed
  obtain ⟨s, one, kind⟩ := List.map_eq_singleton_iff.mp shape
  have occurs : s.Occurs m.body := .here (by rw [one]; exact List.mem_singleton_self s)
  cases hk : s.kind with
  | importFrom module names level =>
    rw [hk] at kind
    obtain ⟨rfl, rfl⟩ := Prod.mk.inj (Option.some.inj kind)
    have fits : Source.Fits "from .\\\n... import b\n" := by decide
    exact ⟨fits, m, parsed, s, occurs, names, hk, Module.importFrom_level fits parsed occurs hk⟩
  | _ =>
    rw [hk] at kind
    cases kind

end PyTune
