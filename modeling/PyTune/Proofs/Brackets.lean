import PyTune.Proofs.ScanStep

/-!
# Brackets nest in the scanner's stream

Before every lexeme that no lexical fault precedes, the lexemes read so far nest (`Lexeme.nest`)
and leave open exactly the brackets the scanner holds; a bracket fault stands at its bracket
(`Lexeme.scan_brackets`).
-/

namespace PyTune

open String (utf8Len)

/-- The character `c` stands at byte offset `p` of `src`. -/
def Source.CharAt (src : String) (p : Nat) (c : Char) : Prop :=
  ∃ pre rest, pre ++ c :: rest = src.toList ∧ utf8Len pre = p

theorem Scanner.Valid.charAt {src : String} {s : Scanner} {c : Char} {cs : List Char}
    (h : s.Valid src) (hr : s.rest = c :: cs) : Source.CharAt src s.pos c := by
  obtain ⟨pre, whole, len⟩ := h.read
  rw [hr] at whole
  exact ⟨pre, cs, whole, len⟩

namespace Lexeme

/-- The brackets open after one more lexeme, innermost first, each with where it opens; none
when a closing bracket does not close the innermost open one. -/
def nestStep (stack : List (Char × Nat)) (l : Lexeme) : Option (List (Char × Nat)) :=
  match l.token.opening?, l.token.closing? with
  | some c, _ => some ((c, l.span.start) :: stack)
  | none, some c =>
    match stack with
    | (o, _) :: outer => if o = c then some outer else none
    | [] => none
  | none, none => some stack

/-- The brackets open after a run of lexemes, from `stack` open before it. -/
def nest (stack : List (Char × Nat)) (ls : List Lexeme) : Option (List (Char × Nat)) :=
  ls.foldlM nestStep stack

theorem nest_nil (stack : List (Char × Nat)) : nest stack [] = some stack := rfl

theorem nest_append_single (stack : List (Char × Nat)) (ls : List Lexeme) (l : Lexeme) :
    nest stack (ls ++ [l]) = (nest stack ls).bind (nestStep · l) := by
  unfold nest
  rw [List.foldlM_append]
  simp only [List.foldlM_cons, List.foldlM_nil, bind_pure]
  rfl

theorem nestStep_opening {stack : List (Char × Nat)} {l : Lexeme} {c : Char}
    (h : l.token.opening? = some c) : nestStep stack l = some ((c, l.span.start) :: stack) := by
  unfold nestStep
  rw [h]

theorem nestStep_closing {o : Char} {p : Nat} {outer : List (Char × Nat)} {l : Lexeme}
    (ho : l.token.opening? = none) (hc : l.token.closing? = some o) :
    nestStep ((o, p) :: outer) l = some outer := by
  unfold nestStep
  rw [ho, hc]
  exact if_pos rfl

theorem nestStep_plain {stack : List (Char × Nat)} {l : Lexeme} (ho : l.token.opening? = none)
    (hc : l.token.closing? = none) : nestStep stack l = some stack := by
  unfold nestStep
  rw [ho, hc]

/-- The lexemes before a lexeme that opens a bracket leave it open: with what the bracket
closes after it. -/
theorem nestStep_mem {stack stack' : List (Char × Nat)} {l : Lexeme} {e : Char × Nat}
    (h : nestStep stack l = some stack') (he : e ∈ stack') : e ∈ stack ∨ e.2 = l.span.start := by
  unfold nestStep at h
  split at h
  · cases h
    rcases List.mem_cons.1 he with rfl | he
    · exact .inr rfl
    · exact .inl he
  · split at h
    · split at h
      · cases h
        exact .inl (List.mem_cons_of_mem _ he)
      · cases h
    · cases h
  · cases h
    exact .inl he

/-- What a fault says about brackets, given the brackets open before its lexeme `l`: a closing
bracket with none open, or of another kind than the innermost open one, is a fault at that
bracket; the end of input with brackets open is a fault at the innermost one, spanning to the
end of the source. Other faults say nothing about brackets. -/
def BracketFault (src : String) (stack : List (Char × Nat)) (l : Lexeme) : LexFault → Prop
  | .unmatchedClose c =>
    stack = [] ∧ Scanner.isCloser c = true ∧ Source.CharAt src l.span.start c
  | .mismatchedClose o c =>
    (∃ p outer, stack = (o, p) :: outer) ∧ o ≠ Scanner.openerOf c ∧
      Scanner.isCloser c = true ∧ Source.CharAt src l.span.start c
  | .unclosed o => (∃ outer, stack = (o, l.span.start) :: outer) ∧ l.span.stop = src.utf8ByteSize
  | _ => True

theorem bracketFault_of_not_isBracket {src : String} {stack : List (Char × Nat)} {l : Lexeme}
    {f : LexFault} (h : f.isBracket = false) : BracketFault src stack l f := by
  cases f <;> first | exact True.intro | cases h

/-- What a lexeme can be, given the brackets open before it. -/
structure InBrackets (src : String) (stack : List (Char × Nat)) (l : Lexeme) : Prop where
  /-- Line ends, indentation and the end of input come only outside brackets. -/
  layout : l.token.isLayout = true → stack = []
  /-- An opening bracket is its one character in the source. -/
  opening : ∀ c, l.token.opening? = some c →
    Source.CharAt src l.span.start c ∧ l.span.stop = l.span.start + 1
  /-- A closing bracket is its one character in the source, of the kind it closes. -/
  closing : ∀ o, l.token.closing? = some o → ∃ c, Scanner.isCloser c = true ∧
    Scanner.openerOf c = o ∧ Source.CharAt src l.span.start c ∧ l.span.stop = l.span.start + 1
  /-- A fault says where it stands among the brackets. -/
  fault : ∀ f, l.token = .invalid f → BracketFault src stack l f

namespace InBrackets

variable {src : String} {stack : List (Char × Nat)} {l : Lexeme}

/-- A lexeme that is no bracket and no fault. -/
theorem plain (ho : l.token.opening? = none) (hc : l.token.closing? = none)
    (hf : l.token.fault? = none) (hl : l.token.isLayout = true → stack = []) :
    InBrackets src stack l where
  layout := hl
  opening c e := absurd (e.symm.trans ho) (Option.some_ne_none c)
  closing o e := absurd (e.symm.trans hc) (Option.some_ne_none o)
  fault f e := by
    rw [e] at hf
    exact absurd hf (Option.some_ne_none f)

/-- An opening bracket at its character. -/
theorem opened {c : Char} (ho : l.token.opening? = some c) (at_c : Source.CharAt src l.span.start c)
    (one : l.span.stop = l.span.start + 1) : InBrackets src stack l where
  layout e := by
    rw [Token.isLayout_of_opening ho] at e
    cases e
  opening c' e := by
    rw [ho, Option.some.injEq] at e
    subst e
    exact ⟨at_c, one⟩
  closing o e := absurd (e.symm.trans (Token.closing?_of_opening ho)) (Option.some_ne_none o)
  fault f e := by
    have hf := Token.fault?_of_opening ho
    rw [e] at hf
    exact absurd hf (Option.some_ne_none f)

/-- A closing bracket at its character. -/
theorem closed {c : Char} (hc : l.token.closing? = some (Scanner.openerOf c))
    (closer : Scanner.isCloser c = true) (at_c : Source.CharAt src l.span.start c)
    (one : l.span.stop = l.span.start + 1) : InBrackets src stack l where
  layout e := by
    rw [Token.isLayout_of_closing hc] at e
    cases e
  opening c' e := absurd (e.symm.trans (Token.opening?_of_closing hc)) (Option.some_ne_none c')
  closing o e := by
    rw [hc, Option.some.injEq] at e
    exact ⟨c, closer, e, at_c, one⟩
  fault f e := by
    have hf := Token.fault?_of_closing hc
    rw [e] at hf
    exact absurd hf (Option.some_ne_none f)

/-- A fault, with what it says about brackets. -/
theorem faulted {f : LexFault} (e : l.token = .invalid f) (hf : BracketFault src stack l f) :
    InBrackets src stack l where
  layout h := by
    rw [e] at h
    cases h
  opening c h := by
    rw [e] at h
    cases h
  closing o h := by
    rw [e] at h
    cases h
  fault f' h := by
    rw [e, Token.invalid.injEq] at h
    subst h
    exact hf

end InBrackets

end Lexeme

namespace Scanner

variable {src : String}

/-- What a lexeme read inside a line can be, given the scanner's open brackets, each of which
opened before where the scanner stands. -/
theorem Body.inBrackets {s : Scanner} {r : Lexeme × Scanner} (h : Body s r) (hv : s.Valid src)
    (below : ∀ e ∈ s.brackets, e.2 ≤ s.pos) : Lexeme.InBrackets src s.brackets r.1 := by
  cases h with
  | unclosed hr hb =>
    have ends : s.pos = src.utf8ByteSize := hv.pos_of_rest hr
    have opened : _ ≤ s.pos := below _ (by rw [hb]; exact List.mem_cons_self)
    exact .faulted rfl ⟨⟨_, hb⟩, by rw [← ends]; exact Nat.max_eq_left opened⟩
  | closeLevels _ hb | eof _ hb | lineEnd _ hb => exact .plain rfl rfl rfl fun _ => hb
  | opening hr ht => exact .opened ht (hv.charAt hr) rfl
  | closing hr hc ht => exact .closed ht hc (hv.charAt hr) rfl
  | unmatched hr hc hb => exact .faulted rfl ⟨hb, hc, hv.charAt hr⟩
  | mismatched hr hc hb ho => exact .faulted rfl ⟨⟨_, _, hb⟩, ho, hc, hv.charAt hr⟩
  | token ho hc hl hf =>
    refine .plain ho hc hf fun e => ?_
    rw [hl] at e
    cases e
  | fault hf => exact .faulted rfl (Lexeme.bracketFault_of_not_isBracket hf)

/-- What the lexeme of a step can be, given the scanner's open brackets. -/
theorem Step.inBrackets {s : Scanner} {r : Lexeme × Scanner} (h : Step s r) (hs : Live src s)
    (below : ∀ e ∈ s.brackets, e.2 ≤ s.pos) : Lexeme.InBrackets src s.brackets r.1 := by
  cases h with
  | ended failed => exact absurd (hs.live.symm.trans failed) Bool.false_ne_true
  | owed _ hd => exact .plain rfl rfl rfl fun _ => hs.owed hd
  | indent _ _ _ hb | dedent _ _ _ hb => exact .plain rfl rfl rfl fun _ => hb
  | badDedent => exact .faulted rfl trivial
  | lineCode _ _ _ _ hk _ passed read =>
    obtain ⟨valid, moved⟩ := hs.valid.skipToCode hk
    have lexeme := read.inBrackets (passed.valid valid) fun e he => by
      rw [passed.brackets] at he
      exact Nat.le_trans (below e he) (Nat.le_trans moved passed.le)
    rwa [passed.brackets] at lexeme
  | inLine _ _ _ passed read =>
    have lexeme := read.inBrackets (passed.valid hs.valid) fun e he => by
      rw [passed.brackets] at he
      exact Nat.le_trans (below e he) passed.le
    rwa [passed.brackets] at lexeme

/-- A lexeme read inside a line that is no lexical fault moves the open brackets as the
lexemes nest. -/
theorem Body.nest {s : Scanner} {r : Lexeme × Scanner} (h : Body s r)
    (hf : r.1.token.fault? = none) : Lexeme.nestStep s.brackets r.1 = some r.2.brackets := by
  cases h with
  | unclosed | unmatched | mismatched | fault => exact absurd hf (Option.some_ne_none _)
  | closeLevels | eof | lineEnd => exact Lexeme.nestStep_plain rfl rfl
  | opening _ ht => exact Lexeme.nestStep_opening ht
  | closing _ _ ht hb =>
    rw [hb]
    exact Lexeme.nestStep_closing (Token.opening?_of_closing ht) ht
  | token ho hc => exact Lexeme.nestStep_plain ho hc

/-- A step that gives no lexical fault moves the open brackets as the lexemes nest. -/
theorem Step.nest {s : Scanner} {r : Lexeme × Scanner} (h : Step s r)
    (hf : r.1.token.fault? = none) : Lexeme.nestStep s.brackets r.1 = some r.2.brackets := by
  cases h with
  | ended | owed | indent | dedent => exact Lexeme.nestStep_plain rfl rfl
  | badDedent => exact absurd hf (Option.some_ne_none _)
  | lineCode _ _ _ _ _ _ passed read | inLine _ _ _ passed read =>
    rw [← passed.brackets]
    exact read.nest hf

/-- Before each lexeme no lexical fault precedes: the scanner is live, the lexemes read so far
nest and leave its brackets open, and each of them opened before where it stands. -/
def Nested (src : String) (pre : List Lexeme) (s : Scanner) : Prop :=
  Live src s ∧ Lexeme.nest [] pre = some s.brackets ∧ ∀ e ∈ s.brackets, e.2 ≤ s.pos

theorem Nested.next {pre : List Lexeme} {s : Scanner} (h : Nested src pre s)
    (hf : s.next.1.token.fault? = none) (he : s.next.1.token ≠ .eof) :
    Nested src (pre ++ [s.next.1]) s.next.2 := by
  obtain ⟨live, nested, below⟩ := h
  have moved := (next_step s).nest hf
  have steps := next_steps live.valid rfl hf
  refine ⟨live.next hf he, ?_, fun e he' => ?_⟩
  · rw [Lexeme.nest_append_single, nested]
    exact moved
  · -- an open bracket opened before the scanner stood, or where the lexeme starts
    have passed : s.pos ≤ s.next.2.pos :=
      Nat.le_trans steps.after (Nat.le_trans steps.ordered (steps.next he).1)
    rcases Lexeme.nestStep_mem moved he' with before | here
    · exact Nat.le_trans (below e before) passed
    · rw [here]
      exact Nat.le_trans steps.ordered (steps.next he).1

/-- Before every lexeme of a source that no lexical fault precedes, the scanner is live, the
lexemes read so far nest into the brackets it holds open, and each of those opened before it. -/
theorem nested_after (src : String) {k : Nat} (lt : k < (Lexeme.scan src).toList.length)
    (clean : ∀ x ∈ (Lexeme.scan src).toList.take k, x.token.fault? = none) :
    Nested src ((Lexeme.scan src).toList.take k) (after k (ofSource src)) :=
  lexemes_invariant (fun _ _ h => h.next) _ _
    ⟨Live.start src, rfl, fun _ he => absurd he List.not_mem_nil⟩ k lt clean

end Scanner

/-- The brackets of the lexemes of a source that fits nest. Before every lexeme that no lexical
fault precedes, the lexemes read so far nest, each closing bracket closing the innermost open one;
the lexeme is a line end, indentation or the end of input only with no bracket open; a bracket
lexeme is its bracket's character; a closing bracket with none open or of the wrong kind is a
fault at it; and the end of input with brackets open is a fault at the innermost one. -/
theorem Lexeme.scan_brackets (src : String) (_fits : Source.Fits src) (k : Nat) (l : Lexeme)
    (hl : (Lexeme.scan src)[k]? = some l)
    (clean : ∀ x ∈ (Lexeme.scan src).toList.take k, x.token.fault? = none) :
    ∃ stack, Lexeme.nest [] ((Lexeme.scan src).toList.take k) = some stack ∧
      Lexeme.InBrackets src stack l := by
  rw [← Array.getElem?_toList] at hl
  have lt : k < (Lexeme.scan src).toList.length := (List.getElem?_eq_some_iff.1 hl).1
  obtain ⟨live, nested, below⟩ := Scanner.nested_after src lt clean
  have next := Scanner.lexemes_getElem? _ _ k hl
  refine ⟨_, nested, ?_⟩
  rw [next]
  exact (Scanner.next_step _).inBrackets live below

/-- A closing bracket of the wrong kind, on the line after the opening one, is a fault at it
with the opening one still open; the line feed between them is no lexeme. -/
theorem Lexeme.scan_brackets_mismatched :
    ∃ stack, Lexeme.nest [] ((Lexeme.scan "(\n]").toList.take 1) = some stack ∧
      Lexeme.InBrackets "(\n]" stack ⟨.invalid (.mismatchedClose '(' ']'), ⟨2, 3⟩⟩ :=
  Lexeme.scan_brackets "(\n]" (by decide) 1 _ (by decide +kernel) (by decide +kernel)

end PyTune
