import PyTune.Proofs.Brackets
import PyTune.Proofs.LexicalFaults

/-!
# The lexemes of a source tile it

Read from the front, a source is its lexemes in order with gaps around them (`Lexeme.Gap`),
each spanning the text it spells (`Token.Spells`). The scan tiles the source up to where it
stops (`Lexeme.scan_tiles`); `Scanner.Tiled` carries the tiling along a run.
-/

namespace PyTune

open String (utf8Len)

/-! ### Tiles -/

namespace Token

variable {t : Token} {c : Char}

/-- An opening bracket spells its one character. -/
theorem spells_of_opening (h : t.opening? = some c) : t.Spells [c] := by
  cases t <;> first | exact List.cons_ne_nil _ _ | cases h

theorem utf8Size_of_opening (h : t.opening? = some c) : c.utf8Size = 1 := by
  cases t <;> cases h <;> rfl

theorem spells_of_closing {d : Char} (h : t.closing? = some c) : t.Spells [d] := by
  cases t <;> first | exact List.cons_ne_nil _ _ | cases h

theorem ne_eof_of_isLayout (h : t.isLayout = false) : t ≠ .eof := by
  rintro rfl
  cases h

end Token

theorem Scanner.utf8Size_of_isCloser {c : Char} (h : Scanner.isCloser c = true) :
    c.utf8Size = 1 := by
  simp only [Scanner.isCloser, Bool.or_eq_true, beq_iff_eq] at h
  rcases h with (rfl | rfl) | rfl <;> rfl

namespace Lexeme

/-- From byte offset `pos` on, the text `cs` is the lexemes `ls` in order, with a gap before
each and one after the last: each lexeme spans the text it spells. -/
def Tiles : Nat → List Char → List Lexeme → Prop
  | _, cs, [] => Gap cs
  | pos, cs, l :: ls => ∃ g t rest, cs = g ++ t ++ rest ∧ Gap g ∧ l.token.Spells t ∧
      l.span = ⟨pos + utf8Len g, pos + utf8Len g + utf8Len t⟩ ∧ Tiles l.span.stop rest ls

namespace Tiles

variable {g t : List Char} {l : Lexeme}

/-- More gap after the last lexeme. -/
theorem gap_append (hg : Gap g) :
    ∀ {ls : List Lexeme} {pos : Nat} {cs : List Char}, Tiles pos cs ls → Tiles pos (cs ++ g) ls := by
  intro ls
  induction ls with
  | nil =>
    intro pos cs h
    exact Gap.append h hg
  | cons l ls ih =>
    intro pos cs h
    obtain ⟨g', t, rest, rfl, hg', hs, hsp, h⟩ := h
    exact ⟨g', t, rest ++ g, by simp only [List.append_assoc], hg', hs, hsp, ih h⟩

/-- One more lexeme, after a gap, spanning the text it spells. -/
theorem snoc (hg : Gap g) (hs : l.token.Spells t) :
    ∀ {ls : List Lexeme} {pos : Nat} {cs : List Char}, Tiles pos cs ls →
      l.span = ⟨pos + utf8Len (cs ++ g), pos + utf8Len (cs ++ g) + utf8Len t⟩ →
      Tiles pos (cs ++ g ++ t) (ls ++ [l]) := by
  intro ls
  induction ls with
  | nil =>
    intro pos cs h hsp
    exact ⟨cs ++ g, t, [], (List.append_nil _).symm, h.append hg, hs, hsp, .nil⟩
  | cons l' ls ih =>
    intro pos cs h hsp
    obtain ⟨g', t', rest, rfl, hg', hs', hsp', h⟩ := h
    refine ⟨g', t', rest ++ g ++ t, by simp only [List.append_assoc], hg', hs', hsp', ih h ?_⟩
    -- the offsets of the new lexeme, counted from the end of `l'` instead of from `pos`
    rw [hsp, hsp']
    simp only [String.utf8Len_append, Span.mk.injEq]
    constructor <;> omega

/-- A lexeme of a tiling spans the source text it spells, where the tiling is a piece of the
source. -/
theorem spells_text {src : String} :
    ∀ {ls : List Lexeme} {pre cs : List Char}, Tiles (utf8Len pre) cs ls →
      pre ++ cs <+: src.toList → ∀ l ∈ ls, l.token.Spells (l.span.text src).toList := by
  intro ls
  induction ls with
  | nil =>
    intro pre cs _ _ l hl
    cases hl
  | cons l ls ih =>
    intro pre cs h hp x hx
    obtain ⟨g, t, rest, rfl, -, hs, hsp, h⟩ := h
    have piece : pre ++ g ++ t <+: src.toList := by
      refine List.IsPrefix.trans ⟨rest, ?_⟩ hp
      simp only [List.append_assoc]
    have stop : l.span.stop = utf8Len (pre ++ g ++ t) := by
      rw [hsp, String.utf8Len_append, String.utf8Len_append]
    rcases List.mem_cons.1 hx with rfl | hx
    · -- the lexeme's span runs from the end of `pre ++ g` to the end of `pre ++ g ++ t`
      have text : x.span.text src = String.ofList t := by
        rw [Span.text, hsp, ← String.utf8Len_append,
          ← String.utf8Len_append (pre ++ g),
          extract_prefixes (List.prefix_append _ _) piece]
        simp
      rw [text, String.toList_ofList]
      exact hs
    · rw [stop] at h
      exact ih h (by simpa only [List.append_assoc] using
        List.IsPrefix.trans ⟨[], List.append_nil _⟩ (show pre ++ g ++ t ++ rest <+: src.toList
          by simpa only [List.append_assoc] using hp)) x hx

end Tiles

end Lexeme

namespace Scanner

/-! ### Skipping to the code of a line -/

theorem gap_skipped (taken : List Char) {lead lead' rest res : List Char} {pos pos' stop : Nat}
    (hp : pos' = pos + utf8Len taken)
    (hg : ∀ k, Lexeme.Gap (lead' ++ k) → Lexeme.Gap (lead ++ (taken ++ k)))
    (ih : ∃ k, rest = k ++ res ∧ stop = pos' + utf8Len k ∧ Lexeme.Gap (lead' ++ k)) :
    ∃ k, taken ++ rest = k ++ res ∧ stop = pos + utf8Len k ∧ Lexeme.Gap (lead ++ k) := by
  obtain ⟨k, rfl, rfl, g⟩ := ih
  exact ⟨taken ++ k, (List.append_assoc _ _ _).symm,
    by rw [hp, String.utf8Len_append, Nat.add_assoc], hg k g⟩

/-- Skipping to the code of a line passes a gap: inside a comment, what it passes ends the
comment. -/
theorem skipToCode_gap (cs : List Char) (pos col : Nat) (inComment : Bool) :
    ∃ skipped, cs = skipped ++ (skipToCode cs pos col inComment).2.1 ∧
      (skipToCode cs pos col inComment).2.2 = pos + utf8Len skipped ∧
      Lexeme.Gap (cond inComment ['#'] [] ++ skipped) := by
  fun_induction skipToCode cs pos col inComment with
  | case1 pos col inComment =>
    refine ⟨[], rfl, rfl, ?_⟩
    cases inComment
    · exact .nil
    · exact .commentText List.not_mem_nil
  | case2 c cs pos col newline ih =>
    rw [beq_iff_eq.1 newline]
    exact gap_skipped ['\n'] rfl
      (fun k g => @Lexeme.Gap.comment [] _ List.not_mem_nil (.blank (by simp) g)) ih
  | case3 c cs pos col other ih =>
    exact gap_skipped [c] (by rw [String.utf8Len_cons, String.utf8Len_nil, Nat.zero_add])
      (fun k g => Lexeme.Gap.comment_cons (by simpa using other) g rfl) ih
  | case4 cs pos col ih => exact gap_skipped [' '] rfl (fun k g => .blank (by simp) g) ih
  | case5 cs pos col ih => exact gap_skipped ['\t'] rfl (fun k g => .blank (by simp) g) ih
  | case6 cs pos col ih => exact gap_skipped ['\x0c'] rfl (fun k g => .blank (by simp) g) ih
  | case7 cs pos col ih => exact gap_skipped ['\n'] rfl (fun k g => .blank (by simp) g) ih
  | case8 cs pos col ih =>
    exact gap_skipped ['\r', '\n'] rfl (fun k g => .blank (by simp) (.blank (by simp) g)) ih
  | case9 cs pos col _ ih => exact gap_skipped ['\r'] rfl (fun k g => .blank (by simp) g) ih
  | case10 cs pos col ih =>
    exact gap_skipped ['#'] rfl (fun k g => g) ih
  | case11 => exact ⟨[], rfl, rfl, .nil⟩

/-- At a line start the scanner passes a gap to the line's code. -/
theorem skipToCode_passes {s : Scanner} {col pos : Nat} {rest : List Char}
    (hk : skipToCode s.rest s.pos 0 false = (col, rest, pos)) :
    ∃ g, Lexeme.Gap g ∧ s.rest = g ++ rest ∧ pos = s.pos + utf8Len g := by
  obtain ⟨skipped, hr, hp, hg⟩ := skipToCode_gap s.rest s.pos 0 false
  rw [hk] at hr hp
  exact ⟨skipped, hg, hr, hp⟩

/-- A prefix of the input that a scanner standing on the source has read so far ends where it
stands. -/
theorem Valid.utf8Len_consumed {src : String} {s : Scanner} {consumed : List Char}
    (h : s.Valid src) (hc : consumed ++ s.rest = src.toList) : utf8Len consumed = s.pos := by
  obtain ⟨pre, e, p⟩ := h.read
  rw [← p, List.append_cancel_right (e.trans hc.symm)]

/-- Past any text at the front of its input, a scanner standing on the source is between two
characters. -/
theorem Valid.boundary_after {src : String} {s : Scanner} {taken rest : List Char}
    (h : s.Valid src) (hr : s.rest = taken ++ rest) : Boundary src (s.pos + utf8Len taken) := by
  obtain ⟨pre, e, p⟩ := h.read
  refine ⟨pre ++ taken, ⟨rest, ?_⟩, ?_⟩
  · rw [List.append_assoc, ← hr, e]
  · rw [String.utf8Len_append, p]

/-! ### A lexeme of code -/

/-- `s` reads the lexeme `l` off the front of its input after a gap, `l` spanning the text it
spells, and `s'` stands right after that text. -/
def Emits (s : Scanner) (l : Lexeme) (s' : Scanner) : Prop :=
  ∃ g t, Lexeme.Gap g ∧ l.token.Spells t ∧ s.rest = g ++ t ++ s'.rest ∧
    l.span = ⟨s.pos + utf8Len g, s.pos + utf8Len g + utf8Len t⟩

/-- A gap passed first joins the lexeme's own. -/
theorem Emits.after_gap {s s₀ s' : Scanner} {g₀ : List Char} {l : Lexeme} (hg : Lexeme.Gap g₀)
    (hr : s.rest = g₀ ++ s₀.rest) (hp : s₀.pos = s.pos + utf8Len g₀) (h : Emits s₀ l s') :
    Emits s l s' := by
  obtain ⟨g, t, hg', hs, hr', hsp⟩ := h
  refine ⟨g₀ ++ g, t, hg.append hg', hs, by rw [hr, hr']; simp only [List.append_assoc], ?_⟩
  rw [hsp, hp, String.utf8Len_append, Nat.add_assoc]

theorem Emits.of_passed {s s₀ s' : Scanner} {skipped : List Char} {l : Lexeme}
    (hp : Passed s skipped s₀) (h : Emits s₀ l s') : Emits s l s' :=
  h.after_gap hp.gap hp.rest hp.pos

/-- A lexeme of code read inside a line spans the text it spells, right where the scanner
stands. -/
theorem Body.emits {s : Scanner} {r : Lexeme × Scanner} (h : Body s r)
    (hf : r.1.token.fault? = none) (he : r.1.token ≠ .eof) : Emits s r.1 r.2 := by
  cases h with
  | unclosed | unmatched | mismatched | fault => exact absurd hf (Option.some_ne_none _)
  | eof => exact absurd rfl he
  | closeLevels => exact ⟨[], [], .nil, rfl, rfl, rfl⟩
  | lineEnd hr => exact ⟨[], ['\n'], .nil, rfl, by rw [hr]; rfl, rfl⟩
  | opening hr ht =>
    refine ⟨[], _, .nil, Token.spells_of_opening ht, by rw [hr]; rfl, ?_⟩
    simp [Token.utf8Size_of_opening ht]
  | closing hr hc ht =>
    refine ⟨[], _, .nil, Token.spells_of_closing ht, by rw [hr]; rfl, ?_⟩
    simp [utf8Size_of_isCloser hc]
  | token _ _ _ _ hr hp hs =>
    refine ⟨[], _, .nil, hs, hr, ?_⟩
    rw [hp]
    rfl

/-- A step that reads a lexeme of code passes a gap and then the text the lexeme spells. -/
theorem Step.emits {s : Scanner} {r : Lexeme × Scanner} (h : Step s r)
    (hf : r.1.token.fault? = none) (he : r.1.token ≠ .eof) : Emits s r.1 r.2 := by
  cases h with
  | ended => exact absurd rfl he
  | owed => exact ⟨[], [], .nil, rfl, rfl, rfl⟩
  | indent _ _ _ _ hk | dedent _ _ _ _ hk =>
    obtain ⟨g, hg, hr, hp⟩ := skipToCode_passes hk
    refine ⟨g, [], hg, rfl, by rw [hr, List.append_nil], ?_⟩
    rw [hp]
    rfl
  | badDedent => exact absurd hf (Option.some_ne_none _)
  | lineCode _ _ _ _ hk _ passed read =>
    obtain ⟨g, hg, hr, hp⟩ := skipToCode_passes hk
    exact ((read.emits hf he).of_passed passed).after_gap hg hr hp
  | inLine _ _ _ passed read => exact (read.emits hf he).of_passed passed

/-! ### The lexeme reading stops at -/

/-- The lexeme `l`, read from `s`, that stops the stream: `s` passes a gap and then stands at
`l`'s start, or has passed all its input; and `l` lies between two characters of `src`. -/
def Stops (src : String) (s : Scanner) (l : Lexeme) : Prop :=
  ∃ g rest, Lexeme.Gap g ∧ s.rest = g ++ rest ∧ (rest = [] ∨ l.span.start = s.pos + utf8Len g) ∧
    Boundary src l.span.start ∧ Boundary src l.span.stop ∧ l.span.start ≤ l.span.stop

theorem Stops.after_gap {src : String} {s s₀ : Scanner} {g₀ : List Char} {l : Lexeme}
    (hg : Lexeme.Gap g₀) (hr : s.rest = g₀ ++ s₀.rest) (hp : s₀.pos = s.pos + utf8Len g₀)
    (h : Stops src s₀ l) : Stops src s l := by
  obtain ⟨g, rest, hg', hr', at_l, b₁, b₂, le⟩ := h
  refine ⟨g₀ ++ g, rest, hg.append hg', by rw [hr, hr', List.append_assoc], ?_, b₁, b₂, le⟩
  rw [hp, Nat.add_assoc, ← String.utf8Len_append] at at_l
  exact at_l

theorem Stops.of_passed {src : String} {s s₀ : Scanner} {skipped : List Char} {l : Lexeme}
    (hp : Passed s skipped s₀) (h : Stops src s₀ l) : Stops src s l :=
  h.after_gap hp.gap hp.rest hp.pos

/-- A lexeme of code is not where reading stops. -/
theorem not_stop {t : Token} (hf : t.fault? = none) (he : t ≠ .eof) :
    ¬ (t.fault? ≠ none ∨ t = .eof) := by
  rintro (h | h)
  · exact h hf
  · exact he h

/-- A lexical fault or the end of input read inside a line lies between two characters, where
the scanner stands or, when the input has ended, from an open bracket to the end. -/
theorem Body.stops {src : String} {s : Scanner} {r : Lexeme × Scanner} (h : Body s r)
    (hv : s.Valid src) (hb : ∀ e ∈ s.brackets, Boundary src e.2)
    (hst : r.1.token.fault? ≠ none ∨ r.1.token = .eof) : Stops src s r.1 := by
  cases h with
  | @unclosed o p outer hr hb' =>
    have opened : Boundary src p := hb _ (by rw [hb']; exact List.mem_cons_self)
    have ended : s.pos = src.utf8ByteSize := hv.pos_of_rest hr
    have top : max s.pos p = src.utf8ByteSize := by
      rw [ended]
      exact Nat.max_eq_left opened.le_size
    refine ⟨[], [], .nil, by rw [hr]; rfl, .inl rfl, opened, ?_, Nat.le_max_right _ _⟩
    dsimp only
    rw [top]
    exact Boundary.size src
  | eof hr => exact ⟨[], [], .nil, by rw [hr]; rfl, .inl rfl, hv.boundary, hv.boundary,
      Nat.le_refl _⟩
  | closeLevels | lineEnd => exact absurd hst (not_stop rfl Token.noConfusion)
  | opening _ ht =>
    exact absurd hst (not_stop (Token.fault?_of_opening ht)
      (Token.ne_eof_of_isLayout (Token.isLayout_of_opening ht)))
  | closing _ _ ht =>
    exact absurd hst (not_stop (Token.fault?_of_closing ht)
      (Token.ne_eof_of_isLayout (Token.isLayout_of_closing ht)))
  | token _ _ hl hf => exact absurd hst (not_stop hf (Token.ne_eof_of_isLayout hl))
  | unmatched hr hc | mismatched hr hc =>
    have after : Boundary src (s.pos + 1) := by
      have b := hv.boundary_after (show s.rest = [_] ++ _ from hr)
      simpa [utf8Size_of_isCloser hc] using b
    exact ⟨[], s.rest, .nil, rfl, .inr rfl, hv.boundary, after, Nat.le_succ _⟩
  | fault _ hr hp hsp =>
    rw [hsp]
    exact ⟨[], s.rest, .nil, rfl, .inr rfl, hv.boundary, hp ▸ hv.boundary_after hr,
      by rw [hp]; exact Nat.le_add_right _ _⟩

/-- A step that gives a lexical fault or the end of input passes a gap and stops there. -/
theorem Step.stops {src : String} {s : Scanner} {r : Lexeme × Scanner} (h : Step s r)
    (hs : Live src s) (hb : ∀ e ∈ s.brackets, Boundary src e.2)
    (hst : r.1.token.fault? ≠ none ∨ r.1.token = .eof) : Stops src s r.1 := by
  cases h with
  | ended failed => exact absurd (hs.live.symm.trans failed) Bool.false_ne_true
  | owed | indent | dedent => exact absurd hst (not_stop rfl Token.noConfusion)
  | badDedent _ _ _ _ hk =>
    obtain ⟨g, hg, hr, hp⟩ := skipToCode_passes hk
    have at_code : Boundary src _ := hp ▸ hs.valid.boundary_after hr
    exact ⟨g, _, hg, hr, .inr hp, at_code, at_code, Nat.le_refl _⟩
  | lineCode _ _ _ _ hk _ passed read =>
    obtain ⟨g, hg, hr, hp⟩ := skipToCode_passes hk
    have valid := passed.valid (hs.valid.skipToCode hk).1
    have stopped := read.stops valid (fun e he => hb e (by rwa [passed.brackets] at he)) hst
    exact (stopped.of_passed passed).after_gap hg hr hp
  | inLine _ _ _ passed read =>
    have stopped :=
      read.stops (passed.valid hs.valid) (fun e he => hb e (by rwa [passed.brackets] at he)) hst
    exact stopped.of_passed passed

/-! ### Runs -/

/-- Before each lexeme of a run up to the first lexical fault or the end of input: the scanner
is live, the lexemes read so far tile the source up to where it stands, and every bracket
still open opened between two characters. -/
structure Tiled (src : String) (pre : List Lexeme) (s : Scanner) : Prop where
  live : Live src s
  tiles : ∃ consumed, consumed ++ s.rest = src.toList ∧ Lexeme.Tiles 0 consumed pre
  opened : ∀ e ∈ s.brackets, Boundary src e.2

theorem Tiled.start (src : String) : Tiled src [] (ofSource src) := by
  refine ⟨Live.start src, ⟨[], rfl, .nil⟩, ?_⟩
  intro e he
  cases he

/-- A step that reads a lexeme of code extends the tiling by that lexeme. -/
theorem Tiled.next {src : String} {pre : List Lexeme} {s : Scanner} (h : Tiled src pre s)
    (hf : s.next.1.token.fault? = none) (he : s.next.1.token ≠ .eof) :
    Tiled src (pre ++ [s.next.1]) s.next.2 := by
  obtain ⟨consumed, hc, ht⟩ := h.tiles
  obtain ⟨g, t, hg, hs, hr, hsp⟩ := (next_step s).emits hf he
  have at_s : utf8Len consumed = s.pos := h.live.valid.utf8Len_consumed hc
  have read : consumed ++ g ++ t ++ s.next.2.rest = src.toList := by
    rw [← hc, hr]
    simp only [List.append_assoc]
  refine ⟨h.live.next hf he, ⟨consumed ++ g ++ t, read, ht.snoc hg hs ?_⟩, ?_⟩
  · rw [hsp, String.utf8Len_append, at_s, Nat.zero_add]
  · -- a bracket it opens opens where the lexeme starts, past the gap
    intro e he'
    rcases Lexeme.nestStep_mem ((next_step s).nest hf) he' with old | new
    · exact h.opened e old
    · rw [new, hsp]
      refine ⟨consumed ++ g, ⟨t ++ s.next.2.rest, ?_⟩, ?_⟩
      · rw [← read]
        simp only [List.append_assoc]
      · rw [String.utf8Len_append, at_s]

/-- A step keeps the size of the source. -/
theorem Body.size {s : Scanner} {r : Lexeme × Scanner} (h : Body s r) : r.2.size = s.size := by
  cases h <;> rfl

theorem Step.size {s : Scanner} {r : Lexeme × Scanner} (h : Step s r) : r.2.size = s.size := by
  cases h with
  | ended | owed | indent | dedent | badDedent => rfl
  | lineCode _ _ _ _ _ _ passed read | inLine _ _ _ passed read =>
    rw [read.size, passed.eq]

/-- A failed scanner stands still. -/
theorem after_failed {s : Scanner} (h : s.failed = true) (k : Nat) : after k s = s := by
  induction k with
  | zero => rfl
  | succ k ih => rw [after_succ, ih, next_of_failed h]

theorem after_add (a b : Nat) (s : Scanner) : after (a + b) s = after b (after a s) := by
  induction a generalizing s with
  | zero => rw [Nat.zero_add]; rfl
  | succ a ih => rw [Nat.add_right_comm, after, ih, after]

theorem after_size (k : Nat) (s : Scanner) : (after k s).size = s.size := by
  induction k with
  | zero => rfl
  | succ k ih => rw [after_succ, (next_step _).size, ih]

end Scanner

open Scanner in
/-- Past the lexeme the scan stops at, a lexical fault or the end of input, only ends of input
come, at the end of the source. -/
theorem Lexeme.scan_past_stop {src : String} {pre post : List Lexeme} {stop : Lexeme}
    (whole : (Lexeme.scan src).toList = pre ++ stop :: post)
    (halts : stop.token.fault? ≠ none ∨ stop.token = .eof) :
    ∀ l ∈ post, l = ⟨.eof, ⟨src.utf8ByteSize, src.utf8ByteSize⟩⟩ := by
  intro l hl
  have at_stop : (Lexeme.scan src).toList[pre.length]? = some stop := by
    rw [whole]
    simp
  have next := lexemes_getElem? _ _ _ at_stop
  rcases halts with fault | ended
  · obtain ⟨j, hj⟩ := List.mem_iff_getElem?.1 hl
    have at_j : (Lexeme.scan src).toList[pre.length + 1 + j]? = some l := by
      rw [whole, List.getElem?_append_right (by omega)]
      simpa [Nat.add_assoc, Nat.add_comm 1 j] using hj
    -- the step that gives the fault leaves the scanner failed, and a failed scanner stands still
    have failed : (after (pre.length + 1) (ofSource src)).failed = true := by
      rw [after_succ]
      exact (next_step _).failed_of_fault (by rw [← next]; exact fault)
    rw [lexemes_getElem? _ _ _ at_j, after_add, after_failed failed, next_of_failed failed,
      after_size]
    rfl
  · -- the end of input is the last lexeme
    have last : (Lexeme.scan src).toList.length = pre.length + 1 :=
      lexemes_eof _ _ _ _ at_stop ended
    rw [whole, List.length_append, List.length_cons] at last
    have none : post = [] := List.eq_nil_of_length_eq_zero (by omega)
    rw [none] at hl
    cases hl

/-- The scan of a source is the lexemes `pre`, none a lexical fault or the end of input, then the
lexeme `stop` that is one, then only ends of input at the end of the source. -/
theorem Lexeme.scan_split (src : String) :
    ∃ pre stop post, (Lexeme.scan src).toList = pre ++ stop :: post ∧
      (∀ l ∈ pre, l.token.fault? = none ∧ l.token ≠ .eof) ∧
      (stop.token.fault? ≠ none ∨ stop.token = .eof) ∧
      ∀ l ∈ post, l = ⟨.eof, ⟨src.utf8ByteSize, src.utf8ByteSize⟩⟩ := by
  obtain ⟨e, he, eof⟩ := Lexeme.scan_ends src
  let going := fun l : Lexeme => decide (l.token.fault? = none ∧ l.token ≠ .eof)
  have halted : (Lexeme.scan src).toList.dropWhile going ≠ [] := by
    intro empty
    have := List.dropWhile_eq_nil_iff.1 empty e he
    simp [going, eof] at this
  obtain ⟨stop, post, split⟩ := List.exists_cons_of_ne_nil halted
  refine ⟨(Lexeme.scan src).toList.takeWhile going, stop, post, ?_⟩
  set pre := (Lexeme.scan src).toList.takeWhile going
  have whole : (Lexeme.scan src).toList = pre ++ stop :: post := by
    rw [← split, List.takeWhile_append_dropWhile]
  have clean : ∀ l ∈ pre, l.token.fault? = none ∧ l.token ≠ .eof := fun l hl => by
    simpa [going] using List.mem_takeWhile_imp hl
  have halts : stop.token.fault? ≠ none ∨ stop.token = .eof := by
    have first := List.head_dropWhile_not going halted
    simp only [split, List.head_cons, going, decide_eq_false_iff_not, not_and, not_not] at first
    by_cases hf : stop.token.fault? = none
    · exact .inr (first hf)
    · exact .inl hf
  exact ⟨whole, clean, halts, Lexeme.scan_past_stop whole halts⟩

open Scanner in
/-- After the lexemes of a source before its first lexical fault or end of input, the scanner is
live and those lexemes tile the source up to where it stands. -/
theorem Lexeme.scan_tiled_before {src : String} {pre post : List Lexeme} {stop : Lexeme}
    (whole : (Lexeme.scan src).toList = pre ++ stop :: post)
    (clean : ∀ l ∈ pre, l.token.fault? = none ∧ l.token ≠ .eof) :
    Tiled src pre (after pre.length (ofSource src)) := by
  have taken : (Lexeme.scan src).toList.take pre.length = pre := by
    rw [whole]
    simp
  have lt : pre.length < (Lexeme.scan src).toList.length := by
    rw [whole]
    simp
  have clean' : ∀ x ∈ (Lexeme.scan src).toList.take pre.length, x.token.fault? = none := by
    rw [taken]
    exact fun l hl => (clean l hl).1
  have tiled : Tiled src ((Lexeme.scan src).toList.take pre.length) (after pre.length (ofSource src)) :=
    lexemes_invariant (fun _ _ h => h.next) _ _ (Tiled.start src) pre.length lt clean'
  rwa [taken] at tiled

/-- Each lexeme of a source before the scan stops spans the source text it spells. -/
theorem Lexeme.scan_spells_before {src : String} {pre post : List Lexeme} {stop : Lexeme}
    (whole : (Lexeme.scan src).toList = pre ++ stop :: post)
    (clean : ∀ l ∈ pre, l.token.fault? = none ∧ l.token ≠ .eof) :
    ∀ l ∈ pre, l.token.Spells (l.span.text src).toList := by
  obtain ⟨-, ⟨consumed, hc, ht⟩, -⟩ := Lexeme.scan_tiled_before whole clean
  exact Lexeme.Tiles.spells_text (show Lexeme.Tiles (utf8Len ([] : List Char)) consumed pre from ht)
    ⟨_, hc⟩

open Scanner in
/-- The lexemes of a source that fits tile it up to where reading stops. The scan is the
lexemes `pre`, none a lexical fault or the end of input, then the lexeme `stop` that is one, then
only ends of input at the end of the source. The lexemes of `pre` tile the source up to `stop`'s
start, or all of it when the scanner had passed all of it; each spans the source text it spells.
The span of `stop` lies between two characters of the source. -/
theorem Lexeme.scan_tiles (src : String) (_fits : Source.Fits src) :
    ∃ pre stop post, (Lexeme.scan src).toList = pre ++ stop :: post ∧
      (∀ l ∈ pre, l.token.fault? = none ∧ l.token ≠ .eof) ∧
      (stop.token.fault? ≠ none ∨ stop.token = .eof) ∧
      (∃ covered rest, covered ++ rest = src.toList ∧ Lexeme.Tiles 0 covered pre ∧
        (rest = [] ∨ utf8Len covered = stop.span.start)) ∧
      (∀ l ∈ pre, l.token.Spells (l.span.text src).toList) ∧
      Boundary src stop.span.start ∧ Boundary src stop.span.stop ∧
      stop.span.start ≤ stop.span.stop ∧
      ∀ l ∈ post, l = ⟨.eof, ⟨src.utf8ByteSize, src.utf8ByteSize⟩⟩ := by
  obtain ⟨pre, stop, post, whole, clean, halts, ends⟩ := Lexeme.scan_split src
  obtain ⟨live, ⟨consumed, hc, ht⟩, opened⟩ := Lexeme.scan_tiled_before whole clean
  have at_stop : (Lexeme.scan src).toList[pre.length]? = some stop := by
    rw [whole]
    simp
  have next := lexemes_getElem? _ _ _ at_stop
  obtain ⟨g, rest, hg, hr, at_l, b₁, b₂, le⟩ :=
    (next_step _).stops live opened (by rw [← next]; exact halts)
  rw [← next] at at_l b₁ b₂ le
  have at_s := live.valid.utf8Len_consumed hc
  refine ⟨pre, stop, post, whole, clean, halts, ⟨consumed ++ g, rest, ?_, ht.gap_append hg, ?_⟩,
    ?_, b₁, b₂, le, ends⟩
  · rw [List.append_assoc, ← hr, hc]
  · rcases at_l with done | at_l
    · exact .inl done
    · exact .inr (by rw [String.utf8Len_append, at_s, at_l])
  · exact Lexeme.scan_spells_before whole clean

/-- In `x $` the scan stops at the `$`, and the name before it tiles the text up to there. -/
theorem Lexeme.scan_tiles_before_fault :
    ∃ covered rest, covered ++ rest = "x $".toList ∧
      Lexeme.Tiles 0 covered [⟨.name "x", ⟨0, 1⟩⟩] ∧ (rest = [] ∨ utf8Len covered = 2) := by
  obtain ⟨pre, stop, post, split, clean, halts, ⟨covered, rest, read, tiles, ends⟩, -⟩ :=
    Lexeme.scan_tiles "x $" (by decide)
  have scanned : (Lexeme.scan "x $").toList =
      [⟨.name "x", ⟨0, 1⟩⟩, ⟨.invalid (.unexpectedChar '$'), ⟨2, 3⟩⟩, ⟨.eof, ⟨3, 3⟩⟩] := by
    decide +kernel
  rw [scanned] at split
  rcases pre with _ | ⟨a, _ | ⟨b, pre⟩⟩ <;>
    simp only [List.nil_append, List.cons_append, List.cons.injEq] at split
  · obtain ⟨rfl, -⟩ := split
    simp [Token.fault?] at halts
  · obtain ⟨rfl, rfl, -⟩ := split
    exact ⟨covered, rest, read, tiles, ends⟩
  · obtain ⟨rfl, rfl, -⟩ := split
    have faulted := (clean _ (List.mem_cons_of_mem _ List.mem_cons_self)).1
    simp [Token.fault?] at faulted

/-- Past a lexical fault the source is not tiled: in `$ y` the scan stops at the `$`, and the
`y` at byte 2, no blank, comment or continuation, lies in no lexeme's span. -/
theorem Lexeme.scan_leaves_text_after_fault :
    (Lexeme.scan "$ y").toList = [⟨.invalid (.unexpectedChar '$'), ⟨0, 1⟩⟩, ⟨.eof, ⟨3, 3⟩⟩] ∧
      "$ y".toList[2]? = some 'y' ∧
      ∀ l ∈ (Lexeme.scan "$ y").toList, ¬ (l.span.start ≤ 2 ∧ 2 < l.span.stop) := by
  decide +kernel

end PyTune
