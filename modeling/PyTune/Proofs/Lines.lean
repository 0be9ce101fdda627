import Mathlib
import PyTune.Edit.Comments

/-!
# Texts as lines

A text is the list of its lines (`Text.lines`). `LinesAdded nl` keeps every line, in order, and
puts whole lines ending in `nl` among them; `InsertsLines` is the same while a text is still
being built.
-/

namespace PyTune

namespace Text

/-- The lines of a text, each with the line feed that ends it; the last may have none. -/
def lines : List Char → List (List Char)
  | [] => []
  | c :: cs =>
    if c = '\n' then [c] :: lines cs
    else
      match lines cs with
      | [] => [[c]]
      | l :: ls => (c :: l) :: ls

/-- What follows the last line feed of a text: its unfinished last line. -/
def lastLine (cs : List Char) : List Char :=
  (cs.reverse.takeWhile (· != '\n')).reverse

/-- A text that stops where a line ends: it is empty or its last character is a line feed. -/
def Ended (cs : List Char) : Prop :=
  cs = [] ∨ cs.getLast? = some '\n'

instance : DecidablePred Ended := fun cs => inferInstanceAs (Decidable (cs = [] ∨ _))

/-- A line ending: a line feed, or a carriage return and a line feed. -/
def IsEnding (nl : List Char) : Prop :=
  nl = ['\n'] ∨ nl = ['\r', '\n']

/-- A line that an edit adds: text with no line feed and no carriage return last, then `nl`. -/
def Added (nl l : List Char) : Prop :=
  ∃ c, l = c ++ nl ∧ '\n' ∉ c ∧ c.getLast? ≠ some '\r'

/-- `ms` is `ls` with added lines put anywhere among them; a last line without a line feed may
gain `nl`. -/
inductive LinesAdded (nl : List Char) : List (List Char) → List (List Char) → Prop
  | nil : LinesAdded nl [] []
  | keep (l : List Char) {ls ms : List (List Char)} :
      LinesAdded nl ls ms → LinesAdded nl (l :: ls) (l :: ms)
  | add {l : List Char} {ls ms : List (List Char)} :
      Added nl l → LinesAdded nl ls ms → LinesAdded nl ls (l :: ms)
  | close {l : List Char} {ms : List (List Char)} :
      '\n' ∉ l → LinesAdded nl [] ms → LinesAdded nl [l] ((l ++ nl) :: ms)

/-- `out` is `text` with whole lines ending in `nl` added. -/
def AddsLines (nl text out : List Char) : Prop :=
  LinesAdded nl (lines text) (lines out)

/-- A text whose line ending an added line cannot change: it has a line feed, or it does not end
with a carriage return that a line feed after it would join. -/
def EndingFixed (cs : List Char) : Prop :=
  '\n' ∈ cs ∨ cs.getLast? ≠ some '\r'

/-! ### Lines -/

@[simp] theorem lines_nil : lines [] = [] := rfl

theorem lines_newline (cs : List Char) : lines ('\n' :: cs) = ['\n'] :: lines cs := by
  simp [lines]

theorem lines_cons_of_ne {c : Char} (hc : c ≠ '\n') {cs l : List Char} {ls : List (List Char)}
    (h : lines cs = l :: ls) : lines (c :: cs) = (c :: l) :: ls := by
  simp [lines, hc, h]

theorem lines_eq_nil {cs : List Char} : lines cs = [] ↔ cs = [] := by
  constructor
  · intro h
    cases cs with
    | nil => rfl
    | cons c cs =>
      unfold lines at h
      split at h
      · cases h
      · split at h <;> cases h
  · rintro rfl
    rfl

theorem exists_lines_cons {cs : List Char} (h : cs ≠ []) : ∃ l ls, lines cs = l :: ls :=
  List.exists_cons_of_ne_nil fun e => h (lines_eq_nil.1 e)

@[simp] theorem flatten_lines : ∀ cs : List Char, (lines cs).flatten = cs
  | [] => rfl
  | c :: cs => by
    have ih := flatten_lines cs
    by_cases hc : c = '\n'
    · subst hc
      simp [lines_newline, ih]
    · rcases eq_or_ne cs [] with rfl | hne
      · simp [lines, hc]
      · obtain ⟨l, ls, hl⟩ := exists_lines_cons hne
        rw [lines_cons_of_ne hc hl]
        rw [hl] at ih
        simpa using ih

/-- Lines are cut after each line feed, so a text that ends a line splits off what follows. -/
theorem lines_append {a : List Char} (ha : Ended a) (b : List Char) :
    lines (a ++ b) = lines a ++ lines b := by
  induction a with
  | nil => rfl
  | cons c a ih =>
    rcases ha with ha | ha
    · cases ha
    rcases eq_or_ne a [] with rfl | hne
    · obtain rfl : c = '\n' := by simpa using ha
      simp [lines_newline]
    · have ih := ih (.inr (by rwa [List.getLast?_cons_of_ne_nil hne] at ha))
      by_cases hc : c = '\n'
      · subst hc
        simp [lines_newline, ih]
      · obtain ⟨l, ls, hl⟩ := exists_lines_cons hne
        rw [List.cons_append, lines_cons_of_ne hc hl,
          lines_cons_of_ne hc (by rw [ih, hl, List.cons_append])]
        rfl

theorem lines_of_not_mem {cs : List Char} (h : '\n' ∉ cs) (hne : cs ≠ []) : lines cs = [cs] := by
  induction cs with
  | nil => exact absurd rfl hne
  | cons c cs ih =>
    have hc : c ≠ '\n' := fun e => h (e ▸ List.mem_cons_self)
    rcases eq_or_ne cs [] with rfl | hne'
    · simp [lines, hc]
    · exact lines_cons_of_ne hc (ih (fun m => h (List.mem_cons_of_mem _ m)) hne')

theorem lines_line {c : List Char} (hc : '\n' ∉ c) : lines (c ++ ['\n']) = [c ++ ['\n']] := by
  induction c with
  | nil => rfl
  | cons x c ih =>
    have hx : x ≠ '\n' := fun e => hc (e ▸ List.mem_cons_self)
    exact lines_cons_of_ne hx (ih fun m => hc (List.mem_cons_of_mem _ m))

/-- In a text with a line feed, the first line has one: lines are cut only after line feeds. -/
theorem newline_mem_head {cs l : List Char} {ls : List (List Char)} (h : lines cs = l :: ls)
    (hn : '\n' ∈ cs) : '\n' ∈ l := by
  induction cs generalizing l ls with
  | nil => cases h
  | cons c cs ih =>
    by_cases hc : c = '\n'
    · subst hc
      rw [lines_newline] at h
      cases h
      exact List.mem_cons_self
    · have hn' : '\n' ∈ cs := by
        rcases List.mem_cons.1 hn with e | m
        · exact absurd e.symm hc
        · exact m
      obtain ⟨l', ls', hl⟩ := exists_lines_cons (List.ne_nil_of_mem hn')
      rw [lines_cons_of_ne hc hl] at h
      cases h
      exact List.mem_cons_of_mem _ (ih hl hn')

/-- Every line of a text that ends a line has its line feed. -/
theorem newline_mem_lines {cs : List Char} (h : Ended cs) : ∀ l ∈ lines cs, '\n' ∈ l := by
  induction cs with
  | nil => exact fun _ m => absurd m List.not_mem_nil
  | cons c cs ih =>
    rcases h with h | h
    · cases h
    rcases eq_or_ne cs [] with rfl | hne
    · obtain rfl : c = '\n' := by simpa using h
      simp [lines]
    · have ih := ih (.inr (by rwa [List.getLast?_cons_of_ne_nil hne] at h))
      by_cases hc : c = '\n'
      · subst hc
        simp only [lines_newline, List.mem_cons]
        rintro l (rfl | m)
        · exact List.mem_cons_self
        · exact ih l m
      · obtain ⟨l', ls', hl⟩ := exists_lines_cons hne
        rw [lines_cons_of_ne hc hl]
        rw [hl] at ih
        rintro l (_ | ⟨_, m⟩)
        · exact List.mem_cons_of_mem _ (ih l' List.mem_cons_self)
        · exact ih l (List.mem_cons_of_mem _ m)

/-! ### Unfinished lines -/

theorem newline_not_mem_lastLine (cs : List Char) : '\n' ∉ lastLine cs := by
  intro m
  have := List.mem_takeWhile_imp (List.mem_reverse.1 m)
  simp at this

theorem ended_append_lastLine (cs : List Char) :
    ∃ pre, cs = pre ++ lastLine cs ∧ Ended pre := by
  refine ⟨(cs.reverse.dropWhile (· != '\n')).reverse, ?_, ?_⟩
  · rw [lastLine, ← List.reverse_append, List.takeWhile_append_dropWhile, List.reverse_reverse]
  · unfold Ended
    cases hd : cs.reverse.dropWhile (· != '\n') with
    | nil => exact .inl rfl
    | cons d ds =>
      have stop := List.head?_dropWhile_not (· != '\n') cs.reverse
      rw [hd] at stop
      simp only [List.head?_cons, bne_eq_false_iff_eq] at stop
      exact .inr (by simp [stop])

/-- The unfinished line of a text is what follows its last line end. -/
theorem lastLine_append {pre h : List Char} (hp : Ended pre) (hh : '\n' ∉ h) :
    lastLine (pre ++ h) = h := by
  have inside : ∀ c ∈ h.reverse, (c != '\n') = true := by
    intro c m
    have : c ≠ '\n' := fun e => hh (e ▸ List.mem_reverse.1 m)
    simpa using this
  have stop : (pre.reverse).takeWhile (· != '\n') = [] := by
    rcases hp with rfl | hp
    · rfl
    · obtain ⟨pre', rfl⟩ : ∃ pre', pre = pre' ++ ['\n'] := by
        exact ⟨pre.dropLast, (List.dropLast_append_getLast? '\n' hp).symm⟩
      simp
  rw [lastLine, List.reverse_append, List.takeWhile_append_of_pos inside, stop, List.append_nil,
    List.reverse_reverse]

theorem Ended.append {a b : List Char} (ha : Ended a) (hb : Ended b) : Ended (a ++ b) := by
  rcases hb with rfl | hb
  · simpa using ha
  · exact .inr (by rw [List.getLast?_append, hb]; rfl)

theorem lastLine_of_ended {cs : List Char} (h : Ended cs) : lastLine cs = [] := by
  simpa using lastLine_append h (List.not_mem_nil (a := '\n'))

/-! ### Line endings and added lines -/

theorem IsEnding.split {nl : List Char} (h : IsEnding nl) :
    ∃ r, nl = r ++ ['\n'] ∧ '\n' ∉ r ∧ (r = [] ∨ r = ['\r']) := by
  rcases h with rfl | rfl
  · exact ⟨[], rfl, List.not_mem_nil, .inl rfl⟩
  · exact ⟨['\r'], rfl, by decide, .inr rfl⟩

theorem IsEnding.newline_mem {nl : List Char} (h : IsEnding nl) : '\n' ∈ nl := by
  rcases h with rfl | rfl <;> decide

theorem Added.split {nl l : List Char} (hnl : IsEnding nl) (h : Added nl l) :
    ∃ c, l = c ++ ['\n'] ∧ '\n' ∉ c := by
  obtain ⟨c, rfl, hc, -⟩ := h
  obtain ⟨r, rfl, hr, -⟩ := hnl.split
  refine ⟨c ++ r, by simp, ?_⟩
  simpa using And.intro hc hr

theorem Added.lines {nl l : List Char} (hnl : IsEnding nl) (h : Added nl l) : lines l = [l] := by
  obtain ⟨c, rfl, hc⟩ := h.split hnl
  exact lines_line hc

theorem Added.ended {nl l : List Char} (hnl : IsEnding nl) (h : Added nl l) : Ended l := by
  obtain ⟨c, rfl, -⟩ := h.split hnl
  exact .inr (by simp)

theorem Added.newline_mem {nl l : List Char} (hnl : IsEnding nl) (h : Added nl l) : '\n' ∈ l := by
  obtain ⟨c, rfl, -⟩ := h.split hnl
  simp

theorem ended_flatten {nl : List Char} (hnl : IsEnding nl) :
    ∀ {ws : List (List Char)}, (∀ w ∈ ws, Added nl w) → Ended ws.flatten
  | [], _ => .inl rfl
  | w :: ws, hw => by
    rcases ended_flatten hnl (fun w' m => hw w' (List.mem_cons_of_mem _ m)) with he | he
    · rw [List.flatten_cons, he, List.append_nil]
      exact (hw w List.mem_cons_self).ended hnl
    · exact .inr (by rw [List.flatten_cons, List.getLast?_append, he]; rfl)

/-- Whole added lines, written one after another, read back as those lines. -/
theorem lines_flatten {nl : List Char} (hnl : IsEnding nl) :
    ∀ {ws : List (List Char)}, (∀ w ∈ ws, Added nl w) → lines ws.flatten = ws
  | [], _ => rfl
  | w :: ws, hw => by
    have head := hw w List.mem_cons_self
    rw [List.flatten_cons, lines_append (head.ended hnl), head.lines hnl,
      lines_flatten hnl (fun w' m => hw w' (List.mem_cons_of_mem _ m))]
    rfl

/-! ### Adding lines -/

namespace LinesAdded

variable {nl : List Char}

theorem refl : ∀ ls : List (List Char), LinesAdded nl ls ls
  | [] => .nil
  | l :: ls => .keep l (refl ls)

theorem nil_left {ms : List (List Char)} (hw : ∀ w ∈ ms, Added nl w) : LinesAdded nl [] ms := by
  induction ms with
  | nil => exact .nil
  | cons w ms ih =>
    exact .add (hw w List.mem_cons_self) (ih fun w' m => hw w' (List.mem_cons_of_mem _ m))

/-- Added lines may go first. -/
theorem prepend {ls ms ws : List (List Char)} (hw : ∀ w ∈ ws, Added nl w)
    (h : LinesAdded nl ls ms) : LinesAdded nl ls (ws ++ ms) := by
  induction ws with
  | nil => exact h
  | cons w ws ih =>
    exact .add (hw w List.mem_cons_self) (ih fun w' m => hw w' (List.mem_cons_of_mem _ m))

/-- Added lines may go last. -/
theorem append_added {ls ms ws : List (List Char)} (h : LinesAdded nl ls ms)
    (hw : ∀ w ∈ ws, Added nl w) : LinesAdded nl ls (ms ++ ws) := by
  induction h with
  | nil => exact nil_left hw
  | keep l _ ih => exact .keep l ih
  | add ha _ ih => exact .add ha ih
  | close hl _ ih => exact .close hl ih

/-- Two stretches of lines, each with lines added, one after the other; the first has a line
feed on every line, so it was not closed. -/
theorem append {ls ms ls' ms' : List (List Char)} (h : LinesAdded nl ls ms)
    (hl : ∀ l ∈ ls, '\n' ∈ l) (h' : LinesAdded nl ls' ms') :
    LinesAdded nl (ls ++ ls') (ms ++ ms') := by
  induction h with
  | nil => exact h'
  | keep l _ ih => exact .keep l (ih fun l' m => hl l' (List.mem_cons_of_mem _ m))
  | add ha _ ih => exact .add ha (ih hl)
  | close hn _ _ => exact absurd (hl _ List.mem_cons_self) hn

/-- Adding lines twice adds lines. -/
theorem trans (hnl : IsEnding nl) {ls ms ns : List (List Char)} (h₁ : LinesAdded nl ls ms)
    (h₂ : LinesAdded nl ms ns) : LinesAdded nl ls ns := by
  induction h₂ generalizing ls with
  | nil => cases h₁; exact .nil
  | keep l _ ih =>
    cases h₁ with
    | keep _ h₁ => exact .keep l (ih h₁)
    | add ha h₁ => exact .add ha (ih h₁)
    | close hn h₁ => exact .close hn (ih h₁)
  | add ha _ ih => exact .add ha (ih h₁)
  | close hn h₂ ih =>
    cases h₁ with
    | keep _ h₁ =>
      cases h₁
      exact .close hn h₂
    | add ha _ => exact absurd (ha.newline_mem hnl) hn
    | close hn' _ => exact absurd (List.mem_append_right _ hnl.newline_mem) hn

end LinesAdded

/-! ### Inserting whole lines into a text being written -/

/-- `out` is `text` with whole lines put in where lines of `text` start: both end with the same
unfinished line, after parts that end lines. -/
def InsertsLines (nl text out : List Char) : Prop :=
  ∃ pre out₀ h, text = pre ++ h ∧ out = out₀ ++ h ∧ Ended pre ∧ Ended out₀ ∧ '\n' ∉ h ∧
    LinesAdded nl (lines pre) (lines out₀)

namespace InsertsLines

variable {nl text out : List Char}

theorem refl (text : List Char) : InsertsLines nl text text := by
  obtain ⟨pre, eq, hp⟩ := ended_append_lastLine text
  exact ⟨pre, pre, _, eq, eq, hp, hp, newline_not_mem_lastLine text, .refl _⟩

/-- The unfinished line that both texts end with is the last line of `text`. -/
theorem eq_lastLine (h : InsertsLines nl text out) :
    ∃ pre out₀, text = pre ++ lastLine text ∧ out = out₀ ++ lastLine text ∧ Ended pre ∧
      Ended out₀ ∧ LinesAdded nl (lines pre) (lines out₀) := by
  obtain ⟨pre, out₀, h, rfl, rfl, hp, ho, hh, hl⟩ := h
  rw [lastLine_append hp hh]
  exact ⟨pre, out₀, rfl, rfl, hp, ho, hl⟩

/-- Copying on: the same text goes after both. -/
theorem append (h : InsertsLines nl text out) (seg : List Char) :
    InsertsLines nl (text ++ seg) (out ++ seg) := by
  obtain ⟨pre, out₀, h, rfl, rfl, hp, ho, hh, hl⟩ := h
  obtain ⟨mid, eq, hm⟩ := ended_append_lastLine (h ++ seg)
  refine ⟨pre ++ mid, out₀ ++ mid, lastLine (h ++ seg), ?_, ?_, ?_, ?_,
    newline_not_mem_lastLine _, ?_⟩
  · rw [List.append_assoc, List.append_assoc, ← eq]
  · rw [List.append_assoc, List.append_assoc, ← eq]
  · exact hp.append hm
  · exact ho.append hm
  · rw [lines_append hp, lines_append ho]
    exact hl.append (newline_mem_lines hp) (.refl _)

/-- Whole lines written where a line of `text` starts. -/
theorem write_lines (h : InsertsLines nl text out) (hend : lastLine text = [])
    (hnl : IsEnding nl) {ws : List (List Char)} (hw : ∀ w ∈ ws, Added nl w) :
    InsertsLines nl text (out ++ ws.flatten) := by
  obtain ⟨pre, out₀, htext, rfl, hp, ho, hl⟩ := h.eq_lastLine
  rw [hend, List.append_nil] at htext ⊢
  refine ⟨pre, out₀ ++ ws.flatten, [], by simpa using htext, by simp, hp,
    ho.append (ended_flatten hnl hw), List.not_mem_nil, ?_⟩
  rw [lines_append ho, lines_flatten hnl hw]
  exact hl.append_added hw

/-- One added line written inside a line of `text`, just after its unfinished part `h`: the
line is `h`, the text `d` and `nl`, and `h` is written again after it. -/
theorem write_line (h : InsertsLines nl text out) (hnl : IsEnding nl) {d : List Char}
    (hd : '\n' ∉ d) (hr : d.getLast? ≠ some '\r') (hne : d ≠ []) :
    InsertsLines nl text (out ++ (d ++ nl ++ lastLine text)) := by
  obtain ⟨pre, out₀, htext, rfl, hp, ho, hl⟩ := h.eq_lastLine
  have added : Added nl (lastLine text ++ d ++ nl) := by
    refine ⟨lastLine text ++ d, rfl, ?_, ?_⟩
    · simpa using And.intro (newline_not_mem_lastLine text) hd
    · rwa [List.getLast?_append_of_ne_nil _ hne]
  refine ⟨pre, out₀ ++ (lastLine text ++ d ++ nl), lastLine text, htext, by simp, hp,
    ho.append (added.ended hnl), newline_not_mem_lastLine text, ?_⟩
  rw [lines_append ho, added.lines hnl]
  exact hl.append_added (by simpa using added)

/-- A finished text with lines inserted has lines added. -/
theorem addsLines (h : InsertsLines nl text out) : AddsLines nl text out := by
  obtain ⟨pre, out₀, h, rfl, rfl, hp, ho, -, hl⟩ := h
  unfold AddsLines
  rw [lines_append hp, lines_append ho]
  exact hl.append (newline_mem_lines hp) (.refl _)

end InsertsLines

/-- A last line ended by `nl` if it was unfinished, then whole added lines. -/
theorem addsLines_ending {nl text : List Char} (hnl : IsEnding nl) {ws : List (List Char)}
    (hw : ∀ w ∈ ws, Added nl w) :
    AddsLines nl text (text ++ (if Ended text then [] else nl) ++ ws.flatten) := by
  by_cases he : Ended text
  · rw [if_pos he, List.append_nil]
    exact ((InsertsLines.refl text).write_lines (lastLine_of_ended he) hnl hw).addsLines
  · rw [if_neg he]
    obtain ⟨pre, eq, hp⟩ := ended_append_lastLine text
    have hne : lastLine text ≠ [] := by
      intro e
      rw [e, List.append_nil] at eq
      exact he (eq ▸ hp)
    unfold AddsLines
    rw [eq, List.append_assoc, List.append_assoc, lines_append hp, lines_append hp,
      lines_of_not_mem (newline_not_mem_lastLine text) hne]
    obtain ⟨r, hr, hrn, -⟩ := hnl.split
    have line : lines (lastLine text ++ nl) = [lastLine text ++ nl] := by
      rw [hr, ← List.append_assoc]
      exact lines_line (by simpa using And.intro (newline_not_mem_lastLine text) hrn)
    have closed : lines (lastLine text ++ (nl ++ ws.flatten)) = (lastLine text ++ nl) :: ws := by
      rw [← List.append_assoc, lines_append (.inr (by simp [hr])), line, lines_flatten hnl hw]
      rfl
    rw [closed]
    exact (LinesAdded.refl _).append (newline_mem_lines hp)
      (.close (newline_not_mem_lastLine text) (.nil_left hw))

theorem exists_first_newline : ∀ {cs : List Char}, '\n' ∈ cs → ∃ a b, cs = a ++ '\n' :: b ∧ '\n' ∉ a
  | [], h => absurd h List.not_mem_nil
  | c :: cs, h => by
    by_cases hc : c = '\n'
    · exact ⟨[], cs, by rw [hc]; rfl, List.not_mem_nil⟩
    · have m : '\n' ∈ cs := (List.mem_cons.1 h).resolve_left fun e => hc e.symm
      obtain ⟨a, b, rfl, ha⟩ := exists_first_newline m
      refine ⟨c :: a, b, rfl, ?_⟩
      simp only [List.mem_cons, not_or]
      exact ⟨fun e => hc e.symm, ha⟩

theorem lines_split {a : List Char} (ha : '\n' ∉ a) (b : List Char) :
    lines (a ++ '\n' :: b) = (a ++ ['\n']) :: lines b := by
  rw [show a ++ '\n' :: b = (a ++ ['\n']) ++ b by simp, lines_append (.inr (by simp)),
    lines_line ha]
  rfl

/-- Whole lines written where a line starts. -/
theorem addsLines_insert {nl p q : List Char} (hnl : IsEnding nl) (hp : Ended p)
    {ws : List (List Char)} (hw : ∀ w ∈ ws, Added nl w) :
    AddsLines nl (p ++ q) (p ++ ws.flatten ++ q) :=
  (((InsertsLines.refl p).write_lines (lastLine_of_ended hp) hnl hw).append q).addsLines

theorem AddsLines.trans {nl a b c : List Char} (hnl : IsEnding nl) (h₁ : AddsLines nl a b)
    (h₂ : AddsLines nl b c) : AddsLines nl a c :=
  LinesAdded.trans hnl h₁ h₂

end Text

/-! ### The line ending of a text -/

namespace Source

open Text

theorem lineEnding_isEnding (s : String) : IsEnding (lineEnding s).toList := by
  unfold lineEnding
  split
  split
  · exact .inr rfl
  · exact .inl rfl

theorem lineEnding_of_not_mem {s : String} (h : '\n' ∉ s.toList) : lineEnding s = "\n" := by
  have all : s.toList.dropWhile (fun c => decide (c ≠ '\n')) = [] :=
    List.dropWhile_eq_nil_iff.2 fun c m => decide_eq_true fun e => h (e ▸ m)
  unfold lineEnding
  rw [List.span_eq_takeWhile_dropWhile, all]
  rfl

theorem lineEnding_split {s : String} {a b : List Char} (h : s.toList = a ++ '\n' :: b)
    (ha : '\n' ∉ a) : lineEnding s = if a.getLast? = some '\r' then "\r\n" else "\n" := by
  have inside : ∀ c ∈ a, decide (c ≠ '\n') = true :=
    fun c m => decide_eq_true fun e => ha (e ▸ m)
  unfold lineEnding
  rw [List.span_eq_takeWhile_dropWhile, h, List.takeWhile_append_of_pos inside,
    List.dropWhile_append_of_pos inside]
  simp

/-- The line ending of a text is read off its first line. -/
theorem lineEnding_eq_head {s : String} {l : List Char} {ls : List (List Char)}
    (h : lines s.toList = l :: ls) : lineEnding s = lineEnding (String.ofList l) := by
  by_cases hn : '\n' ∈ s.toList
  · obtain ⟨a, b, eq, ha⟩ := exists_first_newline hn
    rw [eq, lines_split ha] at h
    obtain ⟨rfl, -⟩ := List.cons.inj h
    rw [lineEnding_split eq ha,
      lineEnding_split (show (String.ofList (a ++ ['\n'])).toList = a ++ '\n' :: [] by simp) ha]
  · have hne : s.toList ≠ [] := fun e => by rw [e] at h; cases h
    rw [lines_of_not_mem hn hne] at h
    obtain ⟨rfl, -⟩ := List.cons.inj h
    rw [String.ofList_toList]

/-- An added line ends with its line ending. -/
theorem lineEnding_added {nl l : List Char} (hnl : IsEnding nl) (h : Added nl l) :
    (lineEnding (String.ofList l)).toList = nl := by
  obtain ⟨c, rfl, hc, hr⟩ := h
  rcases hnl with rfl | rfl
  · rw [lineEnding_split (show (String.ofList (c ++ ['\n'])).toList = c ++ '\n' :: [] by simp) hc,
      if_neg hr]
    rfl
  · have hc' : '\n' ∉ c ++ ['\r'] := by simpa using hc
    rw [lineEnding_split (show (String.ofList (c ++ ['\r', '\n'])).toList =
      (c ++ ['\r']) ++ '\n' :: [] by simp) hc', if_pos (by simp)]
    rfl

/-- Adding lines keeps the line ending, unless the text ends with a carriage return and has no
line feed: a line feed written after that return would make the first line end with both. -/
theorem lineEnding_addsLines {a b : String} {nl : List Char} (hnl : IsEnding nl)
    (he : (lineEnding a).toList = nl) (fixed : EndingFixed a.toList)
    (h : AddsLines nl a.toList b.toList) : lineEnding b = lineEnding a := by
  unfold AddsLines at h
  generalize ha : lines a.toList = la at h
  generalize hb : lines b.toList = lb at h
  cases h with
  | nil =>
    rw [lines_eq_nil, String.toList_eq_nil_iff] at ha hb
    rw [ha, hb]
  | keep l _ => rw [lineEnding_eq_head ha, lineEnding_eq_head hb]
  | add hl _ =>
    rw [lineEnding_eq_head hb]
    apply String.toList_injective
    rw [lineEnding_added hnl hl, he]
  | close hn _ =>
    have text := flatten_lines a.toList
    rw [ha, List.flatten_singleton] at text
    subst text
    have lf : lineEnding a = "\n" := lineEnding_of_not_mem hn
    rw [lf] at he
    subst he
    have hr : a.toList.getLast? ≠ some '\r' := fixed.resolve_left hn
    rw [lineEnding_eq_head hb, lf,
      lineEnding_split (show (String.ofList (a.toList ++ "\n".toList)).toList =
        a.toList ++ '\n' :: [] by simp) hn, if_neg hr]

end Source

/-! ### Comment lines and notes -/

namespace Text

open Source

theorem endsWith_newline_iff (s : String) :
    s.endsWith "\n" = true ↔ s.toList.getLast? = some '\n' := by
  rw [String.endsWith_eq_endsWith_toSlice, String.Slice.endsWith_string_iff]
  simpa using List.singleton_suffix_iff_getLast?_eq_some

/-- The test for a separating line ending: the text is not empty and does not end a line. -/
theorem unended_iff (s : String) : (!s.isEmpty && !s.endsWith "\n") = true ↔ ¬ Ended s.toList := by
  rw [Ended, not_or, String.toList_eq_nil_iff, ← endsWith_newline_iff]
  simp

theorem added_comments {nl : List Char} {comments : List String}
    (hc : ∀ l ∈ comments, '\n' ∉ l.toList ∧ l.toList.getLast? ≠ some '\r') :
    ∀ w ∈ comments.map (fun l => l.toList ++ nl), Added nl w := by
  simp only [List.mem_map]
  rintro w ⟨l, m, rfl⟩
  exact ⟨l.toList, rfl, (hc l m).1, (hc l m).2⟩

/-- Comment lines go in as whole lines: at the top, or after a first line that starts with `#!`,
which gains a line ending if it was the whole text. -/
theorem prependComments_addsLines (text : String) (comments : List String)
    (hc : ∀ l ∈ comments, '\n' ∉ l.toList ∧ l.toList.getLast? ≠ some '\r') :
    AddsLines (lineEnding text).toList text.toList (prependComments text comments).toList := by
  have hnl := lineEnding_isEnding text
  have added : ∀ w ∈ comments.map (fun l => l.toList ++ (lineEnding text).toList),
      Added (lineEnding text).toList w := added_comments hc
  have join : (String.join (comments.map (· ++ lineEnding text))).toList =
      (comments.map (fun l => l.toList ++ (lineEnding text).toList)).flatten := by
    simp [String.toList_join, List.flatMap, Function.comp_def]
  unfold prependComments
  dsimp only
  split
  · next hs =>
    have whole : text.toList.takeWhile (· != '\n') ++ text.toList.dropWhile (· != '\n') =
        text.toList := List.takeWhile_append_dropWhile
    have inside : '\n' ∉ text.toList.takeWhile (· != '\n') :=
      fun m => by simpa using List.mem_takeWhile_imp m
    have stop := List.head?_dropWhile_not (· != '\n') text.toList
    rw [List.span_eq_takeWhile_dropWhile]
    dsimp only
    generalize text.toList.takeWhile (· != '\n') = first at whole inside ⊢
    generalize text.toList.dropWhile (· != '\n') = after at whole stop ⊢
    cases after with
    | nil =>
      rw [List.append_nil] at whole
      have unended : ¬ Ended text.toList := by
        rintro (e | e)
        · rw [String.startsWith_string_iff, e] at hs
          simp at hs
        · exact inside (whole ▸ List.mem_of_getLast? e)
      dsimp only
      rw [if_pos ((unended_iff text).2 unended)]
      have adds := @addsLines_ending _ text.toList hnl _ added
      rw [if_neg unended] at adds
      simpa [join] using adds
    | cons c more =>
      obtain rfl : c = '\n' := by simpa using stop
      have ends : (String.ofList first ++ "\n").endsWith "\n" = true :=
        (endsWith_newline_iff _).2 (by simp)
      dsimp only
      rw [if_neg (by simp [ends])]
      have adds := @addsLines_insert _ (first ++ ['\n']) more hnl (.inr (by simp)) _ added
      rw [← whole]
      simpa [join] using adds
  · simp only [String.toList_append, join]
    have adds := @addsLines_insert _ [] text.toList hnl (.inl rfl) _ added
    simpa using adds

/-- A note goes in after a blank line, at the end; an unfinished last line gains a line ending
first. -/
theorem appendNote_addsLines (text note : String) (hn : '\n' ∉ note.toList)
    (hr : note.toList.getLast? ≠ some '\r') :
    AddsLines (lineEnding text).toList text.toList (appendNote text note).toList := by
  have hnl := lineEnding_isEnding text
  have eq : (appendNote text note).toList = text.toList ++
      (if Ended text.toList then [] else (lineEnding text).toList) ++
      [(lineEnding text).toList, note.toList ++ (lineEnding text).toList].flatten := by
    unfold appendNote
    dsimp only
    by_cases he : Ended text.toList
    · rw [if_pos he, if_neg (fun e => (unended_iff text).1 e he)]
      simp
    · rw [if_neg he, if_pos ((unended_iff text).2 he)]
      simp
  rw [eq]
  refine addsLines_ending hnl ?_
  simp only [List.mem_cons, List.not_mem_nil, or_false]
  rintro w (rfl | rfl)
  · exact ⟨[], by simp, List.not_mem_nil, by simp⟩
  · exact ⟨note.toList, rfl, hn, hr⟩

end Text

end PyTune
