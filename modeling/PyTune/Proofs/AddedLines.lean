import PyTune.Proofs.Lines
import PyTune.Proofs.Printing
import PyTune.Proofs.LineColumns
import PyTune.Proofs.StatementSpans
import PyTune.Proofs.DecoratorShapes
import PyTune.Proofs.Commuting
import PyTune.Proofs.Apply

/-!
# Methods add whole lines

A chunk that goes where a line starts, or that ends the first part of a line and writes it again
(`Chunk.Whole`), keeps the lines of the source whole. Decorators and imports are such chunks
when only blanks stand before their offset, so applying a method adds whole lines
(`Method.apply_adds_lines`).
-/

namespace PyTune

open String (utf8Len)
open Text

/-! ### The part of a line before an offset -/

namespace Source

/-- The part of the line of `src` that stands before offset `o`: what follows the last line feed
before it. -/
def lineBefore (src : String) (o : Nat) : List Char :=
  lastLine (String.Pos.Raw.extract src ⟨0⟩ ⟨o⟩).toList

/-- The text before the end of a prefix of the source is that prefix. -/
theorem extract_zero {src : String} {p : List Char} (hp : p <+: src.toList) :
    String.Pos.Raw.extract src ⟨0⟩ ⟨utf8Len p⟩ = String.ofList p := by
  simpa using extract_prefixes List.nil_prefix hp

theorem lineBefore_utf8Len {src : String} {p : List Char} (hp : p <+: src.toList) :
    lineBefore src (utf8Len p) = lastLine p := by
  rw [lineBefore, extract_zero hp, String.toList_ofList]

/-- Walking back over a run of spaces and tabs that starts the text or follows a line feed
stops where the run starts. -/
theorem blankRunStart_run {src : String} {pre : List Char} (hpre : Ended pre) (h : List Char) :
    ∀ {post : List Char}, src.toList = pre ++ h ++ post → (∀ c ∈ h, c = ' ' ∨ c = '\t') →
      blankRunStart src (utf8Len pre + h.length) = utf8Len pre := by
  induction h using List.reverseRecOn with
  | nil =>
    intro post hsrc _
    rcases hpre with rfl | last
    · rfl
    · -- the line feed before the run is a byte of its own, and no blank
      obtain ⟨pre', rfl⟩ := List.getLast?_eq_some_iff.1 last
      have split : src.toList = pre' ++ '\n' :: post := by simpa using hsrc
      have byte : byteAt? src (utf8Len pre' + 0) = some 10 :=
        byteAt?_char split (show 0 < '\n'.utf8Size by decide)
      rw [Nat.add_zero] at byte
      have len : utf8Len (pre' ++ ['\n']) = utf8Len pre' + 1 := by
        simp [show '\n'.utf8Size = 1 from rfl]
      rw [List.length_nil, Nat.add_zero, len, blankRunStart.eq_2, byte]
      rfl
  | append_singleton h c ih =>
    intro post hsrc hblank
    have blank : c = ' ' ∨ c = '\t' := hblank c (by simp)
    have ascii : utf8Len (pre ++ h) = utf8Len pre + h.length := by
      have run : utf8Len h = h.length := Scanner.utf8Len_eq_length fun x m => by
        rcases hblank x (List.mem_append_left _ m) with rfl | rfl <;> rfl
      rw [String.utf8Len_append, run]
    have split : src.toList = (pre ++ h) ++ c :: post := by simpa using hsrc
    have byte : byteAt? src (utf8Len pre + h.length) = (String.utf8EncodeChar c)[0]? := by
      rw [← ascii, ← Nat.add_zero (utf8Len (pre ++ h))]
      exact byteAt?_char split (by rcases blank with rfl | rfl <;> decide)
    have walk := @ih (c :: post) (by simpa using hsrc)
      (fun x m => hblank x (List.mem_append_left _ m))
    rw [List.length_append, List.length_singleton, ← Nat.add_assoc, blankRunStart.eq_2, byte]
    rcases blank with rfl | rfl
    · exact walk
    · exact walk

/-- Where only spaces and tabs stand before an offset on its line, the indent taken from the
offset is exactly that part of the line. -/
theorem indentBefore_eq_lineBefore {src : String} {o : Nat} (ho : Boundary src o)
    (hblank : ∀ c ∈ lineBefore src o, c = ' ' ∨ c = '\t') :
    (indentBefore src o).toList = lineBefore src o := by
  obtain ⟨p, ⟨post, hpost⟩, rfl⟩ := ho
  obtain ⟨pre, split, ended⟩ := ended_append_lastLine p
  rw [lineBefore_utf8Len ⟨post, hpost⟩] at hblank ⊢
  have ascii : utf8Len (lastLine p) = (lastLine p).length :=
    Scanner.utf8Len_eq_length fun c m => by rcases hblank c m with rfl | rfl <;> rfl
  have whole : src.toList = pre ++ lastLine p ++ post := by rw [← split, hpost]
  have len : utf8Len p = utf8Len pre + (lastLine p).length := by
    conv_lhs => rw [split]
    rw [String.utf8Len_append, ascii]
  have start : blankRunStart src (utf8Len p) = utf8Len pre := by
    rw [len]
    exact blankRunStart_run ended _ whole hblank
  have starts : (utf8Len pre == 0 || byteAt? src (utf8Len pre - 1) == some 10) = true := by
    rcases ended with rfl | last
    · rfl
    · obtain ⟨pre', rfl⟩ := List.getLast?_eq_some_iff.1 last
      have at_lf : src.toList = pre' ++ '\n' :: (lastLine p ++ post) := by simpa using whole
      have byte : byteAt? src (utf8Len pre' + 0) = some 10 :=
        byteAt?_char at_lf (show 0 < '\n'.utf8Size by decide)
      have len : utf8Len (pre' ++ ['\n']) - 1 = utf8Len pre' + 0 := by
        simp [show '\n'.utf8Size = 1 from rfl]
      rw [len, byte]
      simp
  have prefixes : pre <+: p := ⟨lastLine p, split.symm⟩
  unfold indentBefore
  dsimp only
  rw [start, if_pos starts, extract_prefixes prefixes ⟨post, hpost⟩, String.toList_ofList]
  conv_lhs => rw [split]
  exact List.drop_left

end Source

/-! ### Chunks that write whole lines -/

/-- A chunk writes whole lines where it goes: where a line starts, lines that end with `nl`;
inside a line, after its first part, a text that ends that part as a line of its own with `nl`,
and then the first part again, so that the line of the source goes on after it unchanged. -/
def Chunk.Whole (nl : List Char) (src : String) (c : Chunk) : Prop :=
  (Source.lineBefore src c.offset = [] ∧
    ∃ ws : List (List Char), (∀ w ∈ ws, Added nl w) ∧ c.text.toList = ws.flatten) ∨
  ∃ d, '\n' ∉ d ∧ d.getLast? ≠ some '\r' ∧ d ≠ [] ∧
    c.text.toList = d ++ nl ++ Source.lineBefore src c.offset

theorem Rising.of_append {src : String} {lo hi : Nat} :
    ∀ {cs ds : List Chunk}, Rising src lo (cs ++ ds) hi → Rising src lo cs hi
  | [], _, h => h.le
  | _ :: _, _, ⟨hlo, hb, h⟩ => ⟨hlo, hb, Rising.of_append h⟩

/-- Copying the source from `lo` to `hi` with chunks that write whole lines inserts lines. -/
theorem InsertsLines.spliceFrom {nl : List Char} (hnl : IsEnding nl) {src : String} {hi : Nat}
    (hhi : Boundary src hi) :
    ∀ {lo : Nat} {cs : List Chunk} {out : List Char}, Boundary src lo → Rising src lo cs hi →
      (∀ c ∈ cs, c.Whole nl src) →
      InsertsLines nl (String.Pos.Raw.extract src ⟨0⟩ ⟨lo⟩).toList out →
      InsertsLines nl (String.Pos.Raw.extract src ⟨0⟩ ⟨hi⟩).toList
        (out ++ (PyTune.spliceFrom src lo cs hi).toList)
  | lo, [], out, hlo, hr, _, h => by
    have copied := h.append (String.Pos.Raw.extract src ⟨lo⟩ ⟨hi⟩).toList
    rwa [← String.toList_append, extract_append (Boundary.zero src) hlo hhi (Nat.zero_le _) hr]
      at copied
  | lo, c :: cs, out, hlo, ⟨hle, hb, hr⟩, hw, h => by
    have copied := h.append (String.Pos.Raw.extract src ⟨lo⟩ ⟨c.offset⟩).toList
    rw [← String.toList_append, extract_append (Boundary.zero src) hlo hb (Nat.zero_le _) hle]
      at copied
    have written : InsertsLines nl (String.Pos.Raw.extract src ⟨0⟩ ⟨c.offset⟩).toList
        (out ++ (String.Pos.Raw.extract src ⟨lo⟩ ⟨c.offset⟩).toList ++ c.text.toList) := by
      rcases hw c List.mem_cons_self with ⟨starts, ws, hws, text⟩ | ⟨d, hd, hcr, hne, text⟩
      · rw [text]
        exact copied.write_lines starts hnl hws
      · rw [text]
        exact copied.write_line hnl hd hcr hne
    have rest := InsertsLines.spliceFrom hnl hhi hb hr
      (fun c' m => hw c' (List.mem_cons_of_mem _ m)) written
    simpa only [PyTune.spliceFrom, String.toList_append, List.append_assoc] using rest

/-- The source with chunks that write whole lines written in has lines inserted. -/
theorem InsertsLines.splice {nl : List Char} (hnl : IsEnding nl) {src : String}
    {cs : List Chunk} (hr : Rising src 0 cs src.utf8ByteSize) (hw : ∀ c ∈ cs, c.Whole nl src) :
    InsertsLines nl src.toList (PyTune.splice src cs).toList := by
  have start : InsertsLines nl (String.Pos.Raw.extract src ⟨0⟩ ⟨0⟩).toList [] := by
    rw [extract_self]
    exact InsertsLines.refl []
  have whole : String.Pos.Raw.extract src ⟨0⟩ ⟨src.utf8ByteSize⟩ = src :=
    String.extract_zero_rawEndPos src
  have spliced := InsertsLines.spliceFrom hnl (Boundary.size src) (Boundary.zero src) hr hw start
  rwa [whole] at spliced

/-- Chunks that all go at or after offset `o` leave the source before `o` in front. -/
theorem splice_front {src : String} {cs : List Chunk} {o : Nat} (ho : Boundary src o)
    (hle : o ≤ src.utf8ByteSize) (hr : Rising src 0 cs src.utf8ByteSize)
    (after : ∀ c ∈ cs, o ≤ c.offset) :
    (String.Pos.Raw.extract src ⟨0⟩ ⟨o⟩).toList <+: (splice src cs).toList := by
  unfold splice
  cases cs with
  | nil =>
    rw [spliceFrom, ← extract_append (Boundary.zero src) ho (Boundary.size src) (Nat.zero_le _) hle,
      String.toList_append]
    exact List.prefix_append _ _
  | cons c cs =>
    obtain ⟨-, hb, -⟩ := hr
    rw [spliceFrom, ← extract_append (Boundary.zero src) ho hb (Nat.zero_le _)
      (after c List.mem_cons_self)]
    simp only [String.toList_append, List.append_assoc]
    exact List.prefix_append _ _

/-- A chunk at the end of the source is written after all of it. -/
theorem splice_append_end (src t : String) (cs : List Chunk) :
    splice src (cs ++ [⟨src.utf8ByteSize, t⟩]) = splice src cs ++ t :=
  (spliceFrom_write t cs).symm

/-! ### The lines of inserted statements -/

namespace Chunks

theorem newline_not_mem_splitLines :
    ∀ (cs cur : List Char), '\n' ∉ cur → ∀ l ∈ splitLines cs cur, '\n' ∉ l
  | [], cur, hc, l, hl => by
    rw [splitLines] at hl
    split at hl
    · cases hl
    · rw [List.mem_singleton.1 hl, List.mem_reverse]
      exact hc
  | c :: rest, cur, hc, l, hl => by
    by_cases lf : c = '\n'
    · subst lf
      have line : ∃ gathered : List Char, '\n' ∉ gathered ∧
          splitLines ('\n' :: rest) cur = gathered.reverse :: splitLines rest [] := by
        by_cases hr : ∃ before, cur = '\x0d' :: before
        · obtain ⟨before, rfl⟩ := hr
          exact ⟨before, fun m => hc (List.mem_cons_of_mem _ m), splitLines.eq_2 rest before⟩
        · exact ⟨cur, hc, splitLines.eq_3 cur rest fun before e => hr ⟨before, e⟩⟩
      obtain ⟨gathered, hg, eq⟩ := line
      rw [eq] at hl
      rcases List.mem_cons.1 hl with rfl | hl
      · rwa [List.mem_reverse]
      · exact newline_not_mem_splitLines rest [] List.not_mem_nil l hl
    · rw [splitLines.eq_4 cur c rest lf] at hl
      refine newline_not_mem_splitLines rest (c :: cur) ?_ l hl
      simp only [List.mem_cons, not_or]
      exact ⟨fun e => lf e.symm, hc⟩

theorem lines_toList (nl text : String) :
    (lines nl text).toList = ((splitLines text.toList []).map (· ++ nl.toList)).flatten := by
  simp [lines, String.toList_join, List.flatMap, Function.comp_def]

/-- The lines of a text, each with the line ending `nl`, are whole added lines when no line of
it ends with a carriage return. -/
theorem lines_added {nl text : String}
    (hcr : ∀ l ∈ splitLines text.toList [], l.getLast? ≠ some '\r') :
    ∃ ws : List (List Char), (∀ w ∈ ws, Added nl.toList w) ∧ (lines nl text).toList = ws.flatten := by
  refine ⟨(splitLines text.toList []).map (· ++ nl.toList), ?_, lines_toList nl text⟩
  intro w hw
  obtain ⟨l, hl, rfl⟩ := List.mem_map.1 hw
  exact ⟨l, rfl, newline_not_mem_splitLines _ _ List.not_mem_nil l hl, hcr l hl⟩

theorem join_lines_added {nl : String} {texts : List String}
    (hcr : ∀ t ∈ texts, ∀ l ∈ splitLines t.toList [], l.getLast? ≠ some '\r') :
    ∃ ws : List (List Char), (∀ w ∈ ws, Added nl.toList w) ∧
      (String.join (texts.map (lines nl))).toList = ws.flatten := by
  induction texts with
  | nil => exact ⟨[], by simp, rfl⟩
  | cons t ts ih =>
    obtain ⟨ws₁, hws₁, eq₁⟩ := @lines_added nl _ (hcr t List.mem_cons_self)
    obtain ⟨ws₂, hws₂, eq₂⟩ := ih fun t' m => hcr t' (List.mem_cons_of_mem _ m)
    refine ⟨ws₁ ++ ws₂, fun w hw => (List.mem_append.1 hw).elim (hws₁ w) (hws₂ w), ?_⟩
    rw [List.map_cons, String.join_cons, String.toList_append, eq₁, eq₂, List.flatten_append]

end Chunks

/-! ### The printed module -/

/-- A module printed into its source: the chunks of its front write whole lines, and the
statements appended at its end have no line that ends with a carriage return. The printed
text is the source with whole lines added, each ending with the source's line ending. -/
theorem Module.render_addsLines {m : Module} (h : Placed.top m.source 0 m.body)
    (front : ∀ c ∈ Chunks.front (Source.lineEnding m.source) m.body,
      c.Whole (Source.lineEnding m.source).toList m.source)
    (appended : ∀ t ∈ Chunks.appended m.body, ∀ l ∈ splitLines t.toList [],
      l.getLast? ≠ some '\r') :
    AddsLines (Source.lineEnding m.source).toList m.source.toList m.render.toList := by
  have hnl := Source.lineEnding_isEnding m.source
  obtain ⟨rising, eq⟩ := Module.render_splices h
  rw [eq]
  unfold Module.chunks at rising ⊢
  dsimp only at rising ⊢
  cases happ : Chunks.appended m.body with
  | nil =>
    rw [happ] at rising
    dsimp only at rising ⊢
    exact (InsertsLines.splice hnl rising front).addsLines
  | cons t ts =>
    rw [happ] at rising appended
    dsimp only at rising ⊢
    have printed := (InsertsLines.splice hnl rising.of_append front).addsLines
    obtain ⟨ws, hws, lines⟩ := Chunks.join_lines_added appended
    have ending := @addsLines_ending _
      (splice m.source (Chunks.front (Source.lineEnding m.source) m.body)).toList hnl _ hws
    refine printed.trans hnl ?_
    rw [splice_append_end, String.toList_append, Chunks.ending, String.toList_append, lines]
    by_cases he : Ended (splice m.source (Chunks.front (Source.lineEnding m.source) m.body)).toList
    · rw [if_neg (fun e => (unended_iff _).1 e he)]
      rw [if_pos he] at ending
      simpa using ending
    · rw [if_pos ((unended_iff _).2 he)]
      rw [if_neg he] at ending
      simpa using ending

/-! ### The decorator chunks of a tree -/

namespace Chunks

variable (nl : String)

/-- Decorators that all come from the source print nothing new. -/
theorem decorators_source (offset : Nat) (indent : String) :
    ∀ {ds : List Decorator}, (∀ d ∈ ds, ∃ sp, d.origin = .source sp) →
      decorators nl offset indent ds = []
  | [], _ => rfl
  | d :: ds, h => by
    obtain ⟨sp, hd⟩ := h d List.mem_cons_self
    simp only [decorators, hd]
    exact decorators_source offset indent fun d' m => h d' (List.mem_cons_of_mem _ m)

/-- A name added after decorators from the source prints one chunk, at the keyword. -/
theorem decorators_append_inserted (name : String) (offset : Nat) (indent : String) :
    ∀ {ds : List Decorator}, (∀ d ∈ ds, ∃ sp, d.origin = .source sp) →
      decorators nl offset indent (ds ++ [Decorator.inserted name]) =
        [⟨offset, "@" ++ name ++ nl ++ indent⟩]
  | [], _ => rfl
  | d :: ds, h => by
    obtain ⟨sp, hd⟩ := h d List.mem_cons_self
    simp only [List.cons_append, decorators, hd]
    exact decorators_append_inserted name offset indent fun d' m => h d' (List.mem_cons_of_mem _ m)

/-- Decorating a function whose decorators come from the source prints at most one chunk, at
its keyword. -/
theorem decorators_withDecorator (name : String) (offset : Nat) (indent : String)
    {ds : List Decorator} (h : ∀ d ∈ ds, ∃ sp, d.origin = .source sp) :
    ∀ c ∈ decorators nl offset indent (Decorate.withDecorator name ds).1,
      c = ⟨offset, "@" ++ name ++ nl ++ indent⟩ := by
  intro c hc
  rw [Decorate.withDecorator_eq] at hc
  split at hc
  · rw [decorators_source nl offset indent h] at hc
    cases hc
  · rw [decorators_append_inserted nl name offset indent h] at hc
    exact List.mem_singleton.1 hc

variable {nl}

mutual

/-- A tree whose decorators all come from the source prints no decorator. -/
theorem stmts_source : ∀ (body : List Stmt), (∀ d ∈ Decorators.stmts body, ∃ sp,
    d.origin = .source sp) → stmts nl body = []
  | [], _ => rfl
  | s :: rest, h => by
    rw [Decorators.stmts] at h
    rw [stmts, stmt_source s fun d m => h d (List.mem_append_left _ m),
      stmts_source rest fun d m => h d (List.mem_append_right _ m)]
    rfl

theorem stmt_source : ∀ (s : Stmt), (∀ d ∈ Decorators.stmt s, ∃ sp, d.origin = .source sp) →
    stmt nl s = []
  | ⟨_, .functionDef ⟨_, ds, indent, offset, body⟩⟩, h => by
    rw [Decorators.stmt] at h
    rw [stmt, decorators_source nl offset indent fun d m => h d (List.mem_append_left _ m),
      suite_source body fun d m => h d (List.mem_append_right _ m)]
    rfl
  | ⟨_, .classDef ⟨_, ds, indent, offset, body⟩⟩, h => by
    rw [Decorators.stmt] at h
    rw [stmt, decorators_source nl offset indent fun d m => h d (List.mem_append_left _ m),
      suite_source body fun d m => h d (List.mem_append_right _ m)]
    rfl
  | ⟨_, .compound cs⟩, h => by
    rw [Decorators.stmt] at h
    rw [stmt, clauses_source cs h]
  | ⟨_, .imports _⟩, _ | ⟨_, .importFrom _ _ _⟩, _ | ⟨_, .docstring⟩, _ | ⟨_, .assign _⟩, _
  | ⟨_, .simple⟩, _ => rfl

theorem clauses_source : ∀ (cs : List Clause), (∀ d ∈ Decorators.clauses cs, ∃ sp,
    d.origin = .source sp) → clauses nl cs = []
  | [], _ => rfl
  | ⟨_, _, _, body⟩ :: cs, h => by
    rw [Decorators.clauses] at h
    rw [clauses, suite_source body fun d m => h d (List.mem_append_left _ m),
      clauses_source cs fun d m => h d (List.mem_append_right _ m)]
    rfl

theorem suite_source : ∀ (body : Suite), (∀ d ∈ Decorators.suite body, ∃ sp,
    d.origin = .source sp) → suite nl body = []
  | .inline body, h => stmts_source body h
  | .block _ body, h => stmts_source body h

end

/-- Chunks that decorating with `name` prints among the functions `fs`: each at the keyword of
one of them, written after its indent. -/
def Decorating (nl name : String) (fs : List Definition) (cs : List Chunk) : Prop :=
  ∀ c ∈ cs, ∃ d ∈ fs, c = ⟨d.offset, "@" ++ name ++ nl ++ d.indent⟩

namespace Decorating

variable {nl name : String}

theorem nil (fs : List Definition) : Decorating nl name fs [] := fun _ hc => by cases hc

/-- Chunks printed for two parts of a tree, one after the other, go at the functions of the
two parts. -/
theorem append {fs gs : List Definition} {cs ds : List Chunk} (hc : Decorating nl name fs cs)
    (hd : Decorating nl name gs ds) : Decorating nl name (fs ++ gs) (cs ++ ds) := by
  intro c hc'
  rcases List.mem_append.1 hc' with m | m
  · obtain ⟨d, hd', rfl⟩ := hc c m
    exact ⟨d, List.mem_append_left _ hd', rfl⟩
  · obtain ⟨d, hd', rfl⟩ := hd c m
    exact ⟨d, List.mem_append_right _ hd', rfl⟩

end Decorating

variable (name : String)

mutual

theorem stmts_decorate : ∀ (body : List Stmt), (∀ d ∈ Decorators.stmts body, ∃ sp,
    d.origin = .source sp) →
    Decorating nl name (Functions.stmts body) (stmts nl (Decorate.stmts name body).1)
  | [], _ => Decorating.nil []
  | s :: rest, h => by
    rw [Decorators.stmts] at h
    have first := stmt_decorate s fun d m => h d (List.mem_append_left _ m)
    have others := stmts_decorate rest fun d m => h d (List.mem_append_right _ m)
    simpa only [Decorate.stmts, stmts, Functions.stmts] using first.append others

theorem stmt_decorate : ∀ (s : Stmt), (∀ d ∈ Decorators.stmt s, ∃ sp, d.origin = .source sp) →
    Decorating nl name (Functions.stmt s) (stmt nl (Decorate.stmt name s).1)
  | ⟨o, .functionDef ⟨n, ds, indent, offset, body⟩⟩, h => by
    rw [Decorators.stmt] at h
    have own : Decorating nl name [⟨n, ds, indent, offset, body⟩]
        (decorators nl offset indent (Decorate.withDecorator name ds).1) := fun c hc =>
      ⟨_, List.mem_singleton_self _, decorators_withDecorator nl name offset indent
        (fun d m => h d (List.mem_append_left _ m)) c hc⟩
    have inner := suite_decorate body fun d m => h d (List.mem_append_right _ m)
    simpa only [Decorate.stmt, stmt, Functions.stmt, List.singleton_append] using own.append inner
  | ⟨o, .classDef ⟨n, ds, indent, offset, body⟩⟩, h => by
    rw [Decorators.stmt] at h
    have inner := suite_decorate body fun d m => h d (List.mem_append_right _ m)
    simp only [Decorate.stmt, stmt, Functions.stmt]
    rw [decorators_source nl offset indent fun d m => h d (List.mem_append_left _ m)]
    exact inner
  | ⟨o, .compound cs⟩, h => by
    rw [Decorators.stmt] at h
    simpa only [Decorate.stmt, stmt, Functions.stmt] using clauses_decorate cs h
  | ⟨_, .imports _⟩, _ | ⟨_, .importFrom _ _ _⟩, _ | ⟨_, .docstring⟩, _ | ⟨_, .assign _⟩, _
  | ⟨_, .simple⟩, _ => Decorating.nil []

theorem clauses_decorate : ∀ (cs : List Clause), (∀ d ∈ Decorators.clauses cs, ∃ sp,
    d.origin = .source sp) →
    Decorating nl name (Functions.clauses cs) (clauses nl (Decorate.clauses name cs).1)
  | [], _ => Decorating.nil []
  | ⟨k, ns, ss, body⟩ :: cs, h => by
    rw [Decorators.clauses] at h
    have first := suite_decorate body fun d m => h d (List.mem_append_left _ m)
    have others := clauses_decorate cs fun d m => h d (List.mem_append_right _ m)
    simpa only [Decorate.clauses, clauses, Functions.clauses] using first.append others

theorem suite_decorate : ∀ (body : Suite), (∀ d ∈ Decorators.suite body, ∃ sp,
    d.origin = .source sp) →
    Decorating nl name (Functions.suite body) (suite nl (Decorate.suite name body).1)
  | .inline body, h => by
    simpa only [Decorate.suite, suite, Functions.suite] using stmts_decorate body h
  | .block _ body, h => by
    simpa only [Decorate.suite, suite, Functions.suite] using stmts_decorate body h

end

/-! ### The chunks of the top level -/

variable {nl : String}

theorem stmts_append : ∀ xs ys : List Stmt, stmts nl (xs ++ ys) = stmts nl xs ++ stmts nl ys
  | [], _ => rfl
  | s :: xs, ys => by rw [List.cons_append, stmts, stmts, stmts_append xs ys, List.append_assoc]

theorem front_source_append :
    ∀ {xs : List Stmt} (ys : List Stmt), (∀ s ∈ xs, ∃ sp, s.origin = .source sp) →
      front nl (xs ++ ys) = stmts nl xs ++ front nl ys
  | [], _, _ => rfl
  | s :: xs, ys, h => by
    obtain ⟨sp, hs⟩ := h s List.mem_cons_self
    simp only [List.cons_append, front, hs, stmts, List.append_assoc]
    rw [front_source_append ys fun s m => h s (List.mem_cons_of_mem _ m)]

theorem appended_source_append :
    ∀ {xs : List Stmt} (ys : List Stmt), (∀ s ∈ xs, ∃ sp, s.origin = .source sp) →
      appended (xs ++ ys) = appended ys
  | [], _, _ => rfl
  | s :: xs, ys, h => by
    obtain ⟨sp, hs⟩ := h s List.mem_cons_self
    simp only [List.cons_append, appended, hs]
    exact appended_source_append ys fun s m => h s (List.mem_cons_of_mem _ m)

/-- Top-level statements from the source print only the decorators inserted among them. -/
theorem front_source {body : List Stmt} (h : ∀ s ∈ body, ∃ sp, s.origin = .source sp) :
    front nl body = stmts nl body := by
  simpa [front] using @front_source_append nl _ [] h

theorem appended_source {body : List Stmt} (h : ∀ s ∈ body, ∃ sp, s.origin = .source sp) :
    appended body = [] := by
  simpa [appended] using appended_source_append [] h

/-- An inserted statement before statements from the source: its lines go at the start of the
first of them, or at the end if there is none. -/
theorem front_inserted {s : Stmt} {text : String} (hs : s.origin = .inserted text)
    {ys : List Stmt} (h : ∀ y ∈ ys, ∃ sp, y.origin = .source sp) :
    front nl (s :: ys) = match Printer.nextSpan? ys with
      | some sp => ⟨sp.start, lines nl text⟩ :: stmts nl ys
      | none => [] := by
  cases hn : Printer.nextSpan? ys with
  | some sp => simp [front, hs, hn, front_source h]
  | none => simp [front, hs, hn]

theorem appended_inserted {s : Stmt} {text : String} (hs : s.origin = .inserted text)
    {ys : List Stmt} (h : ∀ y ∈ ys, ∃ sp, y.origin = .source sp) :
    appended (s :: ys) = match Printer.nextSpan? ys with
      | some _ => []
      | none => [text] := by
  cases hn : Printer.nextSpan? ys with
  | some sp => simp [appended, hs, hn, appended_source h]
  | none => simp [appended, hs, hn, appended_source h]

/-- The statements that making sure of the entry point adds print nothing in front. -/
theorem front_entryPoint (stub : Bool) : front nl (EntryPoint.added stub) = [] := by
  cases stub <;> rfl

theorem appended_entryPoint (stub : Bool) :
    appended (EntryPoint.added stub) =
      (if stub then [EntryPoint.stubMain] else []) ++ [EntryPoint.guard] := by
  cases stub <;> rfl

end Chunks

/-- A step of an edit that succeeds ran the step before it to success. -/
theorem bind_eq_ok {ε α β : Type} {x : Except ε α} {f : α → Except ε β} {r : β}
    (h : (x >>= f) = .ok r) : ∃ a, x = .ok a ∧ f a = .ok r := by
  cases x with
  | error e => cases h
  | ok a => exact ⟨a, rfl, h⟩

/-! ### What reading gives -/

namespace Tape

/-- A function whose offset is where one of the lexemes of `t` starts, and whose indent is taken
from there. -/
def Heads (t : Tape) (d : Definition) : Prop :=
  (∃ k, d.offset = t.startAt k) ∧ d.indent = Source.indentBefore t.source d.offset

end Tape

/-- Statements that start where lexemes start are from the source. -/
theorem Stmt.sourced_of_starts {t : Tape} {body : List Stmt}
    (h : ∀ s ∈ body, ∃ sp k, s.origin = .source sp ∧ sp.start = t.startAt k) :
    ∀ s ∈ body, ∃ sp, s.origin = .source sp := by
  intro s hs
  obtain ⟨sp, -, ho, -⟩ := h s hs
  exact ⟨sp, ho⟩

namespace Anchored

variable {t : Tape}

theorem stmts_starts : ∀ {body : List Stmt} {i j : Nat}, Anchored.stmts t i body j →
    ∀ s ∈ body, ∃ sp k, s.origin = .source sp ∧ sp.start = t.startAt k
  | [], _, _, _ => fun s hs => by cases hs
  | s :: rest, i, j, h => by
    obtain ⟨sp, i₁, j₁, ho, -, span, -, hrest⟩ := h
    intro s' hs'
    rcases List.mem_cons.1 hs' with rfl | hs'
    · exact ⟨sp, i₁, ho, span.start⟩
    · exact stmts_starts hrest s' hs'

mutual

/-- Every function read from the tape starts where a lexeme starts and takes its indent from
there. -/
theorem stmts_heads : ∀ (body : List Stmt) {i j : Nat}, Anchored.stmts t i body j →
    ∀ d ∈ Functions.stmts body, t.Heads d
  | [], _, _, _ => fun d hd => by cases hd
  | s :: rest, i, j, h => by
    obtain ⟨sp, i₁, j₁, -, -, -, hs, hrest⟩ := h
    intro d hd
    rw [Functions.stmts] at hd
    rcases List.mem_append.1 hd with hd | hd
    · exact stmt_heads s hs d hd
    · exact stmts_heads rest hrest d hd

theorem stmt_heads : ∀ (s : Stmt) {i j : Nat}, Anchored.stmt t i s j →
    ∀ d ∈ Functions.stmt s, t.Heads d
  | ⟨_, .functionDef ⟨n, ds, indent, offset, body⟩⟩, i, j, h => by
    obtain ⟨k, -, -, ho, hi, hbody⟩ := h
    intro d hd
    rcases List.mem_cons.1 hd with rfl | hd
    · exact ⟨⟨k, ho⟩, hi⟩
    · exact suite_heads body hbody d hd
  | ⟨_, .classDef ⟨_, ds, indent, offset, body⟩⟩, i, j, h => by
    obtain ⟨k, -, -, -, -, hbody⟩ := h
    exact suite_heads body hbody
  | ⟨_, .compound cs⟩, i, j, h => clauses_heads cs h
  | ⟨_, .imports _⟩, _, _, _ | ⟨_, .importFrom _ _ _⟩, _, _, _ | ⟨_, .docstring⟩, _, _, _
  | ⟨_, .assign _⟩, _, _, _ | ⟨_, .simple⟩, _, _, _ => fun d hd => by cases hd

theorem clauses_heads : ∀ (cs : List Clause) {i j : Nat}, Anchored.clauses t i cs j →
    ∀ d ∈ Functions.clauses cs, t.Heads d
  | [], _, _, _ => fun d hd => by cases hd
  | ⟨_, _, _, body⟩ :: cs, i, j, h => by
    obtain ⟨mid, hbody, hcs⟩ := h
    intro d hd
    rw [Functions.clauses] at hd
    rcases List.mem_append.1 hd with hd | hd
    · exact suite_heads body hbody d hd
    · exact clauses_heads cs hcs d hd

theorem suite_heads : ∀ (body : Suite) {i j : Nat}, Anchored.suite t i body j →
    ∀ d ∈ Functions.suite body, t.Heads d
  | .inline body, _, _, h => stmts_heads body h
  | .block _ body, _, _, h => stmts_heads body h

end

end Anchored

theorem Module.parse_anchored {src : String} {m : Module} (h : Module.parse src = .ok m) :
    ∃ j, Anchored.stmts (Tape.ofSource src) 0 m.body j := by
  unfold Module.parse at h
  dsimp only at h
  split at h
  · next body c adv heq =>
    cases h
    have reads : (Grammar.statements _ false #[]).Reads (Tape.ofSource src) ⟨0, 0⟩ body c :=
      ⟨adv, heq⟩
    exact ⟨c.index, Grammar.statements_anchored _ false #[] (Cursor.tracks_start _) reads
      (Nat.le_refl 0)⟩
  · cases h

/-- What reading a source gives a module, as far as printing it goes: the module keeps the
source, and its pieces lie in order there; each top-level statement is from the source and
starts where a lexeme starts; each function starts where a lexeme starts and takes its indent
from there; each decorator is from the source; and no lexeme is a lexical fault. -/
structure Module.ReadFrom (src : String) (m : Module) : Prop where
  source : m.source = src
  placed : Placed.top src 0 m.body
  stmts : ∀ s ∈ m.body, ∃ sp k, s.origin = .source sp ∧ sp.start = (Tape.ofSource src).startAt k
  functions : ∀ d ∈ Functions.stmts m.body, (Tape.ofSource src).Heads d
  decorators : ∀ d ∈ m.decorators, ∃ sp, d.origin = .source sp
  noFault : ∀ l ∈ (Lexeme.scan src).toList, l.token.fault? = none

theorem Module.parse_readFrom {src : String} {m : Module} (h : Module.parse src = .ok m) :
    m.ReadFrom src := by
  obtain ⟨source, placed⟩ := Module.parse_placed h
  obtain ⟨j, anchored⟩ := Module.parse_anchored h
  refine ⟨source, placed, Anchored.stmts_starts anchored, Anchored.stmts_heads _ anchored,
    ?_, Module.parse_noFault h⟩
  intro d hd
  obtain ⟨i, j, at_d⟩ := Module.decorators_at h d hd
  obtain ⟨stop, hs⟩ := at_d.starts
  exact ⟨_, hs⟩

theorem Printer.nextSpan?_mem : ∀ {xs : List Stmt} {sp : Span}, Printer.nextSpan? xs = some sp →
    ∃ s ∈ xs, s.origin = .source sp
  | [], _, h => by cases h
  | s :: rest, sp, h => by
    cases ho : s.origin with
    | source sp' =>
      simp only [Printer.nextSpan?, ho, Option.some.injEq] at h
      exact ⟨s, List.mem_cons_self, h ▸ ho⟩
    | inserted text =>
      simp only [Printer.nextSpan?, ho] at h
      obtain ⟨s', hs', ho'⟩ := Printer.nextSpan?_mem h
      exact ⟨s', List.mem_cons_of_mem _ hs', ho'⟩

theorem Printer.nextSpan?_map {f : Stmt → Stmt} (hf : ∀ s, (f s).origin = s.origin) :
    ∀ xs : List Stmt, Printer.nextSpan? (xs.map f) = Printer.nextSpan? xs := by
  intro xs
  induction xs with
  | nil => rfl
  | cons s rest ih =>
    simp only [List.map_cons, Printer.nextSpan?, hf s]
    cases s.origin with
    | source sp => rfl
    | inserted text => exact ih

/-- The lines of a text written where a line starts are whole lines. -/
theorem Chunk.whole_lines {nl src text : String} {o : Nat} (hend : Source.lineBefore src o = [])
    (hcr : ∀ l ∈ splitLines text.toList [], l.getLast? ≠ some '\r') :
    Chunk.Whole nl.toList src ⟨o, Chunks.lines nl text⟩ := by
  obtain ⟨ws, hws, lines⟩ := @Chunks.lines_added nl _ hcr
  exact .inl ⟨hend, ws, hws, lines⟩

/-! ### Modules that print whole lines -/

/-- A module that prints whole lines into the source `src`: it keeps the source, and its pieces
lie in order there; the chunks of its front write whole lines with the source's line ending, each
where a lexeme starts; and the statements appended at its end have no line that ends with a
carriage return. -/
structure Module.WritesLines (src : String) (m : Module) : Prop where
  source : m.source = src
  placed : Placed.top src 0 m.body
  front : ∀ c ∈ Chunks.front (Source.lineEnding src) m.body,
    c.Whole (Source.lineEnding src).toList src ∧ ∃ k, c.offset = (Tape.ofSource src).startAt k
  appended : ∀ t ∈ Chunks.appended m.body, ∀ l ∈ splitLines t.toList [], l.getLast? ≠ some '\r'

theorem Module.mem_chunks {m : Module} {c : Chunk} (h : c ∈ m.chunks) :
    c ∈ Chunks.front (Source.lineEnding m.source) m.body ∨ c.offset = m.source.utf8ByteSize := by
  unfold Module.chunks at h
  dsimp only at h
  split at h
  · exact .inl h
  · rcases List.mem_append.1 h with h | h
    · exact .inl h
    · exact .inr (by rw [List.mem_singleton.1 h])

/-- No line of the stub `main` or of the guard ends with a carriage return. -/
theorem EntryPoint.lines_no_return :
    ∀ t ∈ [EntryPoint.stubMain, EntryPoint.guard], ∀ l ∈ splitLines t.toList [],
      l.getLast? ≠ some '\r' := by
  decide +kernel

namespace Module.WritesLines

variable {src : String} {m : Module}

/-- The printed text is the source with whole lines added, each ending with the source's line
ending. -/
theorem addsLines (h : m.WritesLines src) :
    AddsLines (Source.lineEnding src).toList src.toList m.render.toList := by
  obtain ⟨rfl, placed, front, appended⟩ := h
  exact Module.render_addsLines placed (fun c hc => (front c hc).1) appended

/-- When every lexeme starts at or after `o`, the printed text starts with the source up to
`o`. -/
theorem front_kept (h : m.WritesLines src) {o : Nat} (ho : Boundary src o)
    (after : ∀ k, o ≤ (Tape.ofSource src).startAt k) :
    (String.Pos.Raw.extract src ⟨0⟩ ⟨o⟩).toList <+: m.render.toList := by
  obtain ⟨rfl, placed, front, -⟩ := h
  obtain ⟨rising, eq⟩ := Module.render_splices placed
  rw [eq]
  refine splice_front ho ho.le_size rising fun c hc => ?_
  rcases Module.mem_chunks hc with hc | hc
  · obtain ⟨k, hk⟩ := (front c hc).2
    exact hk ▸ after k
  · exact hc ▸ ho.le_size

/-- Making sure of the entry point appends statements whose lines end with no carriage return,
after top-level statements that are all from the source. -/
theorem ensureEntryPoint (h : m.WritesLines src)
    (hs : ∀ s ∈ m.body, ∃ sp, s.origin = .source sp) : m.ensureEntryPoint.1.WritesLines src := by
  rw [Module.ensureEntryPoint_eq]
  split
  · exact h
  · generalize (!m.binds "main") = stub
    have inserted : ∀ s ∈ EntryPoint.added stub, ∃ text, s.origin = .inserted text ∧ text ≠ "" := by
      intro s hs
      cases stub <;> simp only [EntryPoint.added, if_true, List.singleton_append,
        Bool.false_eq_true, if_false, List.nil_append, List.mem_cons, List.not_mem_nil,
        or_false] at hs <;> rcases hs with rfl | rfl <;> exact ⟨_, rfl, by decide⟩
    have placed := Placed.top_insert inserted m.body.length m.body h.placed
    rw [List.take_length, List.drop_length, List.append_nil] at placed
    refine ⟨h.source, placed, ?_, ?_⟩
    · intro c hc
      rw [Chunks.front_source_append _ hs, Chunks.front_entryPoint, List.append_nil,
        ← Chunks.front_source hs] at hc
      exact h.front c hc
    · rw [Chunks.appended_source_append _ hs, Chunks.appended_entryPoint]
      intro t ht
      exact EntryPoint.lines_no_return t (by cases stub <;> simp_all)

/-- Making sure of an import keeps a module printing whole lines, when its top-level statements
are all from the source and start where lexemes start, and the one the import goes before
starts a line. -/
theorem ensureImport (h : m.WritesLines src)
    (hs : ∀ s ∈ m.body, ∃ sp k, s.origin = .source sp ∧ sp.start = (Tape.ofSource src).startAt k)
    (point : ∀ sp ∈ Printer.nextSpan? (m.body.drop (Import.insertionIndex m.body)),
      Source.lineBefore src sp.start = [])
    {text : String} (hcr : ∀ l ∈ splitLines (Text.trim text).toList [], l.getLast? ≠ some '\r')
    {m' : Module} {added : Bool} (he : m.ensureImport text = .ok (m', added)) :
    m'.WritesLines src := by
  have sourced := Stmt.sourced_of_starts hs
  rcases Module.ensureImport_eq_ok he with ⟨-, rfl, -⟩ | ⟨kind, hk, -, rfl⟩
  · exact h
  generalize Import.insertionIndex m.body = i at point
  have before : ∀ s ∈ m.body.take i, ∃ sp, s.origin = .source sp :=
    fun s m' => sourced s (List.mem_of_mem_take m')
  have after : ∀ s ∈ m.body.drop i, ∃ sp, s.origin = .source sp :=
    fun s m' => sourced s (List.mem_of_mem_drop m')
  -- the chunks of the statements around the import are chunks the module printed before
  have old : ∀ c, c ∈ Chunks.stmts (Source.lineEnding src) (m.body.take i) ∨
      c ∈ Chunks.stmts (Source.lineEnding src) (m.body.drop i) →
      c ∈ Chunks.front (Source.lineEnding src) m.body := by
    intro c hc
    rw [Chunks.front_source sourced, ← List.take_append_drop i m.body,
      Chunks.stmts_append]
    exact List.mem_append.2 hc
  have inserted : ∀ s ∈ [(⟨.inserted (Text.trim text), kind⟩ : Stmt)],
      ∃ t, s.origin = .inserted t ∧ t ≠ "" := by
    intro s hs
    rw [List.mem_singleton.1 hs]
    exact ⟨_, rfl, Import.ne_empty_of_kindOf hk⟩
  have placed := Placed.top_insert inserted i m.body h.placed
  rw [List.append_assoc, List.singleton_append] at placed
  refine ⟨h.source, placed, ?_, ?_⟩
  · intro c hc
    dsimp only at hc
    rw [Chunks.front_source_append _ before, Chunks.front_inserted rfl after] at hc
    rcases List.mem_append.1 hc with hc | hc
    · exact h.front c (old c (.inl hc))
    · cases hn : Printer.nextSpan? (m.body.drop i) with
      | none =>
        rw [hn] at hc
        cases hc
      | some sp =>
        rw [hn] at hc
        rcases List.mem_cons.1 hc with rfl | hc
        · -- the import's lines go at the start of the line of the statement after it
          obtain ⟨s, hs', ho⟩ := Printer.nextSpan?_mem hn
          obtain ⟨sp', k, ho', start⟩ := hs s (List.mem_of_mem_drop hs')
          have same : sp' = sp := Origin.source.inj (ho'.symm.trans ho)
          rw [same] at start
          exact ⟨Chunk.whole_lines (point sp hn) hcr, k, start⟩
        · exact h.front c (old c (.inr hc))
  · intro t ht
    dsimp only at ht
    rw [Chunks.appended_source_append _ before, Chunks.appended_inserted rfl after] at ht
    cases hn : Printer.nextSpan? (m.body.drop i) with
    | none =>
      rw [hn, List.mem_singleton] at ht
      rw [ht]
      exact hcr
    | some sp =>
      rw [hn] at ht
      cases ht

end Module.WritesLines

namespace Module.ReadFrom

variable {src : String} {m : Module}

theorem sourced (h : m.ReadFrom src) : ∀ s ∈ m.body, ∃ sp, s.origin = .source sp :=
  Stmt.sourced_of_starts h.stmts

/-- A module as read prints its source as it is: no decorator is new and nothing is appended. -/
theorem writesLines (h : m.ReadFrom src) : m.WritesLines src := by
  refine ⟨h.source, h.placed, fun c hc => ?_, fun t ht => ?_⟩
  · rw [Chunks.front_source h.sourced, Chunks.stmts_source m.body h.decorators] at hc
    cases hc
  · rw [Chunks.appended_source h.sourced] at ht
    cases ht

theorem body_addDecorator (name : String) :
    (m.addDecorator name).1.body = m.body.map fun s => (Decorate.stmt name s).1 := by
  rw [Module.addDecorator_fst]

/-- Decorating keeps the top-level statements where they start. -/
theorem stmts_addDecorator (h : m.ReadFrom src) (name : String) :
    ∀ s ∈ (m.addDecorator name).1.body,
      ∃ sp k, s.origin = .source sp ∧ sp.start = (Tape.ofSource src).startAt k := by
  rw [body_addDecorator]
  intro s hs
  obtain ⟨s₀, hs₀, rfl⟩ := List.mem_map.1 hs
  rw [Decorate.stmt_origin]
  exact h.stmts s₀ hs₀

/-- Decorating leaves the statement an import goes before where it was. -/
theorem nextSpan?_addDecorator (name : String) :
    Printer.nextSpan? ((m.addDecorator name).1.body.drop
        (Import.insertionIndex (m.addDecorator name).1.body)) =
      Printer.nextSpan? (m.body.drop (Import.insertionIndex m.body)) := by
  rw [body_addDecorator, Import.insertionIndex_map (Decorate.isFutureImport_stmt name)
    (Decorate.docstring_stmt name), ← List.map_drop,
    Printer.nextSpan?_map (Decorate.stmt_origin name)]

/-- Decorating a module as read keeps it printing whole lines when nothing but spaces and tabs
stands before any function's keyword on its line: each decorator goes in as a line of its own
after the function's indent, and the indent is written again before the keyword. -/
theorem writesLines_addDecorator (h : m.ReadFrom src)
    (keywords : ∀ d ∈ Functions.stmts m.body, ∀ c ∈ Source.lineBefore src d.offset,
      c = ' ' ∨ c = '\t')
    {name : String} (hname : '\n' ∉ ("@" ++ name).toList ∧
      ("@" ++ name).toList.getLast? ≠ some '\r') :
    (m.addDecorator name).1.WritesLines src := by
  have ordered := Tape.ordered_ofSource src h.noFault
  have body : (m.addDecorator name).1.body = (Decorate.stmts name m.body).1 := rfl
  have sourced : ∀ s ∈ (Decorate.stmts name m.body).1, ∃ sp, s.origin = .source sp :=
    Stmt.sourced_of_starts (stmts_addDecorator h name)
  refine ⟨h.source, ?_, fun c hc => ?_, fun t ht => ?_⟩
  · rw [body]
    exact Placed.top_decorate name m.body h.placed
  · rw [body, Chunks.front_source sourced] at hc
    obtain ⟨d, hd, rfl⟩ := Chunks.stmts_decorate name m.body h.decorators c hc
    obtain ⟨⟨k, ho⟩, hi⟩ := h.functions d hd
    have boundary : Boundary src d.offset := by
      rw [ho]
      exact ordered.start k
    -- the indent the tree records is the whole line before the keyword
    have indent : d.indent.toList = Source.lineBefore src d.offset := by
      rw [hi]
      exact Source.indentBefore_eq_lineBefore boundary (keywords d hd)
    refine ⟨.inr ⟨("@" ++ name).toList, hname.1, hname.2, by simp, ?_⟩, k, ho⟩
    simp only [String.toList_append, indent, List.append_assoc]
  · rw [body, Chunks.appended_source sourced] at ht
    cases ht

/-- Decorating every function and making sure of an import keeps a module as read printing
whole lines, when nothing but spaces and tabs stands before any function's keyword on its line
and nothing before the statement the import goes before. -/
theorem writesLines_decorateAndImport (h : m.ReadFrom src)
    (keywords : ∀ d ∈ Functions.stmts m.body, ∀ c ∈ Source.lineBefore src d.offset,
      c = ' ' ∨ c = '\t')
    (point : ∀ sp ∈ Printer.nextSpan? (m.body.drop (Import.insertionIndex m.body)),
      Source.lineBefore src sp.start = [])
    {name line : String} (hname : '\n' ∉ ("@" ++ name).toList ∧
      ("@" ++ name).toList.getLast? ≠ some '\r')
    (hcr : ∀ l ∈ splitLines (Text.trim line).toList [], l.getLast? ≠ some '\r')
    {r : Module × Nat × Bool} (he : Method.decorateAndImport m name line = .ok r) :
    r.1.WritesLines src := by
  simp only [Method.decorateAndImport] at he
  obtain ⟨⟨m', added⟩, hi, hr⟩ := bind_eq_ok he
  cases hr
  refine (writesLines_addDecorator h keywords hname).ensureImport (stmts_addDecorator h name)
    ?_ hcr hi
  rw [nextSpan?_addDecorator]
  exact point

end Module.ReadFrom

/-- The names the methods decorate with and the import lines they add: none holds a line feed
or ends with a carriage return. -/
theorem Method.decorators_imports_plain :
    ('\n' ∉ ("@" ++ "njit").toList ∧ ("@" ++ "njit").toList.getLast? ≠ some '\r') ∧
    ('\n' ∉ ("@" ++ "lru_cache").toList ∧ ("@" ++ "lru_cache").toList.getLast? ≠ some '\r') ∧
    ∀ line ∈ ["from numba import njit", "from functools import lru_cache", "import numpy as np"],
      ∀ l ∈ splitLines (Text.trim line).toList [], l.getLast? ≠ some '\r' := by
  decide +kernel

/-- The methods that decorate every function: JIT compilation and caching. -/
def Method.decorates : Method → Bool
  | .numba | .caching => true
  | _ => false

/-- The methods that add an import: the two that decorate, and vectorising. -/
def Method.imports : Method → Bool
  | .numba | .caching | .vectorize => true
  | _ => false

/-- The edits of every method keep a module as read printing whole lines, when nothing but
spaces and tabs stands before any function's keyword on its line, if the method decorates, and
nothing before the statement an import goes before, if it imports. -/
theorem Method.edit_writesLines (method : Method) {src : String} {m : Module} (h : m.ReadFrom src)
    (keywords : method.decorates = true → ∀ d ∈ Functions.stmts m.body,
      ∀ c ∈ Source.lineBefore src d.offset, c = ' ' ∨ c = '\t')
    (point : method.imports = true →
      ∀ sp ∈ Printer.nextSpan? (m.body.drop (Import.insertionIndex m.body)),
        Source.lineBefore src sp.start = [])
    {r : Module × Nat × Bool × Option GuardOutcome} (he : method.edit m = .ok r) :
    r.1.WritesLines src := by
  obtain ⟨njit, lru, lines⟩ := Method.decorators_imports_plain
  cases method with
  | multiprocessing =>
    cases he
    exact h.writesLines.ensureEntryPoint h.sourced
  | numba =>
    simp only [Method.edit] at he
    obtain ⟨⟨m', n, added⟩, hd, hr⟩ := bind_eq_ok he
    cases hr
    exact h.writesLines_decorateAndImport (keywords rfl) (point rfl) njit (lines _ (by simp)) hd
  | caching =>
    simp only [Method.edit] at he
    obtain ⟨⟨m', n, added⟩, hd, hr⟩ := bind_eq_ok he
    cases hr
    exact h.writesLines_decorateAndImport (keywords rfl) (point rfl) lru (lines _ (by simp)) hd
  | vectorize =>
    simp only [Method.edit] at he
    obtain ⟨⟨m', added⟩, hi, hr⟩ := bind_eq_ok he
    cases hr
    exact h.writesLines.ensureImport h.stmts (point rfl) (lines _ (by simp)) hi
  | nativeExtension | cython =>
    cases he
    exact h.writesLines

/-! ### Comment lines and notes -/

namespace Text

theorem LinesAdded.eq_nil_of_right {nl : List Char} {ls : List (List Char)}
    (h : LinesAdded nl ls []) : ls = [] := by
  cases h
  rfl

/-- Adding lines keeps a text's line ending fixed: a text with no line feed after the lines are
added had none added, so it is the text it was. -/
theorem EndingFixed.addsLines {nl a b : List Char} (hnl : IsEnding nl) (h : AddsLines nl a b)
    (fixed : EndingFixed a) : EndingFixed b := by
  by_cases hb : '\n' ∈ b
  · exact .inl hb
  · right
    by_cases empty : b = []
    · simp [empty]
    unfold AddsLines at h
    rw [lines_of_not_mem hb empty] at h
    generalize ha : lines a = la at h
    -- no added line and no line ending has a line feed, so the one line is kept
    cases h with
    | keep l rest =>
      rw [LinesAdded.eq_nil_of_right rest] at ha
      have same : a = b := by simpa using (flatten_lines a).symm.trans (by rw [ha]; simp)
      rw [← same]
      exact fixed.resolve_left (same ▸ hb)
    | add added _ => exact absurd (added.newline_mem hnl) hb
    | close _ _ => exact absurd (by simp [hnl.newline_mem]) hb

/-- Comment lines at the top and a note at the end add whole lines ending with the text's line
ending, when that ending is fixed. -/
theorem appendNote_prependComments_addsLines (text : String) (comments : List String)
    (note : String) (hc : ∀ l ∈ comments, '\n' ∉ l.toList ∧ l.toList.getLast? ≠ some '\r')
    (hn : '\n' ∉ note.toList) (hr : note.toList.getLast? ≠ some '\r')
    (fixed : EndingFixed text.toList) :
    AddsLines (Source.lineEnding text).toList text.toList
      (appendNote (prependComments text comments) note).toList := by
  have hnl := Source.lineEnding_isEnding text
  have first := prependComments_addsLines text comments hc
  have same : Source.lineEnding (prependComments text comments) = Source.lineEnding text :=
    Source.lineEnding_addsLines hnl rfl fixed first
  have second := appendNote_addsLines (prependComments text comments) note hn hr
  rw [same] at second
  exact first.trans hnl second

/-- The first line of a text split at its first line feed. -/
theorem head_lines_split {a rest : List Char} (ha : '\n' ∉ a) (hne : a ≠ [])
    (hr : rest = [] ∨ rest.head? = some '\n') :
    (lines (a ++ rest)).head? = some (a ++ rest.take 1) := by
  rcases hr with rfl | hr
  · simp [lines_of_not_mem ha hne]
  · obtain ⟨more, rfl⟩ := List.head?_eq_some_iff.1 hr
    rw [lines_split ha]
    rfl

/-- A text that starts with a piece with no line feed has a first line that starts with it. -/
theorem head_lines_append {l : List Char} (hl : '\n' ∉ l) (hne : l ≠ []) (r : List Char) :
    ∃ x ∈ (lines (l ++ r)).head?, l <+: x := by
  induction l with
  | nil => exact absurd rfl hne
  | cons c l ih =>
    have hc : c ≠ '\n' := fun e => hl (e ▸ List.mem_cons_self)
    rw [List.cons_append, lines, if_neg hc]
    by_cases empty : l = []
    · subst empty
      rw [List.nil_append]
      cases hr : lines r with
      | nil => exact ⟨[c], rfl, List.prefix_refl _⟩
      | cons x xs => exact ⟨c :: x, rfl, List.cons_prefix_cons.2 ⟨rfl, List.nil_prefix⟩⟩
    · obtain ⟨x, hx, hp⟩ := ih (fun m => hl (List.mem_cons_of_mem _ m)) empty
      obtain ⟨xs, hxs⟩ : ∃ xs, lines (l ++ r) = x :: xs := by
        cases hls : lines (l ++ r) with
        | nil => rw [hls] at hx; cases hx
        | cons y ys =>
          rw [hls] at hx
          exact ⟨ys, by rw [Option.mem_some_iff.1 hx]⟩
      rw [hxs]
      exact ⟨c :: x, rfl, List.cons_prefix_cons.2 ⟨rfl, hp⟩⟩

/-- Comment lines go after the first line of a text that starts with `#!`. -/
theorem prependComments_first (text : String) (comments : List String)
    (hs : text.startsWith "#!" = true) :
    ∀ l ∈ (lines text.toList).head?, l <+: (prependComments text comments).toList := by
  intro l hl
  have shebang : "#!".toList <+: text.toList := String.startsWith_string_iff.1 hs
  have hne : text.toList ≠ [] := fun e => by rw [e] at shebang; simp at shebang
  unfold prependComments
  dsimp only
  rw [if_pos hs, List.span_eq_takeWhile_dropWhile]
  dsimp only
  have whole : text.toList.takeWhile (· != '\n') ++ text.toList.dropWhile (· != '\n') =
      text.toList := List.takeWhile_append_dropWhile
  have inside : '\n' ∉ text.toList.takeWhile (· != '\n') :=
    fun m => by simpa using List.mem_takeWhile_imp m
  have stop := List.head?_dropWhile_not (· != '\n') text.toList
  generalize text.toList.takeWhile (· != '\n') = first at whole inside ⊢
  generalize text.toList.dropWhile (· != '\n') = after at whole stop ⊢
  cases after with
  | nil =>
    rw [List.append_nil] at whole
    rw [← whole, lines_of_not_mem inside (whole ▸ hne)] at hl
    obtain rfl := Option.mem_some_iff.1 hl
    simp only [String.toList_append, ← whole, List.append_assoc]
    exact List.prefix_append _ _
  | cons c more =>
    obtain rfl : c = '\n' := by simpa using stop
    have hfirst : first ≠ [] := by
      rintro rfl
      rw [← whole] at shebang
      simp at shebang
    rw [← whole, lines_split inside] at hl
    obtain rfl := Option.mem_some_iff.1 hl
    simp only [String.toList_append, String.toList_ofList, List.append_assoc]
    exact ⟨_, List.append_assoc _ _ _⟩

/-- A text that starts with a first line has a first line that starts with it. -/
theorem head_lines_of_prefix {a e cs : List Char} (ha : '\n' ∉ a) (hne : a ≠ [])
    (he : e = [] ∨ e = ['\n']) (h : a ++ e <+: cs) : ∃ x ∈ (lines cs).head?, a ++ e <+: x := by
  obtain ⟨r, rfl⟩ := h
  rcases he with rfl | rfl
  · simpa using head_lines_append ha hne r
  · refine ⟨a ++ ['\n'], ?_, List.prefix_refl _⟩
    rw [lines_append (.inr (by simp)), lines_line ha]
    rfl

theorem prefix_appendNote (text note : String) : text.toList <+: (appendNote text note).toList := by
  simp only [appendNote, String.toList_append, List.append_assoc]
  exact List.prefix_append _ _

end Text

/-- A source that starts with `#!` keeps its first line first: that line is a comment, so every
lexeme, and so every chunk, starts after it. -/
theorem Module.WritesLines.keeps_first_line {src : String} {m : Module} (h : m.WritesLines src)
    (hf : ∀ l ∈ (Lexeme.scan src).toList, l.token.fault? = none)
    (shebang : src.startsWith "#!" = true) :
    m.render.startsWith "#!" = true ∧
      ∀ l ∈ (lines src.toList).head?, ∃ x ∈ (lines m.render.toList).head?, l <+: x := by
  have lit : "#!".toList = ['#', '!'] := rfl
  have pre : "#!".toList <+: src.toList := String.startsWith_string_iff.1 shebang
  obtain ⟨tail, htail⟩ : ∃ tail, src.toList = '#' :: tail := by
    obtain ⟨t, ht⟩ := pre
    exact ⟨'!' :: t, by rw [← ht, lit]; rfl⟩
  have whole : tail.takeWhile (· != '\n') ++ tail.dropWhile (· != '\n') = tail :=
    List.takeWhile_append_dropWhile
  have ha : '\n' ∉ tail.takeWhile (· != '\n') := fun m => by simpa using List.mem_takeWhile_imp m
  have hr : tail.dropWhile (· != '\n') = [] ∨ (tail.dropWhile (· != '\n')).head? = some '\n' := by
    have stop := List.head?_dropWhile_not (· != '\n') tail
    cases hd : tail.dropWhile (· != '\n') with
    | nil => exact .inl rfl
    | cons c more =>
      rw [hd] at stop
      exact .inr (by simpa using stop)
  generalize tail.takeWhile (· != '\n') = a at whole ha
  generalize tail.dropWhile (· != '\n') = rest at whole hr
  subst whole
  have ha' : '\n' ∉ '#' :: a := by simpa using ha
  have bang : ∃ a', a = '!' :: a' := by
    rw [htail, lit] at pre
    cases a with
    | nil =>
      obtain ⟨c, more, rfl⟩ : ∃ c more, rest = c :: more := by
        rcases pre with ⟨t, ht⟩
        cases rest with
        | nil => cases ht
        | cons c more => exact ⟨c, more, rfl⟩
      obtain rfl : '!' = c := by simpa using pre
      simp at hr
    | cons c a' =>
      obtain rfl : '!' = c := by simpa using pre
      exact ⟨a', rfl⟩
  obtain ⟨a', rfl⟩ := bang
  have first : ('#' :: '!' :: a' ++ rest.take 1) <+: src.toList := by
    rw [htail]
    exact ⟨rest.drop 1, by simp only [List.cons_append, List.append_assoc, List.take_append_drop]⟩
  have kept := h.front_kept ⟨_, first, rfl⟩ (Tape.start_after_comment htail ha hr hf)
  rw [Source.extract_zero first, String.toList_ofList] at kept
  refine ⟨String.startsWith_string_iff.2 ?_, ?_⟩
  · rw [lit]
    exact List.IsPrefix.trans ⟨a' ++ rest.take 1, rfl⟩ kept
  · intro l hl
    rw [htail, show '#' :: ('!' :: a' ++ rest) = ('#' :: '!' :: a') ++ rest from rfl,
      head_lines_split ha' (List.cons_ne_nil _ _) hr] at hl
    obtain rfl := Option.mem_some_iff.1 hl
    refine head_lines_of_prefix ha' (List.cons_ne_nil _ _) ?_ kept
    rcases hr with rfl | hr
    · exact .inl rfl
    · obtain ⟨more, rfl⟩ := List.head?_eq_some_iff.1 hr
      exact .inr rfl

/-- The comment lines and the note that mark a printed text add whole lines ending with its line
ending, when that ending is fixed. -/
theorem Method.annotate_addsLines (method : Method) (guard : Option GuardOutcome)
    {printed : String} (fixed : EndingFixed printed.toList) :
    AddsLines (Source.lineEnding printed).toList printed.toList
      (method.annotate guard printed).toList := by
  cases method <;> simp only [Method.annotate]
  case multiprocessing =>
    split
    · exact prependComments_addsLines _ _ (by decide +kernel)
    · exact prependComments_addsLines _ _ (by decide +kernel)
  case numba | caching => exact prependComments_addsLines _ _ (by decide +kernel)
  case nativeExtension | cython | vectorize =>
    exact appendNote_prependComments_addsLines _ _ _ (by decide +kernel) (by decide +kernel)
      (by decide +kernel) fixed

/-- The marks of a printed text that starts with `#!` go after its first line. -/
theorem Method.annotate_first (method : Method) (guard : Option GuardOutcome) {printed : String}
    (hs : printed.startsWith "#!" = true) :
    ∀ l ∈ (lines printed.toList).head?, l <+: (method.annotate guard printed).toList := by
  intro l hl
  cases method <;> simp only [Method.annotate]
  case multiprocessing =>
    split
    · exact prependComments_first _ _ hs l hl
    · exact prependComments_first _ _ hs l hl
  case numba | caching => exact prependComments_first _ _ hs l hl
  case nativeExtension | cython | vectorize =>
    exact (prependComments_first _ _ hs l hl).trans (prefix_appendNote _ _)

/-! ### Applying a method -/

/-- Applying a method to a source that fits and reads adds whole lines to it, when nothing but
spaces and tabs stands before any function's keyword on its line, if the method decorates, and
nothing before the statement an import goes before, if it imports. Every line of the source is
kept, in order, and the lines put among them are whole; each ends with the source's line ending,
so long as that ending is fixed: the source has a line feed, or does not end with a carriage
return that the line feed of an added line would join. A source that starts with `#!` keeps its
first line first. -/
theorem Method.apply_adds_lines (method : Method) {src : String} {m : Module}
    (_fits : Source.Fits src) (parsed : Module.parse src = .ok m)
    (keywords : method.decorates = true → ∀ d ∈ Functions.stmts m.body,
      ∀ c ∈ Source.lineBefore src d.offset, c = ' ' ∨ c = '\t')
    (point : method.imports = true →
      ∀ sp ∈ Printer.nextSpan? (m.body.drop (Import.insertionIndex m.body)),
        Source.lineBefore src sp.start = []) :
    ∃ o, method.apply src = .ok o ∧
      (EndingFixed src.toList →
        AddsLines (Source.lineEnding src).toList src.toList o.text.toList) ∧
      (src.startsWith "#!" = true → ∀ l ∈ (lines src.toList).head?, l <+: o.text.toList) := by
  have read := Module.parse_readFrom parsed
  obtain ⟨⟨m', n, added, guard⟩, he⟩ := method.edit_ok m
  have writes := Method.edit_writesLines method read keywords point he
  refine ⟨⟨method.annotate guard m'.render, n, added, guard⟩, ?_, ?_, ?_⟩
  · simp only [Method.apply, parsed, he, bind, Except.bind, pure, Except.pure]
  · -- the edits add lines with the source's ending, and the marks with the printed text's,
    -- which is the same
    intro fixed
    have hnl := Source.lineEnding_isEnding src
    have printed := writes.addsLines
    have same : Source.lineEnding m'.render = Source.lineEnding src :=
      Source.lineEnding_addsLines hnl rfl fixed printed
    have marked := Method.annotate_addsLines method guard (fixed.addsLines hnl printed)
    rw [same] at marked
    exact printed.trans hnl marked
  · intro shebang l hl
    obtain ⟨starts, first⟩ := writes.keeps_first_line read.noFault shebang
    obtain ⟨x, hx, lx⟩ := first l hl
    exact lx.trans (Method.annotate_first method guard starts x hx)

/-- A source with a `#!` line and line endings of a carriage return and a line feed: JIT
compilation keeps its lines and its first line, and adds lines ending in both. -/
theorem Method.apply_adds_lines_shebang :
    Source.Fits "#!/bin/python\r\nimport os\r\ndef f():\r\n    pass\r\n" ∧
    ∃ m, Module.parse "#!/bin/python\r\nimport os\r\ndef f():\r\n    pass\r\n" = .ok m ∧
      (Method.numba.decorates = true → ∀ d ∈ Functions.stmts m.body,
        ∀ c ∈ Source.lineBefore "#!/bin/python\r\nimport os\r\ndef f():\r\n    pass\r\n" d.offset,
          c = ' ' ∨ c = '\t') ∧
      (Method.numba.imports = true →
        ∀ sp ∈ Printer.nextSpan? (m.body.drop (Import.insertionIndex m.body)),
          Source.lineBefore "#!/bin/python\r\nimport os\r\ndef f():\r\n    pass\r\n" sp.start = []) ∧
      ∃ o, Method.apply .numba "#!/bin/python\r\nimport os\r\ndef f():\r\n    pass\r\n" = .ok o ∧
        (EndingFixed "#!/bin/python\r\nimport os\r\ndef f():\r\n    pass\r\n".toList →
          AddsLines (Source.lineEnding "#!/bin/python\r\nimport os\r\ndef f():\r\n    pass\r\n").toList
            "#!/bin/python\r\nimport os\r\ndef f():\r\n    pass\r\n".toList o.text.toList) ∧
        ("#!/bin/python\r\nimport os\r\ndef f():\r\n    pass\r\n".startsWith "#!" = true →
          ∀ l ∈ (lines "#!/bin/python\r\nimport os\r\ndef f():\r\n    pass\r\n".toList).head?,
            l <+: o.text.toList) := by
  have fits : Source.Fits "#!/bin/python\r\nimport os\r\ndef f():\r\n    pass\r\n" := by decide
  obtain ⟨m, parsed⟩ := Module.exists_parse_of_isSome
    "#!/bin/python\r\nimport os\r\ndef f():\r\n    pass\r\n" (by decide +kernel)
  -- the function's keyword and the statement the import goes before start lines
  have shape : (Module.parse "#!/bin/python\r\nimport os\r\ndef f():\r\n    pass\r\n").toOption.map
      (fun m : Module => ((Functions.stmts m.body).map (·.offset),
        (Printer.nextSpan? (m.body.drop (Import.insertionIndex m.body))).map (·.start))) =
      some ([26], some 15) := by
    decide +kernel
  rw [parsed] at shape
  obtain ⟨offsets, starts⟩ := Prod.mk.inj (Option.some.inj shape)
  have starts_line : ∀ k ∈ [15, 26],
      Source.lineBefore "#!/bin/python\r\nimport os\r\ndef f():\r\n    pass\r\n" k = [] := by
    intro k hk
    have at_k : k = utf8Len ("#!/bin/python\r\nimport os\r\ndef f():\r\n    pass\r\n".toList.take k) ∧
        lastLine ("#!/bin/python\r\nimport os\r\ndef f():\r\n    pass\r\n".toList.take k) = [] := by
      simp only [List.mem_cons, List.not_mem_nil, or_false] at hk
      rcases hk with rfl | rfl <;> decide +kernel
    rw [at_k.1, Source.lineBefore_utf8Len (List.take_prefix _ _)]
    exact at_k.2
  have keywords : ∀ d ∈ Functions.stmts m.body,
      ∀ c ∈ Source.lineBefore "#!/bin/python\r\nimport os\r\ndef f():\r\n    pass\r\n" d.offset,
        c = ' ' ∨ c = '\t' := by
    intro d hd c hc
    have offset : d.offset ∈ [26] := offsets ▸ List.mem_map_of_mem hd
    rw [List.mem_singleton.1 offset, starts_line 26 (by simp)] at hc
    cases hc
  have point : ∀ sp ∈ Printer.nextSpan? (m.body.drop (Import.insertionIndex m.body)),
      Source.lineBefore "#!/bin/python\r\nimport os\r\ndef f():\r\n    pass\r\n" sp.start = [] := by
    intro sp hsp
    have start : sp.start = 15 := by
      rw [Option.mem_def.1 hsp, Option.map_some, Option.some.injEq] at starts
      exact starts
    rw [start]
    exact starts_line 15 (by simp)
  exact ⟨fits, m, parsed, fun _ => keywords, fun _ => point,
    Method.apply_adds_lines .numba fits parsed (fun _ => keywords) (fun _ => point)⟩

end PyTune
