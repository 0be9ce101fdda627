import PyTune.Proofs.Splice

/-!
# Printing writes chunks into the source

`Module.render` copies the source forward only. When the offsets of the walk rise and fall
between characters (`Placed`), the rendered text is the source with the texts of
`Module.chunks` spliced in (`render_splices`).
-/

namespace PyTune

/-! ### Where the pieces of a tree lie -/

/-- The text of an inserted piece. -/
def Origin.text? : Origin → Option String
  | .source _ => none
  | .inserted text => some text

/-- The decorators of a definition between `lo` and its keyword at `hi`: those from the source
start in order, each between two characters, and the inserted ones come after them all. -/
def Placed.decorators (src : String) : Nat → List Decorator → Nat → Prop
  | lo, [], hi => lo ≤ hi
  | lo, d :: ds, hi =>
    match d.origin with
    | .source sp => Boundary src sp.start ∧ lo ≤ sp.start ∧ Placed.decorators src sp.start ds hi
    | .inserted _ => lo ≤ hi ∧ ∀ d' ∈ ds, d'.origin.span? = none

mutual

/-- The statements of a nested body between `lo` and `hi`: all from the source, each starting
at or after the end of the one before, and holding what lies between its start and its end. -/
def Placed.stmts (src : String) : Nat → List Stmt → Nat → Prop
  | lo, [], hi => lo ≤ hi
  | lo, s :: rest, hi =>
    ∃ sp, s.origin = .source sp ∧ Boundary src sp.start ∧ Boundary src sp.stop ∧
      lo ≤ sp.start ∧ Placed.stmt src sp.start s sp.stop ∧ Placed.stmts src sp.stop rest hi

/-- What a statement holds between `lo` and `hi`: a definition's decorators, then its keyword,
then its body; a compound statement's clauses, in order. -/
def Placed.stmt (src : String) : Nat → Stmt → Nat → Prop
  | lo, ⟨_, .functionDef ⟨_, ds, _, offset, body⟩⟩, hi =>
    Placed.decorators src lo ds offset ∧ Boundary src offset ∧ Placed.suite src offset body hi
  | lo, ⟨_, .classDef ⟨_, ds, _, offset, body⟩⟩, hi =>
    Placed.decorators src lo ds offset ∧ Boundary src offset ∧ Placed.suite src offset body hi
  | lo, ⟨_, .compound cs⟩, hi => Placed.clauses src lo cs hi
  | lo, _, hi => lo ≤ hi

/-- The bodies of clauses, one after the other, between `lo` and `hi`. -/
def Placed.clauses (src : String) : Nat → List Clause → Nat → Prop
  | lo, [], hi => lo ≤ hi
  | lo, ⟨_, _, _, body⟩ :: cs, hi =>
    ∃ mid, Placed.suite src lo body mid ∧ Placed.clauses src mid cs hi

/-- A body between `lo` and `hi`. -/
def Placed.suite (src : String) : Nat → Suite → Nat → Prop
  | lo, .inline body, hi => Placed.stmts src lo body hi
  | lo, .block _ body, hi => Placed.stmts src lo body hi

end

/-- The top-level statements from `lo` on: those from the source as in a nested body, and
inserted ones, each with some text, anywhere among them. -/
def Placed.top (src : String) : Nat → List Stmt → Prop
  | lo, [] => lo ≤ src.utf8ByteSize
  | lo, s :: rest =>
    match s.origin with
    | .source sp => Boundary src sp.start ∧ Boundary src sp.stop ∧ lo ≤ sp.start ∧
        Placed.stmt src sp.start s sp.stop ∧ Placed.top src sp.stop rest
    | .inserted text => text ≠ "" ∧ Placed.top src lo rest

/-! ### What printing writes, and where -/

namespace Chunks

variable (nl : String)

/-- The lines of a text, each followed by the line ending `nl`. -/
def lines (text : String) : String :=
  String.join ((splitLines text.toList []).map fun line => String.ofList line ++ nl)

/-- The decorators inserted on a definition with its keyword at `offset`: each `@name` on a
line of its own there, and the keyword's line indented by `indent` again. -/
def decorators (offset : Nat) (indent : String) : List Decorator → List Chunk
  | [] => []
  | d :: ds =>
    match d.origin with
    | .source _ => decorators offset indent ds
    | .inserted name => ⟨offset, "@" ++ name ++ nl ++ indent⟩ :: decorators offset indent ds

mutual

/-- The decorators inserted in the definitions among statements, in order. -/
def stmts : List Stmt → List Chunk
  | [] => []
  | s :: rest => stmt s ++ stmts rest

/-- The decorators inserted in a statement and in the definitions it holds. -/
def stmt : Stmt → List Chunk
  | ⟨_, .functionDef ⟨_, ds, indent, offset, body⟩⟩ => decorators nl offset indent ds ++ suite body
  | ⟨_, .classDef ⟨_, ds, indent, offset, body⟩⟩ => decorators nl offset indent ds ++ suite body
  | ⟨_, .compound cs⟩ => clauses cs
  | _ => []

def clauses : List Clause → List Chunk
  | [] => []
  | ⟨_, _, _, body⟩ :: cs => suite body ++ clauses cs

def suite : Suite → List Chunk
  | .inline body => stmts body
  | .block _ body => stmts body

end

/-- The chunks of the top-level statements up to the last one from the source: an inserted
statement's lines go at the start of the next statement from the source. -/
def front : List Stmt → List Chunk
  | [] => []
  | s :: rest =>
    match s.origin, Printer.nextSpan? rest with
    | .source _, _ => stmt nl s ++ front rest
    | .inserted text, some sp => ⟨sp.start, lines nl text⟩ :: front rest
    | .inserted _, none => []

/-- The texts of the inserted top-level statements after the last one from the source. -/
def appended : List Stmt → List String
  | [] => []
  | s :: rest =>
    match s.origin, Printer.nextSpan? rest with
    | .inserted text, none => text :: appended rest
    | _, _ => appended rest

/-- What goes at the end of the source: the lines of the appended texts, after one line ending
if the text printed before (`sofar`) is not empty and does not end with a line feed. -/
def ending (sofar : String) (texts : List String) : String :=
  (if !sofar.isEmpty && !sofar.endsWith "\n" then nl else "") ++
    String.join (texts.map (lines nl))

end Chunks

/-- The texts that printing a module writes into its source, with their offsets, in order. -/
def Module.chunks (m : Module) : List Chunk :=
  let nl := Source.lineEnding m.source
  let front := Chunks.front nl m.body
  match Chunks.appended m.body with
  | [] => front
  | texts => front ++ [⟨m.source.utf8ByteSize, Chunks.ending nl (splice m.source front) texts⟩]

/-! ### Copying and writing -/

namespace Printer

variable {src : String}

/-- A printer that has copied the source up to its cursor, with the chunks `cs` written in. -/
structure Prints (src : String) (cs : List Chunk) (p : Printer) : Prop where
  out_eq : p.out = spliceFrom src 0 cs p.cursor
  rising : Rising src 0 cs p.cursor
  cursor : Boundary src p.cursor

theorem prints_start (src : String) : Prints src [] ⟨"", 0⟩ where
  out_eq := (extract_self src 0).symm
  rising := Nat.le_refl 0
  cursor := Boundary.zero src

@[simp] theorem write_cursor (p : Printer) (t : String) : (p.write t).cursor = p.cursor := rfl

theorem write_write (p : Printer) (a b : String) : (p.write a).write b = p.write (a ++ b) := by
  simp [write, String.append_assoc]

theorem write_empty (p : Printer) : p.write "" = p := by
  simp [write]

theorem flushTo_of_le {p : Printer} {pos : Nat} (h : pos ≤ p.cursor) :
    Printer.flushTo src p pos = p := by
  simp [flushTo, Nat.not_lt.mpr h]

/-- Copying up to a place at or after the cursor: the copied text reaches there. -/
theorem Prints.flushTo {cs : List Chunk} {p : Printer} {pos : Nat} (h : Prints src cs p)
    (hle : p.cursor ≤ pos) (hb : Boundary src pos) :
    Prints src cs (Printer.flushTo src p pos) ∧ (Printer.flushTo src p pos).cursor = pos := by
  unfold Printer.flushTo
  split
  · refine ⟨⟨?_, h.rising.weaken hle, hb⟩, rfl⟩
    show p.out ++ _ = _
    rw [h.out_eq]
    exact spliceFrom_extend h.cursor hb hle (Boundary.zero src) h.rising
  · exact ⟨h, by omega⟩

/-- Writing a text adds a chunk at the cursor. -/
theorem Prints.write {cs : List Chunk} {p : Printer} (h : Prints src cs p) (t : String) :
    Prints src (cs ++ [⟨p.cursor, t⟩]) (p.write t) where
  out_eq := by
    show p.out ++ t = _
    rw [h.out_eq]
    exact spliceFrom_write t cs
  rising := h.rising.snoc h.cursor (Nat.le_refl _) t
  cursor := h.cursor

theorem writeLine_unindented (nl : String) (indentFirst : Bool) (p : Printer) (first : Bool)
    (line : List Char) :
    Printer.writeLine nl "" indentFirst (p, first) line =
      (p.write (String.ofList line ++ nl), false) := by
  simp only [writeLine, write_empty, ite_self, write_write]

theorem foldl_writeLine (nl : String) (indentFirst : Bool) :
    ∀ (ls : List (List Char)) (p : Printer) (first : Bool),
      (ls.foldl (Printer.writeLine nl "" indentFirst) (p, first)).1 =
        p.write (String.join (ls.map fun line => String.ofList line ++ nl))
  | [], p, _ => by simp [write_empty]
  | l :: ls, p, first => by
    rw [List.foldl_cons, writeLine_unindented, foldl_writeLine nl indentFirst ls, write_write]
    simp [String.join_cons]

/-- Without indentation, writing the lines of a text writes `Chunks.lines`. -/
theorem writeLines_unindented (nl : String) (p : Printer) (text : String) (indentFirst : Bool) :
    Printer.writeLines nl p text "" indentFirst = p.write (Chunks.lines nl text) :=
  foldl_writeLine nl indentFirst _ p true

theorem writeDecorator_eq (nl indent : String) (p : Printer) (text : String) :
    Printer.writeDecorator nl indent p text = p.write ("@" ++ text ++ nl ++ indent) := by
  simp only [writeDecorator, write_write, String.append_assoc]

/-- Writing inserted decorators adds a chunk at the cursor for each. -/
theorem Prints.writeDecorators (nl indent : String) :
    ∀ (pending : List String) {cs : List Chunk} {p : Printer}, Prints src cs p →
      Prints src (cs ++ pending.map fun name => ⟨p.cursor, "@" ++ name ++ nl ++ indent⟩)
        (Printer.writeDecorators nl p pending indent) ∧
      (Printer.writeDecorators nl p pending indent).cursor = p.cursor
  | [], _, _, h => ⟨by simpa [Printer.writeDecorators] using h, rfl⟩
  | name :: rest, cs, p, h => by
    have written := h.write ("@" ++ name ++ nl ++ indent)
    obtain ⟨after, same⟩ := Prints.writeDecorators nl indent rest written
    have unfolded : Printer.writeDecorators nl p (name :: rest) indent =
        Printer.writeDecorators nl (p.write ("@" ++ name ++ nl ++ indent)) rest indent := by
      simp only [Printer.writeDecorators, List.foldl_cons, writeDecorator_eq]
    rw [unfolded]
    refine ⟨?_, same⟩
    simpa only [write_cursor, List.map_cons, List.append_assoc, List.singleton_append] using after

/-! ### Decorators -/

theorem decoratorStep_source (nl indent : String) {st : Printer × List String} {d : Decorator}
    {sp : Span} (h : d.origin = .source sp) :
    Printer.decoratorStep src nl indent st d =
      (Printer.writeDecorators nl (Printer.flushTo src st.1 sp.start) st.2 indent, []) := by
  obtain ⟨p, pending⟩ := st
  simp [decoratorStep, h]

theorem decoratorStep_inserted (nl indent : String) {st : Printer × List String} {d : Decorator}
    {text : String} (h : d.origin = .inserted text) :
    Printer.decoratorStep src nl indent st d = (st.1, st.2 ++ [text]) := by
  obtain ⟨p, pending⟩ := st
  simp [decoratorStep, h]

/-- Inserted decorators only wait for what comes next. -/
theorem foldl_decoratorStep_inserted (src nl indent : String) :
    ∀ (ds : List Decorator) (p : Printer) (pending : List String),
      (∀ d ∈ ds, d.origin.span? = none) →
      ds.foldl (Printer.decoratorStep src nl indent) (p, pending) =
        (p, pending ++ ds.filterMap (·.origin.text?))
  | [], p, pending, _ => by simp
  | d :: ds, p, pending, h => by
    have inserted : ∃ text, d.origin = .inserted text := by
      have := h d List.mem_cons_self
      cases hd : d.origin with
      | source sp => simp [hd, Origin.span?] at this
      | inserted text => exact ⟨text, rfl⟩
    obtain ⟨text, hd⟩ := inserted
    rw [List.foldl_cons, decoratorStep_inserted nl indent hd,
      foldl_decoratorStep_inserted src nl indent ds p _
        fun d' m => h d' (List.mem_cons_of_mem d m)]
    simp [hd, Origin.text?]

theorem decorators_inserted (nl : String) (offset : Nat) (indent : String) :
    ∀ ds : List Decorator, (∀ d ∈ ds, d.origin.span? = none) →
      Chunks.decorators nl offset indent ds =
        (ds.filterMap (·.origin.text?)).map fun name => ⟨offset, "@" ++ name ++ nl ++ indent⟩
  | [], _ => rfl
  | d :: ds, h => by
    have rest := decorators_inserted nl offset indent ds fun d' m => h d' (List.mem_cons_of_mem d m)
    have := h d List.mem_cons_self
    cases hd : d.origin with
    | source sp => simp [hd, Origin.span?] at this
    | inserted text => simp [Chunks.decorators, hd, rest, Origin.text?]

theorem printDecorators_source (nl indent : String) (p : Printer) {d : Decorator}
    (ds : List Decorator) (offset : Nat) {sp : Span} (h : d.origin = .source sp) :
    Printer.printDecorators src nl p (d :: ds) offset indent =
      Printer.printDecorators src nl (Printer.flushTo src p sp.start) ds offset indent := by
  simp only [Printer.printDecorators, List.foldl_cons, decoratorStep_source nl indent h]
  rfl

/-- The decorators of a definition: the inserted ones go in at its keyword. -/
theorem Prints.printDecorators (nl indent : String) {offset : Nat} (hoff : Boundary src offset) :
    ∀ {ds : List Decorator} {lo : Nat} {cs : List Chunk} {p : Printer},
      Placed.decorators src lo ds offset → Prints src cs p → p.cursor ≤ lo →
      Prints src (cs ++ Chunks.decorators nl offset indent ds)
        (Printer.printDecorators src nl p ds offset indent) ∧
      (Printer.printDecorators src nl p ds offset indent).cursor = offset
  | [], lo, cs, p, hpl, h, hc => by
    obtain ⟨flushed, at_offset⟩ := h.flushTo (Nat.le_trans hc hpl) hoff
    simpa [Printer.printDecorators, Printer.writeDecorators, Chunks.decorators] using
      And.intro flushed at_offset
  | d :: ds, lo, cs, p, hpl, h, hc => by
    cases hd : d.origin with
    | source sp =>
      simp only [Placed.decorators, hd] at hpl
      obtain ⟨hstart, hlo, hrest⟩ := hpl
      obtain ⟨flushed, at_start⟩ := h.flushTo (Nat.le_trans hc hlo) hstart
      rw [printDecorators_source nl indent p ds offset hd]
      simpa [Chunks.decorators, hd] using
        Prints.printDecorators nl indent hoff hrest flushed (Nat.le_of_eq at_start)
    | inserted text =>
      simp only [Placed.decorators, hd] at hpl
      obtain ⟨hle, after⟩ := hpl
      have all : ∀ d' ∈ d :: ds, d'.origin.span? = none := by
        intro d' m
        rcases List.mem_cons.mp m with rfl | m
        · simp [hd, Origin.span?]
        · exact after d' m
      obtain ⟨flushed, at_offset⟩ := h.flushTo (Nat.le_trans hc hle) hoff
      have waiting := foldl_decoratorStep_inserted src nl indent (d :: ds) p [] all
      obtain ⟨written, same⟩ :=
        flushed.writeDecorators nl indent ((d :: ds).filterMap (·.origin.text?))
      simp only [Printer.printDecorators, waiting, List.nil_append]
      refine ⟨?_, same.trans at_offset⟩
      rw [decorators_inserted nl offset indent _ all]
      simpa only [at_offset] using written

/-! ### Nested bodies -/

mutual

/-- Printing a nested body writes its inserted decorators, at their keywords. -/
theorem Prints.printBody (nl : String) :
    ∀ (body : List Stmt) (indent : String) (appendAt : Nat) {lo hi : Nat} {cs : List Chunk}
      {p : Printer}, Placed.stmts src lo body hi → Prints src cs p → p.cursor ≤ lo →
      Prints src (cs ++ Chunks.stmts nl body) (Printer.printBody src nl body indent appendAt p) ∧
        (Printer.printBody src nl body indent appendAt p).cursor ≤ hi
  | [], _, _, _, _, _, _, hpl, h, hc => by
    simp only [Printer.printBody, Chunks.stmts, List.append_nil]
    exact ⟨h, Nat.le_trans hc hpl⟩
  | s :: rest, indent, appendAt, lo, hi, cs, p, hpl, h, hc => by
    obtain ⟨sp, ho, hstart, hstop, hlo, hs, hrest⟩ := hpl
    obtain ⟨h₁, e₁⟩ := h.flushTo (Nat.le_trans hc hlo) hstart
    obtain ⟨h₂, e₂⟩ := Prints.printStmt nl s hs h₁ (Nat.le_of_eq e₁)
    obtain ⟨h₃, e₃⟩ := h₂.flushTo e₂ hstop
    obtain ⟨h₄, e₄⟩ := Prints.printBody nl rest indent appendAt hrest h₃ (Nat.le_of_eq e₃)
    have unfolded : Printer.printBody src nl (s :: rest) indent appendAt p =
        Printer.printBody src nl rest indent appendAt
          (Printer.flushTo src (Printer.printStmt src nl s (Printer.flushTo src p sp.start)) sp.stop) := by
      simp only [Printer.printBody, ho]
    rw [unfolded]
    exact ⟨by simpa only [Chunks.stmts, List.append_assoc] using h₄, e₄⟩

/-- Printing what a statement holds writes its inserted decorators. -/
theorem Prints.printStmt (nl : String) :
    ∀ (s : Stmt) {lo hi : Nat} {cs : List Chunk} {p : Printer},
      Placed.stmt src lo s hi → Prints src cs p → p.cursor ≤ lo →
      Prints src (cs ++ Chunks.stmt nl s) (Printer.printStmt src nl s p) ∧
        (Printer.printStmt src nl s p).cursor ≤ hi
  | ⟨o, .functionDef ⟨n, ds, indent, offset, body⟩⟩, lo, hi, cs, p, hpl, h, hc => by
    obtain ⟨hds, hoff, hbody⟩ := hpl
    obtain ⟨h₁, e₁⟩ := Prints.printDecorators nl indent hoff hds h hc
    obtain ⟨h₂, e₂⟩ := Prints.printSuite nl body hbody h₁ (Nat.le_of_eq e₁)
    exact ⟨by simpa only [Printer.printStmt, Chunks.stmt, List.append_assoc] using h₂, e₂⟩
  | ⟨o, .classDef ⟨n, ds, indent, offset, body⟩⟩, lo, hi, cs, p, hpl, h, hc => by
    obtain ⟨hds, hoff, hbody⟩ := hpl
    obtain ⟨h₁, e₁⟩ := Prints.printDecorators nl indent hoff hds h hc
    obtain ⟨h₂, e₂⟩ := Prints.printSuite nl body hbody h₁ (Nat.le_of_eq e₁)
    exact ⟨by simpa only [Printer.printStmt, Chunks.stmt, List.append_assoc] using h₂, e₂⟩
  | ⟨o, .compound cls⟩, lo, hi, cs, p, hpl, h, hc => by
    obtain ⟨h₁, e₁⟩ := Prints.printClauses nl cls hpl h hc
    exact ⟨by simpa only [Printer.printStmt, Chunks.stmt] using h₁, e₁⟩
  | ⟨_, .imports _⟩, _, _, _, _, hpl, h, hc | ⟨_, .importFrom _ _ _⟩, _, _, _, _, hpl, h, hc
  | ⟨_, .docstring⟩, _, _, _, _, hpl, h, hc | ⟨_, .assign _⟩, _, _, _, _, hpl, h, hc
  | ⟨_, .simple⟩, _, _, _, _, hpl, h, hc =>
    ⟨by simpa only [Printer.printStmt, Chunks.stmt, List.append_nil] using h,
      by simpa only [Printer.printStmt] using Nat.le_trans hc hpl⟩

theorem Prints.printClauses (nl : String) :
    ∀ (cls : List Clause) {lo hi : Nat} {cs : List Chunk} {p : Printer},
      Placed.clauses src lo cls hi → Prints src cs p → p.cursor ≤ lo →
      Prints src (cs ++ Chunks.clauses nl cls) (Printer.printClauses src nl cls p) ∧
        (Printer.printClauses src nl cls p).cursor ≤ hi
  | [], _, _, _, _, hpl, h, hc =>
    ⟨by simpa only [Printer.printClauses, Chunks.clauses, List.append_nil] using h,
      by simpa only [Printer.printClauses] using Nat.le_trans hc hpl⟩
  | ⟨k, ns, ss, body⟩ :: rest, lo, hi, cs, p, hpl, h, hc => by
    obtain ⟨mid, hbody, hrest⟩ := hpl
    obtain ⟨h₁, e₁⟩ := Prints.printSuite nl body hbody h hc
    obtain ⟨h₂, e₂⟩ := Prints.printClauses nl rest hrest h₁ e₁
    exact ⟨by simpa only [Printer.printClauses, Chunks.clauses, List.append_assoc] using h₂, e₂⟩

theorem Prints.printSuite (nl : String) :
    ∀ (body : Suite) {lo hi : Nat} {cs : List Chunk} {p : Printer},
      Placed.suite src lo body hi → Prints src cs p → p.cursor ≤ lo →
      Prints src (cs ++ Chunks.suite nl body) (Printer.printSuite src nl body p) ∧
        (Printer.printSuite src nl body p).cursor ≤ hi
  | .inline body, _, _, _, p, hpl, h, hc => by
    simpa only [Printer.printSuite, Chunks.suite] using
      Prints.printBody nl body "" (Printer.appendPoint src p body) hpl h hc
  | .block indent body, _, _, _, p, hpl, h, hc => by
    simpa only [Printer.printSuite, Chunks.suite] using
      Prints.printBody nl body indent (Printer.appendPoint src p body) hpl h hc

end

end Printer

/-! ### The top level -/

theorem lineEnding_ends (src : String) : "\n".toList <:+ (Source.lineEnding src).toList := by
  unfold Source.lineEnding
  split
  split <;> decide

theorem endsWith_of_suffix {s : String} (h : "\n".toList <:+ s.toList) : s.endsWith "\n" = true := by
  rw [String.endsWith_eq_endsWith_toSlice, String.Slice.endsWith_string_iff]
  simpa using h

theorem splitLines_ne_nil : ∀ (cs cur : List Char), cs ≠ [] ∨ cur ≠ [] → splitLines cs cur ≠ []
  | [], cur, h => by
    have : cur ≠ [] := by simpa using h
    simp [splitLines, this]
  | c :: rest, cur, _ => by
    by_cases hc : c = '\n'
    · subst hc
      rw [splitLines.eq_def]
      exact List.cons_ne_nil _ _
    · rw [splitLines.eq_4 cur c rest hc]
      exact splitLines_ne_nil rest (c :: cur) (.inr (List.cons_ne_nil c cur))

/-- The lines of a text that is not empty end with a line feed. -/
theorem lines_ends {nl text : String} (hnl : "\n".toList <:+ nl.toList) (h : text ≠ "") :
    "\n".toList <:+ (Chunks.lines nl text).toList := by
  have some_line : splitLines text.toList [] ≠ [] :=
    splitLines_ne_nil _ _ (.inl (by simpa using h))
  obtain ⟨before, last, split⟩ := List.eq_nil_or_concat _ |>.resolve_left some_line
  rw [Chunks.lines, split, String.toList_join]
  simp
  exact hnl.trans (List.suffix_append_of_suffix (List.suffix_append _ _))

theorem Placed.top_raise {src : String} : ∀ {lo : Nat} {body : List Stmt} {sp : Span},
    Placed.top src lo body → Printer.nextSpan? body = some sp →
      Placed.top src sp.start body ∧ lo ≤ sp.start ∧ Boundary src sp.start
  | _, [], _, _, h => by simp [Printer.nextSpan?] at h
  | lo, s :: rest, sp, hpl, hn => by
    cases ho : s.origin with
    | source sp' =>
      simp only [Printer.nextSpan?, ho, Option.some.injEq] at hn
      subst hn
      simp only [Placed.top, ho] at hpl ⊢
      obtain ⟨hstart, hstop, hlo, hs, hrest⟩ := hpl
      exact ⟨⟨hstart, hstop, Nat.le_refl _, hs, hrest⟩, hlo, hstart⟩
    | inserted text =>
      simp only [Printer.nextSpan?, ho] at hn
      simp only [Placed.top, ho] at hpl ⊢
      obtain ⟨raised, hlo, hb⟩ := Placed.top_raise hpl.2 hn
      exact ⟨⟨hpl.1, raised⟩, hlo, hb⟩

namespace Printer

variable {src : String}

/-- After the last statement from the source, each inserted statement's lines go at the end,
once the text printed so far ends a line. -/
theorem printBody_appended (nl : String) (hnl : "\n".toList <:+ nl.toList) :
    ∀ (body : List Stmt) {lo : Nat} (q : Printer), Placed.top src lo body →
      Printer.nextSpan? body = none → q.cursor = src.utf8ByteSize → "\n".toList <:+ q.out.toList →
      Printer.printBody src nl body "" src.utf8ByteSize q =
        q.write (String.join ((Chunks.appended body).map (Chunks.lines nl)))
  | [], _, q, _, _, _, _ => by
    simp [Printer.printBody, Chunks.appended, write_empty]
  | s :: rest, lo, q, hpl, hn, hq, ends => by
    cases ho : s.origin with
    | source sp => simp [Printer.nextSpan?, ho] at hn
    | inserted text =>
      simp only [Printer.nextSpan?, ho] at hn
      simp only [Placed.top, ho] at hpl
      obtain ⟨nonempty, hrest⟩ := hpl
      have flushed : Printer.flushTo src q src.utf8ByteSize = q := flushTo_of_le (Nat.le_of_eq hq.symm)
      have ended : q.out.endsWith "\n" = true := endsWith_of_suffix ends
      have next_ends : "\n".toList <:+ (q.write (Chunks.lines nl text)).out.toList := by
        simp only [Printer.write, String.toList_append]
        exact List.suffix_append_of_suffix (lines_ends hnl nonempty)
      have unfolded : Printer.printBody src nl (s :: rest) "" src.utf8ByteSize q =
          Printer.printBody src nl rest "" src.utf8ByteSize (q.write (Chunks.lines nl text)) := by
        simp only [Printer.printBody, ho, hn, flushed, ended, Bool.not_true, Bool.and_false,
          Bool.false_eq_true, ↓reduceIte, writeLines_unindented]
      rw [unfolded, printBody_appended nl hnl rest (q.write (Chunks.lines nl text)) hrest hn hq
        next_ends, write_write]
      simp [Chunks.appended, ho, hn, String.join_cons]

/-- Printing the top-level statements: the front chunks are written in where they go, and
the appended statements at the end. -/
theorem printBody_top (nl : String) (hnl : "\n".toList <:+ nl.toList) :
    ∀ (body : List Stmt) {lo : Nat} {cs : List Chunk} {p : Printer},
      Placed.top src lo body → Prints src cs p → p.cursor ≤ lo →
      Rising src 0 (cs ++ Chunks.front nl body) src.utf8ByteSize ∧
      (Printer.flushTo src (Printer.printBody src nl body "" src.utf8ByteSize p)
          src.utf8ByteSize).out =
        spliceFrom src 0 (cs ++ Chunks.front nl body) src.utf8ByteSize ++
          match Chunks.appended body with
          | [] => ""
          | texts => Chunks.ending nl
              (spliceFrom src 0 (cs ++ Chunks.front nl body) src.utf8ByteSize) texts
  | [], lo, cs, p, hpl, h, hc => by
    obtain ⟨flushed, at_size⟩ := h.flushTo (Nat.le_trans hc hpl) (Boundary.size src)
    simp only [Printer.printBody, Chunks.front, Chunks.appended, List.append_nil,
      String.append_empty]
    refine ⟨at_size ▸ flushed.rising, ?_⟩
    rw [flushed.out_eq, at_size]
  | s :: rest, lo, cs, p, hpl, h, hc => by
    cases ho : s.origin with
    | source sp =>
      simp only [Placed.top, ho] at hpl
      obtain ⟨hstart, hstop, hlo, hs, hrest⟩ := hpl
      obtain ⟨h₁, e₁⟩ := h.flushTo (Nat.le_trans hc hlo) hstart
      obtain ⟨h₂, e₂⟩ := Prints.printStmt nl s hs h₁ (Nat.le_of_eq e₁)
      obtain ⟨h₃, e₃⟩ := h₂.flushTo e₂ hstop
      have unfolded : Printer.printBody src nl (s :: rest) "" src.utf8ByteSize p =
          Printer.printBody src nl rest "" src.utf8ByteSize
            (Printer.flushTo src (Printer.printStmt src nl s (Printer.flushTo src p sp.start))
              sp.stop) := by
        simp only [Printer.printBody, ho]
      have front : Chunks.front nl (s :: rest) = Chunks.stmt nl s ++ Chunks.front nl rest := by
        simp [Chunks.front, ho]
      have appended : Chunks.appended (s :: rest) = Chunks.appended rest := by
        simp [Chunks.appended, ho]
      rw [unfolded, front, appended, ← List.append_assoc]
      exact printBody_top nl hnl rest hrest h₃ (Nat.le_of_eq e₃)
    | inserted text =>
      simp only [Placed.top, ho] at hpl
      obtain ⟨nonempty, hrest⟩ := hpl
      cases hn : Printer.nextSpan? rest with
      | some sp =>
        obtain ⟨raised, hlo, hb⟩ := Placed.top_raise hrest hn
        obtain ⟨h₁, e₁⟩ := h.flushTo (Nat.le_trans hc hlo) hb
        have h₂ := h₁.write (Chunks.lines nl text)
        rw [e₁] at h₂
        have unfolded : Printer.printBody src nl (s :: rest) "" src.utf8ByteSize p =
            Printer.printBody src nl rest "" src.utf8ByteSize
              ((Printer.flushTo src p sp.start).write (Chunks.lines nl text)) := by
          simp only [Printer.printBody, ho, hn, writeLines_unindented, write_empty]
        have front : Chunks.front nl (s :: rest) =
            ⟨sp.start, Chunks.lines nl text⟩ :: Chunks.front nl rest := by
          simp [Chunks.front, ho, hn]
        have appended : Chunks.appended (s :: rest) = Chunks.appended rest := by
          simp [Chunks.appended, ho, hn]
        rw [unfolded, front, appended, ← List.singleton_append, ← List.append_assoc]
        exact printBody_top nl hnl rest raised h₂ (by simp [e₁])
      | none =>
        obtain ⟨h₁, e₁⟩ := h.flushTo h.cursor.le_size (Boundary.size src)
        have front : Chunks.front nl (s :: rest) = [] := by simp [Chunks.front, ho, hn]
        have appended : Chunks.appended (s :: rest) = text :: Chunks.appended rest := by
          simp [Chunks.appended, ho, hn]
        rw [front, appended, List.append_nil]
        simp only [Printer.printBody, ho, hn, writeLines_unindented]
        have out₁ : (Printer.flushTo src p src.utf8ByteSize).out =
            spliceFrom src 0 cs src.utf8ByteSize := by
          rw [h₁.out_eq, e₁]
        generalize Printer.flushTo src p src.utf8ByteSize = p₁ at h₁ e₁ out₁ ⊢
        generalize hsep : (if (!p₁.out.isEmpty && !p₁.out.endsWith "\n") = true then nl
          else "") = sep
        have separated : (if (!p₁.out.isEmpty && !p₁.out.endsWith "\n") = true then p₁.write nl
            else p₁) = p₁.write sep := by
          rw [← hsep]
          split <;> simp [write_empty]
        have ends : "\n".toList <:+ ((p₁.write sep).write (Chunks.lines nl text)).out.toList := by
          simp only [Printer.write, String.toList_append]
          exact List.suffix_append_of_suffix (lines_ends hnl nonempty)
        rw [separated, printBody_appended nl hnl rest _ hrest hn (by simpa using e₁) ends,
          flushTo_of_le (by simp [e₁])]
        refine ⟨e₁ ▸ h₁.rising, ?_⟩
        simp only [Chunks.ending, ← out₁, hsep, Printer.write, List.map_cons, String.join_cons,
          String.append_assoc]

end Printer

/-- A module whose pieces lie in order prints as its source with exactly its chunks spliced
in: no byte of the source is changed, dropped or moved. -/
theorem Module.render_splices {m : Module} (h : Placed.top m.source 0 m.body) :
    Splices m.source m.chunks m.render := by
  obtain ⟨rising, printed⟩ := Printer.printBody_top (Source.lineEnding m.source)
    (lineEnding_ends m.source) m.body h (Printer.prints_start m.source) (Nat.le_refl 0)
  rw [List.nil_append] at rising printed
  have rendered : m.render = (Printer.flushTo m.source
      (Printer.printBody m.source (Source.lineEnding m.source) m.body "" m.source.utf8ByteSize
        ⟨"", 0⟩) m.source.utf8ByteSize).out := rfl
  unfold Module.chunks
  cases happ : Chunks.appended m.body with
  | nil =>
    rw [happ, String.append_empty] at printed
    exact ⟨rising, rendered.trans printed⟩
  | cons text texts =>
    rw [happ] at printed
    refine ⟨rising.snoc (Boundary.size m.source) (Nat.le_refl _) _, ?_⟩
    rw [rendered, printed]
    exact spliceFrom_write _ _

end PyTune
