import PyTune.Grammar.Error
import PyTune.Token.Literal
import PyTune.Tree.Basic
import PyTune.Text.Identifier

/-!
# Reading lexemes

The grammar reads lexemes through a cursor that only moves forward and remembers where the
last lexeme of code ended, which is where a statement's span ends. A consumed lexical fault
stops reading with that fault.
-/

namespace PyTune

/-- A source and its lexemes. `rests` holds, for each index, the tokens from that index on, so
that a lookahead reads the tokens ahead without copying them. -/
structure Tape where
  source : String
  lexemes : Array Lexeme
  rests : Array (List Token)

/-- Every tail of a list, the list itself first and the empty list last; each tail is a cell of
the list, not a copy. -/
def Tape.tailsOf : List Token → List (List Token)
  | [] => [[]]
  | ts@(_ :: rest) => ts :: Tape.tailsOf rest

/-- The tape of a source. -/
def Tape.ofSource (src : String) : Tape :=
  let lexemes := Lexeme.scan src
  { source := src, lexemes, rests := (Tape.tailsOf (lexemes.toList.map (·.token))).toArray }

/-- How far reading has got: the index of the next lexeme, and the end offset of the last
lexeme of code consumed. -/
structure Cursor where
  index : Nat
  lastEnd : Nat

/-- A fault and the offset at which it was found. -/
structure Halt where
  fault : SyntaxFault
  offset : Nat

/-- The lexeme at an index; past the last one, the end of input. -/
def Tape.lexemeAt (t : Tape) (i : Nat) : Lexeme :=
  t.lexemes[i]?.getD ⟨.eof, ⟨t.source.utf8ByteSize, t.source.utf8ByteSize⟩⟩

/-- How reading may move a cursor along a tape: forward, past lexemes that are no lexical
faults, with the end of code left where it was or moved to the end of a lexeme passed. -/
structure Tape.Advance (t : Tape) (c c' : Cursor) : Prop where
  index_le : c.index ≤ c'.index
  noFault : ∀ k, c.index ≤ k → k < c'.index → (t.lexemeAt k).token.fault? = none
  lastEnd : c'.lastEnd = c.lastEnd ∨
    ∃ k, c.index ≤ k ∧ k < c'.index ∧ c'.lastEnd = (t.lexemeAt k).span.stop

namespace Tape.Advance

theorem refl (t : Tape) (c : Cursor) : t.Advance c c :=
  ⟨Nat.le_refl _, fun _ h h' => absurd h' (Nat.not_lt.mpr h), .inl rfl⟩

theorem trans {t : Tape} {c₁ c₂ c₃ : Cursor} (h₁ : t.Advance c₁ c₂) (h₂ : t.Advance c₂ c₃) :
    t.Advance c₁ c₃ := by
  refine ⟨Nat.le_trans h₁.index_le h₂.index_le, fun k lo hi => ?_, ?_⟩
  · by_cases hk : k < c₂.index
    · exact h₁.noFault k lo hk
    · exact h₂.noFault k (Nat.le_of_not_lt hk) hi
  · have := h₁.index_le
    have := h₂.index_le
    rcases h₂.lastEnd with e₂ | ⟨k, lo, hi, e₂⟩
    · rcases h₁.lastEnd with e₁ | ⟨k, lo', hi', e₁⟩
      · exact .inl (e₂.trans e₁)
      · exact .inr ⟨k, lo', by omega, e₂.trans e₁⟩
    · exact .inr ⟨k, by omega, hi, e₂⟩

/-- Moving past one lexeme that is no fault. -/
theorem next {t : Tape} {c : Cursor} (h : (t.lexemeAt c.index).token.fault? = none)
    (e : Nat) (he : e = c.lastEnd ∨ e = (t.lexemeAt c.index).span.stop) :
    t.Advance c ⟨c.index + 1, e⟩ := by
  refine ⟨Nat.le_succ _, fun k lo hi => ?_, ?_⟩
  · rw [show k = c.index by simp only at hi; omega]
    exact h
  · rcases he with rfl | rfl
    · exact .inl rfl
    · exact .inr ⟨c.index, Nat.le_refl _, Nat.lt_succ_self _, rfl⟩

end Tape.Advance

/-- How reading may stop on a tape, from a cursor: at a lexeme at or after it, past lexemes
that are no lexical faults. The fault is found where that lexeme starts; it is the lexeme's
own lexical fault if it is one, and a fault of the grammar otherwise. -/
def Tape.Stops (t : Tape) (c : Cursor) (h : Halt) : Prop :=
  ∃ i, c.index ≤ i ∧ (∀ k, c.index ≤ k → k < i → (t.lexemeAt k).token.fault? = none) ∧
    h.offset = (t.lexemeAt i).span.start ∧
    match (t.lexemeAt i).token.fault? with
    | some f => h.fault = .lexical f
    | none => ∃ g, h.fault = .grammar g

namespace Tape.Stops

/-- Stopping at the next lexeme. -/
theorem here {t : Tape} {c : Cursor} {h : Halt} (ho : h.offset = (t.lexemeAt c.index).span.start)
    (hf : match (t.lexemeAt c.index).token.fault? with
      | some f => h.fault = .lexical f
      | none => ∃ g, h.fault = .grammar g) : t.Stops c h :=
  ⟨c.index, Nat.le_refl _, fun _ lo hi => absurd hi (Nat.not_lt.mpr lo), ho, hf⟩

/-- Where reading stops after the cursor has moved, it stops from the cursor before. -/
theorem after {t : Tape} {c c₁ : Cursor} {h : Halt} (adv : t.Advance c c₁) (hs : t.Stops c₁ h) :
    t.Stops c h := by
  obtain ⟨i, le, clean, at_i⟩ := hs
  refine ⟨i, Nat.le_trans adv.index_le le, fun k lo hi => ?_, at_i⟩
  by_cases hk : k < c₁.index
  · exact adv.noFault k lo hk
  · exact clean k (Nat.le_of_not_lt hk) hi

end Tape.Stops

/-- Reading a tape from a cursor: a value and the cursor moved on, or a fault. The type holds
the only way the cursor may move and the only way reading may stop, so that every reading rule
moves it forward, and reports a lexical fault where it stands, by construction. -/
def Grammar (α : Type) : Type :=
  (t : Tape) → (c : Cursor) →
    Except { h : Halt // t.Stops c h } { r : α × Cursor // t.Advance c r.2 }

namespace Grammar

instance : Monad Grammar where
  pure a := fun t c => .ok ⟨(a, c), .refl t c⟩
  bind x f := fun t c =>
    match x t c with
    | .error h => .error h
    | .ok ⟨(a, c₁), h₁⟩ =>
      match f a t c₁ with
      | .error ⟨h, stops⟩ => .error ⟨h, stops.after h₁⟩
      | .ok ⟨r, h₂⟩ => .ok ⟨r, h₁.trans h₂⟩

/-- Reads the tape and the cursor without moving. -/
def look (f : Tape → Cursor → α) : Grammar α :=
  fun t c => .ok ⟨(f t c, c), .refl t c⟩

instance : MonadReaderOf Tape Grammar where
  read := look fun t _ => t

end Grammar

namespace Token

/-- A string literal that is no f-string. -/
def isStr : Token → Bool
  | .str _ => true
  | _ => false

/-- A token that can begin an expression. -/
def startsExpression : Token → Bool
  | .number | .str _ | .fstr _ | .ellipsis | .lParen | .lBracket | .lBrace | .star => true
  | .keyword k =>
    k == .True || k == .False || k == .None || k == .not || k == .lambda || k == .await ||
      k.isSoft
  | .op o => o == "+" || o == "-" || o == "~"
  | .name _ => true
  | _ => false

/-- An opening bracket. -/
def isOpening : Token → Bool
  | .lParen | .lBracket | .lBrace => true
  | _ => false

/-- A closing bracket. -/
def isClosing : Token → Bool
  | .rParen | .rBracket | .rBrace => true
  | _ => false

/-- A keyword that opens a further clause of a compound statement. -/
def clauseKeyword? : Token → Option String
  | .keyword .elif => some "elif"
  | .keyword .else => some "else"
  | .keyword .except => some "except"
  | .keyword .finally => some "finally"
  | _ => none

end Token

/-! ### Lookahead -/

/-- After `match` or `case` and the token after it: the logical line reaches a colon outside
brackets (a colon that ends a lambda's parameters aside) before an equals sign outside
brackets, the end of the line or a lexical fault. -/
def reachesBlockColon : List Token → Nat → Nat → Bool
  | [], _, _ => false
  | t :: ts, depth, lambdas =>
    match t with
    | .colon =>
      if depth == 0 then
        if lambdas == 0 then true else reachesBlockColon ts depth (lambdas - 1)
      else reachesBlockColon ts depth lambdas
    | .eq => if depth == 0 then false else reachesBlockColon ts depth lambdas
    | .newline | .semicolon | .eof | .dedent | .invalid _ => false
    | .keyword .lambda =>
      if depth == 0 then reachesBlockColon ts depth (lambdas + 1)
      else reachesBlockColon ts depth lambdas
    | t =>
      if t.isOpening then reachesBlockColon ts (depth + 1) lambdas
      else if t.isClosing then reachesBlockColon ts (depth - 1) lambdas
      else reachesBlockColon ts depth lambdas

/-- The soft keyword `match` or `case` opens a block: the tokens after it (the keyword
itself excluded) start with no operator or end of statement, and reach a block's colon. -/
def opensBlock : List Token → Bool
  | [] => false
  | t :: ts =>
    match t with
    | .eq | .walrus | .augAssign | .colon | .dot | .comma | .newline | .semicolon | .eof
    | .dedent => false
    | _ => reachesBlockColon (t :: ts) 0 0

/-- From an opening parenthesis: the group holds `as` or a comma at its top level and is
followed by a colon. Then the parentheses enclose a list of with-items. -/
def withItemsGroup : List Token → Nat → Bool → Bool
  | [], _, _ => false
  | t :: ts, depth, items =>
    if t.isOpening then withItemsGroup ts (depth + 1) items
    else if t.isClosing then
      if depth - 1 == 0 then items && ts.head? == some .colon
      else withItemsGroup ts (depth - 1) items
    else match t with
      | .keyword .as | .comma =>
        if depth == 1 then withItemsGroup ts depth true else withItemsGroup ts depth items
      | .eof | .invalid _ => false
      | _ => withItemsGroup ts depth items

/-- Which clause may follow in a compound statement, given its first and its latest clause. -/
def continuesWith (first last next : String) : Bool :=
  (first == "if" && (last == "if" || last == "elif") && (next == "elif" || next == "else")) ||
  ((first == "for" || first == "while") && (last == "for" || last == "while") &&
    next == "else") ||
  (first == "try" && (last == "try" || last == "except") &&
    (next == "except" || next == "finally")) ||
  (first == "try" && last == "except" && next == "else") ||
  (first == "try" && last == "else" && next == "finally")

/-! ### Decorator shapes -/

/-- The length of the longest prefix that alternates names and dots, starting with a name
when `wantName`. -/
def dottedPrefix : List Lexeme → Bool → Nat
  | [], _ => 0
  | l :: ls, true => if l.token.nameText?.isSome then dottedPrefix ls false + 1 else 0
  | l :: ls, false => if l.token == .dot then dottedPrefix ls true + 1 else 0

/-- From an opening bracket: the bracket that closes it is the last lexeme. -/
def closesAtEnd : List Lexeme → Nat → Bool
  | [], _ => false
  | l :: ls, depth =>
    if l.token.isOpening then closesAtEnd ls (depth + 1)
    else if l.token.isClosing then
      if depth - 1 == 0 then ls.isEmpty else closesAtEnd ls (depth - 1)
    else closesAtEnd ls depth

/-- The shape of a decorator from the lexemes after its `@`: a dotted name alone, a dotted name
followed by parentheses that close at the end, or anything else. -/
def DecoratorShape.ofLexemes (src : String) (ls : List Lexeme) : DecoratorShape :=
  let n := dottedPrefix ls true
  let n := if n % 2 == 0 then n - 1 else n
  match ls.head?, ls[n - 1]? with
  | some first, some last =>
    if n == 0 then .other
    else
      let dotted := Span.text ⟨first.span.start, last.span.stop⟩ src
      match ls.drop n with
      | [] => .name dotted
      | rest@(l :: _) => if l.token == .lParen && closesAtEnd rest 0 then .call dotted else .other
  | _, _ => .other

/-- The names (soft keywords included) and the values of the plain string literals among a
clause header's lexemes, each in order. -/
def headerWords (src : String) (ls : List Lexeme) : List String × List String :=
  let names := ls.filterMap fun l =>
    if l.token.isStr then none else (l.token.nameText?).map fun _ => l.span.text src
  let strings := ls.filterMap fun l =>
    match l.token with
    | .str raw => stringValue? raw
    | _ => none
  (names, strings)

/-- The plain names among assignment targets: each target's text without leading stars and
outer white space, kept if it is an identifier. -/
def boundNames (src : String) (targets : List Span) : List String :=
  targets.filterMap fun sp =>
    let t := Text.trim (String.ofList ((sp.text src).toList.dropWhile (· == '*')))
    if Text.isIdentifier t then some t else none

/-! ### Moving the cursor -/

/-- The cursor after consuming a lexeme: one index on, and the end of code at the lexeme's
end unless it is a layout token. -/
def Cursor.past (c : Cursor) (l : Lexeme) : Cursor :=
  { index := c.index + 1, lastEnd := if l.token.isLayout then c.lastEnd else l.span.stop }

namespace Grammar

/-- The next lexeme. -/
def peekLexeme : Grammar Lexeme :=
  look fun t c => t.lexemeAt c.index

/-- The next token. -/
def peek : Grammar Token :=
  look fun t c => (t.lexemeAt c.index).token

/-- The offset at which the next lexeme starts. -/
def peekStart : Grammar Nat :=
  look fun t c => (t.lexemeAt c.index).span.start

/-- The index of the next lexeme. -/
def position : Grammar Nat :=
  look fun _ c => c.index

/-- Where the last lexeme of code consumed ends. -/
def lastEnd : Grammar Nat :=
  look fun _ c => c.lastEnd

/-- The source text between two offsets. -/
def text (a b : Nat) : Grammar String := do
  return Span.text ⟨a, b⟩ (← read).source

/-- The tokens from the next one on. -/
def upcoming : Grammar (List Token) :=
  look fun t c => (t.rests[c.index]?).getD []

/-- The token after the next one can stand for a name. -/
def secondIsName : Grammar Bool :=
  look fun t c => (t.lexemeAt (c.index + 1)).token.nameText?.isSome

/-- Consumes the next lexeme; a lexical fault stops reading. -/
def bump : Grammar Lexeme := fun t c =>
  match h : (t.lexemeAt c.index).token.fault? with
  | some f => .error ⟨⟨.lexical f, (t.lexemeAt c.index).span.start⟩, .here rfl (by rw [h])⟩
  | none =>
    .ok ⟨(t.lexemeAt c.index, c.past (t.lexemeAt c.index)),
      Tape.Advance.next h _ (by split <;> simp)⟩

/-- Consumes the next lexeme, whatever it is. -/
def skip : Grammar Unit :=
  discard bump

/-- Stops at the next lexeme with a fault of the grammar, or with the lexical fault that the
next lexeme is. -/
def fail (g : GrammarFault) : Grammar α := fun t c =>
  let l := t.lexemeAt c.index
  match e : l.token.fault? with
  | some lf => .error ⟨⟨.lexical lf, l.span.start⟩, .here rfl (by rw [e])⟩
  | none => .error ⟨⟨.grammar g, l.span.start⟩, .here rfl (by rw [e]; exact ⟨g, rfl⟩)⟩

/-- Stops because the nesting is deeper than the reader follows. -/
def exhausted : Grammar α :=
  fail .tooDeep

/-- Consumes the given token, or stops. -/
def expect (t : Token) (e : Expectation) : Grammar Unit := do
  if (← peek) == t then skip else fail (.expected e)

/-- Consumes a name (or a soft keyword) and gives its text, or stops. -/
def expectName (e : Expectation) : Grammar String := do
  match (← peek).nameText? with
  | some n => skip; return n
  | none => fail (.expected e)

/-- The lexemes of code consumed since the index `i`. -/
def consumedSince (i : Nat) : Grammar (List Lexeme) :=
  look fun t c => (t.lexemes.extract i c.index).toList.filter fun l => !l.token.isLayout

/-- The next token can begin an expression. -/
def startsExpression : Grammar Bool := do
  return (← peek).startsExpression

/-- Consumes tokens while they satisfy `p`, at most `fuel` of them. -/
def skipWhile (p : Token → Bool) : Nat → Grammar Unit
  | 0 => pure ()
  | fuel + 1 => do
    if p (← peek) then
      skip
      skipWhile p fuel

/-- Consumes line ends. -/
def skipNewlines : Grammar Unit := do
  skipWhile (· == .newline) (← read).lexemes.size

/-- After a simple statement: consumes a semicolon and tells whether another statement
follows on the line. -/
def eatSemicolon : Grammar Bool := do
  if (← peek) != .semicolon then return false
  skip
  match (← peek) with
  | .newline | .eof | .dedent => return false
  | _ => return true

/-- The end of a logical line: a line end, a dedent or the end of input. -/
def endLine : Grammar Unit := do
  match (← peek) with
  | .newline => skip
  | .eof | .dedent => pure ()
  | _ => fail .invalidSyntax

/-- The rest of a dotted name after its first name: `.name` repeated, at most `fuel` times. -/
def dottedTail : Nat → Grammar Unit
  | 0 => exhausted
  | fuel + 1 => do
    if (← peek) == .dot then
      skip
      discard (expectName .nameAfterDot)
      dottedTail fuel

/-- A dotted name; gives its source text from the first to the last name. -/
def dottedName : Grammar String := do
  let start ← peekStart
  discard (expectName .moduleName)
  dottedTail (← read).lexemes.size
  text start (← lastEnd)

/-- `as name`, if present. -/
def asName : Grammar (Option String) := do
  if (← peek) == .keyword .as then
    skip
    return some (← expectName .nameAfterAs)
  else return none

end Grammar

end PyTune
