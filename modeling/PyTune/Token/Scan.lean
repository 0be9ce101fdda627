import PyTune.Token.Basic

/-!
# Scanning source into lexemes

`Lexeme.scan` reads a source text into its lexemes, ending with `eof`. Blanks, comments,
blank lines and line continuations produce nothing; a line feed outside brackets ends a
logical line; at the start of a logical line the indentation opens or closes levels. A lexical
fault produces one `invalid` lexeme, and only `eof` at the end of the text follows it.
-/

namespace PyTune

/-- Where scanning stands: the unread characters and their byte offset, the stack of open
indentation columns (innermost first), the dedents still owed, whether a logical line is
about to start, the open brackets with their offsets (innermost first), and whether a fault
has ended the stream. -/
structure Scanner where
  rest : List Char
  pos : Nat
  size : Nat
  indents : List Nat := [0]
  pendingDedents : Nat := 0
  atLineStart : Bool := true
  brackets : List (Char × Nat) := []
  failed : Bool := false

namespace Scanner

/-- The scanner at the start of a source text. -/
def ofSource (src : String) : Scanner :=
  { rest := src.toList, pos := 0, size := src.utf8ByteSize }

/-- The number of bytes that characters take in UTF-8. -/
def utf8Length : List Char → Nat
  | [] => 0
  | c :: cs => c.utf8Size + utf8Length cs

/-! ### Character classes -/

/-- The letters that may prefix a string literal. -/
def isPrefixLetter (c : Char) : Bool :=
  ['r', 'R', 'b', 'B', 'u', 'U', 'f', 'F'].contains c

/-- The letters that may stand second in a two-letter prefix. -/
def isSecondPrefixLetter (c : Char) : Bool :=
  ['r', 'R', 'b', 'B', 'f', 'F'].contains c

/-- A quote that opens a string literal. -/
def isQuote (c : Char) : Bool :=
  c == '"' || c == '\''

/-- The characters of a name: ASCII letters and digits, the underscore, and every character
outside ASCII. -/
def isNameChar (c : Char) : Bool :=
  c.isAlphanum || c == '_' || 0x80 ≤ c.toNat

/-- A string literal starts here: at most two prefix letters, the second not `u` or `U`, then
a quote. Gives the prefix letters, the quote and what follows the quote. -/
def stringStart? (cs : List Char) : Option (List Char × Char × List Char) :=
  let (letters, after) := cs.span isPrefixLetter
  let lettersOk := match letters with
    | [] | [_] => true
    | [_, b] => isSecondPrefixLetter b
    | _ => false
  match after with
  | q :: more => if lettersOk && isQuote q then some (letters, q, more) else none
  | [] => none

/-- How the body of a string literal ended. -/
inductive BodyEnd where
  /-- The closing quotes were read. -/
  | closed
  /-- A one-line literal met a line feed, which is left unread. -/
  | lineEnd
  /-- The text ended inside the literal. -/
  | inputEnd

/-- Reads the body of a string literal after its opening quotes, up to and including the
closing quotes. A backslash takes the next character with it. Gives what was read, how the
body ended and what is left. -/
def quotedBody (q : Char) (triple : Bool) : List Char → List Char × BodyEnd × List Char
  | [] => ([], .inputEnd, [])
  | '\\' :: c :: cs =>
    let (body, e, rest) := quotedBody q triple cs
    ('\\' :: c :: body, e, rest)
  | ['\\'] => (['\\'], .inputEnd, [])
  | c :: cs =>
    let more := fun (_ : Unit) =>
      let (body, e, rest) := quotedBody q triple cs
      (c :: body, e, rest)
    if triple then
      match cs with
      | c1 :: c2 :: rest =>
        if c == q && c1 == q && c2 == q then ([c, c1, c2], .closed, rest) else more ()
      | _ => more ()
    else if c == q then ([c], .closed, cs)
    else if c == '\n' then ([], .lineEnd, c :: cs)
    else more ()

/-- The characters of a number: ASCII letters and digits, underscores and points, and a sign
right after an `e` or `E`. `prev` is the character before the first one. -/
def numberRun (prev : Char) : List Char → List Char × List Char
  | [] => ([], [])
  | c :: cs =>
    if c.isAlphanum || c == '_' || c == '.' ||
        ((c == '+' || c == '-') && (prev == 'e' || prev == 'E')) then
      let (digits, rest) := numberRun c cs
      (c :: digits, rest)
    else ([], c :: cs)

/-- The operator or delimiter (other than a bracket) that starts with `c` followed by `cs`,
and how many characters it takes. -/
def operator : Char → List Char → Option (Token × Nat)
  | ',', _ => some (.comma, 1)
  | ';', _ => some (.semicolon, 1)
  | '@', '=' :: _ => some (.augAssign, 2)
  | '@', _ => some (.atSign, 1)
  | '=', '=' :: _ => some (.op "==", 2)
  | '=', _ => some (.eq, 1)
  | ':', '=' :: _ => some (.walrus, 2)
  | ':', _ => some (.colon, 1)
  | '.', '.' :: '.' :: _ => some (.ellipsis, 3)
  | '.', _ => some (.dot, 1)
  | '*', '*' :: '=' :: _ => some (.augAssign, 3)
  | '*', '*' :: _ => some (.dblStar, 2)
  | '*', '=' :: _ => some (.augAssign, 2)
  | '*', _ => some (.star, 1)
  | '-', '>' :: _ => some (.arrow, 2)
  | '!', '=' :: _ => some (.op "!=", 2)
  | '~', _ => some (.op "~", 1)
  | c, rest =>
    if ['+', '%', '^', '&', '|', '-'].contains c then
      if rest.head? == some '=' then some (.augAssign, 2) else some (.op (String.singleton c), 1)
    else if ['/', '<', '>'].contains c then
      match rest with
      | d :: more =>
        if d == c then
          if more.head? == some '=' then some (.augAssign, 3)
          else some (.op (String.ofList [c, c]), 2)
        else if d == '=' then some (.op (String.ofList [c, '=']), 2)
        else some (.op (String.singleton c), 1)
      | [] => some (.op (String.singleton c), 1)
    else none

/-- The opening bracket that a closing one matches. -/
def openerOf (c : Char) : Char :=
  if c == ')' then '(' else if c == ']' then '[' else '{'

/-! ### Steps -/

/-- A lexeme from `start` to the current position. -/
def emit (s : Scanner) (start : Nat) (t : Token) : Lexeme × Scanner :=
  (⟨t, ⟨start, s.pos⟩⟩, s)

/-- A lexical fault found at `start`: the lexeme covers what was read since, and the stream
ends. -/
def fail (s : Scanner) (start : Nat) (f : LexFault) : Lexeme × Scanner :=
  (⟨.invalid f, ⟨start, max s.pos start⟩⟩, { s with failed := true })

/-- Skips blank lines, comment lines and the blanks before the next code on a line. Gives the
column of that code (a tab moves to the next multiple of eight, a form feed back to zero),
the characters from the code on, and their offset. -/
def skipToCode : List Char → Nat → Nat → Bool → Nat × List Char × Nat
  | [], pos, col, _ => (col, [], pos)
  | c :: cs, pos, col, true =>
    if c == '\n' then skipToCode cs (pos + 1) 0 false
    else skipToCode cs (pos + c.utf8Size) col true
  | ' ' :: cs, pos, col, false => skipToCode cs (pos + 1) (col + 1) false
  | '\t' :: cs, pos, col, false => skipToCode cs (pos + 1) ((col + 8) / 8 * 8) false
  | '\x0c' :: cs, pos, _, false => skipToCode cs (pos + 1) 0 false
  | '\n' :: cs, pos, _, false => skipToCode cs (pos + 1) 0 false
  | '\r' :: '\n' :: cs, pos, _, false => skipToCode cs (pos + 2) 0 false
  | '\r' :: cs, pos, _, false => skipToCode cs (pos + 1) 0 false
  | '#' :: cs, pos, col, false => skipToCode cs (pos + 1) col true
  | cs, pos, col, false => (col, cs, pos)

/-- Closes the indentation levels deeper than `col`, keeping the outermost level; gives the
levels left and how many were closed. -/
def popAbove (col : Nat) : List Nat → Nat → List Nat × Nat
  | [], n => ([], n)
  | top :: below, n =>
    match below with
    | [] => ([top], n)
    | _ :: _ => if col < top then popAbove col below (n + 1) else (top :: below, n)

/-- Compares the column of a line's code with the open levels: a deeper column opens a
level, a shallower one closes levels down to an open level of that column, which must
exist. -/
def indentTo (s : Scanner) (col : Nat) : Option Lexeme × Scanner :=
  let top := s.indents.head?.getD 0
  if top < col then
    (some ⟨.indent, ⟨s.pos, s.pos⟩⟩, { s with indents := col :: s.indents })
  else if col < top then
    let (stack, n) := popAbove col s.indents 0
    if stack.head? == some col then
      (some ⟨.dedent, ⟨s.pos, s.pos⟩⟩, { s with indents := stack, pendingDedents := n - 1 })
    else
      let (l, s') := s.fail s.pos .badDedent
      (some l, s')
  else (none, s)

/-- At the start of a logical line: skips to the line's code and compares its indentation. -/
def lineStart (s : Scanner) : Option Lexeme × Scanner :=
  let (col, rest, pos) := skipToCode s.rest s.pos 0 false
  let s := { s with rest, pos, atLineStart := false }
  match rest with
  | [] => (none, s)
  | _ => s.indentTo col

/-- At the end of the text: an open bracket is a fault; otherwise each open level is closed
by a dedent, and then the input ends. -/
def atEnd (s : Scanner) : Lexeme × Scanner :=
  match s.brackets with
  | (opening, offset) :: _ => s.fail offset (.unclosed opening)
  | [] =>
    match s.indents with
    | _ :: _ :: _ =>
      (⟨.dedent, ⟨s.pos, s.pos⟩⟩,
        { s with indents := [0], pendingDedents := s.indents.length - 2 })
    | _ => (⟨.eof, ⟨s.pos, s.pos⟩⟩, s)

/-- A string literal with the given prefix letters and opening quote; `more` follows the
quote. -/
def lexString (s : Scanner) (letters : List Char) (q : Char) (more : List Char) :
    Lexeme × Scanner :=
  let start := s.pos
  let (opening, triple, body) := match more with
    | a :: b :: r => if a == q && b == q then ([q, q, q], true, r) else ([q], false, more)
    | _ => ([q], false, more)
  let (read, ending, rest) := quotedBody q triple body
  let consumed := letters ++ opening ++ read
  let s' := { s with rest, pos := start + utf8Length consumed }
  match ending with
  | .closed =>
    let raw := String.ofList consumed
    s'.emit start (if letters.any (fun c => c == 'f' || c == 'F') then .fstr raw else .str raw)
  | .lineEnd => s'.fail start .unterminatedString
  | .inputEnd => s'.fail start (if triple then .unterminatedTripleString else .unterminatedString)

/-- A bracket, operator or delimiter starting with `c`; anything else is a fault. -/
def punctuation (s : Scanner) (c : Char) (cs : List Char) : Lexeme × Scanner :=
  let start := s.pos
  let s1 := { s with rest := cs, pos := start + 1 }
  if c == '(' then { s1 with brackets := (c, start) :: s.brackets }.emit start .lParen
  else if c == '[' then { s1 with brackets := (c, start) :: s.brackets }.emit start .lBracket
  else if c == '{' then { s1 with brackets := (c, start) :: s.brackets }.emit start .lBrace
  else if c == ')' || c == ']' || c == '}' then
    match s.brackets with
    | [] => s1.fail start (.unmatchedClose c)
    | (o, _) :: outer =>
      if o == openerOf c then
        { s1 with brackets := outer }.emit start
          (if c == ')' then .rParen else if c == ']' then .rBracket else .rBrace)
      else s1.fail start (.mismatchedClose o c)
  else
    match operator c cs with
    | some (t, n) => { s with rest := cs.drop (n - 1), pos := start + n }.emit start t
    | none => s1.fail start (.unexpectedChar c)

theorem length_dropWhile_le (p : Char → Bool) (cs : List Char) :
    (cs.dropWhile p).length ≤ cs.length :=
  (List.dropWhile_sublist p).length_le

/-- The input after the text of a comment: from the line feed that ends it on. -/
def afterComment (cs : List Char) : { r : List Char // r.length ≤ cs.length } :=
  ⟨cs.dropWhile (· != '\n'), length_dropWhile_le _ cs⟩

/-- Reads on from inside a logical line: blanks, comments and continuations are skipped, as
are line feeds inside brackets; then comes one lexeme. `input` is the unread input, `s.rest`. -/
def scanBody (s : Scanner) : (input : List Char) → Lexeme × Scanner
  | [] => s.atEnd
  | c :: cs =>
    let start := s.pos
    if c == ' ' || c == '\t' || c == '\r' || c == '\x0c' then
      scanBody { s with rest := cs, pos := start + 1 } cs
    else if c == '\n' then
      if s.brackets.isEmpty then
        (⟨.newline, ⟨start, start + 1⟩⟩, { s with rest := cs, pos := start + 1, atLineStart := true })
      else scanBody { s with rest := cs, pos := start + 1 } cs
    else if c == '\\' then
      match cs with
      | '\r' :: '\n' :: r => scanBody { s with rest := r, pos := start + 3 } r
      | '\n' :: r => scanBody { s with rest := r, pos := start + 2 } r
      | '\r' :: r => { s with rest := r, pos := start + 2 }.fail start .badContinuation
      | r => { s with rest := r, pos := start + 1 }.fail start .badContinuation
    else if c == '#' then
      match afterComment cs with
      | ⟨r, _⟩ =>
        scanBody { s with rest := r, pos := start + 1 + utf8Length (cs.takeWhile (· != '\n')) } r
    else
      match stringStart? (c :: cs) with
      | some (letters, q, more) => s.lexString letters q more
      | none =>
        if c.isDigit || (c == '.' && (cs.head?.map Char.isDigit).getD false) then
          let (digits, after) := numberRun ' ' (c :: cs)
          { s with rest := after, pos := start + digits.length }.emit start .number
        else if isNameChar c then
          let (word, after) := (c :: cs).span isNameChar
          let text := String.ofList word
          { s with rest := after, pos := start + utf8Length word }.emit start
            (match Keyword.ofName? text with
              | some k => .keyword k
              | none => .name text)
        else s.punctuation c cs
termination_by input => input.length
decreasing_by
  all_goals
    simp only [List.length_cons]
    omega

/-- The next lexeme and the scanner after it. -/
def next (s : Scanner) : Lexeme × Scanner :=
  if s.failed then (⟨.eof, ⟨s.size, s.size⟩⟩, s)
  else if 0 < s.pendingDedents then
    (⟨.dedent, ⟨s.pos, s.pos⟩⟩, { s with pendingDedents := s.pendingDedents - 1 })
  else if s.atLineStart && s.brackets.isEmpty then
    match s.lineStart with
    | (some l, s') => (l, s')
    | (none, s') => s'.scanBody s'.rest
  else s.scanBody s.rest

/-- The lexemes up to and including the first `eof`, taking at most `fuel` of them. -/
def lexemes : Nat → Scanner → Array Lexeme → Array Lexeme
  | 0, _, acc => acc
  | fuel + 1, s, acc =>
    let (l, s') := s.next
    if l.token == .eof then acc.push l else lexemes fuel s' (acc.push l)

end Scanner

/-- The lexemes of a source text, ending with `eof`. A text of `n` bytes has at most `3n + 4`
lexemes: each lexeme but the layout ones takes a byte, an indent needs a line start and a
dedent an indent. -/
def Lexeme.scan (src : String) : Array Lexeme :=
  Scanner.lexemes (4 * src.utf8ByteSize + 8) (Scanner.ofSource src) #[]

end PyTune
