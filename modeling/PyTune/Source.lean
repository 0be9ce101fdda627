/-!
# Source text and positions

Positions in a source text are byte offsets, counted from zero. A `Span` is the half-open
range of bytes of one piece of the text. Errors report 1-based lines and byte columns; the
indentation of a line and the line ending of a file are read off the text.
-/

namespace PyTune

/-- The bytes from `start` up to, not including, `stop`. -/
structure Span where
  start : Nat
  stop : Nat
deriving DecidableEq, Repr, Inhabited

/-- The text that a span covers; both ends are character boundaries wherever spans come from
the scanner. -/
def Span.text (sp : Span) (src : String) : String :=
  String.Pos.Raw.extract src ⟨sp.start⟩ ⟨sp.stop⟩

namespace Source

/-- A source fits when every byte offset into it, its end included, is below `2 ^ 32`. Offsets
are stored in 32 bits, and for a source that fits the stored offsets are the offsets themselves;
nothing is claimed of a larger source, whose offsets wrap when stored. -/
def Fits (src : String) : Prop :=
  src.utf8ByteSize < 4294967296

instance (src : String) : Decidable (Fits src) := Nat.decLt _ _

/-- The text between two byte offsets, if they are in order and both are character boundaries
of the text. -/
def slice? (src : String) (a b : Nat) : Option String :=
  if a ≤ b && String.Pos.Raw.isValid src ⟨a⟩ && String.Pos.Raw.isValid src ⟨b⟩ then
    some (String.Pos.Raw.extract src ⟨a⟩ ⟨b⟩)
  else
    none

/-- A 1-based line number and a 1-based column counted in bytes. -/
structure LineCol where
  line : Nat
  col : Nat
deriving DecidableEq, Repr

instance : ToString LineCol where
  toString p := toString p.line ++ ":" ++ toString p.col

/-- The line number at `offset`, and the offset at which that line starts: each line feed
that starts before `offset` begins a new line. -/
def lineStartFrom (offset : Nat) : List Char → Nat → Nat → Nat → Nat × Nat
  | [], _, line, lineStart => (line, lineStart)
  | c :: cs, i, line, lineStart =>
    if offset ≤ i then (line, lineStart)
    else if c = '\n' then lineStartFrom offset cs (i + c.utf8Size) (line + 1) (i + 1)
    else lineStartFrom offset cs (i + c.utf8Size) line lineStart

/-- The line and column of a byte offset; an offset past the end counts its column on the
last line. Offsets and columns are 64-bit words, so the one column past the largest word,
that of the offset `2 ^ 64 - 1` on the first line, wraps to `0`. -/
def lineCol (src : String) (offset : Nat) : LineCol :=
  let (line, lineStart) := lineStartFrom offset src.toList 0 1 0
  { line, col := (offset - lineStart + 1) % UInt64.size }

/-- The byte at an offset, if the offset is inside the text. -/
def byteAt? (src : String) (i : Nat) : Option UInt8 :=
  if h : i < src.utf8ByteSize then some (src.getUTF8Byte ⟨i⟩ h) else none

/-- The offset where the run of spaces and tabs that ends at `q` begins. -/
def blankRunStart (src : String) : Nat → Nat
  | 0 => 0
  | q + 1 =>
    let b := byteAt? src q
    if b == some 32 || b == some 9 then blankRunStart src q else q + 1

/-- The blanks (spaces and tabs) from the start of the line of `offset` up to `offset`, or the
empty text if something else stands there. The run of blanks that ends at `offset` is that
whole stretch exactly when it starts the text or follows a line feed; a line feed, a space and
a tab are single bytes that never occur inside a longer character, so the walk back goes byte
by byte. -/
def indentBefore (src : String) (offset : Nat) : String :=
  let q := blankRunStart src offset
  if q == 0 || byteAt? src (q - 1) == some 10 then String.Pos.Raw.extract src ⟨q⟩ ⟨offset⟩
  else ""

/-- The offset just after the first line feed at or after `i`, or the end of the text if there
is none. -/
def lineEndFrom (src : String) (i : Nat) : Nat :=
  if h : i < src.utf8ByteSize then
    if src.getUTF8Byte ⟨i⟩ h == 10 then i + 1 else lineEndFrom src (i + 1)
  else src.utf8ByteSize
termination_by src.utf8ByteSize - i

/-- `indentBefore`, defined only where the offset is a character boundary inside the text. -/
def indentBefore? (src : String) (offset : Nat) : Option String :=
  if String.Pos.Raw.isValid src ⟨offset⟩ then some (indentBefore src offset) else none

/-- The line ending of a text, judged by its first line: a carriage return and a line feed if
the first line feed follows a carriage return, else a line feed. -/
def lineEnding (src : String) : String :=
  let (first, rest) := src.toList.span (· ≠ '\n')
  if !rest.isEmpty && first.getLast? == some '\r' then "\r\n" else "\n"

end Source

end PyTune
