import PyTune.Tree.Basic

/-!
# Printing a statement tree

`Module.render` walks the tree with a cursor into the source, copying everything between pieces
unchanged and writing inserted pieces at the cursor; a tree with nothing inserted prints as its
source.
-/

namespace PyTune

/-- The lines of a text: split after each line feed, the line feed and a carriage return just
before it dropped; a last line without a line feed keeps all its characters, and a text that
ends with a line feed has no empty last line. `cur` holds the current line, reversed. -/
def splitLines : List Char → List Char → List (List Char)
  | [], cur => if cur.isEmpty then [] else [cur.reverse]
  | '\n' :: rest, cur =>
    let line := match cur with
      | '\r' :: before => before
      | _ => cur
    line.reverse :: splitLines rest []
  | c :: rest, cur => splitLines rest (c :: cur)

/-- What has been written, and the offset of the source up to which it has been copied. -/
structure Printer where
  out : String
  cursor : Nat

namespace Printer

/-- Copies the source from the cursor up to `pos`. -/
def flushTo (src : String) (p : Printer) (pos : Nat) : Printer :=
  if p.cursor < pos then
    { out := p.out ++ String.Pos.Raw.extract src ⟨p.cursor⟩ ⟨pos⟩, cursor := pos }
  else p

/-- Appends text. -/
def write (p : Printer) (s : String) : Printer :=
  { p with out := p.out ++ s }

/-- The offset just after the line feed that ends the line of `pos`, or the end of the source. -/
def lineEnd (src : String) (pos : Nat) : Nat :=
  Source.lineEndFrom src pos

/-- Writes one line of an inserted text, followed by the line ending; a line that is not empty
is indented, unless it is the first (`first`) and `indentFirst` is off. -/
def writeLine (newline indent : String) (indentFirst : Bool) :
    Printer × Bool → List Char → Printer × Bool
  | (p, first), line =>
    let p := if (!first || indentFirst) && !line.isEmpty then p.write indent else p
    ((p.write (String.ofList line)).write newline, false)

/-- Writes the lines of `text`, each followed by the line ending; a line that is not empty is
indented, the first one only if `indentFirst`. -/
def writeLines (newline : String) (p : Printer) (text : String) (indent : String)
    (indentFirst : Bool) : Printer :=
  ((splitLines text.toList []).foldl (writeLine newline indent indentFirst) (p, true)).1

/-- Writes one inserted decorator as `@text` on a line of its own, and indents the line that
follows. -/
def writeDecorator (newline indent : String) (p : Printer) (text : String) : Printer :=
  ((p.write "@").write text |>.write newline).write indent

/-- Writes inserted decorators. -/
def writeDecorators (newline : String) (p : Printer) (pending : List String) (indent : String) :
    Printer :=
  pending.foldl (writeDecorator newline indent) p

/-- One decorator of a definition: one from the source is copied up to, after the inserted
decorators waiting for it; an inserted one waits for the next. -/
def decoratorStep (src newline indent : String) :
    Printer × List String → Decorator → Printer × List String
  | (p, pending), d =>
    match d.origin with
    | .source sp => (writeDecorators newline (flushTo src p sp.start) pending indent, [])
    | .inserted text => (p, pending ++ [text])

/-- Prints the decorators of a definition whose keyword is at `anchor`: inserted decorators go
directly above the next decorator from the source, or above the keyword's line. -/
def printDecorators (src newline : String) (p : Printer) (decorators : List Decorator)
    (anchor : Nat) (indent : String) : Printer :=
  let (p, pending) := decorators.foldl (decoratorStep src newline indent) (p, [])
  writeDecorators newline (flushTo src p anchor) pending indent

/-- The span of the first statement from the source among `stmts`. -/
def nextSpan? : List Stmt → Option Span
  | [] => none
  | s :: rest => match s.origin with
    | .source sp => some sp
    | .inserted _ => nextSpan? rest

/-- Where statements appended to a body go: after the line of its last statement from the
source, or at the cursor if it has none. -/
def appendPoint (src : String) (p : Printer) (body : List Stmt) : Nat :=
  match nextSpan? body.reverse with
  | some sp => lineEnd src sp.stop
  | none => p.cursor

mutual

/-- Prints statements of a body indented by `indent`; statements inserted after the last one
from the source go at `appendAt`. -/
def printBody (src newline : String) : List Stmt → String → Nat → Printer → Printer
  | [], _, _, p => p
  | s :: rest, indent, appendAt, p =>
    let p := match s.origin with
      | .source sp => flushTo src (printStmt src newline s (flushTo src p sp.start)) sp.stop
      | .inserted text =>
        match nextSpan? rest with
        | some sp => (writeLines newline (flushTo src p sp.start) text indent false).write indent
        | none =>
          let p := flushTo src p appendAt
          let p := if !p.out.isEmpty && !p.out.endsWith "\n" then p.write newline else p
          writeLines newline p text indent true
    printBody src newline rest indent appendAt p

/-- Prints what a statement holds: decorators and bodies. -/
def printStmt (src newline : String) : Stmt → Printer → Printer
  | ⟨_, .functionDef ⟨_, decorators, indent, offset, body⟩⟩, p =>
    printSuite src newline body (printDecorators src newline p decorators offset indent)
  | ⟨_, .classDef ⟨_, decorators, indent, offset, body⟩⟩, p =>
    printSuite src newline body (printDecorators src newline p decorators offset indent)
  | ⟨_, .compound clauses⟩, p => printClauses src newline clauses p
  | _, p => p

/-- Prints the bodies of clauses. -/
def printClauses (src newline : String) : List Clause → Printer → Printer
  | [], p => p
  | ⟨_, _, _, body⟩ :: cs, p => printClauses src newline cs (printSuite src newline body p)

/-- Prints a body. -/
def printSuite (src newline : String) : Suite → Printer → Printer
  | .inline body, p => printBody src newline body "" (appendPoint src p body) p
  | .block indent body, p => printBody src newline body indent (appendPoint src p body) p

end

end Printer

/-- The source text of a module: the source, with every inserted piece written in. -/
def Module.render (m : Module) : String :=
  let newline := Source.lineEnding m.source
  let size := m.source.utf8ByteSize
  let p := Printer.printBody m.source newline m.body "" size ⟨"", 0⟩
  (Printer.flushTo m.source p size).out

end PyTune
