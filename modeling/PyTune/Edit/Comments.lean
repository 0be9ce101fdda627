import PyTune.Source

/-!
# Comment lines and notes

Marker comments go at the top of a text, after its shebang line if it has one; a note goes at
the end, after a blank line. Both use the text's line ending.
-/

namespace PyTune.Text

/-- The text with the given lines at its top, after a first line that starts with `#!`. -/
def prependComments (text : String) (lines : List String) : String :=
  let newline := Source.lineEnding text
  let (shebang, rest) :=
    if text.startsWith "#!" then
      let (first, after) := text.toList.span (· != '\n')
      match after with
      | [] => (text, "")
      | nl :: more => (String.ofList (first ++ [nl]), String.ofList more)
    else ("", text)
  let sep := if !shebang.isEmpty && !shebang.endsWith "\n" then newline else ""
  shebang ++ sep ++ String.join (lines.map (· ++ newline)) ++ rest

/-- The text with a blank line and the note after it. -/
def appendNote (text note : String) : String :=
  let newline := Source.lineEnding text
  let sep := if !text.isEmpty && !text.endsWith "\n" then newline else ""
  text ++ sep ++ newline ++ note ++ newline

end PyTune.Text
