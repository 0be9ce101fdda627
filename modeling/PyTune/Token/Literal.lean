import PyTune.Token.Scan

/-!
# The value of a string literal

A plain literal's value is its text without prefix and quotes, with six escapes decoded and
the others kept; an f-string has none. The quotes are cut by their width in bytes.
-/

namespace PyTune

/-- What reading the text of a string literal gives. -/
inductive LiteralValue where
  /-- A plain string literal with this value. -/
  | text (value : String)
  /-- An f-string, or no string literal at all. -/
  | none
  /-- Cutting off the closing quotes splits a character. -/
  | splitChar
deriving DecidableEq, Repr

namespace LiteralValue

/-- Decodes the escapes of a literal's body. -/
def unescape : List Char → List Char
  | [] => []
  | '\\' :: c :: rest =>
    let decoded := match c with
      | 'n' => ['\n']
      | 't' => ['\t']
      | 'r' => ['\r']
      | '\\' => ['\\']
      | '\'' => ['\'']
      | '"' => ['"']
      | _ => ['\\', c]
    decoded ++ unescape rest
  | ['\\'] => ['\\']
  | c :: rest => c :: unescape rest

/-- Reads the text of a string literal: prefix letters among `rRbBuU` (an `f` or `F` makes it
an f-string), a quote, one or three of them as the opening, and as many bytes cut off the
end for the closing. -/
def read (raw : String) : LiteralValue :=
  let (letters, after) := raw.toList.span (fun c => ['r', 'R', 'b', 'B', 'u', 'U'].contains c)
  match after with
  | [] => .none
  | q :: more =>
    if q == 'f' || q == 'F' || !Scanner.isQuote q then .none
    else
      let width := match more with
        | a :: b :: _ => if a == q && b == q then 3 else 1
        | _ => 1
      let start := letters.length + width
      let size := raw.utf8ByteSize
      if size < width || size - width < start then .none
      else if !String.Pos.Raw.isValid raw ⟨size - width⟩ then .splitChar
      else
        let body := String.Pos.Raw.extract raw ⟨start⟩ ⟨size - width⟩
        .text (String.ofList (unescape body.toList))

end LiteralValue

/-- The value of a plain string literal's text, if it has one. -/
def stringValue? (raw : String) : Option String :=
  match LiteralValue.read raw with
  | .text v => some v
  | _ => none

end PyTune
