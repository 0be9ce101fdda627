import PyTune.Text.Alphabetic
import PyTune.Text.Numeric

/-!
# Identifiers

A name that can be bound: an alphabetic character or an underscore, then any number of
alphabetic or numeric characters and underscores. Only such names count as the targets of an
assignment, of a keyword argument or of an assignment expression.
-/

namespace PyTune.Text

/-- A character that may start an identifier. -/
def isIdentifierStart (c : Char) : Bool :=
  c == '_' || isAlphabetic c

/-- A character that may follow the first one of an identifier. -/
def isIdentifierPart (c : Char) : Bool :=
  c == '_' || isAlphabetic c || isNumeric c

/-- The text is one identifier: not empty, its first character may start an identifier and
every other may continue one. -/
def isIdentifier (s : String) : Bool :=
  match s.toList with
  | [] => false
  | c :: rest => isIdentifierStart c && rest.all isIdentifierPart

end PyTune.Text
