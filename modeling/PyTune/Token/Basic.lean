import PyTune.Source

/-!
# Tokens

The tokens of Python source: names and keywords, literals, operators and delimiters, and the
layout tokens that stand for line ends and changes of indentation. A lexeme is a token with
the span of source it was read from. A lexical fault ends the token stream.
-/

namespace PyTune

/-- The reserved words, with the soft keywords `match` and `case`. -/
inductive Keyword where
  | False | None | True | and | as | assert | async | await | «break» | «class» | «continue»
  | defn | del | elif | «else» | except | «finally» | «for» | «from» | global | «if»
  | «import» | «in» | is | lambda | «match» | case | nonlocal | not | or | pass | raise
  | «return» | «try» | «while» | «with» | yield
deriving DecidableEq, Repr

namespace Keyword

/-- How the keyword is written in source. -/
def spelling : Keyword → String
  | .False => "False" | .None => "None" | .True => "True" | .and => "and" | .as => "as"
  | .assert => "assert" | .async => "async" | .await => "await" | .break => "break"
  | .class => "class" | .continue => "continue" | .defn => "def" | .del => "del"
  | .elif => "elif" | .else => "else" | .except => "except" | .finally => "finally"
  | .for => "for" | .from => "from" | .global => "global" | .if => "if"
  | .import => "import" | .in => "in" | .is => "is" | .lambda => "lambda"
  | .match => "match" | .case => "case" | .nonlocal => "nonlocal" | .not => "not"
  | .or => "or" | .pass => "pass" | .raise => "raise" | .return => "return" | .try => "try"
  | .while => "while" | .with => "with" | .yield => "yield"

/-- Every keyword once. -/
def all : List Keyword :=
  [.False, .None, .True, .and, .as, .assert, .async, .await, .break, .class, .continue, .defn,
    .del, .elif, .else, .except, .finally, .for, .from, .global, .if, .import, .in, .is,
    .lambda, .match, .case, .nonlocal, .not, .or, .pass, .raise, .return, .try, .while, .with,
    .yield]

/-- The keyword spelled by a word, if any. -/
def ofName? (word : String) : Option Keyword :=
  all.find? (·.spelling == word)

/-- The soft keywords `match` and `case` are names wherever they open no block. -/
def isSoft : Keyword → Bool
  | .match | .case => true
  | _ => false

end Keyword

/-- Why the scanner stopped: the text is no Python source from this point on. -/
inductive LexFault where
  | unterminatedString
  | unterminatedTripleString
  | unmatchedClose (closing : Char)
  | mismatchedClose (opening closing : Char)
  | unclosed (opening : Char)
  | badDedent
  | badContinuation
  | unexpectedChar (c : Char)
deriving DecidableEq, Repr

/-- The wording of a lexical fault. -/
def LexFault.message : LexFault → String
  | .unterminatedString => "unterminated string literal"
  | .unterminatedTripleString => "unterminated triple-quoted string literal"
  | .unmatchedClose c => s!"unmatched '{c}'"
  | .mismatchedClose o c =>
    s!"closing parenthesis '{c}' does not match opening parenthesis '{o}'"
  | .unclosed o => s!"'{o}' was never closed"
  | .badDedent => "unindent does not match any outer indentation level"
  | .badContinuation => "unexpected character after line continuation character"
  | .unexpectedChar c => s!"invalid character '{c}'"

/-- A token. Names, string literals and operators keep their text; a string literal's text
includes its prefix letters and quotes. -/
inductive Token where
  | name (text : String)
  | keyword (k : Keyword)
  | number
  | str (raw : String)
  | fstr (raw : String)
  | newline
  | indent
  | dedent
  | eq
  | walrus
  | colon
  | comma
  | dot
  | ellipsis
  | semicolon
  | arrow
  | augAssign
  | lParen
  | rParen
  | lBracket
  | rBracket
  | lBrace
  | rBrace
  | op (text : String)
  | star
  | dblStar
  | atSign
  | invalid (fault : LexFault)
  | eof
deriving DecidableEq, Repr

namespace Token

/-- Line ends, indentation changes and the end of input: tokens that cover no code. -/
def isLayout : Token → Bool
  | .newline | .indent | .dedent | .eof => true
  | _ => false

/-- The lexical fault that a token reports, if it is one. -/
def fault? : Token → Option LexFault
  | .invalid f => some f
  | _ => none

/-- The text of a token that can stand for a name: a name, or a soft keyword. -/
def nameText? : Token → Option String
  | .name n => some n
  | .keyword k => if k.isSoft then some k.spelling else none
  | _ => none

/-- The token is the keyword `k`. -/
def isKeyword (t : Token) (k : Keyword) : Bool :=
  t == .keyword k

end Token

/-- A token with the span of source it was read from. -/
structure Lexeme where
  token : Token
  span : Span
deriving DecidableEq, Repr

instance : Inhabited Lexeme := ⟨⟨.eof, ⟨0, 0⟩⟩⟩

end PyTune
