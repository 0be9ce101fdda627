import PyTune.Token.Basic

/-!
# Syntax errors

Reading stops at the first fault. A fault found by the grammar is reported at the start of
the next lexeme; if that lexeme is a lexical fault, the lexical fault is reported instead,
since it explains why the grammar failed. Each fault has one wording, in `SyntaxFault.message`.
-/

namespace PyTune

/-- What the grammar expected and did not find. -/
inductive Expectation where
  | colon
  | importKeyword
  | moduleName
  | nameAfterDot
  | nameAfterAs
  | importedName
  | name
  | functionName
  | className
  | openParen
  | closeParen
  | closeBracket
  | closeBrace
  | parameterName
  | typeParameterName
  | aliasName
  | equals
  | inKeyword
  | forKeyword
  | elseAfterIf
  | inAfterNot
  | attributeName
  | handler
  | definition
deriving DecidableEq, Repr

/-- The wording of a missing piece. -/
def Expectation.message : Expectation → String
  | .colon => "expected ':'"
  | .importKeyword => "expected 'import'"
  | .moduleName => "expected module name"
  | .nameAfterDot => "expected name after '.'"
  | .nameAfterAs => "expected name after 'as'"
  | .importedName => "expected name to import"
  | .name => "expected name"
  | .functionName => "expected function name"
  | .className => "expected class name"
  | .openParen => "expected '('"
  | .closeParen => "expected ')'"
  | .closeBracket => "expected ']'"
  | .closeBrace => "expected '\x7d'"
  | .parameterName => "expected parameter name"
  | .typeParameterName => "expected type parameter name"
  | .aliasName => "expected type alias name"
  | .equals => "expected '='"
  | .inKeyword => "expected 'in'"
  | .forKeyword => "expected 'for'"
  | .elseAfterIf => "expected 'else' after 'if' expression"
  | .inAfterNot => "expected 'in' after 'not'"
  | .attributeName => "expected attribute name"
  | .handler => "expected 'except' or 'finally' block"
  | .definition => "expected 'def' or 'class' after decorator"

/-- The header that a body belongs to. -/
inductive BlockOwner where
  | functionDef
  | classDef
  /-- A clause opened by this keyword. -/
  | statement (keyword : String)
deriving DecidableEq, Repr

/-- How an error names the header that a body belongs to. -/
def BlockOwner.text : BlockOwner → String
  | .functionDef => "function definition"
  | .classDef => "class definition"
  | .statement k => "'" ++ k ++ "' statement"

/-- What the grammar finds wrong at a lexeme that is no lexical fault. -/
inductive GrammarFault where
  | invalidSyntax
  | unexpectedIndent
  | expected (e : Expectation)
  | indentedBlock (owner : BlockOwner)
  /-- An annotation after more than one target. -/
  | annotatedTargets
  /-- An augmented assignment to more than one target. -/
  | augmentedTarget
  /-- An assignment expression whose target is no name. -/
  | walrusTarget
  /-- A keyword argument whose keyword is no name. -/
  | keywordTarget
  /-- The nesting went deeper than the reader follows; no text of the tape's size does. -/
  | tooDeep
deriving DecidableEq, Repr

/-- The wording of a fault of the grammar. -/
def GrammarFault.message : GrammarFault → String
  | .invalidSyntax => "invalid syntax"
  | .unexpectedIndent => "unexpected indent"
  | .expected e => e.message
  | .indentedBlock owner => "expected an indented block after " ++ owner.text
  | .annotatedTargets => "only single target can be annotated"
  | .augmentedTarget => "illegal expression for augmented assignment"
  | .walrusTarget => "cannot use assignment expressions with expression"
  | .keywordTarget => "expression cannot contain assignment"
  | .tooDeep => "too deeply nested"

/-- Why a text could not be read as a module: a fault of the scanner, a fault of the grammar,
or a text meant as one import statement that is something else. -/
inductive SyntaxFault where
  | lexical (f : LexFault)
  | grammar (g : GrammarFault)
  | notSingleImport (text : String)
deriving DecidableEq, Repr

/-- The wording of a fault. -/
def SyntaxFault.message : SyntaxFault → String
  | .lexical f => f.message
  | .grammar g => g.message
  | .notSingleImport text => "`" ++ text ++ "` is not a single import statement"

/-- A fault with the line and column where it was found. -/
structure ParseError where
  fault : SyntaxFault
  line : Nat
  col : Nat
deriving DecidableEq, Repr

namespace ParseError

/-- A fault found at a byte offset of a source. -/
def atOffset (src : String) (f : SyntaxFault) (offset : Nat) : ParseError :=
  let p := Source.lineCol src offset
  { fault := f, line := p.line, col := p.col }

/-- The wording of the error, without its position. -/
def message (e : ParseError) : String :=
  e.fault.message

end ParseError

end PyTune
