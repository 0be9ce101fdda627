import PyTune.Source
import PyTune.Text.WhiteSpace

/-!
# Statement trees

A module is read into a tree of statements that keeps, for every statement and decorator, the
span of source it came from; edits add statements and decorators that carry their own text.
Expressions leave no nodes: a statement records only the names and strings that the edits
ask about. Printing the tree copies every span of the source unchanged.
-/

namespace PyTune

/-- Where a statement or a decorator comes from: a span of the source, or text that an edit
inserted. -/
inductive Origin where
  | source (span : Span)
  | inserted (text : String)
deriving DecidableEq, Repr

/-- The span of a piece of the source, if it is one. -/
def Origin.span? : Origin → Option Span
  | .source sp => some sp
  | .inserted _ => none

/-- One name of an import statement, with the name it is bound to, if renamed. -/
structure ImportAlias where
  name : String
  asname : Option String
deriving DecidableEq, Repr

/-- The name that `import` binds: the new name, else the dotted name up to its first dot. -/
def ImportAlias.boundName (a : ImportAlias) : String :=
  a.asname.getD (String.ofList (a.name.toList.takeWhile (· != '.')))

/-- The name a decorator applies, as far as the edits care: a dotted name, a call of a dotted
name whose parentheses close at its end, or anything else. The dotted name is the source from
its first to its last name. -/
inductive DecoratorShape where
  | name (dotted : String)
  | call (dotted : String)
  | other
deriving DecidableEq, Repr

/-- A decorator line of a function or class. -/
structure Decorator where
  origin : Origin
  shape : DecoratorShape
deriving DecidableEq, Repr

namespace Decorator

/-- A decorator that an edit adds: the given name, written after `@`. -/
def inserted (name : String) : Decorator :=
  { origin := .inserted name, shape := .name name }

/-- The decorator applies `name`, plainly or as a call. -/
def isNamed (d : Decorator) (name : String) : Bool :=
  match d.shape with
  | .name n | .call n => n == name
  | .other => false

end Decorator

mutual

/-- A statement: where it comes from, and what kind it is. -/
structure Stmt where
  origin : Origin
  kind : StmtKind

/-- The kinds of statement that the edits tell apart. -/
inductive StmtKind where
  /-- `import a.b as c, d` -/
  | imports (aliases : List ImportAlias)
  /-- `from ..m import a as b`; no names for `*`. Each dot counts one toward the level. -/
  | importFrom (module : Option String) (names : List ImportAlias) (level : Nat)
  | functionDef (d : Definition)
  | classDef (d : Definition)
  /-- `if`, `for`, `while`, `with`, `try`, `match` or `case`, with the clauses that follow. -/
  | compound (clauses : List Clause)
  /-- An expression statement of plain string literals only. -/
  | docstring
  /-- An assignment, with the plain names it binds. -/
  | assign (names : List String)
  | simple

/-- A function or class definition: its name, decorators, the blanks before its keyword (or
`""` if anything else stands between the line start and it), the offset of its keyword (of
`async` when present) and its body. -/
structure Definition where
  name : String
  decorators : List Decorator
  indent : String
  offset : Nat
  body : Suite

/-- One clause of a compound statement: its keyword, the names and the decoded plain string
literals of its header, and its body. -/
structure Clause where
  keyword : String
  names : List String
  strings : List String
  body : Suite

/-- The body of a definition or clause: statements on the header's line, or an indented
block with its indentation. -/
inductive Suite where
  | inline (body : List Stmt)
  | block (indent : String) (body : List Stmt)

end

namespace Suite

/-- The statements of a body. -/
def stmts : Suite → List Stmt
  | .inline body => body
  | .block _ body => body

/-- The body with its statements replaced. -/
def withStmts : Suite → List Stmt → Suite
  | .inline _, body => .inline body
  | .block indent _, body => .block indent body

end Suite

/-- A source text and the statements read from it. -/
structure Module where
  source : String
  body : List Stmt

namespace Module

/-- The text of a statement without white space at its ends. -/
def stmtText (m : Module) (s : Stmt) : String :=
  match s.origin with
  | .source sp => Text.trim (sp.text m.source)
  | .inserted text => Text.trim text

/-- A top-level statement binds `name`: a definition of it, an import of it, or an assignment
to it. -/
def stmtBinds (name : String) (s : Stmt) : Bool :=
  match s.kind with
  | .functionDef d | .classDef d => d.name == name
  | .imports aliases => aliases.any (fun a => a.boundName == name)
  | .importFrom _ names _ => names.any (fun a => a.asname.getD a.name == name)
  | .assign names => names.contains name
  | .compound _ | .docstring | .simple => false

/-- Some top-level statement of the module binds `name`. -/
def binds (m : Module) (name : String) : Bool :=
  m.body.any (stmtBinds name)

end Module

end PyTune
