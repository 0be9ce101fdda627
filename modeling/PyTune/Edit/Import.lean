import PyTune.Grammar.Statement

/-!
# Making sure of an import

`Module.ensureImport` adds an import statement to a module unless a top-level statement
already reads the same, white space at the ends aside. The text must be exactly one import
statement. It goes after a leading docstring and after the `from __future__` imports that
follow it, and keeps the kind it was read as.
-/

namespace PyTune

namespace Import

/-- The kind of a text that is exactly one import statement; an error of reading it, or an
error at its start if it is something else. -/
def kindOf (text : String) : Except ParseError StmtKind :=
  let notSingle : Except ParseError StmtKind := .error ⟨.notSingleImport text, 1, 1⟩
  match Module.parse text with
  | .error e => .error e
  | .ok m =>
    match m.body with
    | [s] =>
      match s.kind with
      | .imports _ | .importFrom _ _ _ => .ok s.kind
      | _ => notSingle
    | _ => notSingle

/-- `from __future__ import ...` -/
def isFutureImport (s : Stmt) : Bool :=
  match s.kind with
  | .importFrom (some "__future__") _ 0 => true
  | _ => false

/-- Where a new import goes: after a docstring that opens the module, and after the future
imports coming next. -/
def insertionIndex (body : List Stmt) : Nat :=
  let skip := match body with
    | s :: _ => if s.kind matches .docstring then 1 else 0
    | [] => 0
  skip + ((body.drop skip).takeWhile isFutureImport).length

end Import

/-- The module with the import statement `text` added, unless a top-level statement already
reads the same; tells whether it was added. -/
def Module.ensureImport (m : Module) (text : String) : Except ParseError (Module × Bool) := do
  let wanted := Text.trim text
  if m.body.any (fun s => m.stmtText s == wanted) then return (m, false)
  let kind ← Import.kindOf wanted
  let i := Import.insertionIndex m.body
  return ({ m with body := m.body.take i ++ ⟨.inserted wanted, kind⟩ :: m.body.drop i }, true)

end PyTune
