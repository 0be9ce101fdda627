import PyTune.Tree.Basic

/-!
# Adding a decorator

`Module.addDecorator` adds a decorator to every function of a module that does not apply it
yet, plainly or as a call: functions at the top level, in classes, in the clauses of compound
statements and inside other functions. The new decorator goes after the function's others.
It gives the module and how many functions it decorated.
-/

namespace PyTune

namespace Decorate

/-- The decorators of a function with `name` added unless one applies it; and `1` if added. -/
def withDecorator (name : String) (ds : List Decorator) : List Decorator × Nat :=
  if ds.any (·.isNamed name) then (ds, 0) else (ds ++ [Decorator.inserted name], 1)

mutual

/-- Decorates the functions among statements. -/
def stmts (name : String) : List Stmt → List Stmt × Nat
  | [] => ([], 0)
  | s :: rest =>
    let (s, a) := stmt name s
    let (rest, b) := stmts name rest
    (s :: rest, a + b)

/-- Decorates a function, and the functions inside a statement. -/
def stmt (name : String) : Stmt → Stmt × Nat
  | ⟨o, .functionDef ⟨n, ds, indent, offset, body⟩⟩ =>
    let (ds, a) := withDecorator name ds
    let (body, b) := suite name body
    (⟨o, .functionDef ⟨n, ds, indent, offset, body⟩⟩, a + b)
  | ⟨o, .classDef ⟨n, ds, indent, offset, body⟩⟩ =>
    let (body, b) := suite name body
    (⟨o, .classDef ⟨n, ds, indent, offset, body⟩⟩, b)
  | ⟨o, .compound cs⟩ =>
    let (cs, b) := clauses name cs
    (⟨o, .compound cs⟩, b)
  | s => (s, 0)

/-- Decorates the functions in the bodies of clauses. -/
def clauses (name : String) : List Clause → List Clause × Nat
  | [] => ([], 0)
  | ⟨k, ns, ss, body⟩ :: rest =>
    let (body, a) := suite name body
    let (rest, b) := clauses name rest
    (⟨k, ns, ss, body⟩ :: rest, a + b)

/-- Decorates the functions in a body. -/
def suite (name : String) : Suite → Suite × Nat
  | .inline body =>
    let (body, a) := stmts name body
    (.inline body, a)
  | .block indent body =>
    let (body, a) := stmts name body
    (.block indent body, a)

end

end Decorate

/-- The module with the decorator `name` added to each function that does not apply it, and
the number of functions decorated. -/
def Module.addDecorator (m : Module) (name : String) : Module × Nat :=
  let (body, n) := Decorate.stmts name m.body
  ({ m with body }, n)

end PyTune
