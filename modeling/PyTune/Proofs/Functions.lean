import PyTune.Proofs.Session

/-!
# The functions of a module, and what decorating does to them

`Functions.stmts` lists the functions of a body in depth-first order. Decorating appends the name
to exactly those that lack it and changes nothing else (`Decorate.functions_stmts`,
`Decorate.undecorated_stmts`).
-/

namespace PyTune

namespace Functions

mutual

/-- The functions among statements, in the order of the walk. -/
def stmts : List Stmt → List Definition
  | [] => []
  | s :: rest => stmt s ++ stmts rest

/-- A function and then the functions in its body; the functions in a class or in the
clauses of a compound statement. -/
def stmt : Stmt → List Definition
  | ⟨_, .functionDef ⟨n, ds, indent, offset, body⟩⟩ => ⟨n, ds, indent, offset, body⟩ :: suite body
  | ⟨_, .classDef ⟨_, _, _, _, body⟩⟩ => suite body
  | ⟨_, .compound cs⟩ => clauses cs
  | ⟨_, .imports _⟩ | ⟨_, .importFrom _ _ _⟩ | ⟨_, .docstring⟩ | ⟨_, .assign _⟩
  | ⟨_, .simple⟩ => []

/-- The functions in the bodies of clauses. -/
def clauses : List Clause → List Definition
  | [] => []
  | ⟨_, _, _, body⟩ :: rest => suite body ++ clauses rest

/-- The functions in a body. -/
def suite : Suite → List Definition
  | .inline body => stmts body
  | .block _ body => stmts body

end

@[simp] theorem stmts_append : ∀ xs ys : List Stmt, stmts (xs ++ ys) = stmts xs ++ stmts ys
  | [], _ => rfl
  | s :: rest, ys => by
    rw [List.cons_append, stmts, stmts, stmts_append rest ys, List.append_assoc]

end Functions

namespace Undecorated

mutual

/-- Statements with the decorators of every function left out. -/
def stmts : List Stmt → List Stmt
  | [] => []
  | s :: rest => stmt s :: stmts rest

/-- A statement with the decorators of the functions in it left out; a class keeps its
decorators. -/
def stmt : Stmt → Stmt
  | ⟨o, .functionDef ⟨n, _, indent, offset, body⟩⟩ => ⟨o, .functionDef ⟨n, [], indent, offset, suite body⟩⟩
  | ⟨o, .classDef ⟨n, ds, indent, offset, body⟩⟩ => ⟨o, .classDef ⟨n, ds, indent, offset, suite body⟩⟩
  | ⟨o, .compound cs⟩ => ⟨o, .compound (clauses cs)⟩
  | ⟨o, .imports aliases⟩ => ⟨o, .imports aliases⟩
  | ⟨o, .importFrom module names level⟩ => ⟨o, .importFrom module names level⟩
  | ⟨o, .docstring⟩ => ⟨o, .docstring⟩
  | ⟨o, .assign names⟩ => ⟨o, .assign names⟩
  | ⟨o, .simple⟩ => ⟨o, .simple⟩

def clauses : List Clause → List Clause
  | [] => []
  | ⟨k, ns, ss, body⟩ :: rest => ⟨k, ns, ss, suite body⟩ :: clauses rest

def suite : Suite → Suite
  | .inline body => .inline (stmts body)
  | .block indent body => .block indent (stmts body)

end

end Undecorated

namespace Decorate

variable (name : String)

/-- The function does not apply `name` yet, plainly or as a call. -/
def lacks (d : Definition) : Bool :=
  !d.decorators.any (·.isNamed name)

/-- A function as decorating leaves it: `name` appended to its decorators unless one applies
it, and the functions in its body decorated. -/
def definition (d : Definition) : Definition :=
  { d with decorators := (withDecorator name d.decorators).1, body := (suite name d.body).1 }

theorem withDecorator_eq (ds : List Decorator) :
    withDecorator name ds =
      if ds.any (·.isNamed name) then (ds, 0) else (ds ++ [Decorator.inserted name], 1) := rfl

theorem withDecorator_snd (ds : List Decorator) :
    (withDecorator name ds).2 = if ds.any (·.isNamed name) then 0 else 1 := by
  rw [withDecorator_eq]
  split <;> rfl

mutual

/-- Decorating counts the functions of the walk that do not apply the name yet. -/
theorem stmts_count : ∀ body : List Stmt,
    (stmts name body).2 = ((Functions.stmts body).filter (lacks name)).length
  | [] => rfl
  | s :: rest => by
    simp only [stmts, Functions.stmts, List.filter_append, List.length_append, stmt_count s,
      stmts_count rest]

theorem stmt_count : ∀ s : Stmt,
    (stmt name s).2 = ((Functions.stmt s).filter (lacks name)).length
  | ⟨o, .functionDef ⟨n, ds, indent, offset, body⟩⟩ => by
    -- the function itself counts once, before the functions of its body
    have own : (withDecorator name ds).2 = ([⟨n, ds, indent, offset, body⟩].filter (lacks name)).length := by
      rw [withDecorator_snd]
      by_cases h : ds.any (·.isNamed name) = true <;> simp [lacks, h]
    simp only [stmt, Functions.stmt, own, suite_count body]
    rw [← List.length_append, ← List.filter_append, List.singleton_append]
  | ⟨o, .classDef ⟨n, ds, indent, offset, body⟩⟩ => by
    simp only [stmt, Functions.stmt, suite_count body]
  | ⟨o, .compound cs⟩ => by
    simp only [stmt, Functions.stmt, clauses_count cs]
  | ⟨_, .imports _⟩ | ⟨_, .importFrom _ _ _⟩ | ⟨_, .docstring⟩ | ⟨_, .assign _⟩
  | ⟨_, .simple⟩ => rfl

theorem clauses_count : ∀ cs : List Clause,
    (clauses name cs).2 = ((Functions.clauses cs).filter (lacks name)).length
  | [] => rfl
  | ⟨k, ns, ss, body⟩ :: rest => by
    simp only [clauses, Functions.clauses, List.filter_append, List.length_append,
      suite_count body, clauses_count rest]

theorem suite_count : ∀ body : Suite,
    (suite name body).2 = ((Functions.suite body).filter (lacks name)).length
  | .inline body => by simp only [suite, Functions.suite, stmts_count body]
  | .block indent body => by simp only [suite, Functions.suite, stmts_count body]

end

mutual

/-- The functions of a decorated body are the functions of the body, each decorated, in the
same order. -/
theorem functions_stmts : ∀ body : List Stmt,
    Functions.stmts (stmts name body).1 = (Functions.stmts body).map (definition name)
  | [] => rfl
  | s :: rest => by
    simp only [stmts, Functions.stmts, List.map_append, functions_stmt s, functions_stmts rest]

theorem functions_stmt : ∀ s : Stmt,
    Functions.stmt (stmt name s).1 = (Functions.stmt s).map (definition name)
  | ⟨o, .functionDef ⟨n, ds, indent, offset, body⟩⟩ => by
    simp only [stmt, Functions.stmt, List.map_cons, functions_suite body]
    rfl
  | ⟨o, .classDef ⟨n, ds, indent, offset, body⟩⟩ => by
    simp only [stmt, Functions.stmt, functions_suite body]
  | ⟨o, .compound cs⟩ => by
    simp only [stmt, Functions.stmt, functions_clauses cs]
  | ⟨_, .imports _⟩ | ⟨_, .importFrom _ _ _⟩ | ⟨_, .docstring⟩ | ⟨_, .assign _⟩
  | ⟨_, .simple⟩ => rfl

theorem functions_clauses : ∀ cs : List Clause,
    Functions.clauses (clauses name cs).1 = (Functions.clauses cs).map (definition name)
  | [] => rfl
  | ⟨k, ns, ss, body⟩ :: rest => by
    simp only [clauses, Functions.clauses, List.map_append, functions_suite body,
      functions_clauses rest]

theorem functions_suite : ∀ body : Suite,
    Functions.suite (suite name body).1 = (Functions.suite body).map (definition name)
  | .inline body => by simp only [suite, Functions.suite, functions_stmts body]
  | .block indent body => by simp only [suite, Functions.suite, functions_stmts body]

end

mutual

/-- Decorating changes nothing but the decorators of functions. -/
theorem undecorated_stmts : ∀ body : List Stmt,
    Undecorated.stmts (stmts name body).1 = Undecorated.stmts body
  | [] => rfl
  | s :: rest => by
    simp only [stmts, Undecorated.stmts, undecorated_stmt s, undecorated_stmts rest]

theorem undecorated_stmt : ∀ s : Stmt, Undecorated.stmt (stmt name s).1 = Undecorated.stmt s
  | ⟨o, .functionDef ⟨n, ds, indent, offset, body⟩⟩ => by
    simp only [stmt, Undecorated.stmt, undecorated_suite body]
  | ⟨o, .classDef ⟨n, ds, indent, offset, body⟩⟩ => by
    simp only [stmt, Undecorated.stmt, undecorated_suite body]
  | ⟨o, .compound cs⟩ => by
    simp only [stmt, Undecorated.stmt, undecorated_clauses cs]
  | ⟨_, .imports _⟩ | ⟨_, .importFrom _ _ _⟩ | ⟨_, .docstring⟩ | ⟨_, .assign _⟩
  | ⟨_, .simple⟩ => rfl

theorem undecorated_clauses : ∀ cs : List Clause,
    Undecorated.clauses (clauses name cs).1 = Undecorated.clauses cs
  | [] => rfl
  | ⟨k, ns, ss, body⟩ :: rest => by
    simp only [clauses, Undecorated.clauses, undecorated_suite body, undecorated_clauses rest]

theorem undecorated_suite : ∀ body : Suite, Undecorated.suite (suite name body).1 = Undecorated.suite body
  | .inline body => by simp only [suite, Undecorated.suite, undecorated_stmts body]
  | .block indent body => by simp only [suite, Undecorated.suite, undecorated_stmts body]

end

/-- The decorators that decorating leaves on a function: those it had, with `name` appended
when none applied it. -/
theorem decorators_definition (d : Definition) :
    (definition name d).decorators =
      if d.decorators.any (·.isNamed name) then d.decorators
      else d.decorators ++ [Decorator.inserted name] := by
  simp only [definition, withDecorator_eq]
  split <;> rfl

end Decorate

end PyTune
