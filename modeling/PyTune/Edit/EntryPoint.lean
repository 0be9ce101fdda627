import PyTune.Tree.Basic

/-!
# The entry-point guard

A module has an entry-point guard when a top-level compound statement opens with an `if`
whose header names `__name__` and holds the string `__main__`. `Module.ensureEntryPoint` adds
one that runs `main` in a separate process, and a stub `main` first if nothing at the top
level binds that name.
-/

namespace PyTune

/-- What making sure of the guard did. -/
inductive GuardOutcome where
  | alreadyPresent
  /-- A guard was added, and a stub `main` before it when `stubMain`. -/
  | added (stubMain : Bool)
deriving DecidableEq, Repr

namespace EntryPoint

/-- The stub `main` that is added when nothing binds `main`. -/
def stubMain : String :=
  "\ndef main():\n    # Main function of the program\n    pass"

/-- The guard that is added. -/
def guard : String :=
  "\nif __name__ == '__main__':\n    import multiprocessing\n" ++
    "    p = multiprocessing.Process(target=main)\n    p.start()\n    p.join()"

/-- The added guard as a statement: an `if` clause with the header words of the guard and an
empty block. -/
def guardStmt : Stmt :=
  let clause : Clause :=
    { keyword := "if", names := ["__name__"], strings := ["__main__"], body := .block "    " [] }
  ⟨.inserted guard, .compound [clause]⟩

/-- A statement is an entry-point guard. -/
def isGuard (s : Stmt) : Bool :=
  match s.kind with
  | .compound (c :: _) =>
    c.keyword == "if" && c.names.contains "__name__" && c.strings.contains "__main__"
  | _ => false

end EntryPoint

/-- Some top-level statement is an entry-point guard. -/
def Module.hasEntryPoint (m : Module) : Bool :=
  m.body.any EntryPoint.isGuard

/-- The module with an entry-point guard at its end, and a stub `main` before it if needed,
unless it has a guard already. -/
def Module.ensureEntryPoint (m : Module) : Module × GuardOutcome :=
  if m.hasEntryPoint then (m, .alreadyPresent)
  else
    let stub := !m.binds "main"
    let added := (if stub then [⟨.inserted EntryPoint.stubMain, .simple⟩] else []) ++
      [EntryPoint.guardStmt]
    ({ m with body := m.body ++ added }, .added stub)

end PyTune
