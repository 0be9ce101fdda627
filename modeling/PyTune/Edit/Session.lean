import PyTune.Edit.Decorate
import PyTune.Edit.Import
import PyTune.Edit.EntryPoint

/-!
# Editing a module in place

A module is read once and then changed in place by a sequence of calls: adding a decorator,
making sure of an import and of the entry-point guard, with queries in between. `Module.session`
runs such a sequence and gives each call's answer, in order. An import that cannot be read leaves
the module as it was.
-/

namespace PyTune

/-- A call on a module that is edited in place. -/
inductive Call where
  | addDecorator (name : String)
  | ensureImport (text : String)
  | ensureEntryPoint
  | hasEntryPoint
  | binds (name : String)
  | count

/-- What a call answers: the functions decorated, whether the import was added, the guard's
outcome, the answer of a query, or the number of top-level statements. -/
inductive Answer where
  | decorated (n : Nat)
  | imported (result : Except ParseError Bool)
  | guard (outcome : GuardOutcome)
  | guarded (present : Bool)
  | bound (present : Bool)
  | count (n : Nat)

namespace Module

/-- One call: the module after it and its answer. -/
def perform (m : Module) : Call → Module × Answer
  | .addDecorator name =>
    let (m, n) := m.addDecorator name
    (m, .decorated n)
  | .ensureImport text =>
    match m.ensureImport text with
    | .ok (m, added) => (m, .imported (.ok added))
    | .error e => (m, .imported (.error e))
  | .ensureEntryPoint =>
    let (m, g) := m.ensureEntryPoint
    (m, .guard g)
  | .hasEntryPoint => (m, .guarded m.hasEntryPoint)
  | .binds name => (m, .bound (m.binds name))
  | .count => (m, .count m.body.length)

/-- A sequence of calls: the module after the last one, and every call with its answer. -/
def session (m : Module) : List Call → Module × List (Call × Answer)
  | [] => (m, [])
  | c :: cs =>
    let (m', a) := m.perform c
    let (m'', rest) := m'.session cs
    (m'', (c, a) :: rest)

end Module

end PyTune
