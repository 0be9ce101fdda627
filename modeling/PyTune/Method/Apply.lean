import PyTune.Method.Basic
import PyTune.Tree.Render
import PyTune.Edit.Decorate
import PyTune.Edit.Import
import PyTune.Edit.EntryPoint
import PyTune.Edit.Comments

/-!
# Applying a method

`Method.apply` reads a source, edits it as the method asks, prints it and marks the text with
the method's comments: JIT compilation and caching decorate every function and import their
decorator, vectorising imports NumPy, multiprocessing adds an entry-point guard; the two
methods that prepare the file for compilation only add comments and a closing note.
-/

namespace PyTune

/-- What applying a method produced: the text, how many functions were decorated, whether
an import was added, and what happened to the entry-point guard (for multiprocessing only). -/
structure Optimized where
  text : String
  functionsDecorated : Nat
  importAdded : Bool
  guard : Option GuardOutcome
deriving DecidableEq, Repr

namespace Method

/-- Decorates every function with `decorator` and imports it with `line`. -/
def decorateAndImport (m : Module) (decorator line : String) :
    Except ParseError (Module × Nat × Bool) := do
  let (m, n) := m.addDecorator decorator
  let (m, added) ← m.ensureImport line
  return (m, n, added)

/-- The edits of a method: the edited module, functions decorated, import added, guard. -/
def edit (method : Method) (m : Module) :
    Except ParseError (Module × Nat × Bool × Option GuardOutcome) := do
  match method with
  | .multiprocessing =>
    let (m, g) := m.ensureEntryPoint
    return (m, 0, false, some g)
  | .numba =>
    let (m, n, added) ← decorateAndImport m "njit" "from numba import njit"
    return (m, n, added, none)
  | .caching =>
    let (m, n, added) ← decorateAndImport m "lru_cache" "from functools import lru_cache"
    return (m, n, added, none)
  | .vectorize =>
    let (m, added) ← m.ensureImport "import numpy as np"
    return (m, 0, added, none)
  | .nativeExtension | .cython => return (m, 0, false, none)

/-- Marks printed text with the method's comments and note. -/
def annotate (method : Method) (guard : Option GuardOutcome) (printed : String) : String :=
  match method with
  | .multiprocessing =>
    match guard with
    | some .alreadyPresent =>
      Text.prependComments printed
        ["# [OPTIMIZATION: Multiprocessing]",
          "# Note: Please ensure that the multiprocessing block in __main__ is correct."]
    | _ => Text.prependComments printed ["# [OPTIMIZATION: Multiprocessing]"]
  | .nativeExtension =>
    Text.appendNote
      (Text.prependComments printed
        ["# [OPTIMIZATION: Translated to a C/C++ version using pybind11]"])
      ("# Note: For an actual translation, you need to manually configure tools such as " ++
        "Cython or pybind11.")
  | .numba => Text.prependComments printed ["# [OPTIMIZATION: Numba JIT applied]"]
  | .cython =>
    Text.appendNote
      (Text.prependComments printed
        ["# [OPTIMIZATION: Prepared for Cython]", "# cython: language_level=3"])
      ("# Note: To compile with Cython, change the file extension to .pyx and apply " ++
        "further configurations.")
  | .caching => Text.prependComments printed ["# [OPTIMIZATION: Caching with lru_cache applied]"]
  | .vectorize =>
    Text.appendNote
      (Text.prependComments printed ["# [OPTIMIZATION: Vectorized operations with NumPy]"])
      ("# Note: It is recommended to convert loops into numpy operations for better " ++
        "performance.")

/-- Applies a method to a source. -/
def apply (method : Method) (src : String) : Except ParseError Optimized := do
  let m ← Module.parse src
  let (m, n, added, guard) ← method.edit m
  return { text := method.annotate guard m.render, functionsDecorated := n,
           importAdded := added, guard }

end Method

end PyTune
