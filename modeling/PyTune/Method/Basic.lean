import PyTune.Text.WhiteSpace

/-!
# Optimisation methods

The six ways of preparing a Python file for speed, each with a number from 1 to 6, a name and
a label. A method is chosen by its number or by its name, in any ASCII case, with white space
around it ignored.
-/

namespace PyTune

/-- The optimisation methods, in the order of their numbers. -/
inductive Method where
  /-- Run `main` in a separate process behind an entry-point guard. -/
  | multiprocessing
  /-- Mark the file for a hand-made C or C++ extension. -/
  | nativeExtension
  /-- Compile every function just in time with `njit`. -/
  | numba
  /-- Mark the file for compilation to an extension module. -/
  | cython
  /-- Memoise every function with `lru_cache`. -/
  | caching
  /-- Bring in NumPy for array operations. -/
  | vectorize
deriving DecidableEq, Repr

namespace Method

/-- Every method, in the order of their numbers. -/
def all : List Method :=
  [.multiprocessing, .nativeExtension, .numba, .cython, .caching, .vectorize]

/-- The number of a method. -/
def number : Method → Nat
  | .multiprocessing => 1
  | .nativeExtension => 2
  | .numba => 3
  | .cython => 4
  | .caching => 5
  | .vectorize => 6

/-- The method with a number, if any. -/
def ofNumber? (n : Nat) : Option Method :=
  all.find? (·.number == n)

/-- The name of a method. -/
def name : Method → String
  | .multiprocessing => "multiprocessing"
  | .nativeExtension => "c_translation"
  | .numba => "numba"
  | .cython => "cython"
  | .caching => "caching"
  | .vectorize => "vectorize"

/-- The label of a method. -/
def label : Method → String
  | .multiprocessing => "Multiprocessing support"
  | .nativeExtension => "Translation to C/C++"
  | .numba => "Numba JIT optimization"
  | .cython => "Cython preparation"
  | .caching => "Caching with lru_cache"
  | .vectorize => "Vectorized operations (NumPy)"

instance : ToString Method := ⟨name⟩

/-- A decimal byte: an optional `+` and ASCII digits, at most 255. -/
def byteValue? (s : String) : Option Nat :=
  let digits := match s.toList with
    | '+' :: rest => rest
    | cs => cs
  if digits.isEmpty || !digits.all Char.isDigit then none
  else
    let n := digits.foldl (fun n c => 10 * n + (c.toNat - '0'.toNat)) 0
    if n ≤ 255 then some n else none

/-- The text does not choose a method. -/
structure Invalid where
  text : String
deriving DecidableEq, Repr

/-- The wording of a text that chooses no method. -/
def Invalid.message (e : Invalid) : String :=
  "invalid method `" ++ e.text ++ "`: expected a number from 1 to 6 or a method name"

/-- The method that a text chooses: after trimming, a byte that numbers a method, else a
method's name in any ASCII case. -/
def parse (s : String) : Except Invalid Method :=
  let t := Text.trim s
  let byNumber := (byteValue? t).bind ofNumber?
  let byName := all.find? fun m => t.toList.map Char.toLower == m.name.toList
  match byNumber <|> byName with
  | some m => .ok m
  | none => .error ⟨t⟩

end Method

end PyTune
