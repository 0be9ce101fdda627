import PyTune.Method.Apply
import PyTune.Path

/-!
# Running a method on a file

`Outcome.run` applies a method, chosen by its text, to the source of a file, and says where
the result goes. The method is checked before the source is read. Its failures carry the
wording and exit status of the command line, and an outcome is reported as a JSON object
with the input and output paths, the method and what the edits did.
-/

namespace PyTune

/-- Why running a method on a file failed. -/
inductive RunError where
  | invalidMethod (e : Method.Invalid)
  /-- The file at `path` could not be read as Python. -/
  | parse (path : String) (e : ParseError)
deriving DecidableEq, Repr

namespace RunError

/-- The wording of a failed run. -/
def message : RunError → String
  | .invalidMethod e => e.message
  | .parse path e =>
    path ++ ": " ++ e.message ++ " (line " ++ toString e.line ++ ", column " ++
      toString e.col ++ ")"

/-- The exit status of a failed run. -/
def exitCode (_ : RunError) : Nat :=
  2

end RunError

/-- A finished run: the input and output paths, the method and what it produced. -/
structure Outcome where
  input : String
  output : String
  method : Method
  result : Optimized
deriving DecidableEq, Repr

namespace Outcome

/-- Applies the method that `methodText` chooses to the source of the file at `path`. -/
def run (path methodText source : String) : Except RunError Outcome := do
  let method ← (Method.parse methodText).mapError .invalidMethod
  let result ← (method.apply source).mapError (.parse path)
  return { input := path, output := Path.output path, method, result }

/-- A JSON string: in quotes, with quotes, backslashes and control characters escaped. -/
def jsonString (s : String) : String :=
  let hex (n : Nat) : Char := if n < 10 then Char.ofNat (48 + n) else Char.ofNat (87 + n)
  let escape (c : Char) : String :=
    if c == '"' then "\\\"" else if c == '\\' then "\\\\"
    else if c == '\n' then "\\n" else if c == '\r' then "\\r" else if c == '\t' then "\\t"
    else if c == '\x08' then "\\b" else if c == '\x0c' then "\\f"
    else if c.toNat < 0x20 then String.ofList ['\\', 'u', '0', '0', hex (c.toNat / 16),
      hex (c.toNat % 16)]
    else String.singleton c
  "\"" ++ String.join (s.toList.map escape) ++ "\""

/-- The members of the JSON report, each as a key and its written value. -/
def members (o : Outcome) : List (String × String) :=
  let guard := match o.result.guard with
    | none => []
    | some .alreadyPresent => [("guard", "\x7b\n    \"outcome\": \"already_present\"\n  \x7d")]
    | some (.added stub) =>
      [("guard", "\x7b\n    \"outcome\": \"added\",\n    \"stub_main\": " ++
        toString stub ++ "\n  \x7d")]
  [("input", jsonString o.input), ("output", jsonString o.output),
    ("method", jsonString o.method.name),
    ("functions_decorated", toString o.result.functionsDecorated),
    ("import_added", toString o.result.importAdded)] ++ guard

/-- The outcome as an indented JSON object. -/
def toJsonText (o : Outcome) : String :=
  let lines := o.members.map fun (k, v) => "  " ++ jsonString k ++ ": " ++ v
  "\x7b\n" ++ ",\n".intercalate lines ++ "\n\x7d"

end Outcome

end PyTune
