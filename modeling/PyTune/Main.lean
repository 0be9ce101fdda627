import PyTune.Report

/-!
# Command line

`fastpy FILE [METHOD]` applies a method to a Python file and writes the result beside it as
`<stem>_FAST.<ext>`; a missing file or method is asked for on standard input. Running the
result (`--run`) is not done here: it ends with the warning and exit status of a failed run.
-/

namespace PyTune.Cli

/-- What a method does to a file, for the method list. -/
def effect : Method → String
  | .multiprocessing => "adds an if __name__ == '__main__' block running main() in a Process"
  | .nativeExtension => "adds pybind11/Cython translation guidance comments"
  | .numba => "adds @njit to every function and imports it"
  | .cython => "adds the language_level=3 directive and .pyx guidance"
  | .caching => "adds @lru_cache to every function and imports it"
  | .vectorize => "imports numpy as np and adds vectorization guidance"

/-- Pads a text with spaces to `width` characters. -/
def padRight (s : String) (width : Nat) : String :=
  s ++ String.ofList (List.replicate (width - s.length) ' ')

/-- The method list. -/
def methodList : List String :=
  ["  Methods", ""] ++
    Method.all.map (fun m =>
      "    " ++ toString m.number ++ "  " ++ padRight m.name 16 ++ "  " ++ padRight m.label 30 ++
        "  # " ++ effect m) ++
    ["", "  Usage:  fastpy <FILE> [METHOD] [--run]",
      "          fastpy calc.py 3                 numba, writes calc_FAST.py",
      "          fastpy calc.py caching --run     cache, then run the result",
      "          fastpy                           interactive mode", ""]

/-- A one-line summary of what the edits did, if they did anything. -/
def summary (r : Optimized) : Option String :=
  let parts :=
    (if r.functionsDecorated > 0 then [toString r.functionsDecorated ++ " function(s) decorated"]
      else []) ++
    (if r.importAdded then ["import added"] else []) ++
    (match r.guard with
      | some (.added true) => ["entry point and stub main() added"]
      | some (.added false) => ["entry point added"]
      | _ => [])
  if parts.isEmpty then none else some (", ".intercalate parts)

/-- The command-line options. -/
structure Options where
  file : Option String := none
  method : Option String := none
  run : Bool := false
  python : String := "python3"
  json : Bool := false
  listMethods : Bool := false

/-- Reads the arguments: flags anywhere, then the file and the method in order. -/
def Options.ofArgs : List String → Options → Except String Options
  | [], o => .ok o
  | "--run" :: rest, o => Options.ofArgs rest { o with run := true }
  | "--python" :: p :: rest, o => Options.ofArgs rest { o with python := p }
  | "--json" :: rest, o => Options.ofArgs rest { o with json := true }
  | "--list-methods" :: rest, o => Options.ofArgs rest { o with listMethods := true }
  | a :: rest, o =>
    if a.startsWith "-" && a != "-" then .error ("unexpected argument '" ++ a ++ "'")
    else match o.file, o.method with
      | none, _ => Options.ofArgs rest { o with file := some a }
      | some _, none => Options.ofArgs rest { o with method := some a }
      | some _, some _ => .error ("unexpected argument '" ++ a ++ "'")

end PyTune.Cli

open PyTune

/-- Reads one answer from standard input, trimmed; fails at the end of input. -/
def readAnswer (stdin : IO.FS.Stream) : IO String := do
  let line ← stdin.getLine
  if line.isEmpty then throw (IO.userError "no input given")
  return Text.trim line

/-- Asks for the file until a name is given. -/
partial def promptFile (stdin : IO.FS.Stream) (stdout : IO.FS.Stream) : IO String := do
  stdout.putStr "Enter the Python file name to optimize: "
  stdout.flush
  let answer ← readAnswer stdin
  if answer.isEmpty then promptFile stdin stdout else return answer

/-- Asks for the method until a valid one is chosen. -/
partial def promptMethod (stdin : IO.FS.Stream) (stdout : IO.FS.Stream) : IO String := do
  stdout.putStrLn "Please select one of the following optimization methods:"
  for m in Method.all do
    stdout.putStrLn (toString m.number ++ " - " ++ m.label)
  stdout.putStr "Your choice (1-6): "
  stdout.flush
  let answer ← readAnswer stdin
  match Method.parse answer with
  | .ok _ => return answer
  | .error _ =>
    stdout.putStrLn "Invalid selection!"
    promptMethod stdin stdout

/-- Runs the command line and gives the exit status. -/
def runCli (args : List String) : IO UInt32 := do
  let stdin ← IO.getStdin
  let stdout ← IO.getStdout
  let stderr ← IO.getStderr
  match Cli.Options.ofArgs args {} with
  | .error e =>
    stderr.putStrLn ("error: " ++ e)
    return 2
  | .ok o =>
    if o.listMethods then
      for line in Cli.methodList do stdout.putStrLn line
      return 0
    let file ← match o.file with
      | some f => pure f
      | none => promptFile stdin stdout
    let methodText ← match o.method with
      | some m => pure m
      | none => promptMethod stdin stdout
    if let .error e := Method.parse methodText then
      stderr.putStrLn ("error: " ++ e.message)
      return 2
    let source ← try IO.FS.readFile file catch e => do
      stderr.putStrLn ("error: cannot read " ++ file ++ ": " ++ toString e)
      return 2
    match Outcome.run file methodText source with
    | .error e =>
      stderr.putStrLn ("error: " ++ e.message)
      return UInt32.ofNat e.exitCode
    | .ok outcome =>
      try IO.FS.writeFile outcome.output outcome.result.text catch e => do
        stderr.putStrLn ("error: cannot write " ++ outcome.output ++ ": " ++ toString e)
        return 2
      if o.json then
        stdout.putStrLn outcome.toJsonText
      else
        stdout.putStrLn ("Optimized file saved as '" ++ outcome.output ++ "'.")
        if let some s := Cli.summary outcome.result then stdout.putStrLn s
      if o.run then
        stderr.putStrLn
          ("warning: could not start " ++ o.python ++ ": running a script is not supported")
        return 3
      return 0

def main (args : List String) : IO UInt32 :=
  runCli args
