/-!
# File paths

Paths are read as on Unix: `/` separates components, and empty and `.` components are skipped
except a leading `./`. A file name's stem and extension split at its last dot, unless that dot
starts the name.
-/

namespace PyTune.Path

/-- The root `/`, or the `.` that starts a relative path, with which a path begins. -/
def lead (p : String) : List Char :=
  match p.toList with
  | '/' :: _ => ['/']
  | ['.'] | '.' :: '/' :: _ => ['.']
  | _ => []

/-- The text after a path's lead, split at every separator. -/
def segments (p : String) : List (List Char) :=
  (p.toList.drop (lead p).length).splitOn '/'

/-- A segment that names a component: neither empty nor `.`. -/
def isComponent (s : List Char) : Bool :=
  !s.isEmpty && s != ['.']

/-- The last component of a path, if it names a file or directory. -/
def fileName? (p : String) : Option String :=
  match (segments p).reverse.find? isComponent with
  | some s => if s == ['.', '.'] then none else some (String.ofList s)
  | none => none

/-- The path without its last component, and without the separators and skipped components
before it: the lead and the segments up to the previous component. -/
def parent (p : String) : String :=
  let segs := segments p
  let before := (segs.reverse.dropWhile (! isComponent ·)).drop 1 |>.dropWhile (! isComponent ·)
  String.ofList (lead p ++ ['/'].intercalate before.reverse)

/-- The stem and the extension of a file name. -/
def splitExtension (name : String) : String × Option String :=
  let cs := name.toList
  if name == ".." then (name, none)
  else
    match cs.reverse.span (· != '.') with
    | (_, []) => (name, none)
    | (afterRev, _ :: beforeRev) =>
      if beforeRev.isEmpty then (name, none)
      else (String.ofList beforeRev.reverse, some (String.ofList afterRev.reverse))

/-- The path with its file name replaced by `name`, or `name` added as a last component if it
has no file name. -/
def withFileName (p : String) (name : String) : String :=
  let base := if (fileName? p).isSome then parent p else p
  if !base.isEmpty && !base.endsWith "/" then base ++ "/" ++ name else base ++ name

/-- Where the optimised copy of a file goes: beside it, with `_FAST` after its stem. -/
def output (p : String) : String :=
  let (stem, ext) := match fileName? p with
    | some n => splitExtension n
    | none => ("", none)
  let name := match ext with
    | some e => stem ++ "_FAST." ++ e
    | none => stem ++ "_FAST"
  withFileName p name

end PyTune.Path
