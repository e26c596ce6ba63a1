import SchemaForge.CommandLine
import SchemaForge.Snapshot
import Std.Time.Format
/-!
The program on real files.
-/
namespace SchemaForge.Main

/-- Whether an action works. -/
def works (action : IO Unit) : IO Bool := do
  try action; return true
  catch _ => return false

/-- The one path by which a file is known, if a path leads to a file. -/
def fileAt? (p : Path) : IO (Option Path) := do
  try
    let file ← IO.FS.realPath p.text
    let isFile := (← file.metadata).type matches .file
    return if isFile then some ⟨file.toString⟩ else none
  catch _ => return none

def read? (p : Path) : IO (Option String) := do
  try return some (← IO.FS.readFile p.text)
  catch _ => return none

/-- Finds the files that references lead to, at once or by other references. -/
partial def explore (includeDirs : List Path) (s : Snapshot) :
    List (Option Path × String) → IO Snapshot
  | [] => return s
  | (referrer, reference) :: rest => do
    match Library.referencePath reference with
    | .error _ => explore includeDirs s rest
    | .ok p =>
      for candidate in (s.library includeDirs).candidates referrer p do
        if let some file ← fileAt? candidate then
          let s := { s with found := (candidate, file) :: s.found }
          if (s.texts.lookup file).isSome then return ← explore includeDirs s rest
          if let some text ← read? file then
            let s := { s with texts := (file, text) :: s.texts }
            let inner := ((Json.read? text).map Json.references).getD []
            return ← explore includeDirs s (inner.map (some file, ·) ++ rest)
          return ← explore includeDirs s rest
      explore includeDirs s rest

/-- The time in the style of RFC 3339. -/
def now : IO String := do
  let moment := Std.Time.DateTime.ofTimestamp (← Std.Time.Timestamp.now) Std.Time.TimeZone.ZoneRules.UTC
  return moment.format "uuuu-MM-dd'T'HH:mm:ss.SSSSSSSSSxxx"

def disk : Disk IO where
  library includeDirs reference := do
    let start : Snapshot := ⟨⟨(← IO.currentDir).toString⟩, [], []⟩
    return (← explore includeDirs start [(none, reference)]).library includeDirs
  read := read?
  makeDirs dir := works (unless dir.text.isEmpty do IO.FS.createDirAll dir.text)
  write p text := works (IO.FS.writeFile p.text text)
  replace dir name text := works do
    let draft := dir.join ⟨FileTree.draftName name⟩
    IO.FS.writeFile draft.text text
    IO.FS.rename draft.text (dir.join ⟨name⟩).text
  time := now

end SchemaForge.Main

def main (args : List String) : IO UInt32 := do
  let outcome ← SchemaForge.CommandLine.run SchemaForge.Main.disk args
  (← IO.getStdout).putStr outcome.output
  (← IO.getStderr).putStr outcome.complaint
  return outcome.code.toUInt32
