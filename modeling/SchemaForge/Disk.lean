import SchemaForge.FileTree
/-!
What a run needs from the place where its files lie.
-/
namespace SchemaForge

structure Disk (m : Type → Type) where
  /-- The files that a reference leads to at once or by other references, with the directories
  that are searched for them. -/
  library : List Path → String → m Library
  /-- The text of a file, if it can be read. -/
  read : Path → m (Option String)
  /-- Makes a directory and those on the way to it; says whether they are there then. -/
  makeDirs : Path → m Bool
  /-- Writes a file; says whether that worked. -/
  write : Path → String → m Bool
  /-- Writes a file of a directory under another name first, so that nobody sees half of it. -/
  replace : Path → String → String → m Bool
  /-- The time. -/
  time : m String

namespace FileTree

/-- Performs a change if it is possible. -/
def change (f : FileTree → Option FileTree) : StateM FileTree Bool :=
  fun t => match f t with
    | some t => (true, t)
    | none => (false, t)

/-- The name under which a file is written first. -/
def draftName (name : String) : String := "." ++ name ++ "......"

/-- A tree as the place where files lie. -/
def disk (time : String) : Disk (StateM FileTree) where
  library includeDirs _ := return (← get).library includeDirs
  read p := return (← get).fileText? p
  makeDirs p := change (·.makeDirs? p)
  write p text := change (·.write? p text)
  replace dir name text :=
    change fun t => if isName (draftName name) then t.write? (dir.join ⟨name⟩) text else none
  time := pure time

end FileTree

end SchemaForge
