import SchemaForge.Library
/-!
Directories and files, and what paths lead to among them. A directory must exist before a path can
go on from it, even if the next step leads out of it again.
-/
namespace SchemaForge

/-- The names that lead to a file or directory, from the root on. -/
abbrev Location := List String

structure FileTree where
  current : Location
  /-- Every directory but the root. -/
  dirs : List Location
  files : List (Location × String)

namespace FileTree

def isDir (t : FileTree) (l : Location) : Bool := l.isEmpty || t.dirs.contains l

def text? (t : FileTree) (l : Location) : Option String := t.files.lookup l

/-- Whether a file or directory may have a name. -/
def isName (s : String) : Bool := s.utf8ByteSize ≤ 255 && !s.toList.contains '\x00'

/-- Takes one step of a path. -/
def enter? (t : FileTree) (l : Location) (segment : List Char) : Option Location :=
  if !t.isDir l then none
  else if Path.isIdle segment then some l
  else if segment = ['.', '.'] then some l.dropLast
  else some (l ++ [String.ofList segment])

/-- Where a path starts. -/
def origin (t : FileTree) (p : Path) : Location := if p.isAbsolute then [] else t.current

/-- Where a path leads, whether there is something or not. -/
def locate? (t : FileTree) (p : Path) : Option Location :=
  if p.text.isEmpty then none
  else (Path.splitOn '/' p.text.toList).foldlM t.enter? (t.origin p)

def pathOf (l : Location) : Path := Path.ofPlaces true l

/-- The text of the file that a path leads to. -/
def fileText? (t : FileTree) (p : Path) : Option String := (t.locate? p).bind t.text?

def has (t : FileTree) (p : Path) : Bool := (t.fileText? p).isSome

/-- The path of what another path leads to, without detours. -/
def identity (t : FileTree) (p : Path) : Except Error Path :=
  match t.locate? p with
  | some l =>
    if t.isDir l || (t.text? l).isSome then .ok (pathOf l) else .error (.load p .unreadable)
  | none => .error (.load p .unreadable)

def read (t : FileTree) (p : Path) : Except Error String :=
  match t.fileText? p with
  | some text => .ok text
  | none => .error (.load p .unreadable)

def library (t : FileTree) (includeDirs : List Path) : Library where
  currentDir := pathOf t.current
  includeDirs := includeDirs
  has := t.has
  identity := t.identity
  read := t.read
  files := t.files.map fun (l, _) => pathOf l
  mem_files p q h hq := by
    unfold has fileText? at h
    unfold identity at hq
    split at hq
    · next l hl =>
      split at hq
      · cases hq
        simp only [hl, Option.bind_some, text?, Option.isSome_iff_exists] at h
        obtain ⟨text, h⟩ := h
        obtain ⟨l₁, l₂, hf, _⟩ := List.lookup_eq_some_iff.1 h
        simp [hf]
      · simp at hq
    · simp at hq

/-- Enters a step of a path; if it leads nowhere, makes a directory there where that is wanted. -/
def makeStep? (wanted : Bool) (t : FileTree) (l : Location) (segment : List Char) :
    Option (FileTree × Location) := do
  let l ← t.enter? l segment
  if t.isDir l then return (t, l)
  if wanted && (t.text? l).isNone && isName (String.ofList segment) then
    return ({ t with dirs := t.dirs ++ [l] }, l)
  none

/-- Makes the directories of a path. A path that ends in a dot does not make its last one. -/
def makeDirs? (t : FileTree) (p : Path) : Option FileTree := do
  let segments := Path.splitOn '/' p.text.toList
  let body := Path.dropIdleEnd segments
  let dotted := (segments.drop body.length).contains ['.']
  let (t, l) ← body.dropLast.foldlM (fun (t, l) => makeStep? true t l) (t, t.origin p)
  match body.getLast? with
  | some last => return (← makeStep? (!dotted) t l last).1
  | none => return t

/-- Writes a file into a directory that exists. -/
def write? (t : FileTree) (p : Path) (text : String) : Option FileTree := do
  let l ← t.locate? p
  if t.isDir l || !l.getLast?.any isName then none
  return { t with files := (l, text) :: t.files.filter (·.1 != l) }

/-- Files that are not as they were. -/
def changes (before after : FileTree) : List (Location × String) :=
  after.files.filter fun (l, text) => before.text? l != some text

end FileTree

end SchemaForge
