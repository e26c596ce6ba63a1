import SchemaForge.Error
/-!
Where schema files are found. A library knows which files it can serve, so that nobody follows
references through more of them than there are.
-/
namespace SchemaForge

structure Library where
  /-- The directory of references that no file makes. -/
  currentDir : Path
  /-- Directories searched after the one of the file that refers. -/
  includeDirs : List Path
  /-- Whether a path names a file. -/
  has : Path → Bool
  /-- The one path by which a file is known. -/
  identity : Path → Except Error Path
  read : Path → Except Error String
  files : List Path
  mem_files : ∀ p q, has p = true → identity p = .ok q → q ∈ files

/-- Texts by their paths, in memory. -/
structure FileMap where
  currentDir : Path
  files : List (Path × String)

namespace FileMap

def resolve (m : FileMap) (p : Path) : Path := (m.currentDir.join p).normalize

/-- Adds a text, or replaces the one at its path. -/
def add (m : FileMap) (p : Path) (text : String) : FileMap :=
  { m with files := (m.resolve p, text) :: m.files.filter (·.1 != m.resolve p) }

def has (m : FileMap) (p : Path) : Bool := (m.files.map Prod.fst).contains (m.resolve p)

def read (m : FileMap) (p : Path) : Except Error String :=
  match m.files.lookup (m.resolve p) with
  | some text => .ok text
  | none => .error (.load (m.resolve p) .noSuchFile)

def library (m : FileMap) (includeDirs : List Path) : Library where
  currentDir := m.currentDir
  includeDirs := includeDirs
  has := m.has
  identity p := .ok (m.resolve p)
  read := m.read
  files := m.files.map Prod.fst
  mem_files p q h hq := by
    cases hq
    simpa [has] using h

end FileMap

end SchemaForge
