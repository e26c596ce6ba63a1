import SchemaForge.Registry
/-!
Files as they were found at one time. `Json.references` tells which other files a document may
lead to.
-/
namespace SchemaForge

structure Snapshot where
  currentDir : Path
  /-- Paths that lead to files, with the one path by which each file is known. -/
  found : List (Path × Path)
  /-- The texts of files that can be read. -/
  texts : List (Path × String)

namespace Snapshot

def has (s : Snapshot) (p : Path) : Bool := (s.found.lookup p).isSome

def identity (s : Snapshot) (p : Path) : Except Error Path :=
  match s.found.lookup p with
  | some file => .ok file
  | none => .error (.load p .unreadable)

def read (s : Snapshot) (file : Path) : Except Error String :=
  match s.texts.lookup file with
  | some text => .ok text
  | none => .error (.load file .unreadable)

def library (s : Snapshot) (includeDirs : List Path) : Library where
  currentDir := s.currentDir
  includeDirs := includeDirs
  has := s.has
  identity := s.identity
  read := s.read
  files := s.found.map Prod.snd
  mem_files p file _ h := by
    unfold identity at h
    split at h
    · next q hq =>
      cases h
      obtain ⟨l₁, l₂, hf, _⟩ := List.lookup_eq_some_iff.1 hq
      simp [hf]
    · simp at h

end Snapshot

namespace Json

mutual

/-- Every text that stands under the key of references. -/
def references : Json → List String
  | array items => itemReferences items
  | object members => memberReferences members
  | _ => []

def itemReferences : List Json → List String
  | [] => []
  | v :: rest => references v ++ itemReferences rest

def memberReferences : List (String × Json) → List String
  | [] => []
  | (key, v) :: rest =>
    (if key = "$ref" then v.string?.toList else []) ++ references v ++ memberReferences rest

end

end Json

end SchemaForge
