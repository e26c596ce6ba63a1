/-!
File paths as they are written, and what they name.
-/
namespace SchemaForge

structure Path where
  text : String
  deriving DecidableEq

namespace Path

/-- One step of a path. -/
inductive Component where
  | root
  /-- A leading `.` -/
  | here
  /-- Two dots. -/
  | up
  | name (text : String)
  deriving DecidableEq

def splitOn (sep : Char) : List Char → List (List Char)
  | [] => [[]]
  | c :: cs =>
    if c = sep then [] :: splitOn sep cs
    else match splitOn sep cs with
      | s :: ss => (c :: s) :: ss
      | [] => [[c]]

def joinWith (sep : Char) : List (List Char) → List Char
  | [] => []
  | [s] => s
  | s :: ss => s ++ sep :: joinWith sep ss

def isAbsolute (p : Path) : Bool := p.text.toList.head? == some '/'

/-- Whether a part between slashes says nothing. -/
def isIdle (segment : List Char) : Bool := segment == [] || segment == ['.']

def component (segment : List Char) : Component :=
  if segment = ['.', '.'] then .up else .name (String.ofList segment)

/-- The steps of a path. Empty parts and dots inside it are no steps, a leading dot is. -/
def components (p : Path) : List Component :=
  let segments := splitOn '/' p.text.toList
  let start :=
    if p.isAbsolute then [.root] else if segments.head? == some ['.'] then [.here] else []
  start ++ (segments.filter (!isIdle ·)).map component

/-- Paths are the same when they have the same steps. -/
def Same (p q : Path) : Prop := p.components = q.components

instance (p q : Path) : Decidable (p.Same q) := inferInstanceAs (Decidable (_ = _))

/-- Appends a relative path; an absolute one replaces. -/
def join (p q : Path) : Path :=
  if q.isAbsolute then q
  else if p.text.isEmpty || p.text.toList.getLast? == some '/' then ⟨p.text ++ q.text⟩
  else ⟨p.text ++ "/" ++ q.text⟩

def dropIdleEnd (segments : List (List Char)) : List (List Char) :=
  (segments.reverse.dropWhile isIdle).reverse

/-- The root or leading dot of a path, and the rest of it. -/
def split (p : Path) : List Char × List Char :=
  match p.text.toList with
  | '/' :: rest => (['/'], rest)
  | '.' :: '/' :: rest => (['.'], '/' :: rest)
  | ['.'] => (['.'], [])
  | cs => ([], cs)

/-- The path without its last step, as it is written; the root and the empty path have none. -/
def parent? (p : Path) : Option Path :=
  let (start, body) := p.split
  match dropIdleEnd (splitOn '/' body) with
  | [] => if start = ['.'] then some ⟨""⟩ else none
  | segments =>
    some ⟨String.ofList (start ++ joinWith '/' (dropIdleEnd segments.dropLast))⟩

/-- Takes one step from a place that is given by the names that lead to it, innermost first. -/
def walk (names : List String) : Component → List String
  | .name s => s :: names
  | .up => names.tail
  | .root | .here => names

/-- The names that a path leads through, once `..` has undone the name before it. -/
def places (p : Path) : List String := (p.components.foldl walk []).reverse

/-- The path of a row of names. -/
def ofPlaces (absolute : Bool) (names : List String) : Path :=
  let body := joinWith '/' (names.map String.toList)
  ⟨String.ofList (if absolute then '/' :: body else body)⟩

/-- The path without `.` and `..`, resolved by its text alone. -/
def normalize (p : Path) : Path := ofPlaces p.isAbsolute p.places

end Path

end SchemaForge
