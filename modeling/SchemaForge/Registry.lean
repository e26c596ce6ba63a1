import SchemaForge.Document
import SchemaForge.Library
import SchemaForge.Property
import SchemaForge.Text.Blank
/-!
Which schema files are known, and what has been written for them. One registry lives as long as
one run.
-/
namespace SchemaForge

namespace Library

/-- The path that a reference writes. -/
def referencePath (reference : String) : Except Error Path :=
  let reference := Text.trim reference
  if reference.isEmpty || reference.toList.head? == some '#' then
    .error (.reference (.inDocument reference))
  else if "file://".toList.isPrefixOf reference.toList then
    .ok ⟨String.ofList (reference.toList.drop 7)⟩
  else .error (.reference (.scheme reference))

/-- Where a path is looked for: an absolute one as it stands, a relative one in the directory of
the file that refers and in those of the library. -/
def candidates (lib : Library) (referrer : Option Path) (p : Path) : List Path :=
  if p.isAbsolute then [p]
  else
    let dir := (referrer.bind Path.parent?).getD lib.currentDir
    dir.join p :: lib.includeDirs.map (·.join p)

/-- The file that a reference leads to. -/
def locate (lib : Library) (referrer : Option Path) (reference : String) : Except Error Path :=
  match referencePath reference with
  | .error e => .error e
  | .ok p =>
    match (lib.candidates referrer p).find? lib.has with
    | some found => lib.identity found
    | none =>
      .error (.reference (.missing (Text.trim reference) (lib.candidates referrer p)))

theorem mem_files_of_locate {lib : Library} {referrer : Option Path} {reference : String} {f : Path}
    (h : lib.locate referrer reference = .ok f) : f ∈ lib.files := by
  unfold locate at h
  split at h
  · simp at h
  · split at h
    · next found hf => exact lib.mem_files found f (List.find?_some hf) h
    · simp at h

end Library

/-- One schema file. -/
structure Entry where
  file : Path
  /-- The reference that led to the file first. -/
  reference : String
  document : Document
  /-- The node of the schema, once its construction has started. -/
  node : Option NodeId
  emitted : Bool

structure Registry where
  entries : List Entry
  /-- Files by the references that led to them and by the ids of their documents. -/
  keys : List (String × Path)
  /-- Names of units, in the order in which they were claimed. -/
  units : List String
  /-- How many files have been read. -/
  reads : Nat

/-- What a reference leads to. -/
structure Resolved where
  file : Path
  document : Document
  node : Option NodeId
  /-- Whether the file was known before. -/
  cached : Bool

namespace Registry

def empty : Registry := ⟨[], [], [], 0⟩

def entry? (r : Registry) (file : Path) : Option Entry := r.entries.find? (·.file.Same file)

/-- The entry that a reference or an id leads to. -/
def entryByKey? (r : Registry) (key : String) : Option Entry := (r.keys.lookup key).bind r.entry?

/-- Gives a key to a file unless it has one. -/
def addKey (keys : List (String × Path)) (key : String) (file : Path) : List (String × Path) :=
  if key.isEmpty || (keys.lookup key).isSome then keys else keys ++ [(key, file)]

/-- Enters a document. The first one of a file stays. -/
def register (r : Registry) (file : Path) (reference : String) (d : Document) : Registry :=
  let keys := addKey r.keys ((d.string? "$id").getD "") file
  let keys := addKey keys reference file
  let entries :=
    if (r.entry? file).isSome then r.entries else r.entries ++ [⟨file, reference, d, none, false⟩]
  { r with entries, keys }

def modifyEntry (r : Registry) (file : Path) (f : Entry → Entry) : Registry :=
  { r with entries := r.entries.map fun e => if e.file.Same file then f e else e }

def setNode (r : Registry) (file : Path) (node : NodeId) : Registry :=
  r.modifyEntry file fun e => { e with node := some node }

def node? (r : Registry) (file : Path) : Option NodeId := (r.entry? file).bind Entry.node

def isEmitted (r : Registry) (file : Path) : Bool :=
  match r.entry? file with
  | some e => e.emitted
  | none => false

/-- Marks a file as written; says whether it is known and was not marked before. -/
def markEmitted (r : Registry) (file : Path) : Bool × Registry :=
  match r.entry? file with
  | some e =>
    if e.emitted then (false, r) else (true, r.modifyEntry file fun e => { e with emitted := true })
  | none => (false, r)

/-- Claims the name of a unit; says whether it was free. -/
def claimUnit (r : Registry) (name : String) : Bool × Registry :=
  if r.units.contains name then (false, r) else (true, { r with units := r.units ++ [name] })

/-- Reads the document that a located file holds, unless it is known. -/
def fetch (r : Registry) (lib : Library) (reference : String) (file : Path) :
    Except Error Resolved × Registry :=
  match r.entry? file with
  | some e => (.ok ⟨file, e.document, e.node, true⟩, r)
  | none =>
    match lib.read file with
    | .error e => (.error e, r)
    | .ok text =>
      let r := { r with reads := r.reads + 1 }
      match Document.read file text with
      | .error e => (.error e, r)
      | .ok d => (.ok ⟨file, d, none, false⟩, r.register file (Text.trim reference) d)

/-- Follows a reference to its document. -/
def resolve (r : Registry) (lib : Library) (referrer : Option Path) (reference : String) :
    Except Error Resolved × Registry :=
  match lib.locate referrer reference with
  | .error e => (.error e, r)
  | .ok file => r.fetch lib reference file

/-- The registry and the directories that it searches on one line. -/
def describe (r : Registry) (includeDirs : List Path) : String :=
  let quotedList (texts : List String) := ", ".intercalate (texts.map Text.quoted)
  let dirs := quotedList (includeDirs.map Path.text)
  let files := quotedList (r.entries.map (·.file.text))
  let units := quotedList r.units
  s!"Registry \x7b include_dirs: [{dirs}], entries: [{files}], units: \x7b{units}\x7d \x7d"

theorem file_of_fetch {r : Registry} {lib : Library} {reference : String} {file : Path}
    {found : Resolved} (h : (r.fetch lib reference file).1 = .ok found) : found.file = file := by
  unfold fetch at h
  split at h
  · cases h; rfl
  · split at h
    · simp at h
    · simp only at h
      split at h
      · simp at h
      · cases h; rfl

theorem mem_files_of_resolve {r : Registry} {lib : Library} {referrer : Option Path}
    {reference : String} {found : Resolved}
    (h : (r.resolve lib referrer reference).1 = .ok found) : found.file ∈ lib.files := by
  unfold resolve at h
  split at h
  · simp at h
  · next file hf =>
    rw [file_of_fetch h]
    exact Library.mem_files_of_locate hf

end Registry

end SchemaForge
