import SchemaForge.Building
/-!
Builders that keep the chain of the files they are at work on themselves. They enter a file before
they follow its document and leave it once that is done, whether it has worked or not.
-/
namespace SchemaForge

/-- A builder at work on a workspace. -/
structure Builder extends Workspace where
  /-- The files that it has entered and not left yet. -/
  chain : List Path

namespace Builder

/-- A new builder for a workspace. -/
def new (w : Workspace) : Builder := ⟨w, []⟩

/-- What a builder does, unless it is to go on without end. -/
abbrev Action := StateT Builder Option

/-- Work on the workspace that leaves the chain alone. -/
def perform {α : Type} (b : Build α) : Action (Except Error α) := fun s =>
  let done := b s.toWorkspace
  some (done.1, { s with toWorkspace := done.2 })

/-- Enters a file; says whether it had been left. -/
def enter (file : Path) : Action Bool := fun s =>
  if s.chain.any (·.Same file) then some (false, s)
  else some (true, { s with chain := file :: s.chain })

def leave (file : Path) : Action Unit := fun s =>
  some ((), { s with chain := s.chain.filter (!·.Same file) })

/-- Finds the document that a reference leads to. -/
def resolve (lib : Library) (referrer : Option Path) (target : String) : Build Resolved := fun w =>
  let (found, r) := w.registry.resolve lib referrer target
  (found, { w with registry := r })

section document

-- what the references of a document lead to
variable (follow : String → Action (Except Error NodeId))

mutual

/-- The node of a schema: that of another file, or a new one. -/
def node (s : Schema) : Action (Except Error NodeId) :=
  match s.declaredSite? with
  | some site => follow site.reference
  | none => do
    match ← property s with
    | .ok p => perform (Build.add p)
    | .error e => return .error e
termination_by (sizeOf s, 1)

/-- The property that a schema declares. -/
def property (s : Schema) : Action (Except Error Property) :=
  match s with
  -- nobody asks a reference for its property: it is followed
  | .reference _ => return .error (.structural "schema" [.typeMissing])
  | .faulty context faults => return .error (.structural context faults)
  | .leaf info leaf => return .ok ⟨info, .leaf leaf⟩
  | .array info items => do
    match ← node items with
    | .ok id => return .ok ⟨info, .array id items.declaredSite?⟩
    | .error e => return .error e
  | .object context info head before inner after => do
    match ← members head 0 inner with
    | .ok (found, faults) =>
      let faults := before ++ faults ++ after
      if faults.isEmpty then return .ok ⟨info, .object head found⟩
      else return .error (.structural context faults)
    | .error e => return .error e
termination_by (sizeOf s, 0)

/-- The members of an object from an index on, and the faults in their structure. -/
def members (head : ObjectHead) (index : Nat) (inner : List (String × Schema)) :
    Action (Except Error (List Member × List Fault)) :=
  match inner with
  | [] => return .ok ([], [])
  | (name, s) :: rest => do
    match ← node s with
    | .ok id =>
      let member : Member := ⟨name, index, !head.requires name, id, s.declaredSite?⟩
      return (← members head (index + 1) rest).map fun (found, faults) =>
        (member :: found, faults)
    | .error (.structural _ faults) =>
      return (← members head (index + 1) rest).map fun (found, more) =>
        (found, faults.map (.within name) ++ more)
    | .error e => return .error e
termination_by (sizeOf inner, 0)

end

/-- The node of a file that has been entered: that of another file, or one that is reserved before
its property is made. -/
def visit (file : Path) (s : Schema) : Action (Except Error NodeId) :=
  match s.declaredSite? with
  | some site => do
    match ← follow site.reference with
    | .ok id => perform (Build.record file id)
    | .error e => return .error e
  | none => do
    match ← perform (Build.reserve file) with
    | .error e => return .error e
    | .ok slot =>
      match ← property follow s with
      | .ok p => perform (Build.fill slot p)
      | .error e => return .error e

end document

/-- The node that a reference leads to. `follow` yields the nodes of the references that a file
makes. -/
def referenceBy (lib : Library) (follow : Option Path → String → Action (Except Error NodeId))
    (referrer : Option Path) (target : String) : Action (Except Error NodeId) := do
  match ← perform (resolve lib referrer target) with
  | .error e => return .error e
  | .ok found =>
    match found.node with
    | some id => return .ok id
    | none =>
      if ← enter found.file then
        let outcome ← visit (follow (some found.file)) found.file
          (Schema.ofDocument found.document)
        leave found.file
        return outcome
      else return .error (.reference (.circular target))

/-- Follows references no deeper than through a number of files. -/
def referenceWithin (lib : Library) : Nat → Option Path → String → Action (Except Error NodeId)
  | 0 => fun _ _ _ => none
  | limit + 1 => referenceBy lib (referenceWithin lib limit)

/-- Follows a reference, and in the same way those of the files that it enters. -/
def reference (lib : Library) : Option Path → String → Action (Except Error NodeId) :=
  -- each file that is entered is one of the library
  referenceWithin lib (lib.files.length + 1)

/-- Loads the schema that a reference leads to. -/
def load (lib : Library) (target : String) : Action (Except Error NodeId) := do
  match ← reference lib none target with
  | .ok root => perform (Build.link root)
  | .error e => return .error e

/-- Builds a document whose references are relative to a file, if one is given. -/
def document (lib : Library) (file : Option Path) (d : Document) :
    Action (Except Error NodeId) := do
  match ← node (reference lib file) (Schema.ofDocument d) with
  | .ok root => perform do
    match file with
    | some file => modify fun w => { w with graph := w.graph.modify root (·.withFile file) }
    | none => pure ()
    Build.link root
  | .error e => return .error e

end Builder

end SchemaForge
