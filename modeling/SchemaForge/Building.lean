import SchemaForge.Graph.Traversal
import SchemaForge.Registry
import SchemaForge.Schema
/-!
Building the graph of a schema and of all schemas that it refers to. Each file becomes one node,
which is reserved before its document is followed, so that references may lead back to it.
-/
namespace SchemaForge

/-- What building works on. Both stay as they are when it fails. -/
structure Workspace where
  registry : Registry
  graph : Graph

def Workspace.empty : Workspace := ⟨.empty, .empty⟩

abbrev Build (α : Type) := ExceptT Error (StateM Workspace) α

namespace Build

/-- Adds a node at the next place. -/
def add (p : Property) : Build NodeId :=
  fun w => (.ok w.graph.size, { w with graph := w.graph.add (.ofProperty p) })

/-- Reserves a place for the schema of a file. -/
def reserve (file : Path) : Build NodeId :=
  fun w =>
    let node := { Node.ofProperty .reserved with file := some file, fileRoot := true }
    let w := { w with graph := w.graph.add node }
    (.ok (w.graph.size - 1), { w with registry := w.registry.setNode file (w.graph.size - 1) })

/-- Fills a reserved place. -/
def fill (id : NodeId) (p : Property) : Build NodeId :=
  fun w => (.ok id, { w with graph := w.graph.replace id p })

/-- Records that a file stands for a node. -/
def record (file : Path) (id : NodeId) : Build NodeId :=
  fun w => (.ok id, { w with registry := w.registry.setNode file id })

mutual

/-- Puts the nodes of a schema into the graph. `follow` yields the nodes of references, and
`place` puts the outermost node where it belongs, after all nodes inside. -/
def schema (follow : String → Build NodeId) (place : Property → Build NodeId) :
    Schema → Build NodeId
  | .reference site => follow site.reference
  | .faulty context faults => throw (.structural context faults)
  | .leaf info leaf => place ⟨info, .leaf leaf⟩
  | .array info items => do
    let node ← schema follow add items
    place ⟨info, .array node items.declaredSite?⟩
  | .object context info head before inner after => do
    let (found, faults) ← members follow head 0 inner
    let faults := before ++ faults ++ after
    if faults.isEmpty then place ⟨info, .object head found⟩
    else throw (.structural context faults)

/-- Builds members from an index on. The faults in the structure of all of them are collected;
any other error ends the building at once. -/
def members (follow : String → Build NodeId) (head : ObjectHead) (index : Nat) :
    List (String × Schema) → Build (List Member × List Fault)
  | [] => pure ([], [])
  | (name, s) :: rest => do
    let outcome ← ExceptT.lift (schema follow add s)
    let (found, faults) ← match outcome with
      | .ok node => pure ([⟨name, index, !head.requires name, node, s.declaredSite?⟩], [])
      | .error (.structural _ faults) => pure ([], faults.map (.within name))
      | .error e => throw e
    let (moreFound, moreFaults) ← members follow head (index + 1) rest
    pure (found ++ moreFound, faults ++ moreFaults)

end

/-- Files that references have not led through yet. -/
def pending (lib : Library) (chain : List Path) : List Path :=
  lib.files.filter fun f => !chain.any (·.Same f)

theorem pending_cons_lt {lib : Library} {chain : List Path} {f : Path} (h : f ∈ lib.files)
    (hc : chain.any (·.Same f) = false) :
    (pending lib (f :: chain)).length < (pending lib chain).length := by
  have : pending lib (f :: chain) = (pending lib chain).filter fun g => !decide (f.Same g) := by
    simp only [pending, List.filter_filter, List.any_cons, Bool.not_or]
  rw [this, List.length_filter_lt_length_iff_exists]
  exact ⟨f, List.mem_filter.2 ⟨h, by simpa using hc⟩, by simp [Path.Same]⟩

/-- The node that a reference leads to. `chain` holds the files that led to it and are not done;
a reference may meet one of them again only once that has its node. -/
def reference (lib : Library) (chain : List Path) (referrer : Option Path) (target : String) :
    Build NodeId := fun w =>
  match _ : w.registry.resolve lib referrer target with
  | (.error e, r) => (.error e, { w with registry := r })
  | (.ok found, r) =>
    let w := { w with registry := r }
    match found.node with
    | some node => (.ok node, w)
    | none =>
      if _ : chain.any (·.Same found.file) then
        (.error (.reference (.circular target)), w)
      else
        let follow next := reference lib (found.file :: chain) (some found.file) next
        let build : Build NodeId :=
          match Schema.ofDocument found.document with
          | .reference site => do record found.file (← follow site.reference)
          | s => do
            let slot ← reserve found.file
            schema follow (fill slot) s
        build w
termination_by (pending lib chain).length
decreasing_by
  apply pending_cons_lt
  · exact Registry.mem_files_of_resolve (congrArg Prod.fst ‹_›)
  · exact eq_false_of_ne_true ‹_›

/-- Tells the nodes below a node who refers to them and which file they belong to. -/
def link (root : NodeId) : Build NodeId :=
  fun w => (.ok root, { w with graph := w.graph.link root })

/-- Loads the schema that a reference leads to. -/
def load (lib : Library) (target : String) : Build NodeId := do
  link (← reference lib [] none target)

/-- Builds a document whose references are relative to a file, if one is given. -/
def document (lib : Library) (file : Option Path) (d : Document) : Build NodeId := do
  let root ← schema (reference lib [] file) add (Schema.ofDocument d)
  match file with
  | some file => modify fun w => { w with graph := w.graph.modify root (·.withFile file) }
  | none => pure ()
  link root

end Build

end SchemaForge
