import SchemaForge.Path
import SchemaForge.Property
/-!
Graphs of schemas. Nodes refer to each other by their place, so that schemas can be shared and
refer back to themselves.
-/
namespace SchemaForge

/-- A schema with what is known about its surroundings. -/
structure Node where
  property : Property
  /-- The first node that was found to refer to this one. -/
  parent : Option NodeId
  /-- The file it was written in. -/
  file : Option Path
  /-- Whether it is the whole schema of its file. -/
  fileRoot : Bool

namespace Node

def ofProperty (p : Property) : Node := ⟨p, none, none, false⟩

/-- Sets the parent unless there is one. -/
def withParent (n : Node) (parent : NodeId) : Node :=
  if n.parent.isSome then n else { n with parent := some parent }

/-- Sets the file unless there is one. -/
def withFile (n : Node) (file : Path) : Node :=
  if n.file.isSome then n else { n with file := some file }

/-- What a node learns from a node that refers to it. The root of a file keeps its own file. -/
def adopt (n : Node) (parent : NodeId) (file : Option Path) : Node :=
  let n := n.withParent parent
  match file with
  | some file => if n.fileRoot then n else n.withFile file
  | none => n

end Node

structure Graph where
  nodes : Array Node

namespace Graph

def empty : Graph := ⟨#[]⟩

def size (g : Graph) : Nat := g.nodes.size

def node? (g : Graph) (id : NodeId) : Option Node := g.nodes[id]?

def property? (g : Graph) (id : NodeId) : Option Property := (g.node? id).map Node.property

/-- The kind of a node; a place without node counts as an object. -/
def kind (g : Graph) (id : NodeId) : Kind :=
  match g.property? id with
  | some p => p.kind
  | none => .object

/-- The head and the members of an object. -/
def object? (g : Graph) (id : NodeId) : Option (ObjectHead × List Member) :=
  match g.property? id with
  | some ⟨_, .object head members⟩ => some (head, members)
  | _ => none

def title (g : Graph) (id : NodeId) : String :=
  match g.object? id with
  | some (head, _) => head.titleText
  | none => ""

def isFileRoot (g : Graph) (id : NodeId) : Bool :=
  match g.node? id with
  | some n => n.fileRoot
  | none => false

def file? (g : Graph) (id : NodeId) : Option Path := (g.node? id).bind Node.file

def parent? (g : Graph) (id : NodeId) : Option NodeId := (g.node? id).bind Node.parent

def children (g : Graph) (id : NodeId) : List NodeId :=
  match g.property? id with
  | some p => p.children
  | none => []

/-- Adds a node at the next place. -/
def add (g : Graph) (n : Node) : Graph := ⟨g.nodes.push n⟩

def modify (g : Graph) (id : NodeId) (f : Node → Node) : Graph := ⟨g.nodes.modify id f⟩

def replace (g : Graph) (id : NodeId) (p : Property) : Graph :=
  g.modify id fun n => { n with property := p }

/-- Whether a node is an object with members. -/
def hasMembers (g : Graph) (id : NodeId) : Bool :=
  match g.object? id with
  | some (_, members) => !members.isEmpty
  | none => false

end Graph

end SchemaForge
