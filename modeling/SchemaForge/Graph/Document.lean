import SchemaForge.Canonical
import SchemaForge.Graph
/-!
The document of a node. References are written where they were used, so that a document never
repeats the schema of another file.
-/
namespace SchemaForge.Graph

/-- What stands for a node where it is used: the reference to it, or its own document. -/
def placed (own : NodeId → Members) (node : NodeId) : Option RefSite → Json
  | some s => Canonical.site s
  | none => .object (own node)

/-- The members of a document, at most so many schemas deep. -/
def membersWithin (g : Graph) : Nat → NodeId → Members
  | 0, _ => []
  | limit + 1, id =>
    let own := g.membersWithin limit
    match g.property? id with
    | some ⟨info, .leaf l⟩ => Canonical.leaf info l
    | some ⟨info, .array items site⟩ => Canonical.array info (placed own items site)
    | some ⟨info, .object head members⟩ =>
      Canonical.object info head (members.map fun m => (m.name, placed own m.node m.site))
    | none => []

/-- The document of a node. Where no schema lies inside itself, none is deeper than there are
nodes. -/
def document (g : Graph) (id : NodeId) : Document := ⟨g.membersWithin g.size id⟩

end SchemaForge.Graph
