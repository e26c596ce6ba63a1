import SchemaForge.Graph
/-!
Chains of arrays, and what they hold in the end.
-/
namespace SchemaForge

/-- The arrays of a chain, outermost first, and the first node below them that is none. -/
structure ArrayChain where
  levels : List NodeId
  leaf : NodeId
  deriving DecidableEq

namespace ArrayChain

def depth (c : ArrayChain) : Nat := c.levels.length

/-- Whether the items at a level are leaves. -/
def isInnermost (c : ArrayChain) (level : Nat) : Bool := level + 1 == c.depth

/-- How many dimensions are left at a level. -/
def dims (c : ArrayChain) (level : Nat) : Nat := c.depth - level

end ArrayChain

/-- The type of a Go slice with some dimensions. -/
def goSlice (dims : Nat) (leaf : String) : String := String.join (List.replicate dims "[]") ++ leaf

/-- The type of a TypeScript array with some dimensions. -/
def tsArray (dims : Nat) (leaf : String) : String := leaf ++ String.join (List.replicate dims "[]")

namespace Graph

/-- Follows items through at most so many arrays. -/
def arrayChainWithin (g : Graph) : Nat → NodeId → Option ArrayChain
  | 0, _ => none
  | limit + 1, id =>
    match g.property? id with
    | some ⟨_, .array items _⟩ =>
      (g.arrayChainWithin limit items).map fun c => { c with levels := id :: c.levels }
    | _ => some ⟨[], id⟩

/-- The chain of arrays that starts at a node; `none` if it leads back into itself. A chain that
ends passes no array twice. -/
def arrayChain? (g : Graph) (id : NodeId) : Option ArrayChain := g.arrayChainWithin (g.size + 1) id

/-- The first node below a chain of arrays that is none, or the node itself if the chain has no
end. -/
def arrayLeaf (g : Graph) (id : NodeId) : NodeId :=
  match g.arrayChain? id with
  | some c => c.leaf
  | none => id

def arrayDepth (g : Graph) (id : NodeId) : Nat :=
  match g.arrayChain? id with
  | some c => c.depth
  | none => 0

/-- The object with members that a node leads to: itself, or what its arrays hold. -/
def memberObject? (g : Graph) (id : NodeId) : Option NodeId :=
  if g.hasMembers (g.arrayLeaf id) then some (g.arrayLeaf id) else none

end Graph

end SchemaForge
