import SchemaForge.Graph
/-!
Walks through a graph along its references.
-/
namespace SchemaForge.Graph

/-- Nodes that a walk has not met. -/
def unseen (g : Graph) (seen : List NodeId) : List NodeId :=
  (List.range g.size).filter (!seen.contains ·)

theorem unseen_cons (g : Graph) (id : NodeId) (seen : List NodeId) :
    g.unseen (id :: seen) = (g.unseen seen).filter (· != id) := by
  simp only [unseen, List.filter_filter]
  congr 1
  funext n
  by_cases h : n = id <;> simp [h]

theorem length_unseen_cons {g : Graph} {id : NodeId} {seen : List NodeId} (h : id < g.size)
    (hs : seen.contains id = false) : (g.unseen (id :: seen)).length < (g.unseen seen).length := by
  rw [unseen_cons, List.length_filter_lt_length_iff_exists]
  exact ⟨id, List.mem_filter.2 ⟨List.mem_range.2 h, by simpa using hs⟩, by simp⟩

/-- The objects that are met from a row of pending nodes, each once. What a node refers to comes
before the nodes that were pending. -/
def objectsAlong (g : Graph) (seen : List NodeId) : List NodeId → List NodeId
  | [] => []
  | id :: pending =>
    if _ : id < g.size ∧ seen.contains id = false then
      let rest := g.objectsAlong (id :: seen) (g.children id ++ pending)
      if g.kind id = .object then id :: rest else rest
    else g.objectsAlong seen pending
termination_by pending => ((g.unseen seen).length, pending.length)
decreasing_by
  · next h => exact Prod.Lex.left _ _ (length_unseen_cons h.1 h.2)
  · exact Prod.Lex.right _ (Nat.lt_succ_self _)

/-- The objects that can be reached from a node, in the order of declaration. -/
def objects (g : Graph) (root : NodeId) : List NodeId := g.objectsAlong [] [root]

/-- Tells every node below a node who refers to it and which file it belongs to, at most so many
references deep. The first to say so wins. -/
def linkWithin : Nat → NodeId → Graph × List NodeId → Graph × List NodeId
  | 0, _, walk => walk
  | limit + 1, id, (g, seen) =>
    if seen.contains id then (g, seen)
    else
      let file := g.file? id
      (g.children id).foldl
        (fun (g, seen) child =>
          let g := if child = id then g else g.modify child (·.adopt id file)
          linkWithin limit child (g, seen))
        (g, id :: seen)

/-- Fills in parents and files below a node. No walk goes deeper than there are nodes. -/
def link (g : Graph) (root : NodeId) : Graph := (linkWithin (g.size + 1) root (g, [])).1

end SchemaForge.Graph
