import SchemaForge.Proofs.Growth
/-! References and nodes inside files: references lead to the roots of files, and what stands inside
a file never comes back to where it began. -/
namespace SchemaForge

/-- The nodes that a property refers to, with the references that they were declared with. -/
def Property.edges (p : Property) : List (NodeId × Option RefSite) :=
  match p.shape with
  | .leaf _ => []
  | .array items site => [(items, site)]
  | .object _ members => members.map fun m => (m.node, m.site)

theorem Property.map_fst_edges (p : Property) : p.edges.map Prod.fst = p.children := by
  obtain ⟨info, l | ⟨items, site⟩ | ⟨head, members⟩⟩ := p
  · rfl
  · rfl
  · exact List.map_map

namespace Graph

variable {g g' : Graph} {id c slot : NodeId} {p : Property} {site : Option RefSite}
  {made made' : List (NodeId × Option RefSite)}

/-- The references of a node and the nodes right inside it. -/
def edges (g : Graph) (id : NodeId) : List (NodeId × Option RefSite) :=
  match g.property? id with
  | some p => p.edges
  | none => []

/-- A node stands right inside another one: no reference leads there. -/
def Inside (g : Graph) (c id : NodeId) : Prop := (c, none) ∈ g.edges id

theorem lt_of_mem_edges {edge : NodeId × Option RefSite} (h : edge ∈ g.edges id) : id < g.size := by
  cases hp : g.property? id with
  | none =>
    rw [edges, hp] at h
    exact absurd h List.not_mem_nil
  | some p => exact lt_of_property? hp

theorem map_fst_edges (g : Graph) (id : NodeId) : (g.edges id).map Prod.fst = g.children id := by
  rw [edges, children]
  cases g.property? id with
  | none => rfl
  | some p => exact p.map_fst_edges

theorem mem_children_iff : c ∈ g.children id ↔ ∃ site, (c, site) ∈ g.edges id := by
  rw [← map_fst_edges]
  simp

/-- Edges to nodes that are there, with references to the roots of files and to no others. -/
def Sited (g : Graph) (made : List (NodeId × Option RefSite)) : Prop :=
  ∀ c site, (c, site) ∈ made → c < g.size ∧ (site.isSome = true ↔ g.isFileRoot c = true)

/-- Graphs in which references lead to the roots of files and nothing else does. What stands inside
a node inside a file has a smaller number. -/
structure Tidy (g : Graph) : Prop where
  sited : ∀ id, g.Sited (g.edges id)
  below : ∀ {id c}, g.isFileRoot id = false → g.Inside c id → c < id

theorem Sited.nil (g : Graph) : g.Sited [] := fun _ _ h => absurd h List.not_mem_nil

theorem Sited.append (h : g.Sited made) (h' : g.Sited made') : g.Sited (made ++ made') := by
  intro c site hc
  rcases List.mem_append.1 hc with hc | hc
  · exact h c site hc
  · exact h' c site hc

theorem Sited.mono (h : g.Sited made) (hg : g.Extends g') : g'.Sited made := by
  intro c site hc
  obtain ⟨hlt, hsite⟩ := h c site hc
  exact ⟨Nat.lt_of_lt_of_le hlt hg.size_le, hg.fileRoot hlt ▸ hsite⟩

theorem Tidy.empty : Tidy Graph.empty := by
  have hnil : ∀ id, Graph.empty.edges id = [] := fun _ => rfl
  refine ⟨fun id => hnil id ▸ .nil _, ?_⟩
  intro id c _ hc
  rw [Inside, hnil] at hc
  exact absurd hc List.not_mem_nil

theorem edges_add (g : Graph) (n : Node) (id : NodeId) :
    (g.add n).edges id = if id = g.size then n.property.edges else g.edges id := by
  split
  · next hid => rw [hid, edges, property?_add]
  · next hid => rw [edges, property?, node?_add, if_neg hid, edges, property?]

theorem edges_replace (hslot : slot < g.size) (p : Property) (id : NodeId) :
    (g.replace slot p).edges id = if id = slot then p.edges else g.edges id := by
  split
  · next hid => rw [hid, edges, property?_replace _ _ hslot]
  · next hid => rw [edges, property?_replace_ne _ _ (Ne.symm hid), edges]

/-- Nodes that learn where they stand refer to what they have referred to. -/
theorem Extends.edges (h : g.Extends g') (hsize : g'.size = g.size) (id : NodeId) :
    g'.edges id = g.edges id := by
  rw [Graph.edges, Graph.edges, h.property?_eq hsize]

theorem Tidy.add {n : Node} (h : g.Tidy) (hn : g.Sited n.property.edges) : (g.add n).Tidy := by
  refine ⟨?_, ?_⟩
  · intro id
    rw [edges_add]
    split
    · exact hn.mono (extends_add g n)
    · exact (h.sited id).mono (extends_add g n)
  · intro id c hid hc
    rw [Inside, edges_add] at hc
    split at hc
    · next heq => exact heq ▸ (hn c none hc).1
    · next hne =>
      rw [isFileRoot_eq, node?_add, if_neg hne, ← isFileRoot_eq] at hid
      exact h.below hid hc

/-- The root of a file may be filled with whatever is sited. -/
theorem Tidy.replace (h : g.Tidy) (hslot : g.isFileRoot slot = true) (hp : g.Sited p.edges) :
    (g.replace slot p).Tidy := by
  have hsited : ∀ {made}, g.Sited made → (g.replace slot p).Sited made := by
    intro made hmade c site hc
    rw [size_replace, isFileRoot_replace]
    exact hmade c site hc
  have hedges := edges_replace (lt_of_isFileRoot hslot) p
  refine ⟨?_, ?_⟩
  · intro id
    rw [hedges]
    split
    · exact hsited hp
    · exact hsited (h.sited id)
  · intro id c hid hc
    rw [isFileRoot_replace] at hid
    rw [Inside, hedges, if_neg] at hc
    · exact h.below hid hc
    · rintro rfl
      rw [hslot] at hid
      cases hid

/-- Nodes may learn where they stand. -/
theorem Extends.tidy (h : g.Extends g') (hsize : g'.size = g.size) (ht : g.Tidy) : g'.Tidy := by
  refine ⟨fun id => h.edges hsize id ▸ (ht.sited id).mono h, ?_⟩
  intro id c hid hc
  rw [h.isFileRoot hsize] at hid
  rw [Inside, h.edges hsize] at hc
  exact ht.below hid hc

end Graph

end SchemaForge
