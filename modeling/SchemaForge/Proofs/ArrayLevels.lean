import Mathlib.Logic.Function.Iterate
import SchemaForge.Proofs.Arrays
/-! Chains of arrays level by level, and what is found out of a node by going through its arrays one
after the other. -/
namespace SchemaForge

/-- The node of a chain at a level: an array, or the leaf below the last one. -/
def ArrayChain.node (c : ArrayChain) (level : Nat) : NodeId := c.levels.getD level c.leaf

/-- Whether a chain is the way down from a node: each of its arrays holds the next one, and the last
one a leaf. -/
structure ArrayChain.Descends (c : ArrayChain) (g : Graph) (id : NodeId) : Prop where
  first : c.node 0 = id
  array : ∀ level < c.depth, ∃ info site,
    g.property? (c.node level) = some ⟨info, .array (c.node (level + 1)) site⟩
  last : ∀ info items site, g.property? c.leaf ≠ some ⟨info, .array items site⟩

/-- Below the last array, there is the leaf. -/
theorem ArrayChain.node_depth (c : ArrayChain) : c.node c.depth = c.leaf := by
  simp [node, depth]

namespace Graph

variable {α : Type} {g : Graph} {id a leaf : NodeId} {levels : List NodeId} {c : ArrayChain}
  {level : Nat}

/-- A chain without levels is a node that is no array. -/
theorem of_arrayChain?_nil (h : g.arrayChain? id = some ⟨[], leaf⟩) :
    id = leaf ∧ ∀ info items site, g.property? id ≠ some ⟨info, .array items site⟩ := by
  by_cases hp : ∃ info items site, g.property? id = some ⟨info, .array items site⟩
  · obtain ⟨info, items, site, hp⟩ := hp
    obtain ⟨c', -, heq⟩ := arrayChain?_array hp h
    cases heq
  · have hp : ∀ info items site, g.property? id ≠ some ⟨info, .array items site⟩ :=
      fun info items site h => hp ⟨info, items, site, h⟩
    rw [arrayChain?_leaf hp] at h
    cases h
    exact ⟨rfl, hp⟩

/-- The first level of a chain is its node, an array with the rest of the chain below it. -/
theorem of_arrayChain?_cons (h : g.arrayChain? id = some ⟨a :: levels, leaf⟩) :
    id = a ∧ ∃ info items site, g.property? id = some ⟨info, .array items site⟩ ∧
      g.arrayChain? items = some ⟨levels, leaf⟩ := by
  by_cases hp : ∃ info items site, g.property? id = some ⟨info, .array items site⟩
  · obtain ⟨info, items, site, hp⟩ := hp
    obtain ⟨c', hc', heq⟩ := arrayChain?_array hp h
    cases heq
    exact ⟨rfl, info, items, site, hp, hc'⟩
  · rw [arrayChain?_leaf fun info items site h => hp ⟨info, items, site, h⟩] at h
    cases h

/-- A chain starts at its node. -/
theorem node_zero (h : g.arrayChain? id = some c) : c.node 0 = id := by
  obtain ⟨levels, leaf⟩ := c
  cases levels with
  | nil => exact (of_arrayChain?_nil h).1.symm
  | cons a levels => exact (of_arrayChain?_cons h).1.symm

/-- From a node on a chain, the chain is what remains of it. -/
theorem arrayChain?_node (h : g.arrayChain? id = some c) (hlevel : level ≤ c.depth) :
    g.arrayChain? (c.node level) = some ⟨c.levels.drop level, c.leaf⟩ := by
  obtain ⟨levels, leaf⟩ := c
  induction level generalizing id levels with
  | zero => rwa [node_zero h]
  | succ level ih =>
    cases levels with
    | nil => exact absurd hlevel (Nat.not_succ_le_zero _)
    | cons a levels =>
      obtain ⟨-, info, items, site, -, hitems⟩ := of_arrayChain?_cons h
      exact ih levels hitems (Nat.le_of_succ_le_succ hlevel)

/-- Each node of a chain is an array of the next one, until it comes to its leaf. -/
theorem array_node (h : g.arrayChain? id = some c) (hlevel : level < c.depth) :
    ∃ info site, g.property? (c.node level) = some ⟨info, .array (c.node (level + 1)) site⟩ := by
  obtain ⟨levels, leaf⟩ := c
  induction level generalizing id levels with
  | zero =>
    cases levels with
    | nil => exact absurd hlevel (Nat.not_lt_zero _)
    | cons a levels =>
      obtain ⟨rfl, info, items, site, hp, hitems⟩ := of_arrayChain?_cons h
      have hnext : ArrayChain.node ⟨id :: levels, leaf⟩ 1 = items := node_zero hitems
      rw [hnext]
      exact ⟨info, site, hp⟩
  | succ level ih =>
    cases levels with
    | nil => exact absurd hlevel (Nat.not_lt_zero _)
    | cons a levels =>
      obtain ⟨-, info, items, site, -, hitems⟩ := of_arrayChain?_cons h
      exact ih levels hitems (Nat.lt_of_succ_lt_succ hlevel)

theorem leaf_not_array (h : g.arrayChain? id = some c) (info : Info) (items : NodeId)
    (site : Option RefSite) : g.property? c.leaf ≠ some ⟨info, .array items site⟩ := by
  have hleaf := arrayChain?_node h (Nat.le_refl c.depth)
  rw [ArrayChain.depth, List.drop_length] at hleaf
  exact c.node_depth ▸ (of_arrayChain?_nil hleaf).2 info items site

theorem descends (h : g.arrayChain? id = some c) : c.Descends g id :=
  ⟨node_zero h, fun _ => array_node h, leaf_not_array h⟩

/-- Below a level, there are the arrays that the chain has left at it. -/
theorem arrayDepth_node (h : g.arrayChain? id = some c) (hlevel : level ≤ c.depth) :
    g.arrayDepth (c.node level) = c.dims level ∧ g.arrayLeaf (c.node level) = c.leaf := by
  rw [arrayDepth, arrayLeaf, arrayChain?_node h hlevel]
  exact ⟨List.length_drop, rfl⟩

/-- What is found out of a node by going through at most so many arrays: what `list` makes of what
is found out of the items, and of a node that is no array, what `leaf` says. -/
def throughArrays (g : Graph) (leaf : NodeId → Option α) (list : α → α) :
    Nat → NodeId → Option α
  | 0, _ => none
  | limit + 1, id =>
    match g.property? id with
    | some ⟨_, .array items _⟩ => (g.throughArrays leaf list limit items).map list
    | _ => leaf id

/-- Going through the arrays one by one is counting them first. -/
theorem throughArrays_eq {leaf : NodeId → Option α} {list : α → α} {limit : Nat}
    (h : g.arrayChainWithin limit id = some c) :
    g.throughArrays leaf list limit id = (leaf c.leaf).map list^[c.depth] := by
  induction limit generalizing id c with
  | zero => cases h
  | succ limit ih =>
    rw [arrayChainWithin] at h
    rw [throughArrays.eq_def]
    split at h
    · next items _ hp =>
      obtain ⟨c', hc', rfl⟩ := Option.map_eq_some_iff.1 h
      simp only [hp, ih hc', Option.map_map, ArrayChain.depth, List.length_cons,
        Function.iterate_succ']
    · next hp =>
      cases h
      dsimp only
      split
      · next hp' => exact absurd hp' (hp _ _ _)
      · simp [ArrayChain.depth]

/-- What is found out of a node by going through its arrays, if they come to an end. -/
def overArrays (g : Graph) (leaf : NodeId → Option α) (list : α → α) (id : NodeId) : Option α :=
  g.throughArrays leaf list (g.size + 1) id

section levels

variable (leaf : NodeId → Option α) (list : α → α)

/-- At each level of a chain, as much is made of what its leaf is as dimensions are left. -/
theorem overArrays_node (h : g.arrayChain? id = some c) (hlevel : level ≤ c.depth) :
    g.overArrays leaf list (c.node level) = (leaf c.leaf).map list^[c.dims level] := by
  rw [overArrays, throughArrays_eq (arrayChain?_node h hlevel), ArrayChain.depth, List.length_drop]
  rfl

theorem overArrays_leaf (h : g.arrayChain? id = some c) :
    g.overArrays leaf list c.leaf = leaf c.leaf := by
  have hleaf := overArrays_node leaf list h (Nat.le_refl c.depth)
  rwa [ArrayChain.node_depth, ArrayChain.dims, Nat.sub_self, Function.iterate_zero, Option.map_id] at hleaf

/-- Each level makes one list more of what the next one is. -/
theorem overArrays_step (h : g.arrayChain? id = some c) (hlevel : level < c.depth) :
    g.overArrays leaf list (c.node level) =
      (g.overArrays leaf list (c.node (level + 1))).map list := by
  have hdims : c.dims level = c.dims (level + 1) + 1 := by
    rw [ArrayChain.dims, ArrayChain.dims]
    omega
  rw [overArrays_node leaf list h (Nat.le_of_lt hlevel), overArrays_node leaf list h hlevel, hdims,
    Option.map_map, Function.iterate_succ']

end levels

end Graph

end SchemaForge
