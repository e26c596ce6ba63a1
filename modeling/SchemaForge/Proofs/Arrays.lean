import Mathlib.Logic.Relation
import SchemaForge.Graph.Arrays
import SchemaForge.Proofs.Graph
/-! Chains of arrays that come to an end, and the nodes that a walk can meet. -/
namespace SchemaForge.Graph

variable {g : Graph} {id child items : NodeId} {info : Info} {site : Option RefSite}
  {c : ArrayChain} {limit : Nat}

/-- Whether a walk along references can come from one node to another. -/
def Reaches (g : Graph) : NodeId → NodeId → Prop :=
  Relation.ReflTransGen fun id child => child ∈ g.children id

/-- A chain that ends needs no more room than it has. -/
theorem arrayChainWithin_succ (h : g.arrayChainWithin limit id = some c) :
    g.arrayChainWithin (limit + 1) id = some c := by
  induction limit generalizing id c with
  | zero => cases h
  | succ limit ih =>
    rw [arrayChainWithin] at h ⊢
    split at h
    · next items _ hp =>
      obtain ⟨c', hc', rfl⟩ := Option.map_eq_some_iff.1 h
      simp only [ih hc', Option.map_some]
    · exact h

example (id : NodeId) : Graph.empty.arrayChainWithin 1 id = some ⟨[], id⟩ := by cbv

/-- The chain of an array is that of its items and one level more. -/
theorem arrayChain?_array (hp : g.property? id = some ⟨info, .array items site⟩)
    (h : g.arrayChain? id = some c) :
    ∃ c', g.arrayChain? items = some c' ∧ c = { c' with levels := id :: c'.levels } := by
  rw [arrayChain?, arrayChainWithin] at h
  simp only [hp] at h
  obtain ⟨c', hc', rfl⟩ := Option.map_eq_some_iff.1 h
  exact ⟨c', arrayChainWithin_succ hc', rfl⟩

/-- A chain needs no more room than it has levels, and one place for its leaf. -/
theorem arrayChainWithin_of_depth_lt (h : g.arrayChainWithin limit id = some c) {room : Nat}
    (hroom : c.depth < room) : g.arrayChainWithin room id = some c := by
  induction limit generalizing id c room with
  | zero => cases h
  | succ limit ih =>
    obtain ⟨room, rfl⟩ := Nat.exists_eq_add_of_lt (Nat.zero_lt_of_lt hroom)
    rw [Nat.zero_add] at hroom ⊢
    rw [arrayChainWithin] at h ⊢
    split at h
    · next items _ hp =>
      obtain ⟨c', hc', rfl⟩ := Option.map_eq_some_iff.1 h
      have hrest : c'.depth < room := Nat.lt_of_succ_lt_succ hroom
      simp only [ih hc' hrest, Option.map_some]
    · exact h

/-- A chain that ends passes no array twice: the arrays inside it are nearer to its end. -/
theorem nodup_levels (h : g.arrayChainWithin limit id = some c) :
    c.levels.Nodup ∧ ∀ a ∈ c.levels, a < g.size ∧
      ∃ c', g.arrayChainWithin limit a = some c' ∧ c'.depth ≤ c.depth := by
  induction limit generalizing id c with
  | zero => cases h
  | succ limit ih =>
    have hself := h
    rw [arrayChainWithin] at h
    split at h
    · next items _ hp =>
      obtain ⟨c', hc', rfl⟩ := Option.map_eq_some_iff.1 h
      obtain ⟨hnodup, hinside⟩ := ih hc'
      refine ⟨List.nodup_cons.2 ⟨?_, hnodup⟩, ?_⟩
      · intro hmem
        obtain ⟨-, c₀, hc₀, hdepth⟩ := hinside id hmem
        rw [arrayChainWithin_succ hc₀] at hself
        cases hself
        simp only [ArrayChain.depth, List.length_cons] at hdepth
        omega
      · intro a ha
        rcases List.mem_cons.1 ha with rfl | ha
        · exact ⟨lt_of_property? hp, _, hself, Nat.le_refl _⟩
        · obtain ⟨hlt, c₀, hc₀, hdepth⟩ := hinside a ha
          exact ⟨hlt, c₀, arrayChainWithin_succ hc₀, Nat.le_succ_of_le hdepth⟩
    · cases h
      exact ⟨List.nodup_nil, fun a ha => absurd ha List.not_mem_nil⟩

/-- No way that comes by each node once is longer than there are nodes. -/
theorem length_le_size {ids : List NodeId} (hnodup : ids.Nodup) (hlt : ∀ id ∈ ids, id < g.size) :
    ids.length ≤ g.size := by
  have hle := hnodup.length_le_of_subset fun id hid => List.mem_range.2 (hlt id hid)
  rwa [List.length_range] at hle

theorem depth_le_size (h : g.arrayChainWithin limit id = some c) : c.depth ≤ g.size := by
  obtain ⟨hnodup, hinside⟩ := nodup_levels h
  exact length_le_size hnodup fun a ha => (hinside a ha).1

/-- A chain that ends within any room ends within the room that there is. -/
theorem arrayChain?_of_within (h : g.arrayChainWithin limit id = some c) :
    g.arrayChain? id = some c :=
  arrayChainWithin_of_depth_lt h (Nat.lt_succ_of_le (depth_le_size h))

/-- An array whose items come to an end does so too. -/
theorem arrayChain?_isSome_array (hp : g.property? id = some ⟨info, .array items site⟩)
    (h : (g.arrayChain? items).isSome) : (g.arrayChain? id).isSome := by
  obtain ⟨c, hc⟩ := Option.isSome_iff_exists.1 h
  have hchain : g.arrayChainWithin (g.size + 2) id = some ⟨id :: c.levels, c.leaf⟩ := by
    rw [arrayChainWithin]
    simp only [hp]
    rw [show g.arrayChainWithin (g.size + 1) items = some c from hc]
    rfl
  rw [arrayChain?_of_within hchain]
  rfl

theorem arrayChain?_leaf (hp : ∀ info items site, g.property? id ≠ some ⟨info, .array items site⟩) :
    g.arrayChain? id = some ⟨[], id⟩ := by
  rw [arrayChain?, arrayChainWithin]
  split
  · next hp' => exact absurd hp' (hp _ _ _)
  · rfl

theorem arrayLeaf_array (hp : g.property? id = some ⟨info, .array items site⟩)
    (h : (g.arrayChain? id).isSome) :
    g.arrayLeaf id = g.arrayLeaf items ∧ g.arrayDepth id = g.arrayDepth items + 1 := by
  obtain ⟨c, hc⟩ := Option.isSome_iff_exists.1 h
  obtain ⟨c', hc', rfl⟩ := arrayChain?_array hp hc
  simp only [arrayLeaf, arrayDepth, hc, hc', ArrayChain.depth, List.length_cons, and_self]

theorem arrayLeaf_leaf (hp : ∀ info items site, g.property? id ≠ some ⟨info, .array items site⟩) :
    g.arrayLeaf id = id := by
  rw [arrayLeaf, arrayChain?_leaf hp]

theorem memberObject?_array (hp : g.property? id = some ⟨info, .array items site⟩)
    (h : (g.arrayChain? id).isSome) : g.memberObject? id = g.memberObject? items := by
  rw [memberObject?, memberObject?, (arrayLeaf_array hp h).1]

theorem not_array_of_hasMembers (h : g.hasMembers id = true) (info : Info) (items : NodeId)
    (site : Option RefSite) : g.property? id ≠ some ⟨info, .array items site⟩ := by
  intro hp
  simp [hasMembers, object?, hp] at h

theorem memberObject?_of_hasMembers (h : g.hasMembers id = true) :
    g.memberObject? id = some id := by
  rw [memberObject?, arrayLeaf_leaf (not_array_of_hasMembers h), if_pos h]

/-- What is no array leads to nothing but itself. -/
theorem memberObject?_eq_none
    (hp : ∀ info items site, g.property? id ≠ some ⟨info, .array items site⟩)
    (h : g.hasMembers id = false) : g.memberObject? id = none := by
  rw [memberObject?, arrayLeaf_leaf hp, h]
  rfl

theorem kind_of_hasMembers (h : g.hasMembers id = true) : g.kind id = .object := by
  unfold hasMembers object? at h
  unfold kind
  cases hp : g.property? id with
  | none => rfl
  | some p =>
    obtain ⟨info, shape⟩ := p
    cases shape <;> simp [hp, Property.kind] at h ⊢

theorem hasMembers_of_memberObject? {m : NodeId} (h : g.memberObject? id = some m) :
    g.hasMembers m = true := by
  unfold memberObject? at h
  split at h
  · next hm =>
    cases h
    exact hm
  · cases h

theorem object?_of_hasMembers (h : g.hasMembers id = true) :
    ∃ head m members, g.object? id = some (head, m :: members) := by
  unfold hasMembers at h
  split at h
  · next head members hobject =>
    cases members with
    | nil => cases h
    | cons m members => exact ⟨head, m, members, hobject⟩
  · cases h

theorem property?_of_object? {head : ObjectHead} {members : List Member}
    (h : g.object? id = some (head, members)) :
    ∃ info, g.property? id = some ⟨info, .object head members⟩ := by
  unfold object? at h
  split at h
  · next info _ _ hp =>
    cases h
    exact ⟨info, hp⟩
  · cases h

theorem children_object {head : ObjectHead} {members : List Member}
    (h : g.object? id = some (head, members)) : g.children id = members.map Member.node := by
  obtain ⟨info, hp⟩ := property?_of_object? h
  simp [children, hp, Property.children]

theorem children_array (hp : g.property? id = some ⟨info, .array items site⟩) :
    g.children id = [items] := by
  rw [children, hp]
  rfl

/-- A node without members that is no array refers to nothing. -/
theorem children_eq_nil
    (hp : ∀ info items site, g.property? id ≠ some ⟨info, .array items site⟩)
    (h : g.hasMembers id = false) : g.children id = [] := by
  rw [children]
  cases hq : g.property? id with
  | none => rfl
  | some p =>
    obtain ⟨info, shape⟩ := p
    cases shape with
    | leaf l => rfl
    | array items site => exact absurd hq (hp _ _ _)
    | object head members =>
      simp only [hasMembers, object?, hq, Bool.not_eq_eq_eq_not, Bool.not_false,
        List.isEmpty_iff] at h
      simp [Property.children, h]

/-- A node is an array, an object with members, or leads to nothing. -/
theorem array_or_hasMembers_or_none (g : Graph) (id : NodeId) :
    (∃ info items site, g.property? id = some ⟨info, .array items site⟩) ∨
      g.hasMembers id = true ∨
      (g.hasMembers id = false ∧ g.memberObject? id = none ∧ g.children id = []) := by
  by_cases hp : ∃ info items site, g.property? id = some ⟨info, .array items site⟩
  · exact Or.inl hp
  · have hp : ∀ info items site, g.property? id ≠ some ⟨info, .array items site⟩ :=
      fun info items site h => hp ⟨info, items, site, h⟩
    cases h : g.hasMembers id with
    | true => exact Or.inr (Or.inl rfl)
    | false => exact Or.inr (Or.inr ⟨rfl, memberObject?_eq_none hp h, children_eq_nil hp h⟩)

theorem lt_of_memberObject? {m : NodeId} (h : g.memberObject? id = some m) : id < g.size := by
  rcases array_or_hasMembers_or_none g id with ⟨info, items, site, hp⟩ | hm | ⟨-, hnone, -⟩
  · exact lt_of_property? hp
  · exact lt_of_hasMembers hm
  · rw [hnone] at h
    cases h

theorem reaches_leaf (h : g.arrayChainWithin limit id = some c) : g.Reaches id c.leaf := by
  induction limit generalizing id c with
  | zero => cases h
  | succ limit ih =>
    rw [arrayChainWithin] at h
    split at h
    · next items _ hp =>
      obtain ⟨c', hc', rfl⟩ := Option.map_eq_some_iff.1 h
      have hchild : items ∈ g.children id := by
        rw [children_array hp]
        exact List.mem_singleton_self items
      have hrest : g.Reaches items c'.leaf := ih hc'
      exact Relation.ReflTransGen.head hchild hrest
    · cases h
      exact Relation.ReflTransGen.refl

/-- The object that a node leads to is reached from it. -/
theorem reaches_memberObject? {m : NodeId} (h : g.memberObject? id = some m) : g.Reaches id m := by
  unfold memberObject? at h
  split at h
  · cases h
    unfold arrayLeaf
    split
    · next c hc => exact reaches_leaf hc
    · exact Relation.ReflTransGen.refl
  · cases h

theorem arrayChain?_of_memberObject? {m : NodeId} (h : g.memberObject? id = some m) :
    (g.arrayChain? id).isSome := by
  cases hc : g.arrayChain? id with
  | some c => rfl
  | none =>
    have hm : g.hasMembers id = true := by
      simp only [memberObject?, arrayLeaf, hc] at h
      split at h
      · assumption
      · cases h
    rw [arrayChain?_leaf (not_array_of_hasMembers hm)] at hc
    cases hc

/-- Whatever leads to an object with members leads to it through the first one on the way. -/
theorem memberObject?_of_reaches {target : NodeId} (ht : g.hasMembers target = true)
    (h : g.Reaches id target) : ∃ m, g.memberObject? id = some m ∧ g.Reaches m target := by
  induction h using Relation.ReflTransGen.head_induction_on with
  | refl => exact ⟨target, memberObject?_of_hasMembers ht, .refl⟩
  | head hchild hrest ih =>
    next a b =>
    obtain ⟨m, hm, hreach⟩ := ih
    rcases array_or_hasMembers_or_none g a with ⟨info, items, site, hp⟩ | ha | ⟨-, -, hnil⟩
    · rw [children_array hp, List.mem_singleton] at hchild
      subst hchild
      rw [memberObject?_array hp (arrayChain?_isSome_array hp (arrayChain?_of_memberObject? hm))]
      exact ⟨m, hm, hreach⟩
    · exact ⟨a, memberObject?_of_hasMembers ha, .head hchild hrest⟩
    · rw [hnil] at hchild
      exact absurd hchild List.not_mem_nil

end SchemaForge.Graph
