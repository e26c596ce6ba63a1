import SchemaForge.Proofs.Graph
/-! Graphs whose nodes inside files are referred to once, and how they stay so while nodes are made,
whether these are referred to in the end or left behind. -/
namespace SchemaForge.Graph

variable {g g' g'' : Graph} {id c n slot : NodeId} {made made' : List NodeId} {p : Property}
  {k k' : Nat} {file : Path}

/-- References lead to nodes, and those that are no roots of files are referred to once. -/
structure Orderly (g : Graph) : Prop where
  child_lt : ∀ {id c}, c ∈ g.children id → c < g.size
  single : ∀ {id id' : NodeId} {k k' : Nat} {c : NodeId}, g.isFileRoot c = false →
    (g.children id)[k]? = some c → (g.children id')[k']? = some c → id = id' ∧ k = k'

/-- What a graph keeps while nodes are made that are still to be referred to, unless they are roots
of files. -/
structure Grafted (g g' : Graph) (made : List NodeId) : Prop where
  extends' : g.Extends g'
  orderly : g'.Orderly
  old : ∀ {id : NodeId} {k : Nat} {c : NodeId}, c < g.size → g.isFileRoot c = false →
    (g'.children id)[k]? = some c → (g.children id)[k]? = some c
  made_lt : ∀ i ∈ made, i < g'.size
  made_new : ∀ i ∈ made, g'.isFileRoot i = false → g.size ≤ i ∧ ∀ id, i ∉ g'.children id
  distinct : ∀ {k k' : Nat} {i : NodeId}, made[k]? = some i → made[k']? = some i →
    g'.isFileRoot i = false → k = k'

theorem children_of_le (h : g.size ≤ id) : g.children id = [] := by
  have hnone : ¬ (g.node? id).isSome := by
    rw [node?_isSome_iff]
    exact Nat.not_lt.2 h
  rw [children, property?, Option.not_isSome_iff_eq_none.1 hnone]
  rfl

theorem Orderly.empty : Orderly Graph.empty := by
  have hnil : ∀ id, Graph.empty.children id = [] := fun id => children_of_le (Nat.zero_le id)
  refine ⟨?_, ?_⟩
  · intro id c hc
    rw [hnil] at hc
    exact absurd hc List.not_mem_nil
  · intro id id' k k' c _ hc
    rw [hnil] at hc
    cases hc

theorem children_add (g : Graph) (n : Node) (id : NodeId) :
    (g.add n).children id = if id = g.size then n.property.children else g.children id := by
  split
  · next hid => rw [hid, children, property?_add]
  · next hid => rw [children, property?, node?_add, if_neg hid, children, property?]

theorem children_replace (g : Graph) (p : Property) (h : slot < g.size) (id : NodeId) :
    (g.replace slot p).children id = if id = slot then p.children else g.children id := by
  split
  · next hid => rw [hid, children, property?_replace _ _ h]
  · next hid => rw [children, property?_replace_ne _ _ (Ne.symm hid), children]

/-- A node that refers to nothing. -/
theorem Orderly.add {n : Node} (h : g.Orderly) (hn : n.property.children = []) :
    (g.add n).Orderly := by
  have hsub : ∀ {id : NodeId} {k : Nat} {c : NodeId}, ((g.add n).children id)[k]? = some c →
      (g.children id)[k]? = some c := by
    intro id k c hk
    rw [children_add] at hk
    split at hk
    · rw [hn] at hk
      cases hk
    · exact hk
  refine ⟨?_, ?_⟩
  · intro id c hc
    obtain ⟨k, hk⟩ := List.mem_iff_getElem?.1 hc
    have hlt := h.child_lt (List.mem_of_getElem? (hsub hk))
    rw [size_add]
    exact Nat.lt_succ_of_lt hlt
  · intro id id' k k' c hroot hk hk'
    have hlt := h.child_lt (List.mem_of_getElem? (hsub hk))
    rw [(extends_add g n).fileRoot hlt] at hroot
    exact h.single hroot (hsub hk) (hsub hk')

namespace Grafted

/-- Without new nodes, only roots of files are made. -/
theorem of_roots (hg : g.Orderly) (hroots : ∀ i ∈ made, g.isFileRoot i = true) :
    g.Grafted g made := by
  refine ⟨.refl g, hg, fun _ _ h => h, fun i hi => lt_of_isFileRoot (hroots i hi), ?_, ?_⟩
  · intro i hi hroot
    rw [hroots i hi] at hroot
    cases hroot
  · intro k k' i hi _ hroot
    rw [hroots i (List.mem_of_getElem? hi)] at hroot
    cases hroot

/-- Nodes that nobody will refer to may be left behind. -/
theorem forget (h : g.Grafted g' made) : g.Grafted g' [] :=
  { h with
    made_lt := fun _ hi => absurd hi List.not_mem_nil
    made_new := fun _ hi => absurd hi List.not_mem_nil
    distinct := fun hk => by cases hk }

/-- Nodes that were made first are still to be referred to. -/
theorem unreferred (h : g.Grafted g' made) (h' : g'.Grafted g'' made') (hi : n ∈ made)
    (hroot : g''.isFileRoot n = false) : ∀ id, n ∉ g''.children id := by
  intro id hmem
  obtain ⟨k, hk⟩ := List.mem_iff_getElem?.1 hmem
  have hlt := h.made_lt n hi
  have hroot' : g'.isFileRoot n = false := (h'.extends'.fileRoot hlt).symm.trans hroot
  have hold := h'.old hlt hroot' hk
  exact (h.made_new n hi hroot').2 id (List.mem_of_getElem? hold)

theorem append (h : g.Grafted g' made) (h' : g'.Grafted g'' made') :
    g.Grafted g'' (made ++ made') := by
  have hle := h.extends'.size_le
  have hle' := h'.extends'.size_le
  refine ⟨h.extends'.trans h'.extends', h'.orderly, ?_, ?_, ?_, ?_⟩
  · intro id k c hc hroot hk
    have hroot' : g'.isFileRoot c = false := (h.extends'.fileRoot hc).trans hroot
    exact h.old hc hroot (h'.old (Nat.lt_of_lt_of_le hc hle) hroot' hk)
  · intro i hi
    rcases List.mem_append.1 hi with hi | hi
    · exact Nat.lt_of_lt_of_le (h.made_lt i hi) hle'
    · exact h'.made_lt i hi
  · intro i hi hroot
    rcases List.mem_append.1 hi with hi | hi
    · have hroot' : g'.isFileRoot i = false :=
        (h'.extends'.fileRoot (h.made_lt i hi)).symm.trans hroot
      exact ⟨(h.made_new i hi hroot').1, h.unreferred h' hi hroot⟩
    · obtain ⟨hnew, hfree⟩ := h'.made_new i hi hroot
      exact ⟨Nat.le_trans hle hnew, hfree⟩
  · intro k k' i hk hk' hroot
    -- what is in both rows is old and new at once
    have happart : i ∈ made → i ∉ made' := fun hi hi' =>
      Nat.not_le_of_lt (h.made_lt i hi) (h'.made_new i hi' hroot).1
    have hroot' : i ∈ made → g'.isFileRoot i = false := fun hi =>
      (h'.extends'.fileRoot (h.made_lt i hi)).symm.trans hroot
    rw [List.getElem?_append] at hk hk'
    split at hk <;> split at hk'
    · exact h.distinct hk hk' (hroot' (List.mem_of_getElem? hk))
    · exact absurd (List.mem_of_getElem? hk') (happart (List.mem_of_getElem? hk))
    · exact absurd (List.mem_of_getElem? hk) (happart (List.mem_of_getElem? hk'))
    · have := h'.distinct hk hk' hroot
      omega

/-- A node that begins to refer to all that has been made. -/
theorem refer (h : g.Grafted g' made) (hsize : g'.size ≤ g''.size)
    (hroot : ∀ c, c < g'.size → g''.isFileRoot c = g'.isFileRoot c)
    (hchildren : ∀ id, g''.children id = if id = slot then made else g'.children id) :
    g''.Orderly := by
  have hlt : ∀ {id c}, c ∈ g''.children id → c < g'.size := by
    intro id c hc
    rw [hchildren] at hc
    split at hc
    · exact h.made_lt c hc
    · exact h.orderly.child_lt hc
  refine ⟨fun hc => Nat.lt_of_lt_of_le (hlt hc) hsize, ?_⟩
  intro id id' k k' c hc hk hk'
  rw [hroot c (hlt (List.mem_of_getElem? hk))] at hc
  have hnew : c ∈ made → ∀ id, c ∉ g'.children id := fun hmem => (h.made_new c hmem hc).2
  rw [hchildren] at hk hk'
  split at hk <;> split at hk'
  · next hid hid' => exact ⟨hid.trans hid'.symm, h.distinct hk hk' hc⟩
  · exact absurd (List.mem_of_getElem? hk') (hnew (List.mem_of_getElem? hk) id')
  · exact absurd (List.mem_of_getElem? hk) (hnew (List.mem_of_getElem? hk') id)
  · exact h.orderly.single hc hk hk'

theorem distinct_singleton {k k' : Nat} {i : NodeId} (hk : [slot][k]? = some i)
    (hk' : [slot][k']? = some i) : k = k' := by
  have hlt := (List.getElem?_eq_some_iff.1 hk).1
  have hlt' := (List.getElem?_eq_some_iff.1 hk').1
  simp only [List.length_singleton] at hlt hlt'
  omega

/-- A node that refers to all that has been made is all that is still to be referred to. -/
theorem add (h : g.Grafted g' made) (hp : p.children = made) :
    g.Grafted (g'.add (.ofProperty p)) [g'.size] := by
  have hle := h.extends'.size_le
  have hchildren : ∀ id, (g'.add (.ofProperty p)).children id =
      if id = g'.size then made else g'.children id := by
    intro id
    rw [children_add, ← hp]
    rfl
  have horderly : (g'.add (.ofProperty p)).Orderly :=
    h.refer (extends_add _ _).size_le (fun c hc => (extends_add _ _).fileRoot hc) hchildren
  have hold : ∀ {c id}, c ∈ (g'.add (.ofProperty p)).children id → c < g'.size := by
    intro c id hc
    rw [hchildren] at hc
    split at hc
    · exact h.made_lt c hc
    · exact h.orderly.child_lt hc
  refine ⟨h.extends'.trans (extends_add _ _), horderly, ?_, ?_, ?_,
    fun hk hk' _ => distinct_singleton hk hk'⟩
  · intro id k c hc hroot hk
    rw [hchildren] at hk
    split at hk
    · have hroot' : g'.isFileRoot c = false := (h.extends'.fileRoot hc).trans hroot
      exact absurd (h.made_new c (List.mem_of_getElem? hk) hroot').1 (Nat.not_le_of_lt hc)
    · exact h.old hc hroot hk
  · intro i hi
    rw [List.mem_singleton.1 hi, size_add]
    exact Nat.lt_succ_self _
  · intro i hi _
    rw [List.mem_singleton.1 hi]
    exact ⟨hle, fun id hmem => Nat.lt_irrefl _ (hold hmem)⟩

/-- A place may be reserved. -/
theorem reserve {root : Node} (ho : g.Orderly) (hempty : root.property.children = []) :
    g.Grafted (g.add root) [] := by
  refine ⟨extends_add g root, ho.add hempty, ?_, fun _ hi => absurd hi List.not_mem_nil,
    fun _ hi => absurd hi List.not_mem_nil, fun hk => by cases hk⟩
  intro id k c _ _ hk
  rw [children_add] at hk
  split at hk
  · rw [hempty] at hk
    cases hk
  · exact hk

/-- The root of a file that is filled refers to all that has been made since it was reserved. -/
theorem fill {root : Node} (h : (g.add root).Grafted g' made)
    (hroot : root.fileRoot = true) (hp : p.children = made) :
    g.Grafted (g'.replace g.size p) [g.size] := by
  have hadd := extends_add g root
  have hlt : g.size < (g.add root).size :=
    Nat.lt_of_lt_of_eq (Nat.lt_succ_self _) (size_add ..).symm
  have hle : g.size < g'.size := Nat.lt_of_lt_of_le hlt h.extends'.size_le
  have hchildren : ∀ id, (g'.replace g.size p).children id =
      if id = g.size then made else g'.children id := hp ▸ children_replace g' p hle
  have horderly : (g'.replace g.size p).Orderly :=
    h.refer (Nat.le_of_eq (size_replace ..).symm) (fun c _ => isFileRoot_replace ..) hchildren
  have hslot : (g'.replace g.size p).isFileRoot g.size = true := by
    rw [isFileRoot_replace, h.extends'.fileRoot hlt, isFileRoot_add, hroot]
  refine ⟨(hadd.trans h.extends').replace (Nat.le_refl _) p, horderly, ?_, ?_, ?_,
    fun hk hk' _ => distinct_singleton hk hk'⟩
  · intro id k c hc hinner hk
    have hinner' : (g.add root).isFileRoot c = false := (hadd.fileRoot hc).trans hinner
    have hc' := Nat.lt_of_lt_of_le hc hadd.size_le
    rw [hchildren] at hk
    split at hk
    · have hnew := h.made_new c (List.mem_of_getElem? hk)
        ((h.extends'.fileRoot hc').trans hinner')
      exact absurd hnew.1 (Nat.not_le_of_lt hc')
    · next hid =>
      have hk := h.old hc' hinner' hk
      rwa [children_add, if_neg hid] at hk
  · intro i hi
    rw [List.mem_singleton.1 hi, size_replace]
    exact hle
  · intro i hi hinner
    rw [List.mem_singleton.1 hi, hslot] at hinner
    cases hinner

end Grafted

end SchemaForge.Graph
