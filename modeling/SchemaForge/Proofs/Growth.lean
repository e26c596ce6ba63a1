import SchemaForge.Proofs.Grafting
import SchemaForge.Proofs.Linking
/-! Graphs that grow while all building works: whatever is new can be reached from what was made. -/
namespace SchemaForge.Graph

variable {g g' g'' : Graph} {id c n slot : NodeId} {made made' : List NodeId} {p : Property}

/-- How a graph has grown while nodes were made, that are still to be referred to unless they are
roots of files. -/
structure Grown (g g' : Graph) (made : List NodeId) : Prop extends Grafted g g' made where
  kept : ∀ {c}, c < g.size → g'.parent? c = g.parent? c ∧ g'.file? c = g.file? c
  untold : ∀ {c}, g.size ≤ c → g'.isFileRoot c = false → g'.parent? c = none ∧ g'.file? c = none
  reached : ∀ {n}, g.size ≤ n → n < g'.size → ∃ i ∈ made, g'.Reaches i n

theorem Reaches.mono (h : g.Reaches id n) (hg : ∀ id, g.children id ⊆ g'.children id) :
    g'.Reaches id n := by
  induction h with
  | refl => exact .refl
  | tail _ hchild ih => exact .tail ih (hg _ hchild)

theorem Extends.children_of_lt (h : g.Extends g') (hid : id < g.size) :
    g'.children id = g.children id := by
  rw [Graph.children, Graph.children, h.property hid]

/-- Old nodes lead where they have led. -/
theorem Extends.reaches_of_lt (h : g.Extends g')
    (hlt : ∀ {id c}, c ∈ g.children id → c < g.size) (hid : id < g.size)
    (hreach : g'.Reaches id n) : g.Reaches id n ∧ n < g.size := by
  induction hreach with
  | refl => exact ⟨.refl, hid⟩
  | tail _ hchild ih =>
    obtain ⟨hreach, hm⟩ := ih
    rw [h.children_of_lt hm] at hchild
    exact ⟨hreach.tail hchild, hlt hchild⟩

theorem Extends.children_subset (h : g.Extends g') (id : NodeId) :
    g.children id ⊆ g'.children id := by
  by_cases hid : id < g.size
  · rw [h.children_of_lt hid]
    exact fun _ hc => hc
  · rw [children_of_le (Nat.le_of_not_lt hid)]
    exact List.nil_subset _

namespace Grown

/-- Without new nodes, only roots of files are made. -/
theorem of_roots (hg : g.Orderly) (hroots : ∀ i ∈ made, g.isFileRoot i = true) :
    g.Grown g made := by
  refine ⟨.of_roots hg hroots, fun _ => ⟨rfl, rfl⟩, ?_, ?_⟩
  · intro c hc hroot
    have hnone : ¬ (g.node? c).isSome := by
      rw [node?_isSome_iff]
      exact Nat.not_lt.2 hc
    simp [parent?, file?, Option.not_isSome_iff_eq_none.1 hnone]
  · intro n hn hlt
    omega

theorem append (h : g.Grown g' made) (h' : g'.Grown g'' made') : g.Grown g'' (made ++ made') := by
  have hle := h.extends'.size_le
  refine ⟨h.toGrafted.append h'.toGrafted, ?_, ?_, ?_⟩
  · intro c hc
    obtain ⟨hparent, hfile⟩ := h.kept hc
    obtain ⟨hparent', hfile'⟩ := h'.kept (Nat.lt_of_lt_of_le hc hle)
    exact ⟨hparent'.trans hparent, hfile'.trans hfile⟩
  · intro c hc hroot
    by_cases hnew : g'.size ≤ c
    · exact h'.untold hnew hroot
    · have hlt := Nat.lt_of_not_le hnew
      obtain ⟨hparent, hfile⟩ := h'.kept hlt
      obtain ⟨hnone, hnone'⟩ := h.untold hc ((h'.extends'.fileRoot hlt).symm.trans hroot)
      exact ⟨hparent.trans hnone, hfile.trans hnone'⟩
  · intro n hn hlt
    by_cases hnew : g'.size ≤ n
    · obtain ⟨i, hi, hreach⟩ := h'.reached hnew hlt
      exact ⟨i, List.mem_append_right _ hi, hreach⟩
    · obtain ⟨i, hi, hreach⟩ := h.reached hn (Nat.lt_of_not_le hnew)
      exact ⟨i, List.mem_append_left _ hi, hreach.mono h'.extends'.children_subset⟩

theorem reaches_slot
    (hchildren : ∀ id, g''.children id = if id = slot then made else g'.children id)
    (hempty : g'.children slot = []) (hn : ∃ i ∈ made, g'.Reaches i n) : g''.Reaches slot n := by
  obtain ⟨i, hi, hreach⟩ := hn
  have hsub : ∀ id, g'.children id ⊆ g''.children id := by
    intro id
    by_cases hid : id = slot
    · rw [hid, hempty]
      exact List.nil_subset _
    · rw [hchildren, if_neg hid]
      exact fun _ hc => hc
  have hslot : i ∈ g''.children slot := by
    rw [hchildren, if_pos rfl]
    exact hi
  exact .head hslot (hreach.mono hsub)

/-- A node that refers to all that has been made is all that is still to be referred to. -/
theorem add (h : g.Grown g' made) (hp : p.children = made) :
    g.Grown (g'.add (.ofProperty p)) [g'.size] := by
  have hle := h.extends'.size_le
  have hnode : ∀ {c}, c ≠ g'.size → (g'.add (.ofProperty p)).node? c = g'.node? c := by
    intro c hc
    rw [node?_add, if_neg hc]
  have hchildren : ∀ id, (g'.add (.ofProperty p)).children id =
      if id = g'.size then made else g'.children id := by
    intro id
    rw [children_add, ← hp]
    rfl
  refine ⟨h.toGrafted.add hp, ?_, ?_, ?_⟩
  · intro c hc
    obtain ⟨hparent, hfile⟩ := h.kept hc
    have hne : c ≠ g'.size := Nat.ne_of_lt (Nat.lt_of_lt_of_le hc hle)
    rw [parent?, file?, hnode hne]
    exact ⟨hparent, hfile⟩
  · intro c hc hroot
    by_cases hne : c = g'.size
    · rw [hne, parent?, file?, node?_add, if_pos rfl]
      exact ⟨rfl, rfl⟩
    · rw [isFileRoot_eq, hnode hne, ← isFileRoot_eq] at hroot
      rw [parent?, file?, hnode hne]
      exact h.untold hc hroot
  · intro n hn hlt
    refine ⟨g'.size, List.mem_singleton_self _, ?_⟩
    rw [size_add] at hlt
    by_cases hne : n = g'.size
    · rw [hne]
      exact .refl
    · have hreached := h.reached hn (Nat.lt_of_le_of_ne (Nat.le_of_lt_succ hlt) hne)
      exact reaches_slot hchildren (children_of_le (Nat.le_refl _)) hreached

/-- The root of a file that is filled refers to all that has been made since it was reserved. -/
theorem fill {root : Node} (h : (g.add root).Grown g' made) (hempty : root.property.children = [])
    (hroot : root.fileRoot = true) (hp : p.children = made) :
    g.Grown (g'.replace g.size p) [g.size] := by
  have hsize := size_add g root
  have hlt : g.size < (g.add root).size := hsize ▸ Nat.lt_succ_self _
  have hle : g.size < g'.size := Nat.lt_of_lt_of_le hlt h.extends'.size_le
  have hreserved : g'.children g.size = [] := by
    rw [children, h.extends'.property hlt, property?_add]
    exact hempty
  have hfirst : ∀ {c}, c < g.size →
      (g.add root).parent? c = g.parent? c ∧ (g.add root).file? c = g.file? c := by
    intro c hc
    rw [parent?, file?, node?_add, if_neg (Nat.ne_of_lt hc)]
    exact ⟨rfl, rfl⟩
  refine ⟨h.toGrafted.fill hroot hp, ?_, ?_, ?_⟩
  · intro c hc
    obtain ⟨hparent, hfile⟩ := h.kept (Nat.lt_trans hc hlt)
    rw [parent?_replace, file?_replace, hparent, hfile]
    exact hfirst hc
  · intro c hc hinner
    rw [isFileRoot_replace] at hinner
    have hne : c ≠ g.size := by
      rintro rfl
      rw [h.extends'.fileRoot hlt, isFileRoot_add, hroot] at hinner
      cases hinner
    rw [parent?_replace, file?_replace]
    exact h.untold (by omega) hinner
  · intro n hn hn'
    refine ⟨g.size, List.mem_singleton_self _, ?_⟩
    rw [size_replace] at hn'
    by_cases hne : n = g.size
    · rw [hne]
      exact .refl
    · have hchildren : ∀ id, (g'.replace g.size p).children id =
          if id = g.size then made else g'.children id := hp ▸ children_replace g' p hle
      exact reaches_slot hchildren hreserved (h.reached (by omega) hn')

end Grown

/-- A node inside a file that can be reached from a root does not refer to itself: only one node
refers to it. -/
theorem Orderly.not_self (h : g.Orderly) (hroot : g.isFileRoot slot = true) (hn : g.Reaches slot n)
    (hinner : g.isFileRoot n = false) : n ∉ g.children n := by
  induction hn with
  | refl =>
    rw [hroot] at hinner
    cases hinner
  | @tail q n _ hchild ih =>
    intro hself
    obtain ⟨k, hk⟩ := List.mem_iff_getElem?.1 hchild
    obtain ⟨k', hk'⟩ := List.mem_iff_getElem?.1 hself
    obtain ⟨rfl, -⟩ := h.single hinner hk hk'
    exact ih hinner hself

theorem Orderly.parent_unique {id' : NodeId} (h : g.Orderly) (hinner : g.isFileRoot c = false)
    (hc : c ∈ g.children id) (hc' : c ∈ g.children id') : id = id' := by
  obtain ⟨k, hk⟩ := List.mem_iff_getElem?.1 hc
  obtain ⟨k', hk'⟩ := List.mem_iff_getElem?.1 hc'
  exact (h.single hinner hk hk').1

/-- Nodes may learn where they stand. -/
theorem Extends.orderly (h : g.Extends g') (hsize : g'.size = g.size) (ho : g.Orderly) :
    g'.Orderly := by
  refine ⟨?_, ?_⟩
  · intro id c hc
    rw [h.children hsize] at hc
    exact hsize ▸ ho.child_lt hc
  · intro id id' k k' c hinner hk hk'
    rw [h.isFileRoot hsize] at hinner
    rw [h.children hsize] at hk hk'
    exact ho.single hinner hk hk'

theorem Learns.orderly (h : g.Learns g') (ho : g.Orderly) : g'.Orderly :=
  h.extends'.orderly h.size ho

/-- Whether all nodes inside files know who refers to them, and which files they are in. -/
def AllTold (g : Graph) : Prop :=
  ∀ {id c}, c ∈ g.children id → g.isFileRoot c = false →
    g.parent? c = some id ∧ (g.file? c).isSome = true ∧ g.file? c = g.file? id

/-- Linking the root of a file that has just been made tells all that is new. -/
theorem Grown.allTold_link {root : NodeId} (h : g.Grown g' [root]) (hg : g.AllTold)
    (hroot : g'.isFileRoot root = true)
    (hfile : ∀ {id}, g'.isFileRoot id = true → (g'.file? id).isSome = true) :
    (g'.link root).AllTold := by
  have hpass : g'.Passable := ⟨h.orderly.child_lt, hfile⟩
  have hlt := lt_of_isFileRoot hroot
  have hlearns := learns_link hpass hlt
  intro id c hc hinner
  rw [hlearns.children] at hc
  rw [hlearns.extends'.isFileRoot hlearns.size] at hinner
  by_cases hnew : g.size ≤ c
  · obtain ⟨i, hi, hreach⟩ := h.reached hnew (h.orderly.child_lt hc)
    rw [List.mem_singleton.1 hi] at hreach
    have hne : c ≠ id := by
      rintro rfl
      exact h.orderly.not_self hroot hreach hinner hc
    have hparent : g'.Reaches root id := by
      cases hreach with
      | refl =>
        rw [hroot] at hinner
        cases hinner
      | tail hq hchild =>
        rw [← h.orderly.parent_unique hinner hchild hc]
        exact hq
    obtain ⟨htold, htold'⟩ := told_link hpass hlt (hfile hroot) hparent hc
    obtain ⟨hnone, hnone'⟩ := h.untold hnew hinner
    obtain ⟨q, hq⟩ := Option.isSome_iff_exists.1 (htold' hne)
    obtain ⟨f, hf⟩ := Option.isSome_iff_exists.1 htold
    refine ⟨?_, htold, ?_⟩
    · rcases hlearns.parent hq with hq' | hq'
      · rw [hnone] at hq'
        cases hq'
      · rw [hq, h.orderly.parent_unique hinner hq' hc]
    · rcases hlearns.file hf with hf' | ⟨-, q', hq', hfq⟩
      · rw [hnone'] at hf'
        cases hf'
      · rw [hf, ← hfq, h.orderly.parent_unique hinner hq' hc]
  · have hold := Nat.lt_of_not_le hnew
    have hinner' : g.isFileRoot c = false := (h.extends'.fileRoot hold).symm.trans hinner
    obtain ⟨k, hk⟩ := List.mem_iff_getElem?.1 hc
    obtain ⟨hparent, htold, hsame⟩ := hg (List.mem_of_getElem? (h.old hold hinner' hk)) hinner'
    obtain ⟨f, hf⟩ := Option.isSome_iff_exists.1 htold
    have hextends := h.extends'.trans hlearns.extends'
    have hfile := hextends.file hf
    rw [hsame] at hf
    exact ⟨hextends.parent hparent, Option.isSome_of_eq_some hfile,
      hfile.trans (hextends.file hf).symm⟩

end SchemaForge.Graph
