import Mathlib.Tactic.Tauto
import SchemaForge.Proofs.Arrays
import SchemaForge.Proofs.Linking
/-!
Depth-first search by recursion. Main statement: a walk with a row of pending nodes meets the
objects that can be reached, each once and in the order in which the search meets them.
-/
namespace SchemaForge.Graph

variable {g : Graph} {id child root a : NodeId} {seen ids : List NodeId}

/-- The nodes that a search from a row of nodes meets, besides those it has seen: node by node, and
from each new one to its children before it goes on in the row. -/
def preorder (g : Graph) (seen : List NodeId) : List NodeId → List NodeId
  | [] => []
  | id :: ids =>
    if _ : id < g.size ∧ seen.contains id = false then
      let below := g.preorder (id :: seen) (g.children id)
      id :: below ++ g.preorder (below.reverse ++ id :: seen) ids
    else g.preorder seen ids
termination_by ids => ((g.unseen seen).length, ids.length)
decreasing_by
  · next h => exact Prod.Lex.left _ _ (length_unseen_cons h.1 h.2)
  · next h =>
    have hless := length_unseen_cons h.1 h.2
    have hmet : id :: seen ⊆ below.reverse ++ id :: seen := List.subset_append_right _ _
    exact Prod.Lex.left _ _ (Nat.lt_of_le_of_lt (length_unseen_le hmet rfl) hless)
  · exact Prod.Lex.right _ (Nat.lt_succ_self _)

/-- The walk finishes with the row in front before it goes on with what is pending. -/
theorem objectsAlong_append (g : Graph) (seen ids pending : List NodeId) :
    g.objectsAlong seen (ids ++ pending) =
      (g.preorder seen ids).filter (fun id => g.kind id = .object) ++
        g.objectsAlong ((g.preorder seen ids).reverse ++ seen) pending := by
  fun_induction preorder g seen ids generalizing pending with
  | case1 seen => rfl
  | case2 seen id ids h below hbelow hbeside =>
    have hwalk : g.objectsAlong (id :: seen) (g.children id ++ (ids ++ pending)) =
        below.filter (fun id => g.kind id = .object) ++
          g.objectsAlong (below.reverse ++ id :: seen) (ids ++ pending) := hbelow _
    rw [List.cons_append, objectsAlong, dif_pos h, hwalk, hbeside]
    by_cases hkind : g.kind id = .object <;> simp [hkind]
  | case3 seen id ids h hbeside =>
    rw [List.cons_append, objectsAlong, dif_neg h, hbeside]

/-- Nothing is met twice, and nothing that has been seen. -/
theorem nodup_preorder (g : Graph) (seen ids : List NodeId) :
    (g.preorder seen ids).Nodup ∧ ∀ a ∈ g.preorder seen ids, a ∉ seen := by
  fun_induction preorder g seen ids with
  | case1 seen => exact ⟨List.nodup_nil, fun _ ha => absurd ha List.not_mem_nil⟩
  | case2 seen id ids h below hbelow hbeside =>
    have hid : id ∉ seen := by simpa using h.2
    have hnew : ∀ a ∈ below, a ≠ id ∧ a ∉ seen := by
      intro a ha
      simpa using hbelow.2 a ha
    have hnewer : ∀ a ∈ g.preorder (below.reverse ++ id :: seen) ids,
        a ∉ below ∧ a ≠ id ∧ a ∉ seen := by
      intro a ha
      simpa using hbeside.2 a ha
    rw [List.cons_append]
    constructor
    · refine List.nodup_cons.2 ⟨?_, List.nodup_append.2 ⟨hbelow.1, hbeside.1, ?_⟩⟩
      · rw [List.mem_append]
        rintro (ha | ha)
        · exact (hnew id ha).1 rfl
        · exact (hnewer id ha).2.1 rfl
      · rintro a ha b hb rfl
        exact (hnewer a hb).1 ha
    · intro a ha
      rcases List.mem_cons.1 ha with rfl | ha
      · exact hid
      · rcases List.mem_append.1 ha with ha | ha
        · exact (hnew a ha).2
        · exact (hnewer a ha).2.2
  | case3 seen id ids h hbeside => exact hbeside

/-- What is met can be reached from the row. -/
theorem reaches_of_mem_preorder (g : Graph) (seen ids : List NodeId) :
    ∀ a ∈ g.preorder seen ids, ∃ id ∈ ids, g.Reaches id a := by
  fun_induction preorder g seen ids with
  | case1 seen => exact fun _ ha => absurd ha List.not_mem_nil
  | case2 seen id ids h below hbelow hbeside =>
    intro a ha
    rcases List.mem_append.1 ha with ha | ha
    · refine ⟨id, List.mem_cons_self, ?_⟩
      rcases List.mem_cons.1 ha with rfl | ha
      · exact Relation.ReflTransGen.refl
      · obtain ⟨child, hchild, hreach⟩ := hbelow a ha
        exact Relation.ReflTransGen.head hchild hreach
    · obtain ⟨other, hother, hreach⟩ := hbeside a ha
      exact ⟨other, List.mem_cons_of_mem _ hother, hreach⟩
  | case3 seen id ids h hbeside =>
    intro a ha
    obtain ⟨other, hother, hreach⟩ := hbeside a ha
    exact ⟨other, List.mem_cons_of_mem _ hother, hreach⟩

/-- All nodes of the row are met, if they have not been seen. -/
theorem mem_preorder_of_mem (g : Graph) (seen ids : List NodeId) :
    ∀ a ∈ ids, a < g.size → a ∈ g.preorder seen ids ∨ a ∈ seen := by
  fun_induction preorder g seen ids with
  | case1 seen => exact fun _ ha => absurd ha List.not_mem_nil
  | case2 seen id ids h below hbelow hbeside =>
    intro a ha hlt
    rcases List.mem_cons.1 ha with rfl | ha
    · exact Or.inl List.mem_cons_self
    · have := hbeside a ha hlt
      simp only [List.mem_append, List.mem_reverse, List.mem_cons] at this ⊢
      tauto
  | case3 seen id ids h hbeside =>
    intro a ha hlt
    rcases List.mem_cons.1 ha with rfl | ha
    · right
      simpa [hlt] using h
    · exact hbeside a ha hlt

/-- With a node, the search meets its children. -/
theorem children_mem_preorder
    (hvalid : ∀ id < g.size, ∀ child ∈ g.children id, child < g.size) (seen ids : List NodeId) :
    ∀ a ∈ g.preorder seen ids, ∀ child ∈ g.children a,
      child ∈ g.preorder seen ids ∨ child ∈ seen := by
  fun_induction preorder g seen ids with
  | case1 seen => exact fun _ ha => absurd ha List.not_mem_nil
  | case2 seen id ids h below hbelow hbeside =>
    intro a ha child hchild
    have hmet : child ∈ below ∨ child ∈ id :: seen ∨
        child ∈ g.preorder (below.reverse ++ id :: seen) ids := by
      rcases List.mem_append.1 ha with ha | ha
      · rcases List.mem_cons.1 ha with rfl | ha
        · have := mem_preorder_of_mem g (a :: seen) _ child hchild (hvalid a h.1 child hchild)
          tauto
        · have := hbelow a ha child hchild
          tauto
      · have := hbeside a ha child hchild
        rw [List.mem_append, List.mem_reverse] at this
        tauto
    simp only [List.mem_append, List.mem_cons] at hmet ⊢
    tauto
  | case3 seen id ids h hbeside => exact hbeside

/-- A search from one node meets what can be reached from it, and nothing else. -/
theorem mem_preorder_iff (hvalid : ∀ id < g.size, ∀ child ∈ g.children id, child < g.size)
    (hroot : root < g.size) : a ∈ g.preorder [] [root] ↔ g.Reaches root a := by
  constructor
  · intro ha
    obtain ⟨id, hid, hreach⟩ := reaches_of_mem_preorder g [] [root] a ha
    rwa [List.mem_singleton.1 hid] at hreach
  · intro hreach
    induction hreach with
    | refl =>
      exact (mem_preorder_of_mem g [] [root] root List.mem_cons_self hroot).resolve_right
        List.not_mem_nil
    | tail _ hchild ih =>
      exact (children_mem_preorder hvalid [] [root] _ ih _ hchild).resolve_right List.not_mem_nil

/-- Where all nodes refer to nodes that are there, a walk from a node meets the objects that can be
reached from it, each once, in the order in which a depth-first search meets them. -/
theorem objects_preorder (hvalid : ∀ id < g.size, ∀ child ∈ g.children id, child < g.size)
    (hroot : root < g.size) :
    g.objects root = (g.preorder [] [root]).filter (fun id => g.kind id = .object) ∧
      (g.objects root).Nodup ∧
      ∀ id, id ∈ g.objects root ↔ g.Reaches root id ∧ g.kind id = .object := by
  have hobjects : g.objects root =
      (g.preorder [] [root]).filter (fun id => g.kind id = .object) := by
    have hwalk := objectsAlong_append g [] [root] []
    rwa [objectsAlong, List.append_nil, List.append_nil] at hwalk
  refine ⟨hobjects, ?_, fun id => ?_⟩
  · rw [hobjects]
    exact (nodup_preorder g [] [root]).1.filter _
  · rw [hobjects, List.mem_filter, mem_preorder_iff hvalid hroot, decide_eq_true_eq]

/-- An object that two others share leads back to the first of them, and an array into itself. -/
def knot : Graph where
  nodes := #[
    ⟨⟨⟨none, none⟩, .object ⟨none, none, some "Outer", true, none⟩
        [⟨"a", 0, true, 1, none⟩, ⟨"b", 1, true, 2, none⟩, ⟨"c", 2, true, 3, none⟩]⟩,
      none, none, true⟩,
    ⟨⟨⟨none, none⟩, .array 1 none⟩, none, none, false⟩,
    ⟨⟨⟨none, none⟩, .object ⟨none, none, some "Middle", true, none⟩ [⟨"d", 0, true, 3, none⟩]⟩,
      none, none, false⟩,
    ⟨⟨⟨none, none⟩, .object ⟨none, none, some "Inner", true, none⟩ [⟨"e", 0, true, 0, none⟩]⟩,
      none, none, false⟩]

theorem objects_preorder_knot :
    (∀ id < knot.size, ∀ child ∈ knot.children id, child < knot.size) ∧
      knot.objects 0 = (knot.preorder [] [0]).filter (fun id => knot.kind id = .object) ∧
      knot.objects 0 = [0, 2, 3] := by
  have hvalid : ∀ id < knot.size, ∀ child ∈ knot.children id, child < knot.size := by decide
  exact ⟨hvalid, (objects_preorder hvalid (by decide)).1, by cbv⟩

end SchemaForge.Graph
