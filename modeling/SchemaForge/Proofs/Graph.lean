import Mathlib.Logic.Relation
import SchemaForge.Graph.Traversal
/-! Places of a graph keep what they hold while the graph grows and its nodes learn where they
stand. -/
namespace SchemaForge.Graph

variable {g g' g'' : Graph} {id other : NodeId} {n : Node} {p : Property} {file : Path}

theorem node?_add (g : Graph) (n : Node) (id : NodeId) :
    (g.add n).node? id = if id = g.size then some n else g.node? id := by
  exact Array.getElem?_push

theorem node?_modify (g : Graph) (f : Node → Node) (other id : NodeId) :
    (g.modify other f).node? id = if other = id then (g.node? id).map f else g.node? id := by
  simp only [modify, node?, Array.getElem?_modify]

@[simp] theorem size_add (g : Graph) (n : Node) : (g.add n).size = g.size + 1 := by
  simp [add, size]

@[simp] theorem size_modify (g : Graph) (f : Node → Node) (id : NodeId) :
    (g.modify id f).size = g.size := by
  simp [modify, size]

@[simp] theorem size_replace (g : Graph) (p : Property) (id : NodeId) :
    (g.replace id p).size = g.size := size_modify g _ id

theorem node?_isSome_iff : (g.node? id).isSome ↔ id < g.size := by
  simp [node?, size]

theorem lt_of_node? (h : g.node? id = some n) : id < g.size :=
  node?_isSome_iff.1 (by simp [h])

theorem lt_of_property? (h : g.property? id = some p) : id < g.size := by
  obtain ⟨n, hn, -⟩ := Option.map_eq_some_iff.1 h
  exact lt_of_node? hn

theorem isFileRoot_eq (g : Graph) (id : NodeId) :
    g.isFileRoot id = (g.node? id).any Node.fileRoot := by
  unfold isFileRoot
  cases g.node? id <;> rfl

theorem lt_of_isFileRoot (h : g.isFileRoot id = true) : id < g.size := by
  rw [isFileRoot_eq, Option.any_eq_true] at h
  obtain ⟨n, hn, -⟩ := h
  exact lt_of_node? hn

theorem lt_of_hasMembers (h : g.hasMembers id = true) : id < g.size := by
  cases hp : g.property? id with
  | none => simp [hasMembers, object?, hp] at h
  | some p => exact lt_of_property? hp

theorem lt_of_object? (h : (g.object? id).isSome = true) : id < g.size := by
  cases hp : g.property? id with
  | none => simp [object?, hp] at h
  | some p => exact lt_of_property? hp

theorem property?_replace (g : Graph) (p : Property) (h : id < g.size) :
    (g.replace id p).property? id = some p := by
  obtain ⟨n, hn⟩ := Option.isSome_iff_exists.1 (node?_isSome_iff.2 h)
  simp [property?, replace, node?_modify, hn]

theorem property?_replace_ne (g : Graph) (p : Property) (h : other ≠ id) :
    (g.replace other p).property? id = g.property? id := by
  simp [property?, replace, node?_modify, h]

@[simp] theorem isFileRoot_replace (g : Graph) (p : Property) (other id : NodeId) :
    (g.replace other p).isFileRoot id = g.isFileRoot id := by
  simp only [isFileRoot_eq, replace, node?_modify]
  split
  · cases g.node? id <;> rfl
  · rfl

@[simp] theorem file?_replace (g : Graph) (p : Property) (other id : NodeId) :
    (g.replace other p).file? id = g.file? id := by
  simp only [file?, replace, node?_modify]
  split
  · cases g.node? id <;> rfl
  · rfl

@[simp] theorem parent?_replace (g : Graph) (p : Property) (other id : NodeId) :
    (g.replace other p).parent? id = g.parent? id := by
  simp only [parent?, replace, node?_modify]
  split
  · cases g.node? id <;> rfl
  · rfl

theorem property?_add (g : Graph) (n : Node) : (g.add n).property? g.size = some n.property := by
  simp [property?, node?_add]

theorem isFileRoot_add (g : Graph) (n : Node) : (g.add n).isFileRoot g.size = n.fileRoot := by
  simp [isFileRoot_eq, node?_add]

/-- What a later graph keeps of an earlier one. A node's file and parent are set once. -/
structure Extends (g g' : Graph) : Prop where
  size_le : g.size ≤ g'.size
  property : ∀ {id}, id < g.size → g'.property? id = g.property? id
  fileRoot : ∀ {id}, id < g.size → g'.isFileRoot id = g.isFileRoot id
  file : ∀ {id f}, g.file? id = some f → g'.file? id = some f
  parent : ∀ {id p}, g.parent? id = some p → g'.parent? id = some p

theorem Extends.refl (g : Graph) : g.Extends g :=
  ⟨Nat.le_refl _, fun _ => rfl, fun _ => rfl, id, id⟩

theorem Extends.trans (h : g.Extends g') (h' : g'.Extends g'') : g.Extends g'' where
  size_le := Nat.le_trans h.size_le h'.size_le
  property hid := (h'.property (Nat.lt_of_lt_of_le hid h.size_le)).trans (h.property hid)
  fileRoot hid := (h'.fileRoot (Nat.lt_of_lt_of_le hid h.size_le)).trans (h.fileRoot hid)
  file hf := h'.file (h.file hf)
  parent hp := h'.parent (h.parent hp)

/-- Filling a place that is new changes no old one. -/
theorem Extends.replace (h : g.Extends g') (hid : g.size ≤ id) (p : Property) :
    g.Extends (g'.replace id p) := by
  refine ⟨by simpa using h.size_le, ?_, ?_, ?_, ?_⟩
  · intro other hother
    have hne : id ≠ other := Nat.ne_of_gt (Nat.lt_of_lt_of_le hother hid)
    exact (property?_replace_ne _ _ hne).trans (h.property hother)
  · exact fun hother => (isFileRoot_replace ..).trans (h.fileRoot hother)
  · exact fun hf => (file?_replace ..).trans (h.file hf)
  · exact fun hp => (parent?_replace ..).trans (h.parent hp)

/-- Adding a node leaves all others as they are. -/
theorem extends_add (g : Graph) (n : Node) : g.Extends (g.add n) := by
  have hnode : ∀ {id}, id < g.size → (g.add n).node? id = g.node? id := by
    intro id hid
    simp [node?_add, Nat.ne_of_lt hid]
  have hlt : ∀ {α : Type} {f : Node → Option α} {id a}, (g.node? id).bind f = some a →
      (g.add n).node? id = g.node? id := by
    intro α f id a h
    obtain ⟨n, hn, -⟩ := Option.bind_eq_some_iff.1 h
    exact hnode (lt_of_node? hn)
  refine ⟨by simp, ?_, ?_, ?_, ?_⟩
  · intro id hid
    simp only [property?, hnode hid]
  · intro id hid
    simp only [isFileRoot_eq, hnode hid]
  · intro id f hf
    rw [file?, hlt hf]
    exact hf
  · intro id p hp
    rw [parent?, hlt hp]
    exact hp

/-- A change of nodes that only tells them where they stand. -/
structure Tells (f : Node → Node) : Prop where
  property : ∀ n, (f n).property = n.property
  fileRoot : ∀ n, (f n).fileRoot = n.fileRoot
  file : ∀ n file, n.file = some file → (f n).file = some file
  parent : ∀ n parent, n.parent = some parent → (f n).parent = some parent

theorem tells_withFile (file : Path) : Tells (·.withFile file) := by
  constructor <;> intro n <;> unfold Node.withFile <;> split <;> simp_all

theorem tells_withParent (parent : NodeId) : Tells (·.withParent parent) := by
  constructor <;> intro n <;> unfold Node.withParent <;> split <;> simp_all

theorem tells_adopt (parent : NodeId) (file : Option Path) : Tells (·.adopt parent file) := by
  have hp := tells_withParent parent
  cases file with
  | none => exact hp
  | some file =>
    have hf := tells_withFile file
    constructor <;> intro n <;> dsimp only [Node.adopt] <;> split
    · exact hp.property n
    · exact (hf.property _).trans (hp.property n)
    · exact hp.fileRoot n
    · exact (hf.fileRoot _).trans (hp.fileRoot n)
    · exact hp.file n
    · exact fun f hn => hf.file _ f (hp.file n f hn)
    · exact hp.parent n
    · exact fun q hn => hf.parent _ q (hp.parent n q hn)

theorem extends_modify (g : Graph) (id : NodeId) {f : Node → Node} (hf : Tells f) :
    g.Extends (g.modify id f) := by
  refine ⟨by simp, ?_, ?_, ?_, ?_⟩
  · intro other _
    simp only [property?, node?_modify]
    split
    · cases g.node? other <;> simp [hf.property]
    · rfl
  · intro other _
    simp only [isFileRoot_eq, node?_modify]
    split
    · cases g.node? other <;> simp [hf.fileRoot]
    · rfl
  · intro other file h
    obtain ⟨n, hn, hfile⟩ := Option.bind_eq_some_iff.1 h
    simp only [file?, node?_modify, hn]
    split
    · exact hf.file n file hfile
    · exact hfile
  · intro other parent h
    obtain ⟨n, hn, hparent⟩ := Option.bind_eq_some_iff.1 h
    simp only [parent?, node?_modify, hn]
    split
    · exact hf.parent n parent hparent
    · exact hparent

/-- A walk that tells nodes where they stand adds none. -/
theorem linkWithin_told (limit : Nat) (id : NodeId) (walk : Graph × List NodeId) :
    walk.1.Extends (linkWithin limit id walk).1 ∧
      (linkWithin limit id walk).1.size = walk.1.size := by
  induction limit generalizing id walk with
  | zero => exact ⟨Extends.refl _, rfl⟩
  | succ limit ih =>
    obtain ⟨g, seen⟩ := walk
    rw [linkWithin]
    split
    · exact ⟨Extends.refl g, rfl⟩
    · -- every child is told first and walked through then
      generalize g.children id = children, id :: seen = seen'
      have hfold : ∀ (file : Option Path) (walk : Graph × List NodeId),
          let walk' := children.foldl (fun walk child =>
            linkWithin limit child
              (if child = id then walk.1 else walk.1.modify child (·.adopt id file), walk.2)) walk
          walk.1.Extends walk'.1 ∧ walk'.1.size = walk.1.size := by
        intro file
        induction children with
        | nil => exact fun walk => ⟨Extends.refl walk.1, rfl⟩
        | cons child children ihc =>
          intro walk
          have hchild : walk.1.Extends
              (if child = id then walk.1 else walk.1.modify child (·.adopt id file)) ∧
              (if child = id then walk.1 else walk.1.modify child (·.adopt id file)).size =
                walk.1.size := by
            split
            · exact ⟨Extends.refl _, rfl⟩
            · exact ⟨extends_modify _ _ (tells_adopt id file), size_modify ..⟩
          have hwalk := ih child
            (if child = id then walk.1 else walk.1.modify child (·.adopt id file), walk.2)
          have hrest := ihc (linkWithin limit child
            (if child = id then walk.1 else walk.1.modify child (·.adopt id file), walk.2))
          exact ⟨(hchild.1.trans hwalk.1).trans hrest.1,
            hrest.2.trans (hwalk.2.trans hchild.2)⟩
      exact hfold (g.file? id) (g, seen')

theorem extends_link (g : Graph) (root : NodeId) : g.Extends (g.link root) :=
  (linkWithin_told _ root (g, [])).1

@[simp] theorem size_link (g : Graph) (root : NodeId) : (g.link root).size = g.size :=
  (linkWithin_told _ root (g, [])).2

end SchemaForge.Graph
