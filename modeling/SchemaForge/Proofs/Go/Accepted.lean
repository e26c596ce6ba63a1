import Mathlib
import SchemaForge.Proofs.Arrays
import SchemaForge.Go.Unit
import SchemaForge.Proofs.Generation.Claimants
import SchemaForge.Proofs.Go.Value
import SchemaForge.Proofs.Naming
/-! The classes of a schema with all that it refers to. -/
namespace SchemaForge

namespace Go

variable {g : Graph} {root id : NodeId} {c : Class} {classes : List Class} {type : ValueType}
  {title member : String} {f : Field}

namespace ValueType

/-- What lists hold in the end. -/
def leaf : ValueType → ValueType
  | list items => items.leaf
  | t => t

theorem leaf_nested (t : ValueType) (depth : Nat) : (t.nested depth).leaf = t.leaf := by
  induction depth with
  | zero => rfl
  | succ depth ih => exact ih

end ValueType

section acceptance

/-- The class of a node, in parts. -/
theorem ofNode?_ok (h : Class.ofNode? g id = .ok c) :
    ∃ head members, g.object? id = some (head, members) ∧ c.title = head.titleText ∧
      MemberNames.fault? c.title Naming.goPublic (members.map Member.name) = none ∧
      members.mapM (field? g c.title) = .ok c.fields := by
  unfold Class.ofNode? at h
  cases hobject : g.object? id with
  | none => simp [hobject, throw, throwThe, MonadExceptOf.throw] at h
  | some object =>
    obtain ⟨head, members⟩ := object
    simp only [hobject] at h
    by_cases htitle : head.titleText.isEmpty = true
    · simp only [htitle, if_true] at h
      cases h
    · simp only [htitle, Bool.false_eq_true, if_false] at h
      cases hfault : MemberNames.fault? head.titleText Naming.goPublic (members.map Member.name) with
      | some fault =>
        simp only [hfault] at h
        cases h
      | none =>
        simp only [hfault] at h
        obtain ⟨fields, hfields, h⟩ := Generation.bind_ok h
        cases h
        exact ⟨head, members, rfl, rfl, hfault, hfields⟩

theorem ofNode?_of_parts {head : ObjectHead} {members : List Member} {fields : List Field}
    (hobject : g.object? id = some (head, members)) (htitle : head.titleText.isEmpty = false)
    (hfault : MemberNames.fault? head.titleText Naming.goPublic (members.map Member.name) = none)
    (hfields : members.mapM (field? g head.titleText) = .ok fields) :
    Class.ofNode? g id = .ok ⟨head.titleText, fields⟩ := by
  simp only [Class.ofNode?, hobject, htitle, hfault, hfields, Bool.false_eq_true, if_false]
  rfl

theorem field?_ok {title : String} {m : Member} (h : field? g title m = .ok f) :
    f.name = m.name ∧ f.optional = m.optional ∧ memberType? g title m.name m.node = .ok f.type ∧
      f.default = (g.property? m.node).bind Property.default? := by
  unfold field? at h
  split at h
  · next type htype =>
    cases h
    exact ⟨rfl, rfl, htype, rfl⟩
  · cases h

/-- The fields are those of the members, one by one. -/
theorem forall₂_fields (h : Class.ofNode? g id = .ok c) :
    ∃ head members, g.object? id = some (head, members) ∧ c.title = head.titleText ∧
      List.Forall₂ (fun m f => field? g c.title m = .ok f) members c.fields := by
  obtain ⟨head, members, hobject, htitle, -, hfields⟩ := ofNode?_ok h
  exact ⟨head, members, hobject, htitle, Generation.forall₂_of_mapM hfields⟩

/-- Each field has a public name of its own. -/
theorem nodup_publicNames (h : Class.ofNode? g id = .ok c) :
    (c.fields.map Field.publicName).Nodup := by
  obtain ⟨head, members, -, -, hfault, hfields⟩ := ofNode?_ok h
  have hnodup := (MemberNames.nodup_of_faultAmong?_none hfault).1
  have hnames : List.Forall₂ (· = ·) (members.map (Naming.goPublic ∘ Member.name))
      (c.fields.map Field.publicName) := by
    rw [List.forall₂_map_left_iff, List.forall₂_map_right_iff]
    apply (Generation.forall₂_of_mapM hfields).imp
    intro m f hf
    simp [Field.publicName, (field?_ok hf).1]
  rw [List.forall₂_eq_eq_eq] at hnames
  rwa [← hnames, ← List.map_map]

/-- And a private one. -/
theorem nodup_privateNames (h : Class.ofNode? g id = .ok c) :
    (c.fields.map Field.privateName).Nodup := by
  have hpublic := nodup_publicNames h
  rw [List.Nodup, List.pairwise_map] at hpublic ⊢
  exact hpublic.imp fun hne heq => hne (Naming.goPublic_eq_of_goPrivate_eq heq)

/-- Fields of one name have one identifier, so names are distinct too. -/
theorem nodup_names (h : Class.ofNode? g id = .ok c) : (c.fields.map Field.name).Nodup := by
  have hpublic := nodup_publicNames h
  rw [List.Nodup, List.pairwise_map] at hpublic ⊢
  exact hpublic.imp fun hne heq => hne (congrArg Naming.goPublic heq)

/-- Defaults are literals. -/
theorem ofJson_of_default (h : Class.ofNode? g id = .ok c) (hf : f ∈ c.fields) {d : Json}
    (hd : f.default = some d) : ∃ v, Value.ofJson d = some v := by
  obtain ⟨head, members, -, -, hfields⟩ := forall₂_fields h
  obtain ⟨m, -, hfield⟩ := Generation.forall₂_left hfields.flip hf
  rw [(field?_ok hfield).2.2.2, Option.bind_eq_some_iff] at hd
  obtain ⟨⟨info, shape⟩, -, hd⟩ := hd
  cases shape with
  | leaf l => cases l <;> obtain ⟨v, -, rfl⟩ := Option.map_eq_some_iff.1 hd <;> exact ⟨_, rfl⟩
  | array items site => cases hd
  | object head members => cases hd

theorem memberType?_array {node items : NodeId} {info : Info} {site : Option RefSite}
    (hp : g.property? node = some ⟨info, .array items site⟩)
    (h : memberType? g title member node = .ok type) :
    ∃ inner, type = .list inner ∧ memberType? g title member items = .ok inner := by
  unfold memberType? at h ⊢
  cases hchain : g.arrayChain? node with
  | none =>
    simp only [hchain] at h
    cases h
  | some chain =>
    obtain ⟨rest, hrest, rfl⟩ := Graph.arrayChain?_array hp hchain
    simp only [hchain] at h
    simp only [hrest]
    have hdepth (t : ValueType) : t.nested (ArrayChain.depth ⟨node :: rest.levels, rest.leaf⟩) =
        .list (t.nested rest.depth) := rfl
    split at h
    · cases h
      exact ⟨_, hdepth _, by simp⟩
    · split at h
      · cases h
      · next hempty =>
        cases h
        exact ⟨_, hdepth _, by simp [hempty]⟩
    · cases h

/-- The object that a member leads to. -/
theorem memberType?_object {node : NodeId} {name : String}
    (h : memberType? g title member node = .ok type) (hleaf : type.leaf = .object name) :
    ∃ leaf, g.Reaches node leaf ∧ g.hasMembers leaf = true ∧ g.title leaf = name := by
  unfold memberType? at h
  cases hchain : g.arrayChain? node with
  | none =>
    simp only [hchain] at h
    cases h
  | some chain =>
    simp only [hchain] at h
    have hreach : g.Reaches node chain.leaf := Graph.reaches_leaf hchain
    split at h
    · next l _ =>
      cases h
      rw [ValueType.leaf_nested] at hleaf
      cases l <;> cases hleaf
    · next head m ms hp =>
      by_cases htitle : head.titleText.isEmpty = true
      · simp only [htitle, if_true] at h
        cases h
      · simp only [htitle, Bool.false_eq_true, if_false] at h
        cases h
        rw [ValueType.leaf_nested] at hleaf
        cases hleaf
        refine ⟨chain.leaf, hreach, ?_, ?_⟩
        · simp [Graph.hasMembers, Graph.object?, hp]
        · simp [Graph.title, Graph.object?, hp]
    · cases h

theorem isSome_object? (h : g.hasMembers id = true) : (g.object? id).isSome = true := by
  unfold Graph.hasMembers at h
  split at h
  · next hobject => simp [hobject]
  · cases h

/-- A member is no object without members. -/
theorem memberType?_memberless {node : NodeId} {head : ObjectHead}
    (h : memberType? g title member node = .ok type) : g.object? node ≠ some (head, []) := by
  intro hobject
  obtain ⟨info, hp⟩ := Graph.property?_of_object? hobject
  have hchain : g.arrayChain? node = some ⟨[], node⟩ := by
    apply Graph.arrayChain?_leaf
    simp [hp]
  simp only [memberType?, hchain, hp] at h
  cases h

end acceptance

/-- The class of a title. Classes whose titles make one identifier are one. -/
def classOf (classes : List Class) (title : String) : Option Class :=
  classes.find? fun c => c.implName == Naming.goPrivate (title ++ "Impl")

theorem mem_of_classOf (h : classOf classes title = some c) : c ∈ classes :=
  List.mem_of_find?_eq_some h

theorem implName_of_classOf (h : classOf classes title = some c) :
    c.implName = Naming.goPrivate (title ++ "Impl") := by
  simpa using List.find?_some h

/-- The classes of a schema with everything that it refers to: all of it is accepted. -/
structure Accepted (g : Graph) (root : NodeId) (classes : List Class) : Prop where
  rooted : (g.object? root).isSome = true
  classOfNode : ∀ id, g.Reaches root id → (g.object? id).isSome = true →
    ∃ c ∈ classes, Class.ofNode? g id = .ok c
  nodeOfClass : ∀ c ∈ classes, ∃ id, g.Reaches root id ∧ Class.ofNode? g id = .ok c

namespace Accepted

theorem nodup_publicNames (h : Accepted g root classes) (hc : c ∈ classes) :
    (c.fields.map Field.publicName).Nodup := by
  obtain ⟨id, -, hclass⟩ := h.nodeOfClass c hc
  exact Go.nodup_publicNames hclass

theorem nodup_privateNames (h : Accepted g root classes) (hc : c ∈ classes) :
    (c.fields.map Field.privateName).Nodup := by
  obtain ⟨id, -, hclass⟩ := h.nodeOfClass c hc
  exact Go.nodup_privateNames hclass

theorem nodup_names (h : Accepted g root classes) (hc : c ∈ classes) :
    (c.fields.map Field.name).Nodup := by
  obtain ⟨id, -, hclass⟩ := h.nodeOfClass c hc
  exact Go.nodup_names hclass

theorem ofJson_default (h : Accepted g root classes) (hc : c ∈ classes) (hf : f ∈ c.fields)
    {d : Json} (hd : f.default = some d) : ∃ v, Value.ofJson d = some v := by
  obtain ⟨id, -, hclass⟩ := h.nodeOfClass c hc
  exact ofJson_of_default hclass hf hd

/-- All that the root leads to has a type as a member. -/
theorem memberType?_of_reaches (h : Accepted g root classes) (hid : g.Reaches root id) :
    id = root ∨ ∃ title member type, memberType? g title member id = .ok type := by
  induction hid with
  | refl => exact Or.inl rfl
  | tail hparent hchild ih =>
    next parent child =>
    refine Or.inr ?_
    rcases Graph.array_or_hasMembers_or_none g parent with
      ⟨info, items, site, hp⟩ | hmembers | ⟨-, -, hnil⟩
    · rw [Graph.children_array hp, List.mem_singleton] at hchild
      subst hchild
      rcases ih with rfl | ⟨title, member, type, htype⟩
      · have := h.rooted
        simp [Graph.object?, hp] at this
      · obtain ⟨inner, -, hinner⟩ := memberType?_array hp htype
        exact ⟨title, member, inner, hinner⟩
    · obtain ⟨c, -, hc⟩ := h.classOfNode parent hparent (isSome_object? hmembers)
      obtain ⟨head, members, hobject, -, hfields⟩ := forall₂_fields hc
      rw [Graph.children_object hobject] at hchild
      obtain ⟨m, hm, rfl⟩ := List.mem_map.1 hchild
      obtain ⟨f, -, hf⟩ := Generation.forall₂_left hfields hm
      exact ⟨_, _, _, (field?_ok hf).2.2.1⟩
    · rw [hnil] at hchild
      exact absurd hchild List.not_mem_nil

/-- Whatever the root leads to has no class without fields, but for itself. -/
theorem eq_root_of_fields_nil (h : Accepted g root classes) (hid : g.Reaches root id)
    (hc : Class.ofNode? g id = .ok c) (hfields : c.fields = []) : id = root := by
  obtain ⟨head, members, hobject, -, hforall⟩ := forall₂_fields hc
  rw [hfields, List.forall₂_nil_right_iff] at hforall
  subst hforall
  rcases h.memberType?_of_reaches hid with rfl | ⟨title, member, type, htype⟩
  · rfl
  · exact absurd hobject (memberType?_memberless htype)

/-- A root without members leads to nothing but itself. -/
theorem classes_of_root_nil (h : Accepted g root classes) {c₀ : Class}
    (hroot : Class.ofNode? g root = .ok c₀) (hfields : c₀.fields = []) (hc : c ∈ classes) :
    c.fields = [] := by
  obtain ⟨id, hid, hclass⟩ := h.nodeOfClass c hc
  obtain ⟨head, members, hobject, -, hforall⟩ := forall₂_fields hroot
  rw [hfields, List.forall₂_nil_right_iff] at hforall
  subst hforall
  have hchildren : g.children root = [] := by rw [Graph.children_object hobject, List.map_nil]
  have heq : id = root := by
    rcases Relation.ReflTransGen.cases_head hid with rfl | ⟨child, hchild, -⟩
    · rfl
    · rw [hchildren] at hchild
      exact absurd hchild List.not_mem_nil
  subst heq
  rw [hroot] at hclass
  cases hclass
  exact hfields

/-- Members that lead to objects have classes, with fields. -/
theorem classOf_member (h : Accepted g root classes) (hc : c ∈ classes) (hf : f ∈ c.fields)
    (hleaf : f.type.leaf = .object title) :
    ∃ c', classOf classes title = some c' ∧ c'.fields ≠ [] := by
  obtain ⟨id, hid, hclass⟩ := h.nodeOfClass c hc
  obtain ⟨head, members, hobject, -, hfields⟩ := forall₂_fields hclass
  obtain ⟨m, hm, hfield⟩ := Generation.forall₂_left hfields.flip hf
  obtain ⟨leaf, hleads, hmembers, rfl⟩ := memberType?_object (field?_ok hfield).2.2.1 hleaf
  have hchild : m.node ∈ g.children id := by
    rw [Graph.children_object hobject]
    exact List.mem_map_of_mem hm
  have hreach : g.Reaches root leaf := (hid.tail hchild).trans hleads
  obtain ⟨own, hown, hnode⟩ := h.classOfNode leaf hreach (isSome_object? hmembers)
  have htitle : own.title = g.title leaf := by
    obtain ⟨head, members, hobject, htitle, -⟩ := forall₂_fields hnode
    rw [htitle, Graph.title, hobject]
  obtain ⟨c', hc'⟩ : ∃ c', classOf classes (g.title leaf) = some c' := by
    rw [← Option.isSome_iff_exists, classOf, List.find?_isSome]
    exact ⟨own, hown, by simp [Class.implName, htitle]⟩
  refine ⟨c', hc', ?_⟩
  intro hnil
  obtain ⟨id', hid', hclass'⟩ := h.nodeOfClass c' (mem_of_classOf hc')
  rw [h.eq_root_of_fields_nil hid' hclass' hnil] at hclass'
  rw [h.classes_of_root_nil hclass' hnil hc] at hf
  exact absurd hf List.not_mem_nil

end Accepted

/-- A curve of points, with a label and a length: node 5 is the curve and node 1 a point. -/
def curveGraph : Graph where
  nodes := #[
    ⟨⟨⟨none, none⟩, .leaf (.integer none none none none)⟩, some 1, none, false⟩,
    ⟨⟨⟨none, none⟩, .object ⟨none, none, some "Point", true, none⟩ [⟨"x", 0, false, 0, none⟩]⟩,
      some 5, none, false⟩,
    ⟨⟨⟨none, none⟩, .array 1 none⟩, some 5, none, false⟩,
    ⟨⟨⟨none, none⟩, .leaf (.string (some "none") none)⟩, some 5, none, false⟩,
    ⟨⟨⟨none, none⟩, .leaf (.number none none none none)⟩, some 5, none, false⟩,
    ⟨⟨⟨none, none⟩, .object ⟨none, none, some "Curve", true, none⟩
      [⟨"points", 0, false, 2, none⟩, ⟨"label", 1, true, 3, none⟩, ⟨"length", 2, true, 4, none⟩]⟩,
      none, none, false⟩]

def pointClass : Class := ⟨"Point", [⟨"x", .integer, false, none⟩]⟩

def curveClass : Class :=
  ⟨"Curve", [⟨"points", .list (.object "Point"), false, none⟩,
    ⟨"label", .string, true, some (.string "none")⟩, ⟨"length", .number, true, none⟩]⟩

theorem ofNode?_point : Class.ofNode? curveGraph 1 = .ok pointClass := by cbv

theorem ofNode?_curve : Class.ofNode? curveGraph 5 = .ok curveClass := by
  have hpoints : Naming.goPublic "points" = "Points" := by decide
  have hlabel : Naming.goPublic "label" = "Label" := by decide
  have hlength : Naming.goPublic "length" = "Length" := by decide
  have hfault : MemberNames.fault? "Curve" Naming.goPublic ["points", "label", "length"] = none := by
    simp [MemberNames.fault?, MemberNames.faultAmong?, hpoints, hlabel, hlength, List.lookup]
  have hobject : curveGraph.object? 5 = some (⟨none, none, some "Curve", true, none⟩,
      [⟨"points", 0, false, 2, none⟩, ⟨"label", 1, true, 3, none⟩,
        ⟨"length", 2, true, 4, none⟩]) := rfl
  exact ofNode?_of_parts hobject rfl hfault rfl

/-- The classes of the curve. -/
def curveClasses : List Class := [curveClass, pointClass]

theorem accepted_curve : Accepted curveGraph 5 curveClasses := by
  have hclosed : ∀ id < 6, ∀ child ∈ curveGraph.children id, child < 6 := by decide
  have hreach : ∀ id, curveGraph.Reaches 5 id → id < 6 := by
    intro id hid
    induction hid with
    | refl => decide
    | tail _ hchild ih => exact hclosed _ ih _ hchild
  have hobjects : ∀ id < 6, (curveGraph.object? id).isSome = true → id = 1 ∨ id = 5 := by decide
  have hpoint : curveGraph.Reaches 5 1 :=
    .tail (.tail .refl (show 2 ∈ curveGraph.children 5 by decide))
      (show 1 ∈ curveGraph.children 2 by decide)
  refine ⟨by decide, ?_, ?_⟩
  · intro id hid hobject
    rcases hobjects id (hreach id hid) hobject with rfl | rfl
    · exact ⟨pointClass, List.mem_cons_of_mem _ (List.mem_singleton_self _), ofNode?_point⟩
    · exact ⟨curveClass, List.mem_cons_self, ofNode?_curve⟩
  · intro c hc
    rcases List.mem_cons.1 hc with rfl | hc
    · exact ⟨5, .refl, ofNode?_curve⟩
    · rw [List.mem_singleton.1 hc]
      exact ⟨1, hpoint, ofNode?_point⟩

end Go

end SchemaForge
