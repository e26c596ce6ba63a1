import Mathlib
import SchemaForge.Proofs.Generation.Claimants
import SchemaForge.Proofs.Naming
import SchemaForge.Proofs.TypeScript.Symbols
/-! Objects that have a TypeScript module: the parts of their classes, and what their members
hold. -/
namespace SchemaForge.TypeScript

variable {g : Graph} {id node : NodeId} {c : Class} {f : Field} {type : ValueType} {m : Member}
  {title member name : String} {head : ObjectHead} {members : List Member} {style : Style}
  {u : CodeUnit}

/-- A unit is the module of a class. -/
theorem unit?_ok (h : unit? style g id = .ok u) :
    ∃ c, Class.ofNode? g id = .ok c ∧ u.fileName = fileName g id ∧
      u.contents = contents style g id c := by
  obtain ⟨c, hc, hu⟩ := Generation.bind_ok h
  rw [← Except.ok.inj hu]
  exact ⟨c, hc, by dsimp only, by dsimp only⟩

/-- A class has its module. -/
theorem exists_unit (style : Style) (h : Class.ofNode? g id = .ok c) :
    ∃ u, unit? style g id = .ok u ∧ u.contents = contents style g id c := by
  have hunit : unit? style g id = .ok ⟨fileName g id, contents style g id c,
      (g.children id).filterMap g.memberObject?, g.source id⟩ := by
    rw [unit?, h]
    rfl
  exact ⟨_, hunit, by dsimp only⟩

/-- The class of a node, in parts. -/
theorem ofNode?_ok (h : Class.ofNode? g id = .ok c) :
    ∃ members, g.object? id = some (c.head, members) ∧ c.name = g.objectName id ∧
      c.head.titleText.isEmpty = false ∧
      MemberNames.fault? c.head.titleText Naming.tsPublic (members.map Member.name) = none ∧
      members.mapM (field? g c.head.titleText) = .ok c.fields := by
  unfold Class.ofNode? at h
  cases hobject : g.object? id with
  | none => simp [hobject, throw, throwThe, MonadExceptOf.throw] at h
  | some object =>
    obtain ⟨head, members⟩ := object
    simp only [hobject] at h
    by_cases htitle : head.titleText.isEmpty = true
    · simp only [htitle, if_true] at h
      cases h
    · simp only [htitle, Bool.false_eq_true, if_false] at h
      cases hfault : MemberNames.fault? head.titleText Naming.tsPublic (members.map Member.name) with
      | some fault =>
        simp only [hfault] at h
        cases h
      | none =>
        simp only [hfault] at h
        obtain ⟨fields, hfields, h⟩ := Generation.bind_ok h
        rw [← Except.ok.inj h]
        exact ⟨members, rfl, by dsimp only, eq_false_of_ne_true htitle, hfault, hfields⟩

theorem ofNode?_of_parts {fields : List Field} (hobject : g.object? id = some (head, members))
    (htitle : head.titleText.isEmpty = false)
    (hfault : MemberNames.fault? head.titleText Naming.tsPublic (members.map Member.name) = none)
    (hfields : members.mapM (field? g head.titleText) = .ok fields) :
    Class.ofNode? g id = .ok ⟨g.objectName id, head, fields⟩ := by
  simp only [Class.ofNode?, hobject, htitle, hfault, hfields, Bool.false_eq_true, if_false]
  rfl

theorem field?_ok (h : field? g title m = .ok f) :
    f.name = m.name ∧ f.optional = m.optional ∧ f.publicName ∉ builderMethods ∧
      memberType? g title m.name m.node = .ok f.type := by
  unfold field? at h
  split at h
  · cases h
  · next hfree =>
    split at h
    · next type htype =>
      cases h
      exact ⟨rfl, rfl, mt List.contains_iff_mem.2 hfree, htype⟩
    · cases h

/-- The fields are those of the members, one by one. -/
theorem forall₂_fields (hobject : g.object? id = some (head, members))
    (h : Class.ofNode? g id = .ok c) :
    c.head = head ∧
      List.Forall₂ (fun m f => field? g head.titleText m = .ok f) members c.fields := by
  obtain ⟨_, hobject', -, -, -, hfields⟩ := ofNode?_ok h
  rw [hobject] at hobject'
  cases hobject'
  exact ⟨rfl, Generation.forall₂_of_mapM hfields⟩

/-- What is made of the names of the fields is made of those of the members, in their order. -/
theorem map_names_eq (identifier : String → String) (hobject : g.object? id = some (head, members))
    (h : Class.ofNode? g id = .ok c) :
    (c.fields.map fun f => identifier f.name) = members.map fun m => identifier m.name := by
  obtain ⟨-, hfields⟩ := forall₂_fields hobject h
  rw [← List.forall₂_eq_eq_eq, List.forall₂_map_left_iff, List.forall₂_map_right_iff]
  apply hfields.flip.imp
  intro f m hf
  rw [(field?_ok hf).1]

/-- Each field has a public name of its own. -/
theorem nodup_publicNames (h : Class.ofNode? g id = .ok c) :
    (c.fields.map Field.publicName).Nodup := by
  obtain ⟨members, hobject, -, -, hfault, -⟩ := ofNode?_ok h
  have hnodup := (MemberNames.nodup_of_faultAmong?_none hfault).1
  rw [List.map_map] at hnodup
  exact (map_names_eq Naming.tsPublic hobject h).symm ▸ hnodup

/-- And none of a method that every builder has. -/
theorem publicName_not_method (h : Class.ofNode? g id = .ok c) (hf : f ∈ c.fields) :
    f.publicName ∉ builderMethods := by
  obtain ⟨members, hobject, -⟩ := ofNode?_ok h
  obtain ⟨m, -, hm⟩ := Generation.forall₂_left (forall₂_fields hobject h).2.flip hf
  exact (field?_ok hm).2.2.1

theorem ValueType.leaf_of_not_list (h : type.isList = false) : type.leaf = type := by
  cases type with
  | list items => cases h
  | _ => rfl

theorem ValueType.leaf_nested (t : ValueType) (depth : Nat) : (t.nested depth).leaf = t.leaf := by
  induction depth with
  | zero => rfl
  | succ depth ih => exact ih

/-- The type of a node that is no array. -/
def leafType? (g : Graph) (id : NodeId) : Option ValueType :=
  match g.property? id with
  | some ⟨_, .leaf l⟩ => some (.ofLeaf l)
  | some ⟨_, .object head []⟩ => some (.record head)
  | some ⟨_, .object _ (_ :: _)⟩ => some (.object (g.objectName id))
  | _ => none

theorem isList_of_leafType? (h : leafType? g id = some type) : type.isList = false := by
  unfold leafType? at h
  split at h
  · next l _ =>
    cases h
    cases l <;> rfl
  · cases h
    rfl
  · rw [← Option.some.inj h]
    rfl
  · cases h

/-- An object that a type names has members, and that name. -/
theorem leafType?_object (h : leafType? g id = some (.object name)) :
    g.hasMembers id = true ∧ g.objectName id = name := by
  unfold leafType? at h
  split at h
  · next l _ => cases l <;> cases h
  · cases h
  · next hp =>
    refine ⟨?_, ValueType.object.inj (Option.some.inj h)⟩
    simp [Graph.hasMembers, Graph.object?, hp]
  · cases h

/-- The type of a member is that of what its arrays hold in the end, in as many lists. -/
theorem memberType?_ok (h : memberType? g title member node = .ok type) :
    ∃ chain leaf, g.arrayChain? node = some chain ∧ leafType? g chain.leaf = some leaf ∧
      type = leaf.nested chain.depth := by
  unfold memberType? at h
  cases hchain : g.arrayChain? node with
  | none =>
    simp only [hchain] at h
    cases h
  | some chain =>
    simp only [hchain] at h
    split at h
    · cases h
    · cases h
    · next hp => exact ⟨chain, _, rfl, by rw [leafType?, hp], (Except.ok.inj h).symm⟩
    · next hp => exact ⟨chain, _, rfl, by rw [leafType?, hp], (Except.ok.inj h).symm⟩
    · next hp =>
      split at h
      · cases h
      · exact ⟨chain, _, rfl, by rw [leafType?, hp], (Except.ok.inj h).symm⟩
    · cases h

/-- The object that a member holds, if its type says that it holds one. -/
theorem memberType?_object (h : memberType? g title member node = .ok type)
    (hleaf : type.leaf = .object name) :
    ∃ leaf, g.memberObject? node = some leaf ∧ g.objectName leaf = name := by
  obtain ⟨chain, leaf, hchain, htype, rfl⟩ := memberType?_ok h
  rw [ValueType.leaf_nested, ValueType.leaf_of_not_list (isList_of_leafType? htype)] at hleaf
  obtain ⟨hmembers, hname⟩ := leafType?_object (hleaf ▸ htype)
  refine ⟨chain.leaf, ?_, hname⟩
  simp only [Graph.memberObject?, Graph.arrayLeaf, hchain, hmembers, if_true]

/-- A route of legs with their stops: node 5 is the route, and node 1 a stop inside two lists. -/
def routeGraph : Graph where
  nodes := #[
    ⟨⟨⟨none, none⟩, .leaf (.string none (some .dateTime))⟩, some 1, none, false⟩,
    ⟨⟨⟨none, none⟩, .object ⟨none, none, some "Stop", true, none⟩ [⟨"at", 0, false, 0, none⟩]⟩,
      some 2, none, false⟩,
    ⟨⟨⟨none, none⟩, .array 1 none⟩, some 3, none, false⟩,
    ⟨⟨⟨none, none⟩, .array 2 none⟩, some 5, none, false⟩,
    ⟨⟨⟨none, none⟩, .leaf (.boolean none)⟩, some 5, none, false⟩,
    ⟨⟨⟨none, none⟩, .object ⟨none, none, some "Route", true, none⟩
      [⟨"stops", 0, false, 3, none⟩, ⟨"new", 1, true, 4, none⟩]⟩, none, none, false⟩]

def routeClass : Class :=
  ⟨"Route", ⟨none, none, some "Route", true, none⟩,
    [⟨"stops", .list (.list (.object "Route$Stop")), false, none⟩, ⟨"new", .boolean, true, none⟩]⟩

theorem objectName_route : routeGraph.objectName 5 = "Route" := by decide

theorem objectName_stop : routeGraph.objectName 1 = "Route$Stop" := by decide

theorem ofNode?_route : Class.ofNode? routeGraph 5 = .ok routeClass := by
  have hstops : Naming.tsPublic "stops" = "stops" := by decide
  have hnew : Naming.tsPublic "new" = "\"new\"" := by decide
  have hfault : MemberNames.fault? "Route" Naming.tsPublic ["stops", "new"] = none := by
    simp [MemberNames.fault?, MemberNames.faultAmong?, hstops, hnew, List.lookup]
  have hobject : routeGraph.object? 5 = some (⟨none, none, some "Route", true, none⟩,
      [⟨"stops", 0, false, 3, none⟩, ⟨"new", 1, true, 4, none⟩]) := rfl
  have hstop : memberType? routeGraph "Route" "stops" 3 =
      .ok (.list (.list (.object (routeGraph.objectName 1)))) := by
    have hchain : routeGraph.arrayChain? 3 = some ⟨[3, 2], 1⟩ := by decide
    rw [memberType?, hchain]
    rfl
  have hfields : [⟨"stops", 0, false, 3, none⟩, ⟨"new", 1, true, 4, none⟩].mapM
      (field? routeGraph "Route") = .ok routeClass.fields := by
    rw [objectName_stop] at hstop
    simp [field?, builderMethods, hstops, hnew, hstop, List.mapM_cons]
    rfl
  rw [ofNode?_of_parts hobject rfl hfault hfields, objectName_route]
  rfl

/-- An object with one member, which is a text. -/
def soloGraph (title member : String) : Graph where
  nodes := #[
    ⟨⟨⟨none, none⟩, .leaf (.string none none)⟩, some 1, none, false⟩,
    ⟨⟨⟨none, none⟩, .object ⟨some title, none, some title, true, none⟩
      [⟨member, 0, true, 0, none⟩]⟩, none, none, false⟩]

def soloClass (title member : String) : Class :=
  ⟨Naming.tsPublic title, ⟨some title, none, some title, true, none⟩,
    [⟨member, .string none, true, none⟩]⟩

theorem ofNode?_solo (title member : String) (htitle : title.isEmpty = false)
    (hname : Naming.tsPublic member ≠ "") (hfree : Naming.tsPublic member ∉ builderMethods) :
    Class.ofNode? (soloGraph title member) 1 = .ok (soloClass title member) := by
  have hobject : (soloGraph title member).object? 1 =
      some (⟨some title, none, some title, true, none⟩, [⟨member, 0, true, 0, none⟩]) := rfl
  have hfault : MemberNames.fault? title Naming.tsPublic [member] = none := by
    simp [MemberNames.fault?, MemberNames.faultAmong?, hname]
  have hmember : memberType? (soloGraph title member) title member 0 = .ok (.string none) := rfl
  have hfields : [⟨member, 0, true, 0, none⟩].mapM (field? (soloGraph title member) title) =
      .ok (soloClass title member).fields := by
    simp [field?, hfree, hmember, List.mapM_cons]
    rfl
  have htitles : (soloGraph title member).titlesOutwards 3 1 = [title] := by
    have hown : (soloGraph title member).title 1 = title := rfl
    rw [Graph.titlesOutwards, hown, htitle]
    rfl
  have hobjectName : (soloGraph title member).objectName 1 = Naming.tsPublic title := by
    rw [Graph.objectName, show (soloGraph title member).size + 1 = 3 from rfl, htitles,
      List.reverse_singleton, String.intercalate_singleton]
  rw [ofNode?_of_parts hobject htitle hfault hfields, hobjectName]
  rfl

end SchemaForge.TypeScript
