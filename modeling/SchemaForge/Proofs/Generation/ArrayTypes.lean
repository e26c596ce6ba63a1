import Mathlib
import SchemaForge.Proofs.ArrayLevels
import SchemaForge.Proofs.Go.ListLoops
import SchemaForge.Proofs.TypeScript.ListTypes
/-!
The types of the nodes on a chain of arrays in both languages. Main statement: going down through
the arrays gives each of them the type that has as many brackets as the chain has dimensions left,
and what reads the lists of a member in TypeScript is well typed with these types.
-/
namespace SchemaForge

variable {g : Graph} {id node : NodeId} {title member : String} {chain : ArrayChain}
  {level : Nat}

theorem goSlice_succ (dims : Nat) (leaf : String) :
    goSlice (dims + 1) leaf = "[]" ++ goSlice dims leaf := by
  simp [goSlice, List.replicate_succ, String.append_assoc]

theorem tsArray_succ (dims : Nat) (leaf : String) :
    tsArray (dims + 1) leaf = tsArray dims leaf ++ "[]" := by
  simp [tsArray, List.replicate_succ', String.append_assoc]

namespace Go

variable {leaf type : ValueType}

/-- The Go type of a node that is no array. -/
def leafGoType? (g : Graph) (id : NodeId) : Option GoType :=
  match g.property? id with
  | some ⟨_, .leaf l⟩ => some (ValueType.ofLeaf l).goType
  | some ⟨_, .object _ []⟩ => some .anyMap
  | some ⟨_, .object head (_ :: _)⟩ => some (.named (typeName head.titleText "Class"))
  | _ => none

theorem leafGoType?_of_leafType? (h : leafType? g id = some leaf) :
    leafGoType? g id = some leaf.goType := by
  unfold leafType? at h
  split at h
  · next hp =>
    cases h
    rw [leafGoType?, hp]
  · next hp =>
    cases h
    rw [leafGoType?, hp]
    rfl
  · cases h

/-- Whatever is no array has a type. -/
theorem isSome_leafGoType? (h : (g.property? id).isSome)
    (hp : ∀ info items site, g.property? id ≠ some ⟨info, .array items site⟩) :
    (leafGoType? g id).isSome := by
  obtain ⟨⟨info, shape⟩, hproperty⟩ := Option.isSome_iff_exists.1 h
  rw [leafGoType?, hproperty]
  cases shape with
  | leaf l => rfl
  | array items site => exact absurd hproperty (hp info items site)
  | object head members => cases members <;> rfl

/-- The Go type of a node: that of a slice for each array that there is on the way down. -/
def nodeType? (g : Graph) (id : NodeId) : Option GoType :=
  g.overArrays (leafGoType? g) .slice id

theorem text_slices (type : GoType) (dims : Nat) :
    (GoType.slice^[dims] type).text = goSlice dims type.text := by
  induction dims with
  | zero => simp [goSlice]
  | succ dims ih => rw [Function.iterate_succ_apply', GoType.text, ih, goSlice_succ]

theorem text_nodeType? (hchain : g.arrayChain? node = some chain) (hlevel : level ≤ chain.depth) :
    (nodeType? g (chain.node level)).map GoType.text =
      (nodeType? g chain.leaf).map fun t => goSlice (chain.dims level) t.text := by
  rw [nodeType?, nodeType?, Graph.overArrays_node _ _ hchain hlevel,
    Graph.overArrays_leaf _ _ hchain, Option.map_map]
  simp only [Function.comp_def, text_slices]

theorem isSome_nodeType? (hchain : g.arrayChain? node = some chain)
    (hleaf : (g.property? chain.leaf).isSome) : (nodeType? g chain.leaf).isSome := by
  rw [nodeType?, Graph.overArrays_leaf _ _ hchain]
  exact isSome_leafGoType? hleaf (Graph.leaf_not_array hchain)

theorem goType_nested (leaf : ValueType) (depth : Nat) :
    (leaf.nested depth).goType = GoType.slice^[depth] leaf.goType := by
  induction depth with
  | zero => rfl
  | succ depth ih => rw [Function.iterate_succ_apply', ← ih, ValueType.nested, ValueType.goType]

/-- The type of a member is that of its node. -/
theorem nodeType?_of_memberType? (h : memberType? g title member node = .ok type) :
    nodeType? g node = some type.goType := by
  obtain ⟨chain, leaf, hchain, hleaf, rfl⟩ := memberType?_ok h
  have hnode := g.overArrays_node (leafGoType? g) .slice hchain (Nat.zero_le _)
  rw [Graph.node_zero hchain, leafGoType?_of_leafType? hleaf] at hnode
  rw [goType_nested]
  exact hnode

end Go

namespace TypeScript

variable {leaf type : ValueType}

/-- Whatever is no array has a type. -/
theorem isSome_leafType? (h : (g.property? id).isSome)
    (hp : ∀ info items site, g.property? id ≠ some ⟨info, .array items site⟩) :
    (leafType? g id).isSome := by
  obtain ⟨⟨info, shape⟩, hproperty⟩ := Option.isSome_iff_exists.1 h
  rw [leafType?, hproperty]
  cases shape with
  | leaf l => rfl
  | array items site => exact absurd hproperty (hp info items site)
  | object head members => cases members <;> rfl

/-- The TypeScript type of a node: that of an array for each array that there is on the way down. -/
def nodeType? (g : Graph) (id : NodeId) : Option Code :=
  g.overArrays (fun id => (leafType? g id).map ValueType.viewType) listOf id

theorem render_lists (type : Code) (dims : Nat) :
    (listOf^[dims] type).render = tsArray dims type.render := by
  induction dims with
  | zero => simp [tsArray]
  | succ dims ih =>
    rw [Function.iterate_succ_apply', tsArray_succ, ← ih]
    simp [listOf, Code.render, Code.renderAll]

theorem render_nodeType? (hchain : g.arrayChain? node = some chain)
    (hlevel : level ≤ chain.depth) :
    (nodeType? g (chain.node level)).map Code.render =
      (nodeType? g chain.leaf).map fun t => tsArray (chain.dims level) t.render := by
  rw [nodeType?, nodeType?, Graph.overArrays_node _ _ hchain hlevel,
    Graph.overArrays_leaf _ _ hchain, Option.map_map]
  simp only [Function.comp_def, render_lists]

theorem isSome_nodeType? (hchain : g.arrayChain? node = some chain)
    (hleaf : (g.property? chain.leaf).isSome) : (nodeType? g chain.leaf).isSome := by
  rw [nodeType?, Graph.overArrays_leaf _ _ hchain, Option.isSome_map]
  exact isSome_leafType? hleaf (Graph.leaf_not_array hchain)

theorem arrayOf_eq (type : Code) (dims : Nat) : arrayOf type dims = listOf^[dims] type := by
  induction dims with
  | zero => rfl
  | succ dims ih => rw [Function.iterate_succ_apply', ← ih, arrayOf, listOf]

theorem viewType_nested (leaf : ValueType) (depth : Nat) :
    (leaf.nested depth).viewType = arrayOf leaf.viewType depth := by
  induction depth with
  | zero => rfl
  | succ depth ih => rw [ValueType.nested, ValueType.viewType, arrayOf, ih]

/-- At each level of the chain of a member, the type is one of as many dimensions as are left. -/
theorem nodeType?_node (hchain : g.arrayChain? node = some chain)
    (hleaf : leafType? g chain.leaf = some leaf) (hlevel : level ≤ chain.depth) :
    nodeType? g (chain.node level) = some (arrayOf leaf.viewType (chain.dims level)) := by
  rw [nodeType?, g.overArrays_node _ _ hchain hlevel, hleaf, arrayOf_eq]
  rfl

/-- The type of a member is that of its node. -/
theorem nodeType?_of_memberType? (h : memberType? g title member node = .ok type) :
    nodeType? g node = some type.viewType := by
  obtain ⟨chain, leaf, hchain, hleaf, rfl⟩ := memberType?_ok h
  have hnode := nodeType?_node hchain hleaf (Nat.zero_le _)
  rw [Graph.node_zero hchain] at hnode
  rw [viewType_nested]
  exact hnode

/-- What reads the lists of a member returns one of its type, is well typed, and declares the list
of each level as one of the type of the node at that level. -/
theorem coercionDecl?_typed (h : memberType? g title member node = .ok type)
    (hchain : g.arrayChain? node = some chain) (hdepth : 0 < chain.depth) (c : Class) {f : Field}
    (hf : f.type = type) :
    ∃ leaf body, leafType? g chain.leaf = some leaf ∧
      c.coercionDecl? f = some (.function false (c.coercionName f)
        (.join ["itemAttr: ", attributeOf leaf, ", c0: unknown"])
        (.generic .result [type.viewType]) body) ∧
      WellTyped type.viewType (parameters leaf) body ∧
      (Stmt.allOf body).flatMap Stmt.typed =
        (List.range chain.depth).map fun level =>
          (levelName "s" level, nodeType? g (chain.node level)) := by
  obtain ⟨below, hbelow⟩ : ∃ below, chain.depth = below + 1 := ⟨chain.depth - 1, by omega⟩
  obtain ⟨_, leaf, hchain', hleaf, rfl⟩ := memberType?_ok h
  cases hchain.symm.trans hchain'
  rw [hbelow] at hf ⊢
  rw [viewType_nested]
  have hdecl := coercionDecl?_nested c (isList_of_leafType? hleaf) hf
  refine ⟨leaf, coercionBody leaf below, hleaf, hdecl, wellTyped_coercionBody leaf below, ?_⟩
  rw [typed_coercionBody, List.map_inj_left]
  intro level hlevel
  have hle : level ≤ chain.depth := hbelow ▸ Nat.le_of_lt (List.mem_range.1 hlevel)
  rw [nodeType?_node hchain hleaf hle, ArrayChain.dims, hbelow]

end TypeScript

namespace Generation

/-- At each level of a chain of arrays that ends, the type of the node there is that of the leaf
with the brackets of the dimensions that are left, in both languages: one pair more than at the
next level. These are the types of members, and with them, whatever is put into a list where a
member is read, and the list that is returned, has the right type. -/
theorem types_of_levels (hchain : g.arrayChain? node = some chain) :
    (g.arrayDepth node = chain.depth ∧ g.arrayLeaf node = chain.leaf ∧ chain.Descends g node) ∧
    (∀ level ≤ chain.depth,
      g.arrayDepth (chain.node level) = chain.dims level ∧
        (Go.nodeType? g (chain.node level)).map Go.GoType.text =
          (Go.nodeType? g chain.leaf).map (fun t => goSlice (chain.dims level) t.text) ∧
        (TypeScript.nodeType? g (chain.node level)).map TypeScript.Code.render =
          (TypeScript.nodeType? g chain.leaf).map fun t => tsArray (chain.dims level) t.render) ∧
    (∀ level < chain.depth,
      Go.nodeType? g (chain.node level) =
          (Go.nodeType? g (chain.node (level + 1))).map .slice ∧
        TypeScript.nodeType? g (chain.node level) =
          (TypeScript.nodeType? g (chain.node (level + 1))).map TypeScript.listOf) ∧
    ((g.property? chain.leaf).isSome →
      (Go.nodeType? g chain.leaf).isSome ∧ (TypeScript.nodeType? g chain.leaf).isSome) ∧
    (∀ title member type, Go.memberType? g title member node = .ok type →
      Go.nodeType? g node = some type.goType) ∧
    ∀ title member type, TypeScript.memberType? g title member node = .ok type →
      TypeScript.nodeType? g node = some type.viewType ∧
        (0 < chain.depth → ∀ (c : TypeScript.Class) (f : TypeScript.Field), f.type = type →
          ∃ leaf body, TypeScript.leafType? g chain.leaf = some leaf ∧
            c.coercionDecl? f = some (.function false (c.coercionName f)
              (.join ["itemAttr: ", TypeScript.attributeOf leaf, ", c0: unknown"])
              (.generic .result [type.viewType]) body) ∧
            TypeScript.WellTyped type.viewType (TypeScript.parameters leaf) body ∧
            (TypeScript.Stmt.allOf body).flatMap TypeScript.Stmt.typed =
              (List.range chain.depth).map fun level =>
                (TypeScript.levelName "s" level, TypeScript.nodeType? g (chain.node level))) := by
  refine ⟨?_, fun level hlevel => ?_, fun level hlevel => ?_, fun hleaf => ?_, fun _ _ _ => ?_,
    fun _ _ type htype => ?_⟩
  · have hself := Graph.arrayDepth_node hchain (Nat.zero_le _)
    rw [Graph.node_zero hchain] at hself
    exact ⟨hself.1, hself.2, Graph.descends hchain⟩
  · have hdepth := (Graph.arrayDepth_node hchain hlevel).1
    exact ⟨hdepth, Go.text_nodeType? hchain hlevel, TypeScript.render_nodeType? hchain hlevel⟩
  · exact ⟨Graph.overArrays_step _ _ hchain hlevel, Graph.overArrays_step _ _ hchain hlevel⟩
  · exact ⟨Go.isSome_nodeType? hchain hleaf, TypeScript.isSome_nodeType? hchain hleaf⟩
  · exact Go.nodeType?_of_memberType?
  · refine ⟨TypeScript.nodeType?_of_memberType? htype, fun hdepth c f hf => ?_⟩
    exact TypeScript.coercionDecl?_typed htype hchain hdepth c hf

open TypeScript (routeGraph Code WellTyped)

/-- The stops of a route, in lists of lists. -/
theorem types_of_levels_route :
    routeGraph.arrayChain? 3 = some ⟨[3, 2], 1⟩ ∧
      (Go.nodeType? routeGraph 3).map Go.GoType.text = some "[][]StopClass" ∧
      (TypeScript.nodeType? routeGraph 3).map Code.render = some "Route$Stop[][]" ∧
      ∃ f ∈ TypeScript.routeClass.fields, ∃ name params result leaf body,
        TypeScript.routeClass.coercionDecl? f = some (.function false name params result body) ∧
        WellTyped f.type.viewType (TypeScript.parameters leaf) body := by
  have hchain : routeGraph.arrayChain? 3 = some ⟨[3, 2], 1⟩ := by decide
  obtain ⟨-, hlevels, -, -, -, hmember⟩ := types_of_levels hchain
  obtain ⟨-, hgo, hts⟩ := hlevels 0 (Nat.zero_le _)
  have hstop : Go.nodeType? routeGraph 1 = some (.named (Go.typeName "Stop" "Class")) := rfl
  have hname : goSlice 2 (Go.typeName "Stop" "Class") = "[][]StopClass" := by decide
  have hview : TypeScript.nodeType? routeGraph 1 =
      some (.symbol (.object (routeGraph.objectName 1) "")) := rfl
  have harray : tsArray 2 (routeGraph.objectName 1 ++ "") = "Route$Stop[][]" := by decide
  refine ⟨hchain, ?_, ?_, ?_⟩
  · exact hgo.trans (by rw [hstop, Option.map_some]; exact congrArg some hname)
  · exact hts.trans (by rw [hview, Option.map_some]; exact congrArg some harray)
  · have hstops : TypeScript.memberType? routeGraph "Route" "stops" 3 =
        .ok (.list (.list (.object "Route$Stop"))) := by
      rw [← TypeScript.objectName_stop, TypeScript.memberType?, hchain]
      rfl
    obtain ⟨-, hread⟩ := hmember "Route" "stops" _ hstops
    obtain ⟨leaf, body, -, hd, htyped, -⟩ := hread (by decide) TypeScript.routeClass
      ⟨"stops", .list (.list (.object "Route$Stop")), false, none⟩ rfl
    exact ⟨_, List.mem_cons_self, _, _, _, leaf, body, hd, htyped⟩

end Generation

end SchemaForge
