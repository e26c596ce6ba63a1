import Mathlib
import SchemaForge.Proofs.Generation.Emission
import SchemaForge.Proofs.TypeScript.Modules
/-!
Descriptions of schemas are constants. What is read where one of them starts, and when that is the
constant itself, which has no value before it has started.
-/
namespace SchemaForge.TypeScript

variable {g : Graph} {id child : NodeId} {c : Class} {f : Field} {t : ValueType} {e : Code}
  {name path s : String} {style : Style} {u : CodeUnit} {m : Member} {head : ObjectHead}
  {members : List Member}

namespace Literal

mutual

/-- The expressions that a literal takes its parts from. The keys of its fields are none. -/
def values : Literal → List Code
  | value e => [e]
  | object fields => valuesOfFields fields
  | array items => valuesOf items

def valuesOfFields : List (String × Literal) → List Code
  | [] => []
  | (_, l) :: rest => l.values ++ valuesOfFields rest

def valuesOf : List Literal → List Code
  | [] => []
  | l :: ls => l.values ++ valuesOf ls

end

attribute [simp] values valuesOfFields valuesOf

/-- Whether a literal reads what goes by a name. -/
def Reads (l : Literal) (name : String) : Prop := ∃ e ∈ l.values, e.render = name

@[simp] theorem valuesOf_map {α : Type} (xs : List α) (literal : α → Literal) :
    valuesOf (xs.map literal) = xs.flatMap fun x => (literal x).values := by
  induction xs with
  | nil => rfl
  | cons x xs ih => simp [ih]

@[simp] theorem valuesOfFields_append (fields fields' : List (String × Literal)) :
    valuesOfFields (fields ++ fields') = valuesOfFields fields ++ valuesOfFields fields' := by
  induction fields with
  | nil => rfl
  | cons f fields ih => simp [ih]

end Literal

/-- Expressions that read nothing: texts, and lists of texts. -/
inductive Code.Spelt : Code → Prop where
  | text (s : String) : Spelt (.quote s)
  | texts (ss : List String) : Spelt (.join ["[", .separated ", " (ss.map .quote), "]"])

/-- They end in a quote or a bracket. -/
theorem Code.Spelt.getLast? (h : e.Spelt) :
    e.render.toList.getLast? = some '"' ∨ e.render.toList.getLast? = some ']' := by
  cases h with
  | text s =>
    refine Or.inl ?_
    rw [quote, render, Json.quote, String.toList_ofList, Json.quoteChars, List.getLast?_append]
    rfl
  | texts ss =>
    refine Or.inr ?_
    simp only [render, renderAll, String.append_empty, String.toList_append, List.getLast?_append]
    rfl

/-- So they are no name of a description. -/
theorem Code.Spelt.render_ne (h : e.Spelt) : e.render ≠ name ++ "Schema" := by
  intro heq
  have hlast : (name ++ "Schema").toList.getLast? = some 'a' := by simp [String.toList_append]
  rcases h.getLast? with hquote | hbracket
  · rw [heq, hlast] at hquote
    cases hquote
  · rw [heq, hlast] at hbracket
    cases hbracket

theorem spelt_givenText {key : String} {value : Option String}
    (h : e ∈ Literal.valuesOfFields (givenText key value)) : e.Spelt := by
  cases value with
  | none => cases h
  | some s =>
    rw [show Literal.valuesOfFields (givenText key (some s)) = [.quote s] from rfl,
      List.mem_singleton] at h
    exact h ▸ .text s

/-- The head of a description is spelt out. -/
theorem spelt_headFields (h : e ∈ Literal.valuesOfFields (headFields head)) : e.Spelt := by
  simp only [headFields, Literal.valuesOfFields_append, List.mem_append] at h
  rcases h with (((h | h) | h) | h) | h
  · exact spelt_givenText h
  · rw [show e = .quote "object" by simpa using h]
    exact .text _
  · exact spelt_givenText h
  · exact spelt_givenText h
  · split at h
    · cases h
    · rw [show e = _ by simpa using h]
      exact .texts _

/-- Values of a type are spelt out, up to the object that they hold in the end. -/
theorem values_describe (h : e ∈ (describe path t).values) :
    e.Spelt ∨ ∃ name, t.leaf = .object name ∧ e = .symbol (.object name "Schema") := by
  have hleaf {name : String} {t : ValueType} (h : e ∈ (describe.leaf name t).values) :
      e.Spelt := by
    rcases List.mem_cons.1 h with rfl | h
    · exact .text _
    · exact spelt_givenText h
  induction t with
  | list items ih =>
    simp only [describe, Literal.values, Literal.valuesOfFields, List.singleton_append,
      List.append_nil, List.mem_cons] at h
    rcases h with rfl | rfl | h
    · exact Or.inl (.text _)
    · exact Or.inl (.text _)
    · exact ih h
  | object name => exact Or.inr ⟨name, rfl, List.mem_singleton.1 h⟩
  | record head => exact Or.inl (spelt_headFields h)
  | _ => exact Or.inl (hleaf h)

/-- And that one is read, under however many lists it lies. -/
theorem mem_values_describe (h : t.leaf = .object name) :
    .symbol (.object name "Schema") ∈ (describe path t).values := by
  induction t with
  | list items ih => simpa [describe] using Or.inr (Or.inr (ih h))
  | object => simpa [describe, ValueType.leaf, ValueType.innermost, eq_comm] using h
  | _ => cases h

namespace Class

/-- What the constant that describes a class starts with. -/
theorem values_schemaDecl (c : Class) : ∃ value,
    c.schemaDecl =
      .literal true (c.named "Schema") (.runtime "WuestenReflectionObject") value ∧
    (∀ e ∈ value.values, e.Spelt ∨
      ∃ f ∈ c.fields, ∃ name, f.type.leaf = .object name ∧ e = .symbol (.object name "Schema")) ∧
    ∀ f ∈ c.fields, ∀ name, f.type.leaf = .object name →
      .symbol (.object name "Schema") ∈ value.values := by
  refine ⟨_, rfl, fun e he => ?_, fun f hf name hname => ?_⟩
  · simp only [Literal.values, Literal.valuesOfFields_append, List.mem_append] at he
    rcases he with he | he
    · exact Or.inl (spelt_headFields he)
    split at he
    · cases he
    · obtain ⟨f, hf, he⟩ := List.mem_flatMap.1 (by simpa using he)
      simp only [describeField, Literal.values, Literal.valuesOfFields, List.singleton_append,
        List.append_nil, List.mem_cons] at he
      rcases he with rfl | rfl | he
      · exact Or.inl (.text _)
      · exact Or.inl (.text _)
      · rcases values_describe he with hspelt | ⟨name, hname, rfl⟩
        · exact Or.inl hspelt
        · exact Or.inr ⟨f, hf, name, hname, rfl⟩
  · have hfields : c.fields.isEmpty = false := by
      cases hc : c.fields with
      | nil => simp [hc] at hf
      | cons => rfl
    have hfield : .symbol (.object name "Schema") ∈ (describeField c.head.titleText f).values := by
      simpa [describeField] using Or.inr (Or.inr (mem_values_describe hname))
    simpa [hfields] using Or.inr ⟨f, hf, hfield⟩

end Class

/-- A type names the object that a node leads to. -/
theorem leaf_memberType? {title member : String} {node leaf : NodeId} {type : ValueType}
    (h : memberType? g title member node = .ok type) (hheld : g.memberObject? node = some leaf) :
    type.leaf = .object (g.objectName leaf) := by
  obtain ⟨chain, inner, hchain, htype, rfl⟩ := memberType?_ok h
  have hmembers := Graph.hasMembers_of_memberObject? hheld
  simp only [Graph.memberObject?, Graph.arrayLeaf, hchain] at hheld
  split at hheld
  · cases hheld
    rw [leafType?_of_hasMembers hmembers] at htype
    cases htype
    exact ValueType.leaf_nested _ _
  · cases hheld

/-- The members of an object hold what its fields name. -/
theorem held_iff (h : Class.ofNode? g id = .ok c) :
    (∃ f ∈ c.fields, f.type.leaf = .object name) ↔
      ∃ child ∈ g.children id, ∃ leaf, g.memberObject? child = some leaf ∧
        g.objectName leaf = name := by
  obtain ⟨members, hobject, -⟩ := ofNode?_ok h
  have hfields := (forall₂_fields hobject h).2
  rw [Graph.children_object hobject]
  constructor
  · rintro ⟨f, hf, hleaf⟩
    obtain ⟨m, hm, hfield⟩ := Generation.forall₂_left hfields.flip hf
    exact ⟨m.node, List.mem_map_of_mem hm, memberType?_object (field?_ok hfield).2.2.2 hleaf⟩
  · rintro ⟨_, hchild, leaf, hheld, rfl⟩
    obtain ⟨m, hm, rfl⟩ := List.mem_map.1 hchild
    obtain ⟨f, hf, hfield⟩ := Generation.forall₂_left hfields hm
    exact ⟨f, hf, leaf_memberType? (field?_ok hfield).2.2.2 hheld⟩

/-- The constant that describes an object reads what describes the objects that its members hold,
themselves or in lists of any depth, and apart from these it is spelt out. So it can start unless a
member leads to an object of its own name: to itself, as no other object should have the name. -/
theorem schema_starts (h : unit? style g id = .ok u) :
    ∃ c value, Class.ofNode? g id = .ok c ∧ u.contents = contents style g id c ∧
      c.schemaDecl ∈ c.decls ∧
      c.schemaDecl = .literal true (g.objectName id ++ "Schema")
        (.runtime "WuestenReflectionObject") value ∧
      (∀ e ∈ value.values, e.Spelt ∨ ∃ child ∈ g.children id, ∃ leaf,
        g.memberObject? child = some leaf ∧
          e = .symbol (.object (g.objectName leaf) "Schema")) ∧
      (value.Reads (g.objectName id ++ "Schema") ↔
        ∃ child ∈ g.children id, ∃ leaf, g.memberObject? child = some leaf ∧
          g.objectName leaf = g.objectName id) := by
  obtain ⟨c, hc, -, hcontents⟩ := unit?_ok h
  obtain ⟨-, -, hname, -⟩ := ofNode?_ok hc
  obtain ⟨value, hdecl, hvalues, hread⟩ := c.values_schemaDecl
  rw [Class.named, hname] at hdecl
  refine ⟨c, value, hc, hcontents, by simp [Class.decls], hdecl, fun e he => ?_, ?_⟩
  · rcases hvalues e he with hspelt | ⟨f, hf, name, hleaf, rfl⟩
    · exact Or.inl hspelt
    · obtain ⟨child, hchild, leaf, hheld, rfl⟩ := (held_iff hc).1 ⟨f, hf, hleaf⟩
      exact Or.inr ⟨child, hchild, leaf, hheld, rfl⟩
  · rw [← held_iff hc]
    constructor
    · rintro ⟨e, he, hrender⟩
      rcases hvalues e he with hspelt | ⟨f, hf, name, hleaf, rfl⟩
      · exact absurd hrender hspelt.render_ne
      · have hsame : name = g.objectName id := (String.append_left_inj _).1 hrender
        exact ⟨f, hf, hsame ▸ hleaf⟩
    · rintro ⟨f, hf, hleaf⟩
      exact ⟨_, hread f hf _ hleaf, rfl⟩

/-- A route holds stops, in lists of lists, and no routes: the constant that describes it reads that
of the stops, and can start. -/
theorem schema_starts_route : ∃ u value, unit? ⟨.standard, ""⟩ routeGraph 5 = .ok u ∧
    routeClass.schemaDecl =
      .literal true "RouteSchema" (.runtime "WuestenReflectionObject") value ∧
    ¬ value.Reads "RouteSchema" ∧
    routeGraph.memberObject? 3 = some 1 ∧ routeGraph.objectName 1 = "Route$Stop" := by
  obtain ⟨u, hunit, -⟩ := exists_unit ⟨.standard, ""⟩ ofNode?_route
  obtain ⟨c, value, hc, -, -, hdecl, -, hreads⟩ := schema_starts hunit
  rw [ofNode?_route] at hc
  cases hc
  rw [objectName_route] at hdecl hreads
  have hheld : ∀ child ∈ routeGraph.children 5, ∀ leaf,
      routeGraph.memberObject? child = some leaf → leaf = 1 := by
    have hstops : routeGraph.memberObject? 3 = some 1 ∧ routeGraph.memberObject? 4 = none := by
      decide
    intro child hchild leaf hleaf
    have hcases : child = 3 ∨ child = 4 := by simpa using show child ∈ [3, 4] from hchild
    rcases hcases with rfl | rfl
    · rw [hstops.1] at hleaf
      exact (Option.some.inj hleaf).symm
    · rw [hstops.2] at hleaf
      cases hleaf
  refine ⟨u, value, hunit, hdecl, fun hself => ?_, by decide, objectName_stop⟩
  obtain ⟨child, hchild, leaf, hleaf, hname⟩ := hreads.1 hself
  rw [hheld child hchild leaf hleaf, objectName_stop] at hname
  exact absurd hname (by decide)

section tree

open Generation (treeGraph treeLibrary graph_tree)

/-- The nodes of a tree hold lists of nodes, and the constant that describes them reads itself. -/
theorem schema_reads_itself : ∃ u value,
    unit? ⟨.standard, ""⟩ (Workspace.after treeLibrary [.load "file:///t"]).graph 0 = .ok u ∧
    u.contents = contents ⟨.standard, ""⟩ treeGraph 0 nodeClass ∧
    nodeClass.schemaDecl ∈ nodeClass.decls ∧
    nodeClass.schemaDecl =
      .literal true "NodeSchema" (.runtime "WuestenReflectionObject") value ∧
    value.Reads "NodeSchema" := by
  obtain ⟨u, hunit, hcontents⟩ := exists_unit ⟨.standard, ""⟩ ofNode?_node
  obtain ⟨value, hdecl, -, hread⟩ := nodeClass.values_schemaDecl
  rw [graph_tree]
  refine ⟨u, value, hunit, hcontents, by simp [Class.decls], hdecl,
    .symbol (.object "Node" "Schema"), ?_, rfl⟩
  exact hread ⟨"next", .list (.object "Node"), true, none⟩ (by simp [nodeClass]) "Node" rfl

end tree

end SchemaForge.TypeScript
