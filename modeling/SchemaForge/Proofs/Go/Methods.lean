import Mathlib
import SchemaForge.Proofs.Go.ClassNames
import SchemaForge.Proofs.Go.Imports
/-!
The methods of the types of a class. Each has a getter or a setter for each member and some methods
of its own, so that the names of its methods are distinct as long as no member takes one of those.
-/
namespace SchemaForge.Go

variable {g : Graph} {id : NodeId} {style : Style} {c : Class} {type : String} {head : ObjectHead}
  {members : List Member} {decls decls' : List Decl}

namespace Decl

/-- The methods that a declaration gives to a type. -/
def methods (type : String) : Decl → List String
  | method _ receiver signature _ => if receiver = type then [signature.name] else []
  | _ => []

/-- The methods that a declaration asks of an interface. -/
def asked (interface : String) : Decl → List String
  | interfaceType name signatures => if name = interface then signatures.map Signature.name else []
  | _ => []

end Decl

/-- The methods that declarations give to a type, in their order. -/
def methodsOf (type : String) (decls : List Decl) : List String := decls.flatMap (Decl.methods type)

/-- The methods that declarations ask of an interface, in their order. -/
def askedOf (interface : String) (decls : List Decl) : List String :=
  decls.flatMap (Decl.asked interface)

namespace Class

/-- The methods that all classes have beside the getters of their members. -/
def ownMethods : List String := ["Clone", "Less", "Hash", "AsMap"]

/-- The methods that all builders have beside the setters of their members. -/
def ownBuilderMethods : List String := ["IsValid", "ToClass"]

/-- A type has the getters of an implementation, if it is the implementation. -/
theorem methodsOf_typeDecls (c : Class) : methodsOf type c.typeDecls =
    if c.implName = type then c.fields.map Field.publicName else [] := by
  have hgetter (f : Field) : (c.getterDecl f).methods type =
      if c.implName = type then [f.publicName] else [] := rfl
  simp only [methodsOf, typeDecls, List.flatMap_append, List.flatMap_map, hgetter]
  split
  · simp [interfaceDecl, paramDecl, jsonDecl, implDecl, Decl.methods, ← List.map_eq_flatMap]
  · simp [interfaceDecl, paramDecl, jsonDecl, implDecl, Decl.methods]

theorem methodsOf_builderDecls (c : Class) : methodsOf type c.builderDecls =
    if c.builderName = type then c.fields.map Field.publicName ++ ownBuilderMethods else [] := by
  have hsetter (f : Field) : (c.setterDecl f).methods type =
      if c.builderName = type then [f.publicName] else [] := rfl
  simp only [methodsOf, builderDecls, List.flatMap_append, List.flatMap_map, hsetter]
  split
  · next h => simp [builderDecl, newBuilderDecl, isValidDecl, toClassDecl, builderMethod,
      Decl.methods, ownBuilderMethods, h, ← List.map_eq_flatMap]
  · next h => simp [builderDecl, newBuilderDecl, isValidDecl, toClassDecl, builderMethod,
      Decl.methods, h]

theorem methodsOf_implMethods (c : Class) :
    methodsOf type [c.cloneDecl, c.lessDecl, c.hashDecl, c.asMapDecl] =
      if c.implName = type then ownMethods else [] := by
  by_cases h : c.implName = type <;>
    simp [methodsOf, cloneDecl, lessDecl, hashDecl, asMapDecl, implMethod, Decl.methods, ownMethods,
      cloneSignature, lessSignature, hashSignature, asMapSignature, h]

/-- A factory is none of the types that members have methods on. -/
theorem methodsOf_factoryDecls (c : Class) (h : c.factoryName ≠ type) :
    methodsOf type c.factoryDecls = [] := by
  simp [methodsOf, factoryDecls, fromMapDecl, factoryMethod, Decl.methods, h]

theorem methodsOf_decls (c : Class) (h : c.factoryName ≠ type) : methodsOf type c.decls =
    (if c.implName = type then c.fields.map Field.publicName else []) ++
      (if c.builderName = type then c.fields.map Field.publicName ++ ownBuilderMethods else []) ++
      if c.implName = type then ownMethods else [] := by
  have happend (decls decls' : List Decl) :
      methodsOf type (decls ++ decls') = methodsOf type decls ++ methodsOf type decls' :=
    List.flatMap_append
  rw [decls, happend, happend, happend, methodsOf_typeDecls, methodsOf_builderDecls,
    methodsOf_implMethods, methodsOf_factoryDecls c h, List.append_nil]

/-- An implementation has the getters of the members, and what all classes have. -/
theorem methodsOf_impl (c : Class) :
    methodsOf c.implName c.decls = c.fields.map Field.publicName ++ ownMethods := by
  have hbuilder : c.builderName ≠ c.implName := implName_ne_builderName.symm
  simp [methodsOf_decls c implName_ne_factoryName.symm, hbuilder]

/-- A builder has the setters of the members, and what all builders have. -/
theorem methodsOf_builder (c : Class) :
    methodsOf c.builderName c.decls = c.fields.map Field.publicName ++ ownBuilderMethods := by
  have himpl : c.implName ≠ c.builderName := implName_ne_builderName
  simp [methodsOf_decls c builderName_ne_factoryName.symm, himpl]

/-- The interface of a class asks for what its implementation has. -/
theorem askedOf_class (c : Class) :
    askedOf c.className c.decls = c.fields.map Field.publicName ++ ownMethods := by
  have hinterface : c.interfaceDecl.asked c.className =
      c.fields.map Field.publicName ++ ownMethods := by
    simp only [interfaceDecl, Decl.asked, if_true, List.map_append, List.map_map]
    rfl
  have hgetter (f : Field) : (c.getterDecl f).asked c.className = [] := rfl
  have hsetter (f : Field) : (c.setterDecl f).asked c.className = [] := rfl
  simp only [askedOf, decls, typeDecls, builderDecls, factoryDecls, List.flatMap_append,
    List.flatMap_cons, List.flatMap_map, hinterface, hgetter, hsetter]
  simp [paramDecl, jsonDecl, implDecl, builderDecl, newBuilderDecl, isValidDecl, toClassDecl,
    builderMethod, fromMapDecl, factoryMethod, cloneDecl, lessDecl, hashDecl, asMapDecl,
    implMethod, Decl.asked]

end Class

/-- The public names of a class are those of the members, in their order. -/
theorem publicNames_eq (hobject : g.object? id = some (head, members))
    (h : Class.ofNode? g id = .ok c) :
    c.fields.map Field.publicName = members.map fun m => Naming.goPublic m.name := by
  obtain ⟨_, _, hobject', -, hfields⟩ := forall₂_fields h
  rw [hobject] at hobject'
  cases hobject'
  rw [← List.forall₂_eq_eq_eq, List.forall₂_map_left_iff, List.forall₂_map_right_iff]
  apply hfields.flip.imp
  intro f m hf
  rw [Field.publicName, (field?_ok hf).1]

/-- In the file of an object the members have methods under names of their own. The interface of its
class and its implementation name no method twice exactly if no member takes the name of one that
all classes have, and the builder exactly if none takes the name of one that all builders have. -/
theorem nodup_methods {u : CodeUnit} (hobject : g.object? id = some (head, members))
    (h : unit? style g id = .ok u) :
    ∃ c, Class.ofNode? g id = .ok c ∧ u.contents = contents style g id c ∧
      (members.map fun m => Naming.goPublic m.name).Nodup ∧
      ((askedOf c.className c.decls).Nodup ↔
        ∀ m ∈ members, Naming.goPublic m.name ∉ Class.ownMethods) ∧
      ((methodsOf c.implName c.decls).Nodup ↔
        ∀ m ∈ members, Naming.goPublic m.name ∉ Class.ownMethods) ∧
      ((methodsOf c.builderName c.decls).Nodup ↔
        ∀ m ∈ members, Naming.goPublic m.name ∉ Class.ownBuilderMethods) := by
  obtain ⟨c, hc, hu⟩ := Generation.bind_ok h
  have hnames := publicNames_eq hobject hc
  have hnodup := nodup_publicNames hc
  have hown : (c.fields.map Field.publicName ++ Class.ownMethods).Nodup ↔
      ∀ m ∈ members, Naming.goPublic m.name ∉ Class.ownMethods := by
    rw [Naming.nodup_append_iff hnodup (by decide), hnames, List.forall_mem_map]
  have hbuilder : (c.fields.map Field.publicName ++ Class.ownBuilderMethods).Nodup ↔
      ∀ m ∈ members, Naming.goPublic m.name ∉ Class.ownBuilderMethods := by
    rw [Naming.nodup_append_iff hnodup (by decide), hnames, List.forall_mem_map]
  rw [hnames] at hnodup
  rw [← c.askedOf_class] at hown
  refine ⟨c, hc, by rw [← Except.ok.inj hu], hnodup, hown, ?_, ?_⟩
  · rw [c.methodsOf_impl, ← c.askedOf_class]
    exact hown
  · rw [c.methodsOf_builder]
    exact hbuilder

/-- The methods of a curve are distinct on all its types. -/
theorem nodup_methods_curve : ∃ c u, unit? ⟨.standard, ""⟩ curveGraph 5 = .ok u ∧
    u.contents = contents ⟨.standard, ""⟩ curveGraph 5 c ∧ (askedOf c.className c.decls).Nodup ∧
    (methodsOf c.implName c.decls).Nodup ∧ (methodsOf c.builderName c.decls).Nodup := by
  obtain ⟨u, hu, -⟩ := exists_unit ⟨.standard, ""⟩ ofNode?_curve
  obtain ⟨c, -, hcontents, -, hasked, himpl, hbuilder⟩ :=
    nodup_methods (show curveGraph.object? 5 = some _ from rfl) hu
  exact ⟨c, u, hu, hcontents, hasked.2 (by decide), himpl.2 (by decide), hbuilder.2 (by decide)⟩

/-- An object with a member that is named for a method of all classes. -/
def copierGraph : Graph where
  nodes := #[
    ⟨⟨⟨none, none⟩, .leaf (.string none none)⟩, some 1, none, false⟩,
    ⟨⟨⟨none, none⟩, .object ⟨some "S", none, some "S", true, none⟩ [⟨"clone", 0, true, 0, none⟩]⟩,
      none, none, false⟩]

def copierClass : Class := ⟨"S", [⟨"clone", .string, true, none⟩]⟩

theorem ofNode?_copier : Class.ofNode? copierGraph 1 = .ok copierClass := by
  have hclone : Naming.goPublic "clone" = "Clone" := by decide
  have hfault : MemberNames.fault? "S" Naming.goPublic ["clone"] = none := by
    simp [MemberNames.fault?, MemberNames.faultAmong?, hclone]
  have hobject : copierGraph.object? 1 = some (⟨some "S", none, some "S", true, none⟩,
      [⟨"clone", 0, true, 0, none⟩]) := rfl
  exact ofNode?_of_parts hobject rfl hfault rfl

/-- A member may take the name of a method that all classes have: its file is written with two
methods of that name, in the interface and on the implementation. -/
theorem two_clone_methods : ∃ u, unit? ⟨.standard, ""⟩ copierGraph 1 = .ok u ∧
    u.contents = contents ⟨.standard, ""⟩ copierGraph 1 copierClass ∧
    askedOf copierClass.className copierClass.decls = ["Clone", "Clone", "Less", "Hash", "AsMap"] ∧
    methodsOf copierClass.implName copierClass.decls =
      ["Clone", "Clone", "Less", "Hash", "AsMap"] := by
  obtain ⟨u, hu, hcontents⟩ := exists_unit ⟨.standard, ""⟩ ofNode?_copier
  have hpublic : copierClass.fields.map Field.publicName = ["Clone"] := by decide
  refine ⟨u, hu, hcontents, ?_, ?_⟩
  · rw [Class.askedOf_class, hpublic]
    rfl
  · rw [Class.methodsOf_impl, hpublic]
    rfl

end SchemaForge.Go
