import Mathlib
import SchemaForge.Proofs.Go.Emitted
/-! The packages that the code of a class refers to. -/
namespace SchemaForge.Go

open Place

variable {c : Class} {f : Field} {g : Graph} {id : NodeId} {p : Package} {e : Expr}

/-- The package that hashing values of a type needs. -/
def ValueType.hashPackage? : ValueType → Option Package
  | string | integer | boolean => some .attributes
  | number => some .strconv
  | object _ => none
  | list items => items.hashPackage?

section packages

namespace Stmt

theorem packagesOf_append (ss ss' : List Stmt) :
    packagesOf (ss ++ ss') = packagesOf ss ++ packagesOf ss' := by
  induction ss with
  | nil => rfl
  | cons s ss ih => simp [packagesOf, ih]

theorem packagesOf_flatMap {α : Type} (xs : List α) (f : α → List Stmt) :
    packagesOf (xs.flatMap f) = xs.flatMap fun x => packagesOf (f x) := by
  induction xs with
  | nil => rfl
  | cons x xs ih => simp [packagesOf_append, ih]

end Stmt

theorem packages_goType (type : ValueType) : type.goType.packages = [] := by
  induction type with
  | list items ih => exact ih
  | _ => rfl

theorem packages_jsonType (type : ValueType) : type.jsonType.packages = [] := by
  induction type with
  | list items ih => exact ih
  | _ => rfl

theorem mem_packages_fieldType : p ∈ f.goType.packages ↔ p = .options ∧ f.optional = true := by
  unfold Field.goType GoType.optional
  split <;> simp_all [GoType.packages, packages_goType]

theorem packages_compareValues (type : ValueType) (mine other : Expr) (level : Nat)
    (hmine : mine.packages = []) (hother : other.packages = []) :
    p ∈ Stmt.packagesOf (compareValues mine other level type) ↔
      p = .strings ∧ type.leaf = .string := by
  induction type generalizing mine other level with
  | list items ih =>
    have := ih (.index mine (.name (levelName "i" level)))
      (.index other (.name (levelName "i" level))) (level + 1)
      (by simp [Expr.packages, hmine]) (by simp [Expr.packages, hother])
    simpa [compareValues, decideBy, Stmt.packagesOf, Stmt.packages, Expr.packages, Expr.len,
      Expr.packagesOf, hmine, hother, ValueType.leaf] using this
  | _ =>
    simp [compareValues, decideBy, Stmt.packagesOf, Stmt.packages, Expr.packages, Expr.send,
      Expr.packagesOf, hmine, hother, ValueType.leaf]

theorem packages_hashValue (type : ValueType) (level : Nat) (he : e.packages = []) :
    p ∈ Stmt.packagesOf (hashValue e level type) ↔ type.hashPackage? = some p := by
  induction type generalizing e level with
  | list items ih =>
    have := ih (level + 1) (e := .index e (.name (levelName "i" level)))
      (by simp [Expr.packages, he])
    simpa [hashValue, writeBytes, Stmt.packagesOf, Stmt.packages, Expr.packages, Expr.send,
      Expr.packagesOf, he, ValueType.hashPackage?, GoType.packages] using this
  | _ =>
    simp [hashValue, writeLiteral, writeBytes, Stmt.packagesOf, Stmt.packages, Expr.packages,
      Expr.send, Expr.packagesOf, he, ValueType.hashPackage?, GoType.packages, eq_comm]

theorem packages_mapValue (type : ValueType) (level : Nat) (he : e.packages = []) :
    Stmt.packagesOf (mapValue e level type).1 = [] ∧ (mapValue e level type).2.packages = [] := by
  induction type generalizing e level with
  | list items ih =>
    obtain ⟨hbefore, hitem⟩ := ih (level + 1)
      (e := .index e (.name (levelName "i" level))) (by simp [Expr.packages, he])
    unfold mapValue
    split
    · simp [Stmt.packagesOf, Stmt.packages, Expr.packages, Expr.packagesOf, Expr.len, he, hbefore,
        hitem, Stmt.packagesOf_append, GoType.packages, GoType.any]
    · exact ⟨rfl, he⟩
  | object => simp [mapValue, Stmt.packagesOf, Expr.send, Expr.packages, Expr.packagesOf, he]
  | _ => exact ⟨rfl, he⟩

theorem packages_failed : (c.failed e).packages = .options :: e.packages := by
  simp [Class.failed, Expr.packages, Expr.packagesOf, Class.goType, GoType.packages]

theorem packages_wrongType {source : Expr} {path expected : String} (h : source.packages = []) :
    (wrongType c source path expected).packages = [.options, .fmt] := by
  simp [wrongType, Stmt.packages, packages_failed, Expr.packages, Expr.packagesOf, h]

theorem packages_readValue (type : ValueType) (source : Expr) (path : String) (level : Nat)
    (h : source.packages = []) :
    (p ∈ Stmt.packagesOf (readValue c source path level type).1 ↔ p = .options ∨ p = .fmt) ∧
      (readValue c source path level type).2.packages = [] := by
  induction type generalizing source level with
  | list items ih =>
    obtain ⟨hbefore, hitem⟩ := ih
      (.index (.name (levelName "r" level)) (.name (levelName "i" level))) (level + 1) rfl
    simp [readValue, assertType, Stmt.packagesOf, Stmt.packages, packages_wrongType, h,
      Expr.packages, Expr.packagesOf, Expr.len, GoType.packages, GoType.any, packages_goType,
      Stmt.packagesOf_append, hbefore, hitem]
    tauto
  | object =>
    simp [readValue, assertType, Stmt.packagesOf, Stmt.packages, packages_wrongType, h,
      Expr.packages, Expr.packagesOf, Expr.send, GoType.packages, GoType.anyMap, packages_failed]
    tauto
  | _ =>
    simp [readValue, assertType, convertNumber, Stmt.packagesOf, Stmt.packages, packages_wrongType,
      h, Expr.packages, GoType.packages, Stmt.packagesOfCases]

theorem packages_own : (Class.own f).packages = [] := rfl

theorem packages_contents : (Class.contents e).packages = e.packages := by
  simp [Class.contents, Expr.packages, Expr.send, Expr.packagesOf]

theorem mem_packages_compareField :
    p ∈ Stmt.packagesOf (compareField f) ↔ p = .strings ∧ f.type.leaf = .string := by
  unfold compareField
  dsimp only
  split
  · have := packages_compareValues (p := p) f.type (.name "a") (.name "b") 0 rfl rfl
    simpa [Stmt.packagesOf, Stmt.packages, Stmt.packagesOfArms, Expr.packages, Expr.send,
      Expr.packagesOf, packages_own, packages_contents] using this
  · exact packages_compareValues f.type _ _ 0 packages_own rfl

theorem mem_packages_hashField :
    p ∈ Stmt.packagesOf (hashField f) ↔ f.type.hashPackage? = some p := by
  unfold hashField
  dsimp only
  split
  · have := packages_hashValue (p := p) f.type 0 (e := .name "h") rfl
    simpa [Stmt.packagesOf, Stmt.packages, Expr.packages, Expr.send, Expr.packagesOf, packages_own,
      packages_contents, writeBytes, GoType.packages] using this
  · have := packages_hashValue (p := p) f.type 0 (packages_own (f := f))
    simpa [Stmt.packagesOf, Stmt.packages, Expr.packages, Expr.send, Expr.packagesOf,
      Stmt.packagesOf_append, writeBytes, GoType.packages] using this

theorem packages_mapField : Stmt.packagesOf (mapField f) = [] := by
  unfold mapField
  dsimp only
  split
  · obtain ⟨hbefore, hvalue⟩ := packages_mapValue f.type 0 (e := .name "v") rfl
    simp [Stmt.packagesOf, Stmt.packages, Expr.packages, Expr.send, Expr.packagesOf, packages_own,
      packages_contents, Stmt.packagesOf_append, hbefore, hvalue]
  · obtain ⟨hbefore, hvalue⟩ := packages_mapValue f.type 0 (packages_own (f := f))
    split
    · next e heq =>
      rw [heq] at hvalue
      simp [Stmt.packagesOf, Stmt.packages, Expr.packages, hvalue]
    · next before e heq =>
      rw [heq] at hbefore hvalue
      simp [Stmt.packagesOf, Stmt.packages, Expr.packages, Stmt.packagesOf_append, hbefore, hvalue]

theorem mem_packages_readField :
    p ∈ (readField c f).packages ↔ p = .options ∨ p = .fmt := by
  obtain ⟨hbefore, hvalue⟩ := packages_readValue (c := c) (p := p) f.type
    (.name "val") (c.title ++ "." ++ f.name) 0 rfl
  unfold readField
  simp only [Stmt.packages, Expr.packages, Stmt.packagesOf_append, List.nil_append,
    List.mem_append, hbefore]
  split
  · simp [Stmt.packagesOf, Stmt.packages, Expr.packages, Expr.send, Expr.packagesOf, hvalue,
      Expr.present, packages_goType]
    tauto
  · simp [Stmt.packagesOf, Stmt.packages, Expr.packages, Expr.send, Expr.packagesOf, hvalue]

end packages

/-- The packages that the code of a class needs. -/
def Class.Uses (c : Class) : Package → Prop
  | .io | .options => True
  | .fmt | .attributes => c.fields ≠ []
  | .strings => ∃ f ∈ c.fields, f.type.leaf = .string
  | .strconv => ∃ f ∈ c.fields, f.type.leaf = .number

section uses

theorem uses_fieldType (hp : p ∈ f.goType.packages) : c.Uses p := by
  rw [(mem_packages_fieldType.1 hp).1]
  trivial

theorem uses_hashPackage (hf : f ∈ c.fields) (h : f.type.hashPackage? = some p) : c.Uses p := by
  have hleaf (type : ValueType) (h : type.hashPackage? = some p) :
      p = .attributes ∨ p = .strconv ∧ type.leaf = .number := by
    induction type with
    | list items ih => exact ih h
    | _ => simp_all [ValueType.hashPackage?, ValueType.leaf]
  rcases hleaf f.type h with rfl | ⟨rfl, hnumber⟩
  · exact List.ne_nil_of_mem hf
  · exact ⟨f, hf, hnumber⟩

theorem uses_typeDecls : ∀ d ∈ c.typeDecls, ∀ p ∈ d.packages, c.Uses p := by
  simp only [Class.typeDecls, List.forall_mem_append, List.forall_mem_cons, List.forall_mem_map]
  refine ⟨⟨?_, ?_, ?_, ?_, by simp⟩, ?_⟩
  · intro p hp
    simp only [Class.interfaceDecl, Decl.packages, Class.getterSignature, Class.cloneSignature,
      Class.lessSignature, Class.hashSignature, Class.asMapSignature, Class.goType,
      Class.writerType, GoType.anyMap, List.flatMap_append, List.mem_append, List.mem_flatMap,
      List.mem_map] at hp
    rcases hp with ⟨_, ⟨f, -, rfl⟩, hp⟩ | hp
    · exact uses_fieldType (f := f) (by simpa [Signature.packages] using hp)
    · obtain rfl : p = .io := by simpa [Signature.packages, GoType.packages] using hp
      trivial
  · intro p hp
    obtain ⟨_, hf, hp⟩ := List.mem_flatMap.1 hp
    obtain ⟨f, -, rfl⟩ := List.mem_map.1 hf
    exact uses_fieldType hp
  · intro p hp
    obtain ⟨_, hf, hp⟩ := List.mem_flatMap.1 hp
    obtain ⟨f, -, rfl⟩ := List.mem_map.1 hf
    split at hp <;> simp [GoType.packages, packages_jsonType] at hp
  · intro p hp
    obtain ⟨_, hf, hp⟩ := List.mem_flatMap.1 hp
    obtain ⟨f, -, rfl⟩ := List.mem_map.1 hf
    exact uses_fieldType hp
  · intro f hf p hp
    exact uses_fieldType (f := f) (by
      simpa [Class.getterDecl, Class.implMethod, Decl.packages, Signature.packages,
        Class.getterSignature, Stmt.packagesOf, Stmt.packages, packages_own] using hp)

theorem mem_packagesOfFields {fields : List Field} {value : Field → Expr} {name : Field → String} :
    p ∈ Expr.packagesOfFields (fields.map fun f => (name f, value f)) ↔
      ∃ f ∈ fields, p ∈ (value f).packages := by
  induction fields with
  | nil => simp [Expr.packagesOfFields]
  | cons f fields ih => simp [Expr.packagesOfFields, ih]

theorem packages_initial : f.initial.packages = .attributes :: f.goType.packages := by
  simp [Field.initial, Expr.packages, Expr.packagesOf]

theorem uses_seed (h : f.seed? = some e) (hp : p ∈ e.packages) : c.Uses p := by
  obtain ⟨d, -, rfl⟩ := Option.map_eq_some_iff.1 h
  split at hp
  · obtain rfl : p = .options := by
      simpa [Expr.present, Expr.packages, Expr.packagesOf, packages_goType] using hp
    trivial
  · simp [Expr.packages] at hp

theorem mem_packagesOf {ss : List Stmt} : p ∈ Stmt.packagesOf ss ↔ ∃ s ∈ ss, p ∈ s.packages := by
  induction ss with
  | nil => simp [Stmt.packagesOf]
  | cons s ss ih => simp [Stmt.packagesOf, ih]

theorem uses_builderDecl (hp : p ∈ c.builderDecl.packages) : c.Uses p := by
  obtain ⟨_, hfield, hp⟩ := List.mem_flatMap.1 hp
  obtain ⟨f, hf, rfl⟩ := List.mem_map.1 hfield
  rcases List.mem_cons.1 hp with rfl | hp
  · exact List.ne_nil_of_mem hf
  · exact uses_fieldType hp

theorem uses_newBuilderDecl (hp : p ∈ c.newBuilderDecl.packages) : c.Uses p := by
  have hcases : (∃ f ∈ c.fields, p ∈ f.initial.packages) ∨
      ∃ s ∈ c.fields.filterMap fun f => f.seed?.map fun e => Stmt.run (f.slot.send "Set" [e]),
        p ∈ s.packages := by
    simpa [Class.newBuilderDecl, Decl.packages, Signature.packages, Class.builderType,
      GoType.packages, Stmt.packagesOf, Stmt.packagesOf_append, Stmt.packages, Expr.packages,
      mem_packagesOfFields, mem_packagesOf] using hp
  rcases hcases with ⟨f, hf, hp⟩ | ⟨s, hs, hp⟩
  · rw [packages_initial] at hp
    rcases List.mem_cons.1 hp with rfl | hp
    · exact List.ne_nil_of_mem hf
    · exact uses_fieldType hp
  · obtain ⟨f, -, hseed⟩ := List.mem_filterMap.1 hs
    obtain ⟨e, he, rfl⟩ := Option.map_eq_some_iff.1 hseed
    exact uses_seed he (by
      simpa [Stmt.packages, Expr.send, Expr.packages, Expr.packagesOf, Field.slot] using hp)

theorem uses_setterDecl (hp : p ∈ (c.setterDecl f).packages) : c.Uses p :=
  uses_fieldType (f := f) (by
    simpa [Class.setterDecl, Class.builderMethod, Decl.packages, Signature.packages,
      Class.builderType, GoType.packages, Stmt.packagesOf, Stmt.packages, Expr.packages, Expr.send,
      Field.slot, Expr.packagesOf] using hp)

theorem uses_isValidDecl (hp : p ∈ c.isValidDecl.packages) : c.Uses p := by
  have hcases : p = .options ∨ ∃ f ∈ c.fields.filter Field.isNeeded, p ∈ (c.check f).packages := by
    simpa [Class.isValidDecl, Class.builderMethod, Decl.packages, Signature.packages,
      GoType.packages, GoType.optional, Stmt.packagesOf_append, Stmt.packagesOf, Stmt.packages,
      Expr.packages, Expr.packagesOf, Class.errorType, mem_packagesOf, or_comm] using hp
  rcases hcases with rfl | ⟨f, hf, hp⟩
  · trivial
  · have hcheck : p = .options ∨ p = .fmt := by
      simpa [Class.check, Stmt.packages, Expr.packages, Expr.send, Field.slot, Expr.packagesOf,
        Stmt.packagesOf, Expr.present, Class.errorType, GoType.packages,
        packages_contents] using hp
    rcases hcheck with rfl | rfl
    · trivial
    · exact List.ne_nil_of_mem (List.mem_of_mem_filter hf)

theorem uses_toClassDecl (hp : p ∈ c.toClassDecl.packages) : c.Uses p := by
  obtain rfl : p = .options := by
    simpa [Class.toClassDecl, Class.builderMethod, Decl.packages, Signature.packages,
      GoType.packages, GoType.result, Stmt.packagesOf, Stmt.packages, Expr.packages, Expr.send,
      Field.slot, Expr.packagesOf, packages_contents, packages_failed, Class.goType,
      mem_packagesOfFields] using hp
  trivial

theorem uses_builderDecls : ∀ d ∈ c.builderDecls, ∀ p ∈ d.packages, c.Uses p := by
  simp only [Class.builderDecls, List.forall_mem_append, List.forall_mem_cons, List.forall_mem_map]
  exact ⟨⟨⟨fun _ => uses_builderDecl, fun _ => uses_newBuilderDecl, by simp⟩,
    fun _ _ _ => uses_setterDecl⟩, fun _ => uses_isValidDecl, fun _ => uses_toClassDecl, by simp⟩

theorem mem_packages_lessDecl :
    p ∈ c.lessDecl.packages ↔ p = .strings ∧ ∃ f ∈ c.fields, f.type.leaf = .string := by
  simp [Class.lessDecl, Class.implMethod, Decl.packages, Signature.packages, Class.lessSignature,
    Class.goType, GoType.packages, Stmt.packagesOf_append, Stmt.packagesOf_flatMap,
    Stmt.packagesOf, Stmt.packages, Expr.packages, mem_packages_compareField]
  grind

theorem mem_packages_hashDecl :
    p ∈ c.hashDecl.packages ↔ p = .io ∨ ∃ f ∈ c.fields, f.type.hashPackage? = some p := by
  simp [Class.hashDecl, Class.implMethod, Decl.packages, Signature.packages, Class.hashSignature,
    Class.writerType, GoType.packages, Stmt.packagesOf_flatMap, mem_packages_hashField]

theorem packages_cloneDecl : c.cloneDecl.packages = [] := by
  rw [List.eq_nil_iff_forall_not_mem]
  simp [Class.cloneDecl, Class.implMethod, Decl.packages, Signature.packages, Class.cloneSignature,
    Class.goType, GoType.packages, Stmt.packagesOf, Stmt.packages, Expr.packages,
    mem_packagesOfFields, packages_own]

theorem packages_asMapDecl : c.asMapDecl.packages = [] := by
  simp [Class.asMapDecl, Class.implMethod, Decl.packages, Signature.packages, Class.asMapSignature,
    GoType.anyMap, GoType.packages, Stmt.packagesOf_append, Stmt.packagesOf_flatMap,
    Stmt.packagesOf, Stmt.packages, Expr.packages, packages_mapField]

theorem mem_packages_fromMapDecl :
    p ∈ c.fromMapDecl.packages ↔ p = .options ∨ p = .fmt ∧ c.fields ≠ [] := by
  have hread : (∃ f ∈ c.fields, p ∈ (readField c f).packages) ↔
      (p = .options ∨ p = .fmt) ∧ c.fields ≠ [] := by
    simp only [mem_packages_readField]
    constructor
    · rintro ⟨f, hf, hp⟩
      exact ⟨hp, List.ne_nil_of_mem hf⟩
    · rintro ⟨hp, hne⟩
      obtain ⟨f, hf⟩ := List.exists_mem_of_ne_nil _ hne
      exact ⟨f, hf, hp⟩
  have hmem : p ∈ c.fromMapDecl.packages ↔
      p = .options ∨ ∃ f ∈ c.fields, p ∈ (readField c f).packages := by
    simp [Class.fromMapDecl, Class.factoryMethod, Decl.packages, Signature.packages,
      GoType.anyMap, GoType.result, Class.goType, GoType.packages, mem_packagesOf, Stmt.packages,
      Expr.send, Expr.packages, Expr.packagesOf]
  rw [hmem, hread]
  tauto

theorem mem_packages_factoryDecls :
    (∃ d ∈ c.factoryDecls, p ∈ d.packages) ↔ p = .options ∨ p = .fmt ∧ c.fields ≠ [] := by
  rw [← mem_packages_fromMapDecl]
  simp [Class.factoryDecls, Class.factoryMethod, Decl.packages, Signature.packages, GoType.packages,
    Class.builderType, Stmt.packagesOf, Stmt.packages, Expr.packages, Expr.packagesOf]

theorem mem_decls {d : Decl} : d ∈ c.decls ↔ d ∈ c.typeDecls ∨ d ∈ c.builderDecls ∨
    (d = c.cloneDecl ∨ d = c.lessDecl ∨ d = c.hashDecl ∨ d = c.asMapDecl) ∨
      d ∈ c.factoryDecls := by
  simp [Class.decls, or_assoc]

theorem uses_of_mem {d : Decl} (hd : d ∈ c.decls) (hp : p ∈ d.packages) : c.Uses p := by
  rcases mem_decls.1 hd with hd | hd | (rfl | rfl | rfl | rfl) | hd
  · exact uses_typeDecls d hd p hp
  · exact uses_builderDecls d hd p hp
  · simp [packages_cloneDecl] at hp
  · obtain ⟨rfl, hstring⟩ := mem_packages_lessDecl.1 hp
    exact hstring
  · rcases mem_packages_hashDecl.1 hp with rfl | ⟨f, hf, hhash⟩
    · trivial
    · exact uses_hashPackage hf hhash
  · simp [packages_asMapDecl] at hp
  · rcases mem_packages_factoryDecls.1 ⟨d, hd, hp⟩ with rfl | ⟨rfl, hne⟩
    · trivial
    · exact hne

theorem hashPackage?_number {type : ValueType} (h : type.leaf = .number) :
    type.hashPackage? = some .strconv := by
  induction type with
  | list items ih => exact ih h
  | _ => simp_all [ValueType.leaf, ValueType.hashPackage?]

theorem mem_of_uses (h : c.Uses p) : ∃ d ∈ c.decls, p ∈ d.packages := by
  have hfactory (h : p = .options ∨ p = .fmt ∧ c.fields ≠ []) : ∃ d ∈ c.decls, p ∈ d.packages := by
    obtain ⟨d, hd, hp⟩ := mem_packages_factoryDecls.2 h
    exact ⟨d, mem_decls.2 (by simp [hd]), hp⟩
  cases p with
  | fmt => exact hfactory (Or.inr ⟨rfl, h⟩)
  | options => exact hfactory (Or.inl rfl)
  | attributes =>
    obtain ⟨f, hf⟩ := List.exists_mem_of_ne_nil _ h
    refine ⟨c.builderDecl, mem_decls.2 (by simp [Class.builderDecls]), ?_⟩
    exact List.mem_flatMap.2 ⟨_, List.mem_map_of_mem hf, List.mem_cons_self⟩
  | io => exact ⟨c.hashDecl, mem_decls.2 (by simp), mem_packages_hashDecl.2 (Or.inl rfl)⟩
  | strconv =>
    obtain ⟨f, hf, hnumber⟩ := h
    exact ⟨c.hashDecl, mem_decls.2 (by simp),
      mem_packages_hashDecl.2 (Or.inr ⟨f, hf, hashPackage?_number hnumber⟩)⟩
  | strings => exact ⟨c.lessDecl, mem_decls.2 (by simp), mem_packages_lessDecl.2 ⟨rfl, h⟩⟩

/-- The code of a class refers to the packages that it needs. -/
theorem mem_packages_decls : p ∈ c.decls.flatMap Decl.packages ↔ c.Uses p := by
  rw [List.mem_flatMap]
  exact ⟨fun ⟨_, hd, hp⟩ => uses_of_mem hd hp, mem_of_uses⟩

/-- And so do its imports. -/
theorem mem_imports : p ∈ Decl.imports c.decls ↔ c.Uses p := by
  have hall : p ∈ Package.all := by cases p <;> decide
  rw [Decl.imports, List.mem_filter, List.contains_iff_mem, mem_packages_decls]
  exact and_iff_right hall

theorem imports_sorted (decls : List Decl) :
    ((Decl.imports decls).map Package.path).Pairwise (· < ·) := by
  have hall : (Package.all.map Package.path).Pairwise (· < ·) := by decide
  exact List.Pairwise.sublist (List.Sublist.map _ List.filter_sublist) hall

end uses

end SchemaForge.Go
