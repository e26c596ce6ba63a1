import Mathlib
import SchemaForge.TypeScript.Unit
/-!
What the declarations of a class take from the modules of other objects: for each object that a
member holds, its six names, and nothing else.
-/
namespace SchemaForge.TypeScript

variable {c : Class} {f : Field} {name suffix separator v : String} {s : Symbol} {t : ValueType}
  {code : Code} {codes : List Code} {level : Nat} {P Q : Symbol → Prop} {ss ss' : List Symbol}

/-- Whether all symbols are of a kind. -/
def Within (P : Symbol → Prop) (ss : List Symbol) : Prop := ∀ s ∈ ss, P s

theorem Within.mono (h : Within P ss) (hPQ : ∀ s, P s → Q s) : Within Q ss :=
  fun s hs => hPQ s (h s hs)

@[simp] theorem within_nil : Within P [] := fun _ hs => absurd hs List.not_mem_nil

@[simp] theorem within_cons : Within P (s :: ss) ↔ P s ∧ Within P ss := List.forall_mem_cons

@[simp] theorem within_append : Within P (ss ++ ss') ↔ Within P ss ∧ Within P ss' :=
  List.forall_mem_append

@[simp] theorem within_flatMap {α : Type} {xs : List α} {symbols : α → List Symbol} :
    Within P (xs.flatMap symbols) ↔ ∀ x ∈ xs, Within P (symbols x) := by
  induction xs with
  | nil => simp
  | cons x xs ih => simp [ih]

attribute [simp] Code.symbols Code.symbolsOf Stmt.symbols Stmt.symbolsOf Literal.symbols
  Literal.symbolsOf Literal.symbolsOfFields

namespace Code

@[simp] theorem within_separated :
    Within P (separated separator codes).symbols ↔ ∀ e ∈ codes, Within P e.symbols := by
  induction codes with
  | nil => simp [separated]
  | cons e codes ih =>
    cases codes with
    | nil => simp [separated]
    | cons e' codes => simp [separated, ih]

@[simp] theorem within_generic :
    Within P (generic code codes).symbols ↔
      Within P code.symbols ∧ ∀ e ∈ codes, Within P e.symbols := by
  simp [generic]

@[simp] theorem within_object {fields : List (String × Code)} :
    Within P (object fields).symbols ↔ Within P (fields.flatMap (·.2.symbols)) := by
  simp only [object, symbols, symbolsOf, List.append_nil, List.nil_append, within_separated,
    List.forall_mem_map, within_flatMap]

@[simp] theorem symbols_quote (s : String) : (quote s).symbols = [] := rfl

@[simp] theorem symbols_runtime (name : String) : (runtime name).symbols = [.runtime name] := rfl

@[simp] theorem symbols_result : result.symbols = [.result] := rfl

end Code

namespace Stmt

@[simp] theorem symbolsOf_append (stmts stmts' : List Stmt) :
    symbolsOf (stmts ++ stmts') = symbolsOf stmts ++ symbolsOf stmts' := by
  induction stmts with
  | nil => rfl
  | cons x stmts ih => simp [ih]

@[simp] theorem symbolsOf_map {α : Type} (xs : List α) (stmt : α → Stmt) :
    symbolsOf (xs.map stmt) = xs.flatMap fun x => (stmt x).symbols := by
  induction xs with
  | nil => rfl
  | cons x xs ih => simp [ih]

@[simp] theorem symbolsOf_flatMap {α : Type} (xs : List α) (stmts : α → List Stmt) :
    symbolsOf (xs.flatMap stmts) = xs.flatMap fun x => symbolsOf (stmts x) := by
  induction xs with
  | nil => rfl
  | cons x xs ih => simp [ih]

end Stmt

namespace Literal

@[simp] theorem symbolsOf_map {α : Type} (xs : List α) (literal : α → Literal) :
    symbolsOf (xs.map literal) = xs.flatMap fun x => (literal x).symbols := by
  induction xs with
  | nil => rfl
  | cons x xs ih => simp [ih]

@[simp] theorem symbolsOfFields_append (fields fields' : List (String × Literal)) :
    symbolsOfFields (fields ++ fields') = symbolsOfFields fields ++ symbolsOfFields fields' := by
  induction fields with
  | nil => rfl
  | cons f fields ih => simp [ih]

end Literal

@[simp] theorem Field.symbols_orUndefined : (f.orUndefined code).symbols = code.symbols := by
  unfold Field.orUndefined
  split <;> simp [Code.symbolsOf]

namespace ValueType

/-- What lists hold in the end. -/
def leaf (t : ValueType) : ValueType := t.innermost.1

theorem leaf_leaf (t : ValueType) : t.leaf.leaf = t.leaf := by
  induction t with
  | list items ih => exact ih
  | _ => rfl

/-- What a module offers to those that hold its objects: the type, what becomes a value of it, what
is on the wire, the factory, the description and the walk. -/
def shared : List String := ["", "CoerceType", "Object", "Factory", "Schema", "Getter"]

/-- Symbols that values of a type need: those of the object that they hold, and those that stand for
no object. -/
def Needs (t : ValueType) : Symbol → Prop
  | .object name suffix => t.leaf = .object name ∧ suffix ∈ shared
  | _ => True

@[simp] theorem needs_list (items : ValueType) : (list items).Needs = items.Needs := by
  funext s
  cases s <;> rfl

@[simp] theorem needs_leaf (t : ValueType) : t.leaf.Needs = t.Needs := by
  funext s
  cases s with
  | object name suffix => simp only [Needs, leaf_leaf]
  | _ => rfl

@[simp] theorem needs_runtime : t.Needs (.runtime name) := trivial

@[simp] theorem needs_result : t.Needs .result := trivial

theorem needs_object (h : suffix ∈ shared) : (object name).Needs (.object name suffix) := ⟨rfl, h⟩

@[simp] theorem within_recordType : Within t.Needs recordType.symbols := by simp [recordType]

theorem within_viewType : Within t.Needs t.viewType.symbols := by
  induction t with
  | list items ih => simpa [viewType] using ih
  | object name => simpa [viewType] using needs_object (by decide)
  | string f =>
    rw [viewType]
    split <;> simp
  | _ => simp [viewType]

theorem within_coerceType : Within t.Needs t.coerceType.symbols := by
  induction t with
  | list items ih => simpa [coerceType] using ih
  | object name => simpa [coerceType] using needs_object (by decide)
  | _ => simp [coerceType]

theorem within_wireType : Within t.Needs t.wireType.symbols := by
  induction t with
  | list items ih => simpa [wireType] using ih
  | object name => simpa [wireType] using needs_object (by decide)
  | _ => simp [wireType]

end ValueType

open ValueType

theorem within_wireValue : Within t.Needs (Stmt.symbolsOf (wireValue v level t).1) ∧
    Within t.Needs (wireValue v level t).2.symbols := by
  induction t generalizing v level with
  | list items ih =>
    obtain ⟨hbefore, hitem⟩ := @ih (levelName "e" level) (level + 1)
    rw [needs_list]
    unfold wireValue
    split
    · simp_all [within_wireType]
    · simp
  | object name => simpa [wireValue] using needs_object (by decide)
  | string f =>
    unfold wireValue
    split <;> simp
  | _ => simp [wireValue]

@[simp] theorem symbols_givenText (key : String) (value : Option String) :
    Literal.symbolsOfFields (givenText key value) = [] := by
  cases value <;> rfl

@[simp] theorem within_headFields {head : ObjectHead} :
    Within P (Literal.symbolsOfFields (headFields head)) := by
  simp only [headFields, Literal.symbolsOfFields_append, symbols_givenText]
  split <;> simp

theorem within_describe {path : String} : Within t.Needs (describe path t).symbols := by
  induction t with
  | list items ih => simpa [describe] using ih
  | object name => simpa [describe] using needs_object (by decide)
  | _ => simp [describe, describe.leaf]

theorem within_visit {place : Code} (hplace : Within P place.symbols)
    (ht : ∀ s, t.Needs s → P s) : Within P (visit v place level t).symbols := by
  induction t generalizing v level with
  | list items ih => simpa [visit] using ih (by simpa using ht)
  | object name => simpa [visit] using ⟨ht _ (needs_object (by decide)), hplace⟩
  | _ => simpa [visit] using hplace

theorem symbols_arrayOf (dims : Nat) : (arrayOf code dims).symbols = code.symbols := by
  induction dims with
  | zero => rfl
  | succ dims ih => simpa [arrayOf] using ih

theorem within_readLists {full : Code} (hfull : Within t.Needs full.symbols) (below : Nat)
    (source : String) : Within t.Needs (Stmt.symbolsOf (readLists t full level source below)) := by
  induction below generalizing level source with
  | zero => simp [readLists, readList, symbols_arrayOf, within_viewType, within_coerceType, hfull]
  | succ below ih => simp [readLists, readList, symbols_arrayOf, within_viewType, ih]

/-- Symbols that the module of a class may need: its own, those of the objects that its members
hold, and those that stand for no object. -/
def Class.Needs (c : Class) : Symbol → Prop
  | .object name suffix => name = c.name ∨ ∃ f ∈ c.fields, f.type.Needs (.object name suffix)
  | _ => True

namespace Class

@[simp] theorem needs_own : c.Needs (.object c.name suffix) := Or.inl rfl

@[simp] theorem needs_runtime : c.Needs (.runtime name) := trivial

@[simp] theorem needs_result : c.Needs .result := trivial

@[simp] theorem symbols_symbol (c : Class) (suffix : String) :
    (c.symbol suffix).symbols = [.object c.name suffix] := rfl

/-- A class needs what its members need. -/
theorem needs_field (hf : f ∈ c.fields) (s : Symbol) (h : f.type.Needs s) : c.Needs s := by
  cases s with
  | object name suffix => exact Or.inr ⟨f, hf, h⟩
  | _ => trivial

theorem within_viewType (hf : f ∈ c.fields) : Within c.Needs f.type.viewType.symbols :=
  ValueType.within_viewType.mono (needs_field hf)

theorem within_coerceType (hf : f ∈ c.fields) : Within c.Needs f.type.coerceType.symbols :=
  ValueType.within_coerceType.mono (needs_field hf)

theorem within_typeDecls : Within c.Needs ([c.viewDecl, c.paramDecl, c.wireDecl, c.resultsDecl,
    c.coerceTypeDecl].flatMap Decl.symbols) := by
  have hwire : ∀ f ∈ c.fields, Within c.Needs f.type.wireType.symbols :=
    fun f hf => within_wireType.mono (needs_field hf)
  simpa [viewDecl, paramDecl, wireDecl, resultsDecl, coerceTypeDecl, Decl.symbols] using
    ⟨fun _ => within_viewType, fun _ => within_coerceType, hwire, fun _ => within_viewType⟩

theorem within_wireField (hf : f ∈ c.fields) : Within c.Needs (wireField f).symbols := by
  obtain ⟨hbefore, hvalue⟩ := @within_wireValue (f.of "v0") f.type 0
  have hbefore := hbefore.mono (needs_field hf)
  have hvalue := hvalue.mono (needs_field hf)
  unfold wireField
  dsimp only
  split
  · simp [hbefore, hvalue]
  split
  · simp [hvalue]
  · simp [hbefore, hvalue]

theorem within_toObjectDecl : Within c.Needs c.toObjectDecl.symbols := by
  simpa [toObjectDecl, Decl.symbols] using fun f hf => within_wireField hf

theorem within_schemaDecl : Within c.Needs c.schemaDecl.symbols := by
  have hfields : ∀ f ∈ c.fields, Within c.Needs (describeField c.head.titleText f).symbols :=
    fun f hf => Within.mono (by simpa [describeField] using within_describe) (needs_field hf)
  unfold schemaDecl
  dsimp only
  split
  · simp [Decl.symbols]
  · simpa [Decl.symbols] using hfields

theorem within_visitField {index : Nat} (hf : f ∈ c.fields) :
    Within c.Needs (c.visitField f index).symbols := by
  have hvisit : Within c.Needs (visit (f.of "v") (.join ["[...base, ", c.symbol "Schema",
      ", items[", Decimal.natText index, "]]"]) 0 f.type).symbols :=
    within_visit (by simp) (needs_field hf)
  unfold visitField
  dsimp only
  split
  · simpa using hvisit
  · exact hvisit

theorem within_getterDecl : Within c.Needs c.getterDecl.symbols := by
  have hfields : ∀ x ∈ c.fields.zipIdx, Within c.Needs (c.visitField x.1 x.2).symbols :=
    fun x hx => within_visitField (List.fst_mem_of_mem_zipIdx hx)
  simpa [getterDecl, Decl.symbols] using hfields

theorem within_coercionDecl {d : Decl} (hf : f ∈ c.fields) (h : c.coercionDecl? f = some d) :
    Within c.Needs d.symbols := by
  unfold coercionDecl? at h
  split at h
  · next items htype =>
    cases h
    refine Within.mono ?_ (needs_field hf)
    have hview : Within items.Needs items.leaf.viewType.symbols :=
      needs_leaf items ▸ ValueType.within_viewType
    have hcoerce : Within items.Needs items.leaf.coerceType.symbols :=
      needs_leaf items ▸ ValueType.within_coerceType
    have hfull :
        Within items.Needs (arrayOf items.leaf.viewType (items.innermost.2 + 1)).symbols := by
      rwa [symbols_arrayOf]
    have hlists : Within items.Needs (Stmt.symbolsOf (readLists items.leaf
        (arrayOf items.leaf.viewType (items.innermost.2 + 1)) 0 "c0" items.innermost.2)) := by
      rw [← needs_leaf items] at hfull ⊢
      exact within_readLists hfull _ _
    rw [htype]
    simpa [Decl.symbols] using ⟨⟨hview, hcoerce⟩, hfull, hlists⟩
  · cases h

theorem within_atClass (name : String) : Within c.Needs (c.atClass name).symbols := by
  simp [atClass]

theorem within_attributeParam : Within P f.attributeParam.symbols := by
  simp only [Field.attributeParam, Code.within_object, List.flatMap_append, within_append]
  refine ⟨⟨by simp, ?_⟩, ?_⟩
  · cases f.default <;> simp
  · cases f.type.format? <;> simp

theorem within_newAttribute {optional : Bool} (ht : ∀ s, t.Needs s → c.Needs s) :
    Within c.Needs (f.newAttribute optional t).symbols := by
  have hview := ValueType.within_viewType.mono ht
  have hcoerce := ValueType.within_coerceType.mono ht
  have hwire := within_wireType.mono ht
  cases t with
  | object name =>
    have hfactory : c.Needs (.object name "Factory") := ht _ (needs_object (by decide))
    cases optional <;>
      simp [Field.newAttribute, within_attributeParam, hview, hcoerce, hwire, hfactory]
  | _ => cases optional <;> simp [Field.newAttribute, within_attributeParam, ValueType.recordType]

theorem within_initField (hf : f ∈ c.fields) :
    Within c.Needs (Stmt.symbolsOf (c.initField f)) := by
  have hview := within_viewType hf
  unfold initField
  split
  · next items htype =>
    have hitems : ∀ s, items.leaf.Needs s → c.Needs s := by
      intro s hs
      apply needs_field hf
      rw [htype]
      simpa using hs
    have hitem : Within c.Needs (f.newAttribute false items.innermost.1).symbols :=
      within_newAttribute hitems
    split <;> simp [Field.slot, hitem, hview, within_attributeParam]
  · simpa [Field.slot] using within_newAttribute (needs_field hf)

theorem within_setterMember (hf : f ∈ c.fields) : Within c.Needs (c.setterMember f).symbols := by
  simp [setterMember, ClassMember.symbols, Field.slot, within_viewType hf, within_coerceType hf]

theorem within_attributeMember (hf : f ∈ c.fields) :
    Within c.Needs (attributeMember f).symbols := by
  simp only [attributeMember, attributeInput]
  split <;> simp [ClassMember.symbols, within_viewType hf, within_coerceType hf]

theorem within_builderDecl : Within c.Needs c.builderDecl.symbols := by
  have hinit : ∀ f ∈ c.fields, Within c.Needs (Stmt.symbolsOf (c.initField f)) :=
    fun _ => within_initField
  have hmethods : ∀ m ∈ [c.constructorMember, c.coerceAttributeMember, c.coerceMember, c.getMember,
      c.toObjectMember, c.fromResultsMember, c.toPayloadMember] ++ c.fields.map c.setterMember,
        Within c.Needs m.symbols := by
    rw [List.forall_mem_append, List.forall_mem_map]
    refine ⟨?_, fun _ => within_setterMember⟩
    simpa [constructorMember, coerceAttributeMember, coerceMember, getMember, toObjectMember,
      fromResultsMember, toPayloadMember, resultOf, requireObject, passFailure, notObject,
      within_atClass, Field.slot, ClassMember.symbols] using hinit
  have hfields : ∀ m ∈ .field "param" (c.atClass "WuestenAttributeBase") ::
      c.fields.map attributeMember, Within c.Needs m.symbols := by
    rw [List.forall_mem_cons, List.forall_mem_map]
    exact ⟨by simp [ClassMember.symbols, within_atClass], fun _ => within_attributeMember⟩
  rw [builderDecl, Decl.symbols, within_append, within_flatMap, List.forall_mem_append]
  refine ⟨by simp [within_atClass], hfields, fun m hm => ?_⟩
  obtain ⟨method, hmethod, hm⟩ := List.mem_flatMap.1 hm
  rcases List.mem_cons.1 hm with rfl | hm
  · exact within_nil
  · rw [List.mem_singleton.1 hm]
    exact hmethods method hmethod

theorem within_factoryDecls :
    Within c.Needs ([c.namesDecl, c.factoryClassDecl, c.factoryDecl].flatMap Decl.symbols) := by
  simp [namesDecl, factoryClassDecl, factoryDecl, namesMember, newBuilderMember, fromPayloadMember,
    payloadMember, wireMember, cloneMember, schemaMember, getterMember, spaced, within_atClass,
    resultOf, passFailure, payloadType, Decl.symbols, ClassMember.symbols]

/-- A module needs its own names, and those of the objects that its members hold. -/
theorem within_decls : Within c.Needs (c.decls.flatMap Decl.symbols) := by
  have hcoercions : Within c.Needs ((c.fields.filterMap c.coercionDecl?).flatMap Decl.symbols) := by
    rw [within_flatMap]
    intro d hd
    obtain ⟨f, hf, hdecl⟩ := List.mem_filterMap.1 hd
    exact within_coercionDecl hf hdecl
  have htypes := @within_typeDecls c
  have hfactory := @within_factoryDecls c
  simp only [List.flatMap_cons, List.flatMap_nil, within_append] at htypes hfactory
  simp only [decls, List.flatMap_append, List.flatMap_cons, List.flatMap_nil, within_append]
  grind [within_toObjectDecl, within_getterDecl, within_schemaDecl, within_builderDecl, within_nil]

end Class

section uses

variable (h : t.leaf = .object name)

include h

theorem mem_viewType : .object name "" ∈ t.viewType.symbols := by
  induction t with
  | list items ih => simpa [viewType] using ih h
  | object => simpa [viewType, leaf, innermost, eq_comm] using h
  | _ => cases h

theorem mem_coerceType : .object name "CoerceType" ∈ t.coerceType.symbols := by
  induction t with
  | list items ih => simpa [coerceType] using ih h
  | object => simpa [coerceType, leaf, innermost, eq_comm] using h
  | _ => cases h

theorem mem_wireType : .object name "Object" ∈ t.wireType.symbols := by
  induction t with
  | list items ih => simpa [wireType] using ih h
  | object => simpa [wireType, leaf, innermost, eq_comm] using h
  | _ => cases h

theorem isConverted_of_leaf : t.isConverted = true := by
  induction t with
  | list items ih => exact ih h
  | object => rfl
  | _ => cases h

theorem mem_wireValue : .object name "Factory" ∈ Stmt.symbolsOf (wireValue v level t).1 ++
    (wireValue v level t).2.symbols := by
  induction t generalizing v level with
  | list items ih =>
    have hitems : items.isConverted = true := isConverted_of_leaf h
    rw [wireValue, if_pos hitems]
    simpa using Or.inr (ih h)
  | object => simpa [wireValue, leaf, innermost, eq_comm] using h
  | _ => cases h

theorem mem_describe {path : String} : .object name "Schema" ∈ (describe path t).symbols := by
  induction t with
  | list items ih => simpa [describe] using ih h
  | object => simpa [describe, leaf, innermost, eq_comm] using h
  | _ => cases h

theorem mem_visit {place : Code} :
    .object name "Getter" ∈ (visit v place level t).symbols := by
  induction t generalizing v level with
  | list items ih => simpa [visit] using ih h
  | object =>
    refine List.mem_append_left _ ?_
    simpa [visit, leaf, innermost, eq_comm] using h
  | _ => cases h

end uses

theorem mem_wireField (h : f.type.leaf = .object name) :
    .object name "Factory" ∈ (wireField f).symbols := by
  have hvalue := @mem_wireValue name (f.of "v0") f.type 0 h
  unfold wireField
  dsimp only
  split
  · simpa using hvalue
  split
  · next hempty =>
    rw [List.isEmpty_iff.1 hempty] at hvalue
    simpa using hvalue
  · simpa using hvalue

theorem mem_toObjectDecl (hf : f ∈ c.fields) (h : f.type.leaf = .object name) :
    .object name "Factory" ∈ c.toObjectDecl.symbols := by
  have hmem : .object name "Factory" ∈ c.fields.flatMap fun f => (wireField f).symbols :=
    List.mem_flatMap.2 ⟨f, hf, mem_wireField h⟩
  simp only [Class.toObjectDecl, Decl.symbols, Stmt.symbolsOf, Stmt.symbols, Stmt.symbolsOf_map,
    Stmt.symbolsOf_append, List.cons_append]
  simp [hmem]

theorem mem_schemaDecl (hf : f ∈ c.fields) (h : f.type.leaf = .object name) :
    .object name "Schema" ∈ c.schemaDecl.symbols := by
  have hfields : c.fields.isEmpty = false := by
    cases hc : c.fields with
    | nil => simp [hc] at hf
    | cons => rfl
  have hfield : .object name "Schema" ∈ (describeField c.head.titleText f).symbols := by
    simpa [describeField] using mem_describe h
  simpa [Class.schemaDecl, Decl.symbols, hfields] using Or.inr ⟨f, hf, hfield⟩

theorem mem_getterDecl (hf : f ∈ c.fields) (h : f.type.leaf = .object name) :
    .object name "Getter" ∈ c.getterDecl.symbols := by
  obtain ⟨i, hi⟩ : ∃ i, (f, i) ∈ c.fields.zipIdx := by
    obtain ⟨i, hi, rfl⟩ := List.mem_iff_getElem.1 hf
    exact ⟨i, List.mem_zipIdx_iff_getElem?.2 (List.getElem?_eq_getElem hi)⟩
  have hfield : .object name "Getter" ∈ (c.visitField f i).symbols := by
    unfold Class.visitField
    dsimp only
    split
    · simpa using mem_visit h
    · exact mem_visit h
  have hmem : .object name "Getter" ∈
      c.fields.zipIdx.flatMap fun x => (c.visitField x.1 x.2).symbols :=
    List.mem_flatMap.2 ⟨_, hi, hfield⟩
  simp only [Class.getterDecl, Decl.symbols, Stmt.symbolsOf, Stmt.symbols, Stmt.symbolsOf_map]
  simp [hmem]

/-- What a module needs of another object: all that is shared, if a member holds that object. -/
theorem mem_symbols_decls (hname : name ≠ c.name) :
    .object name suffix ∈ c.decls.flatMap Decl.symbols ↔
      suffix ∈ shared ∧ ∃ f ∈ c.fields, f.type.leaf = .object name := by
  constructor
  · intro hmem
    rcases Class.within_decls _ hmem with heq | ⟨f, hf, hleaf, hsuffix⟩
    · exact absurd heq hname
    · exact ⟨hsuffix, f, hf, hleaf⟩
  · rintro ⟨hsuffix, f, hf, hleaf⟩
    have hmem {s : Symbol} (d : Decl) (hd : d ∈ c.decls) (hs : s ∈ d.symbols) :
        s ∈ c.decls.flatMap Decl.symbols := List.mem_flatMap.2 ⟨d, hd, hs⟩
    simp only [shared, List.mem_cons, List.not_mem_nil, or_false] at hsuffix
    rcases hsuffix with rfl | rfl | rfl | rfl | rfl | rfl
    · apply hmem c.viewDecl (by simp [Class.decls])
      exact List.mem_flatMap.2 ⟨_, List.mem_map_of_mem hf, by simpa using mem_viewType hleaf⟩
    · apply hmem c.paramDecl (by simp [Class.decls])
      exact List.mem_flatMap.2 ⟨_, List.mem_map_of_mem hf, mem_coerceType hleaf⟩
    · apply hmem c.wireDecl (by simp [Class.decls])
      exact List.mem_flatMap.2 ⟨_, List.mem_map_of_mem hf, mem_wireType hleaf⟩
    · apply hmem c.toObjectDecl (by simp [Class.decls])
      exact mem_toObjectDecl hf hleaf
    · apply hmem c.schemaDecl (by simp [Class.decls])
      exact mem_schemaDecl hf hleaf
    · apply hmem c.getterDecl (by simp [Class.decls])
      exact mem_getterDecl hf hleaf

end SchemaForge.TypeScript
