import Mathlib
import SchemaForge.TypeScript.Unit
/-!
Names of other objects stand in a module as symbols only: where they are others, the declarations
are the same but for those symbols.
-/
namespace SchemaForge.TypeScript

variable {c : Class} {f : Field} {t : ValueType} {names : String → String} {v : String}
  {level : Nat}

def Symbol.rename (names : String → String) : Symbol → Symbol
  | .object name suffix => .object (names name) suffix
  | s => s

namespace Code

mutual

def rename (names : String → String) : Code → Code
  | text s => text s
  | symbol s => symbol (s.rename names)
  | join parts => join (renameAll names parts)

def renameAll (names : String → String) : List Code → List Code
  | [] => []
  | c :: cs => c.rename names :: renameAll names cs

end

end Code

namespace Stmt

mutual

def rename (names : String → String) : Stmt → Stmt
  | constant name type value => constant name (type.map (Code.rename names)) (value.rename names)
  | assign target value => assign (target.rename names) (value.rename names)
  | run e => run (e.rename names)
  | ret e => ret (e.rename names)
  | retObject head fields =>
    retObject (head.rename names) (fields.map fun f => (f.1, f.2.rename names))
  | assignCall target head args =>
    assignCall (target.rename names) (head.rename names) (args.map (Code.rename names))
  | cond test body => cond (test.rename names) (renameAll names body)
  | forOf name source body => forOf name (source.rename names) (renameAll names body)
  | iterate name iterator body => iterate name iterator (renameAll names body)
  | block body => block (renameAll names body)
  | retFunction head param body => retFunction (head.rename names) param (renameAll names body)

def renameAll (names : String → String) : List Stmt → List Stmt
  | [] => []
  | s :: ss => s.rename names :: renameAll names ss

end

end Stmt

namespace Literal

mutual

def rename (names : String → String) : Literal → Literal
  | value e => value (e.rename names)
  | object fields => object (renameFields names fields)
  | array items => array (renameAll names items)

def renameFields (names : String → String) : List (String × Literal) → List (String × Literal)
  | [] => []
  | (key, l) :: rest => (key, l.rename names) :: renameFields names rest

def renameAll (names : String → String) : List Literal → List Literal
  | [] => []
  | l :: ls => l.rename names :: renameAll names ls

end

end Literal

def ClassMember.rename (names : String → String) : ClassMember → ClassMember
  | field name type => field name (type.rename names)
  | init params body => init (params.rename names) (Stmt.renameAll names body)
  | method name params result body =>
    method name (params.rename names) (result.map (Code.rename names)) (Stmt.renameAll names body)
  | static name params result body =>
    static name (params.rename names) (result.map (Code.rename names)) (Stmt.renameAll names body)
  | blank => blank

def Slot.rename (names : String → String) (s : Slot) : Slot :=
  { s with type := s.type.rename names }

def Decl.rename (names : String → String) : Decl → Decl
  | interface shared name slots => interface shared name (slots.map (Slot.rename names))
  | «alias» name type => «alias» name (type.rename names)
  | function shared name params result body =>
    function shared name (params.rename names) (result.rename names) (Stmt.renameAll names body)
  | literal shared name type value =>
    literal shared name (type.rename names) (value.rename names)
  | «class» name heritage members =>
    «class» name (heritage.rename names) (members.map (ClassMember.rename names))
  | constant name value => constant name (value.rename names)

namespace ValueType

def rename (names : String → String) : ValueType → ValueType
  | list items => list (items.rename names)
  | object name => object (names name)
  | t => t

end ValueType

def Field.rename (names : String → String) (f : Field) : Field :=
  { f with type := f.type.rename names }

def Class.rename (names : String → String) (c : Class) : Class :=
  { c with fields := c.fields.map (Field.rename names) }

attribute [simp] Symbol.rename Code.rename Code.renameAll Stmt.rename Stmt.renameAll Literal.rename
  Literal.renameFields Literal.renameAll

namespace Code

@[simp] theorem rename_quote (s : String) : (quote s).rename names = quote s := rfl

@[simp] theorem rename_runtime (name : String) : (runtime name).rename names = runtime name := rfl

@[simp] theorem rename_result : result.rename names = result := rfl

@[simp] theorem rename_separated (separator : String) (codes : List Code) :
    (separated separator codes).rename names =
      separated separator (codes.map (rename names)) := by
  induction codes with
  | nil => rfl
  | cons e codes ih =>
    cases codes with
    | nil => rfl
    | cons e' codes => simpa [separated] using ih

@[simp] theorem rename_generic (type : Code) (args : List Code) :
    (generic type args).rename names = generic (type.rename names) (args.map (rename names)) := by
  simp [generic]

@[simp] theorem rename_object (fields : List (String × Code)) :
    (object fields).rename names = object (fields.map fun f => (f.1, f.2.rename names)) := by
  simp [object, Function.comp_def]

end Code

@[simp] theorem Stmt.renameAll_append (ss ss' : List Stmt) :
    Stmt.renameAll names (ss ++ ss') = Stmt.renameAll names ss ++ Stmt.renameAll names ss' := by
  induction ss with
  | nil => rfl
  | cons s ss ih => simp [ih]

@[simp] theorem Stmt.renameAll_map {α : Type} (xs : List α) (stmt : α → Stmt) :
    Stmt.renameAll names (xs.map stmt) = xs.map fun x => (stmt x).rename names := by
  induction xs with
  | nil => rfl
  | cons x xs ih => simp [ih]

@[simp] theorem Stmt.renameAll_flatMap {α : Type} (xs : List α) (stmts : α → List Stmt) :
    Stmt.renameAll names (xs.flatMap stmts) =
      xs.flatMap fun x => Stmt.renameAll names (stmts x) := by
  induction xs with
  | nil => rfl
  | cons x xs ih => simp [ih]

@[simp] theorem Literal.renameAll_map {α : Type} (xs : List α) (literal : α → Literal) :
    Literal.renameAll names (xs.map literal) = xs.map fun x => (literal x).rename names := by
  induction xs with
  | nil => rfl
  | cons x xs ih => simp [ih]

@[simp] theorem Literal.renameFields_append (fields fields' : List (String × Literal)) :
    Literal.renameFields names (fields ++ fields') =
      Literal.renameFields names fields ++ Literal.renameFields names fields' := by
  induction fields with
  | nil => rfl
  | cons f fields ih => simp [ih]

namespace ValueType

@[simp] theorem isDateTime_rename : (t.rename names).isDateTime = t.isDateTime := by
  cases t <;> rfl

@[simp] theorem isConverted_rename : (t.rename names).isConverted = t.isConverted := by
  induction t with
  | list items ih => exact ih
  | _ => rfl

@[simp] theorem isList_rename : (t.rename names).isList = t.isList := by
  cases t <;> rfl

@[simp] theorem format?_rename : (t.rename names).format? = t.format? := by
  cases t <;> rfl

@[simp] theorem innermost_rename :
    (t.rename names).innermost = (t.innermost.1.rename names, t.innermost.2) := by
  induction t with
  | list items ih => simp [rename, innermost, ih]
  | _ => rfl

@[simp] theorem viewType_rename : (t.rename names).viewType = t.viewType.rename names := by
  induction t with
  | list items ih => simp [rename, viewType, ih]
  | string f =>
    simp only [rename, viewType]
    split <;> rfl
  | _ => rfl

@[simp] theorem coerceType_rename : (t.rename names).coerceType = t.coerceType.rename names := by
  induction t with
  | list items ih => simp [rename, coerceType, ih]
  | _ => rfl

@[simp] theorem wireType_rename : (t.rename names).wireType = t.wireType.rename names := by
  induction t with
  | list items ih => simp [rename, wireType, ih]
  | _ => rfl

end ValueType

theorem wireValue_rename : wireValue v level (t.rename names) =
    (Stmt.renameAll names (wireValue v level t).1, (wireValue v level t).2.rename names) := by
  induction t generalizing v level with
  | list items ih =>
    simp only [ValueType.rename, wireValue, ValueType.isConverted_rename, ih]
    split <;> simp
  | string f =>
    simp only [ValueType.rename, wireValue]
    split <;> simp
  | _ => rfl

@[simp] theorem renameFields_givenText (key : String) (value : Option String) :
    Literal.renameFields names (givenText key value) = givenText key value := by
  cases value <;> rfl

@[simp] theorem renameFields_headFields (head : ObjectHead) :
    Literal.renameFields names (headFields head) = headFields head := by
  simp only [headFields, Literal.renameFields_append, renameFields_givenText]
  split <;> simp [Function.comp_def]

@[simp] theorem describe_rename {path : String} :
    describe path (t.rename names) = (describe path t).rename names := by
  induction t with
  | list items ih => simp [ValueType.rename, describe, ih]
  | object => rfl
  | _ => simp [ValueType.rename, describe, describe.leaf]

theorem visit_rename {place : Code} :
    visit v (place.rename names) level (t.rename names) =
      (visit v place level t).rename names := by
  induction t generalizing v level with
  | list items ih => simp [ValueType.rename, visit, ih]
  | _ => simp [ValueType.rename, visit]

theorem arrayOf_rename (leaf : Code) (dims : Nat) :
    arrayOf (leaf.rename names) dims = (arrayOf leaf dims).rename names := by
  induction dims with
  | zero => rfl
  | succ dims ih => simp [arrayOf, ih]

theorem readLists_rename (full : Code) (below : Nat) (source : String) :
    readLists (t.rename names) (full.rename names) level source below =
      Stmt.renameAll names (readLists t full level source below) := by
  induction below generalizing level source with
  | zero => simp [readLists, readList, arrayOf_rename]
  | succ below ih => simp [readLists, readList, arrayOf_rename, ih]

namespace Field

@[simp] theorem name_rename : (f.rename names).name = f.name := rfl

@[simp] theorem type_rename : (f.rename names).type = f.type.rename names := rfl

@[simp] theorem optional_rename : (f.rename names).optional = f.optional := rfl

@[simp] theorem default_rename : (f.rename names).default = f.default := rfl

@[simp] theorem publicName_rename : (f.rename names).publicName = f.publicName := rfl

@[simp] theorem privateName_rename : (f.rename names).privateName = f.privateName := rfl

@[simp] theorem of_rename (object : String) : (f.rename names).of object = f.of object := rfl

@[simp] theorem slot_rename : (f.rename names).slot = f.slot := rfl

@[simp] theorem rename_slot : f.slot.rename names = f.slot := rfl

@[simp] theorem orUndefined_rename (type : Code) :
    (f.rename names).orUndefined (type.rename names) = (f.orUndefined type).rename names := by
  cases hoptional : f.optional <;> simp [orUndefined, hoptional]

@[simp] theorem attributeParam_rename : (f.rename names).attributeParam = f.attributeParam := by
  simp [attributeParam]

@[simp] theorem rename_attributeParam : f.attributeParam.rename names = f.attributeParam := by
  cases hd : f.default <;> cases hformat : f.type.format? <;> simp [attributeParam, hd, hformat]

@[simp] theorem newAttribute_rename (optional : Bool) :
    (f.rename names).newAttribute optional (t.rename names) =
      (f.newAttribute optional t).rename names := by
  cases t with
  | object name =>
    cases optional <;> simp [newAttribute, ValueType.rename, ValueType.viewType,
      ValueType.coerceType, ValueType.wireType]
  | _ => cases optional <;> simp [newAttribute, ValueType.rename, ValueType.recordType]

end Field

@[simp] theorem wireField_rename : wireField (f.rename names) = (wireField f).rename names := by
  have hempty (ss : List Stmt) : (Stmt.renameAll names ss).isEmpty = ss.isEmpty := by
    cases ss <;> rfl
  simp only [wireField, Field.of_rename, Field.name_rename, Field.type_rename,
    Field.optional_rename, wireValue_rename, hempty]
  cases f.optional <;> cases (wireValue (f.of "v0") 0 f.type).1.isEmpty <;> simp

@[simp] theorem describeField_rename (title : String) :
    describeField title (f.rename names) = (describeField title f).rename names := by
  simp [describeField]

namespace Class

@[simp] theorem name_rename : (c.rename names).name = c.name := rfl

@[simp] theorem head_rename : (c.rename names).head = c.head := rfl

@[simp] theorem fields_rename : (c.rename names).fields = c.fields.map (Field.rename names) := rfl

@[simp] theorem named_rename (suffix : String) :
    (c.rename names).named suffix = c.named suffix := rfl

@[simp] theorem symbol_rename (suffix : String) :
    (c.rename names).symbol suffix = c.symbol suffix := rfl

@[simp] theorem atClass_rename (name : String) :
    (c.rename names).atClass name = c.atClass name := rfl

@[simp] theorem resultOf_rename (suffix : String) :
    (c.rename names).resultOf suffix = c.resultOf suffix := rfl

@[simp] theorem distinctNames_rename : (c.rename names).distinctNames = c.distinctNames := rfl

@[simp] theorem namesName_rename : (c.rename names).namesName = c.namesName := rfl

@[simp] theorem coercionName_rename :
    (c.rename names).coercionName (f.rename names) = c.coercionName f := rfl

@[simp] theorem attributeInput_rename :
    attributeInput (f.rename names) = (attributeInput f).rename names := by
  unfold attributeInput
  cases hlist : f.type.isList <;> simp [hlist]

@[simp] theorem attributeMember_rename :
    attributeMember (f.rename names) = (attributeMember f).rename names := by
  simp [attributeMember, ClassMember.rename]

@[simp] theorem schemaDecl_rename :
    (c.rename names).schemaDecl = c.schemaDecl.rename names := by
  cases hfields : c.fields <;>
    simp [schemaDecl, Decl.rename, Function.comp_def, hfields]

@[simp] theorem coercionDecl?_rename :
    (c.rename names).coercionDecl? (f.rename names) =
      (c.coercionDecl? f).map (Decl.rename names) := by
  cases htype : f.type with
  | list items =>
    simp [coercionDecl?, htype, ValueType.rename, Decl.rename, readLists_rename, arrayOf_rename]
  | _ => simp [coercionDecl?, htype, ValueType.rename]

@[simp] theorem initField_rename :
    (c.rename names).initField (f.rename names) = Stmt.renameAll names (c.initField f) := by
  have hattribute := @Field.newAttribute_rename f f.type names f.optional
  cases htype : f.type with
  | list items =>
    cases hoptional : f.optional <;>
      simp [initField, htype, hoptional, ValueType.rename, ValueType.viewType]
  | _ => simpa [initField, htype, ValueType.rename] using hattribute

section own

variable (h : names c.name = c.name)

include h

theorem rename_symbol (suffix : String) : (c.symbol suffix).rename names = c.symbol suffix := by
  simp [symbol, h]

theorem rename_atClass (name : String) : (c.atClass name).rename names = c.atClass name := by
  simp [atClass, rename_symbol h]

theorem rename_resultOf (suffix : String) :
    (c.resultOf suffix).rename names = c.resultOf suffix := by
  simp [resultOf, rename_symbol h]

theorem typeDecls_rename :
    [(c.rename names).viewDecl, (c.rename names).paramDecl, (c.rename names).wireDecl,
        (c.rename names).resultsDecl, (c.rename names).coerceTypeDecl] =
      [c.viewDecl, c.paramDecl, c.wireDecl, c.resultsDecl, c.coerceTypeDecl].map
        (Decl.rename names) := by
  simp [viewDecl, paramDecl, wireDecl, resultsDecl, coerceTypeDecl, Decl.rename, Slot.rename,
    Function.comp_def, rename_symbol h]

theorem toObjectDecl_rename : (c.rename names).toObjectDecl = c.toObjectDecl.rename names := by
  simp [toObjectDecl, Decl.rename, Function.comp_def, rename_symbol h]

theorem visitField_rename (index : Nat) :
    (c.rename names).visitField (f.rename names) index = (c.visitField f index).rename names := by
  have hvisit := @visit_rename f.type names (f.of "v") 0 (.join ["[...base, ", c.symbol "Schema",
    ", items[", Decimal.natText index, "]]"])
  simp only [Code.rename, Code.renameAll, rename_symbol h] at hvisit
  cases hoptional : f.optional <;> simp [visitField, hoptional, hvisit]

theorem getterDecl_rename : (c.rename names).getterDecl = c.getterDecl.rename names := by
  simp [getterDecl, Decl.rename, List.zipIdx_map, rename_symbol h, visitField_rename h]

theorem setterMember_rename :
    (c.rename names).setterMember (f.rename names) = (c.setterMember f).rename names := by
  simp [setterMember, ClassMember.rename, rename_symbol h]

theorem methods_rename :
    [(c.rename names).constructorMember, (c.rename names).coerceAttributeMember,
      (c.rename names).coerceMember, (c.rename names).getMember, (c.rename names).toObjectMember,
      (c.rename names).fromResultsMember, (c.rename names).toPayloadMember] =
    [c.constructorMember, c.coerceAttributeMember, c.coerceMember, c.getMember, c.toObjectMember,
      c.fromResultsMember, c.toPayloadMember].map (ClassMember.rename names) := by
  have hinit : (c.fields.map (Field.rename names)).flatMap (c.rename names).initField =
      Stmt.renameAll names (c.fields.flatMap c.initField) := by
    simp [List.flatMap_map]
  simp [constructorMember, coerceAttributeMember, coerceMember, getMember, toObjectMember,
    fromResultsMember, toPayloadMember, ClassMember.rename, rename_symbol h, rename_resultOf h,
    rename_atClass h, requireObject, passFailure, notObject, Function.comp_def, hinit]

theorem builderDecl_rename : (c.rename names).builderDecl = c.builderDecl.rename names := by
  have hspaced (ms : List ClassMember) :
      (ms.flatMap fun m => [.blank, m]).map (ClassMember.rename names) =
        (ms.map (ClassMember.rename names)).flatMap fun m => [.blank, m] := by
    simp [List.map_flatMap, List.flatMap_map, ClassMember.rename]
  have hsetters : (c.fields.map (Field.rename names)).map (c.rename names).setterMember =
      (c.fields.map c.setterMember).map (ClassMember.rename names) := by
    simp [Function.comp_def, setterMember_rename h]
  have hfield : ClassMember.rename names (.field "param" (c.atClass "WuestenAttributeBase")) =
      .field "param" (c.atClass "WuestenAttributeBase") := by
    rw [ClassMember.rename, rename_atClass h]
  simp only [builderDecl, Decl.rename, hspaced, List.map_append, List.map_cons, hfield,
    ← methods_rename h, ← hsetters]
  simp [rename_atClass h, Function.comp_def]

theorem factoryDecls_rename :
    [(c.rename names).namesDecl, (c.rename names).factoryClassDecl, (c.rename names).factoryDecl] =
      [c.namesDecl, c.factoryClassDecl, c.factoryDecl].map (Decl.rename names) := by
  simp [namesDecl, factoryClassDecl, factoryDecl, Decl.rename, namesMember, newBuilderMember,
    fromPayloadMember, payloadMember, wireMember, cloneMember, schemaMember, getterMember, spaced,
    rename_atClass h, rename_resultOf h, passFailure, payloadType, ClassMember.rename,
    rename_symbol h, Function.comp_def]

/-- The names of other objects are in the declarations of a class as symbols alone. -/
theorem decls_rename : (c.rename names).decls = c.decls.map (Decl.rename names) := by
  have htypes := typeDecls_rename h
  have hfactory := factoryDecls_rename h
  have hcoercions : (c.fields.map (Field.rename names)).filterMap (c.rename names).coercionDecl? =
      (c.fields.filterMap c.coercionDecl?).map (Decl.rename names) := by
    simp [List.filterMap_map, List.map_filterMap]
  simp only [List.map_cons, List.map_nil, List.cons.injEq, and_true] at htypes hfactory
  simp [decls, htypes, hfactory, hcoercions, toObjectDecl_rename h, getterDecl_rename h,
    builderDecl_rename h]

end own

end Class

end SchemaForge.TypeScript
