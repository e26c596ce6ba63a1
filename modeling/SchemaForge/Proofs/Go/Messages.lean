import Mathlib
import SchemaForge.Proofs.Go.Formats
import SchemaForge.Proofs.Go.Imports
/-!
What a schema says in the code of its class: the names of members in the tags of fields, and paths
to members in the errors that the code makes.
-/
namespace SchemaForge.Go

variable {g : Graph} {id : NodeId} {c : Class} {f : Field} {e : Expr} {head : ObjectHead}
  {members : List Member} {style : Style} {u : CodeUnit} {said : String} {verb : Char}
  {args : List Expr}

/-- The tags of the fields that a declaration has. -/
def Decl.tags : Decl → List String
  | structType _ fields => (fields.map StructField.tag).filter (!·.isEmpty)
  | _ => []

namespace Expr

mutual

/-- The arguments of the calls that make errors of a format, outermost calls first. -/
def errors : Expr → List (List Expr)
  | name _ | number _ | text _ | letter _ | default _ | imported .. | applied .. | empty _ => []
  | field e _ | deref e | not e | paren e | address e | convert _ e | assert e _ | makeSlice _ e =>
    e.errors
  | index e i | binary _ e i => e.errors ++ i.errors
  | call (imported .fmt "Errorf") args => args :: errorsOf args
  | call f args => f.errors ++ errorsOf args
  | build _ fields => errorsOfFields fields

def errorsOf : List Expr → List (List Expr)
  | [] => []
  | e :: es => e.errors ++ errorsOf es

def errorsOfFields : List (String × Expr) → List (List Expr)
  | [] => []
  | (_, e) :: rest => e.errors ++ errorsOfFields rest

end

end Expr

namespace Stmt

mutual

def errors : Stmt → List (List Expr)
  | run e | define _ e | ret e => e.errors
  | declare .. => []
  | assign target e => target.errors ++ e.errors
  | cond test body => test.errors ++ errorsOf body
  | condDefine _ e test body => e.errors ++ test.errors ++ errorsOf body
  | condElse test body otherwise => test.errors ++ errorsOf body ++ errorsOf otherwise
  | chain test body arms => test.errors ++ errorsOf body ++ errorsOfArms arms
  | loop _ slice body => slice.errors ++ errorsOf body
  | block body => errorsOf body
  | typeSwitch source _ cases otherwise =>
    source.errors ++ errorsOfCases cases ++ errorsOf otherwise

def errorsOf : List Stmt → List (List Expr)
  | [] => []
  | s :: ss => s.errors ++ errorsOf ss

def errorsOfArms : List (Expr × List Stmt) → List (List Expr)
  | [] => []
  | (test, body) :: arms => test.errors ++ errorsOf body ++ errorsOfArms arms

def errorsOfCases : List (GoType × Expr) → List (List Expr)
  | [] => []
  | (_, e) :: cases => e.errors ++ errorsOfCases cases

end

end Stmt

/-- The arguments of the calls in a declaration that make errors of a format. -/
def Decl.errors : Decl → List (List Expr)
  | interfaceType .. | structType .. => []
  | function _ body | method _ _ _ body => Stmt.errorsOf body

section packages

/-! Where nothing refers to the package of formats, no errors are made. -/

mutual

theorem Expr.errors_eq_nil : ∀ {e : Expr}, .fmt ∉ e.packages → e.errors = []
  | .name _, _ | .number _, _ | .text _, _ | .letter _, _ | .default _, _ | .imported .., _
  | .applied .., _ | .empty _, _ => rfl
  | .field e _, h | .deref e, h | .not e, h | .paren e, h | .address e, h =>
    Expr.errors_eq_nil (e := e) h
  | .convert _ e, h | .assert e _, h | .makeSlice _ e, h =>
    Expr.errors_eq_nil (e := e) fun hmem => h (List.mem_append_right _ hmem)
  | .index e i, h | .binary _ e i, h => by
    obtain ⟨he, hi⟩ := not_or.1 (mt List.mem_append.2 h)
    rw [Expr.errors, Expr.errors_eq_nil he, Expr.errors_eq_nil hi]
    rfl
  | .call f args, h => by
    obtain ⟨hf, hargs⟩ := not_or.1 (mt List.mem_append.2 h)
    have herrors := Expr.errors_eq_nil (e := f) hf
    have hargs := Expr.errorsOf_eq_nil hargs
    rw [Expr.errors]
    · rw [herrors, hargs]
      rfl
    · rintro rfl
      exact hf (List.mem_singleton_self _)
  | .build _ fields, h => @Expr.errorsOfFields_eq_nil fields h

theorem Expr.errorsOf_eq_nil :
    ∀ {es : List Expr}, .fmt ∉ Expr.packagesOf es → Expr.errorsOf es = []
  | [], _ => rfl
  | e :: es, h => by
    obtain ⟨he, hes⟩ := not_or.1 (mt List.mem_append.2 h)
    rw [Expr.errorsOf, Expr.errors_eq_nil he, Expr.errorsOf_eq_nil hes]
    rfl

theorem Expr.errorsOfFields_eq_nil :
    ∀ {fields : List (String × Expr)}, .fmt ∉ Expr.packagesOfFields fields →
      Expr.errorsOfFields fields = []
  | [], _ => rfl
  | (_, e) :: rest, h => by
    obtain ⟨he, hrest⟩ := not_or.1 (mt List.mem_append.2 h)
    rw [Expr.errorsOfFields, Expr.errors_eq_nil he, Expr.errorsOfFields_eq_nil hrest]
    rfl

end

mutual

theorem Stmt.errors_eq_nil : ∀ {s : Stmt}, .fmt ∉ s.packages → s.errors = []
  | .run e, h | .define _ e, h | .ret e, h => Expr.errors_eq_nil (e := e) h
  | .declare .., _ => rfl
  | .assign target e, h => by
    obtain ⟨htarget, he⟩ := not_or.1 (mt List.mem_append.2 h)
    rw [Stmt.errors, Expr.errors_eq_nil htarget, Expr.errors_eq_nil he]
    rfl
  | .cond test body, h => by
    obtain ⟨htest, hbody⟩ := not_or.1 (mt List.mem_append.2 h)
    rw [Stmt.errors, Expr.errors_eq_nil htest, Stmt.errorsOf_eq_nil hbody]
    rfl
  | .condDefine _ e test body, h => by
    obtain ⟨hhead, hbody⟩ := not_or.1 (mt List.mem_append.2 h)
    obtain ⟨he, htest⟩ := not_or.1 (mt List.mem_append.2 hhead)
    rw [Stmt.errors, Expr.errors_eq_nil he, Expr.errors_eq_nil htest, Stmt.errorsOf_eq_nil hbody]
    rfl
  | .condElse test body otherwise, h => by
    obtain ⟨hhead, hotherwise⟩ := not_or.1 (mt List.mem_append.2 h)
    obtain ⟨htest, hbody⟩ := not_or.1 (mt List.mem_append.2 hhead)
    rw [Stmt.errors, Expr.errors_eq_nil htest, Stmt.errorsOf_eq_nil hbody,
      Stmt.errorsOf_eq_nil hotherwise]
    rfl
  | .chain test body arms, h => by
    obtain ⟨hhead, harms⟩ := not_or.1 (mt List.mem_append.2 h)
    obtain ⟨htest, hbody⟩ := not_or.1 (mt List.mem_append.2 hhead)
    rw [Stmt.errors, Expr.errors_eq_nil htest, Stmt.errorsOf_eq_nil hbody,
      Stmt.errorsOfArms_eq_nil harms]
    rfl
  | .loop _ slice body, h => by
    obtain ⟨hslice, hbody⟩ := not_or.1 (mt List.mem_append.2 h)
    rw [Stmt.errors, Expr.errors_eq_nil hslice, Stmt.errorsOf_eq_nil hbody]
    rfl
  | .block body, h => @Stmt.errorsOf_eq_nil body h
  | .typeSwitch source _ cases otherwise, h => by
    obtain ⟨hhead, hotherwise⟩ := not_or.1 (mt List.mem_append.2 h)
    obtain ⟨hsource, hcases⟩ := not_or.1 (mt List.mem_append.2 hhead)
    rw [Stmt.errors, Expr.errors_eq_nil hsource, Stmt.errorsOfCases_eq_nil hcases,
      Stmt.errorsOf_eq_nil hotherwise]
    rfl

theorem Stmt.errorsOf_eq_nil :
    ∀ {ss : List Stmt}, .fmt ∉ Stmt.packagesOf ss → Stmt.errorsOf ss = []
  | [], _ => rfl
  | s :: ss, h => by
    obtain ⟨hs, hss⟩ := not_or.1 (mt List.mem_append.2 h)
    rw [Stmt.errorsOf, Stmt.errors_eq_nil hs, Stmt.errorsOf_eq_nil hss]
    rfl

theorem Stmt.errorsOfArms_eq_nil : ∀ {arms : List (Expr × List Stmt)},
    .fmt ∉ Stmt.packagesOfArms arms → Stmt.errorsOfArms arms = []
  | [], _ => rfl
  | (test, body) :: arms, h => by
    obtain ⟨hhead, harms⟩ := not_or.1 (mt List.mem_append.2 h)
    obtain ⟨htest, hbody⟩ := not_or.1 (mt List.mem_append.2 hhead)
    rw [Stmt.errorsOfArms, Expr.errors_eq_nil htest, Stmt.errorsOf_eq_nil hbody,
      Stmt.errorsOfArms_eq_nil harms]
    rfl

theorem Stmt.errorsOfCases_eq_nil : ∀ {cases : List (GoType × Expr)},
    .fmt ∉ Stmt.packagesOfCases cases → Stmt.errorsOfCases cases = []
  | [], _ => rfl
  | (_, e) :: cases, h => by
    obtain ⟨hhead, hcases⟩ := not_or.1 (mt List.mem_append.2 h)
    obtain ⟨-, he⟩ := not_or.1 (mt List.mem_append.2 hhead)
    rw [Stmt.errorsOfCases, Expr.errors_eq_nil he, Stmt.errorsOfCases_eq_nil hcases]
    rfl

end

theorem Decl.errors_eq_nil {d : Decl} (h : .fmt ∉ d.packages) : d.errors = [] := by
  cases d with
  | interfaceType | structType => rfl
  | function signature body | method receiver type signature body =>
    exact Stmt.errorsOf_eq_nil fun hmem => h (List.mem_append_right _ hmem)

end packages

namespace Stmt

theorem errorsOf_append (ss ss' : List Stmt) :
    errorsOf (ss ++ ss') = errorsOf ss ++ errorsOf ss' := by
  induction ss with
  | nil => rfl
  | cons s ss ih => simp [errorsOf, ih]

theorem errorsOf_map {α : Type} (xs : List α) (stmt : α → Stmt) :
    errorsOf (xs.map stmt) = xs.flatMap fun x => (stmt x).errors := by
  induction xs with
  | nil => rfl
  | cons x xs ih => simp [errorsOf, ih]

end Stmt

/-- The values that are read for a value of a type, from the outside: what kind each has to be of,
and where it comes from. -/
def ValueType.readings (source : Expr) (level : Nat) : ValueType → List (String × Expr)
  | string => [("string", source)]
  | boolean => [("bool", source)]
  | integer => [("integer", source)]
  | number => [("number", source)]
  | object _ => [("object", source)]
  | list items => ("array", source) ::
      items.readings (.index (.name (levelName "r" level)) (.name (levelName "i" level))) (level + 1)

/-- The error of a value that is not of its kind. -/
def mistyped (path : String) (reading : String × Expr) : List Expr :=
  [.text (path ++ ": expected " ++ reading.1 ++ ", got %T"), reading.2]

/-- The error of an attribute that is not set. -/
def unset (path : String) : List Expr :=
  [.text (path ++ ": %s"), (Expr.paren (Class.contents (.name "valid"))).send "Error" []]

/-- The path of a member in errors. -/
def Class.memberPath (c : Class) (f : Field) : String := c.title ++ "." ++ f.name

theorem errors_readValue (type : ValueType) (source : Expr) (path : String) (level : Nat)
    (h : source.errors = []) :
    Stmt.errorsOf (readValue c source path level type).1 =
        (type.readings source level).map (mistyped path) ∧
      (readValue c source path level type).2.errors = [] := by
  have hwrong (source : Expr) (h : source.errors = []) (path expected : String) :
      (wrongType c source path expected).errors =
        [[.text (path ++ ": expected " ++ expected ++ ", got %T"), source]] := by
    simp [wrongType, Class.failed, Stmt.errors, Expr.errors, Expr.errorsOf, h]
  induction type generalizing source level with
  | list items ih =>
    obtain ⟨hbefore, hitem⟩ :=
      ih (.index (.name (levelName "r" level)) (.name (levelName "i" level))) (level + 1) rfl
    simp [readValue, assertType, ValueType.readings, mistyped, Stmt.errorsOf, Stmt.errors, hwrong,
      h, Expr.errors, Expr.errorsOf, Expr.len, Stmt.errorsOf_append, hbefore, hitem]
  | object =>
    simp [readValue, assertType, ValueType.readings, mistyped, Stmt.errorsOf, Stmt.errors, hwrong,
      h, Expr.errors, Expr.errorsOf, Expr.send, Class.failed]
  | _ =>
    simp [readValue, assertType, convertNumber, ValueType.readings, mistyped, Stmt.errorsOf,
      Stmt.errors, Stmt.errorsOfCases, hwrong, h, Expr.errors]

theorem errors_readField : (readField c f).errors =
    (f.type.readings (.name "val") 0).map (mistyped (c.memberPath f)) := by
  obtain ⟨hbefore, hvalue⟩ := errors_readValue (c := c) f.type (.name "val") (c.memberPath f) 0 rfl
  unfold Class.memberPath at hbefore hvalue
  unfold readField Class.memberPath
  dsimp only
  split <;> simp [Stmt.errors, Stmt.errorsOf, Stmt.errorsOf_append, Expr.errors, Expr.errorsOf,
    Expr.send, Expr.present, hbefore, hvalue]

theorem errors_check : (c.check f).errors = [unset (c.memberPath f)] := by
  simp [Class.check, Class.memberPath, unset, Stmt.errors, Stmt.errorsOf, Expr.errors, Expr.errorsOf,
    Expr.send, Expr.present, Field.slot, Class.contents]

theorem errors_isValidDecl : c.isValidDecl.errors =
    (c.fields.filter Field.isNeeded).map fun f => unset (c.memberPath f) := by
  have hchecks : Stmt.errorsOf ((c.fields.filter Field.isNeeded).map c.check) =
      (c.fields.filter Field.isNeeded).map fun f => unset (c.memberPath f) := by
    rw [Stmt.errorsOf_map, List.map_eq_flatMap]
    simp only [errors_check]
  simp [Class.isValidDecl, Class.builderMethod, Decl.errors, Stmt.errorsOf_append, hchecks,
    Stmt.errorsOf, Stmt.errors, Expr.errors, Expr.errorsOf]

theorem errors_fromMapDecl : c.fromMapDecl.errors =
    c.fields.flatMap fun f => (f.type.readings (.name "val") 0).map (mistyped (c.memberPath f)) := by
  simp [Class.fromMapDecl, Class.factoryMethod, Decl.errors, Stmt.errorsOf_append,
    Stmt.errorsOf_map, errors_readField, Stmt.errorsOf, Stmt.errors, Expr.errors, Expr.errorsOf,
    Expr.send]

theorem errorsOfFields_map {fields : List Field} {name : Field → String} {value : Field → Expr}
    (h : ∀ f, (value f).errors = []) :
    Expr.errorsOfFields (fields.map fun f => (name f, value f)) = [] := by
  induction fields with
  | nil => rfl
  | cons f fields ih => simp [Expr.errorsOfFields, h, ih]

theorem errors_newBuilderDecl : c.newBuilderDecl.errors = [] := by
  have hinitial (f : Field) : f.initial.errors = [] := by
    simp [Field.initial, Expr.errors, Expr.errorsOf]
  have hseeds (fields : List Field) : Stmt.errorsOf (fields.filterMap fun f =>
      f.seed?.map fun e => Stmt.run (f.slot.send "Set" [e])) = [] := by
    induction fields with
    | nil => rfl
    | cons f fields ih =>
      rw [List.filterMap_cons]
      split
      · exact ih
      · next s hs =>
        obtain ⟨e, he, rfl⟩ := Option.map_eq_some_iff.1 hs
        obtain ⟨v, -, rfl⟩ := Option.map_eq_some_iff.1 he
        rw [Stmt.errorsOf, ih]
        split <;> rfl
  simp [Class.newBuilderDecl, Decl.errors, Stmt.errorsOf, Stmt.errorsOf_append, Stmt.errors,
    Expr.errors, errorsOfFields_map hinitial, hseeds]

theorem errors_toClassDecl : c.toClassDecl.errors = [] := by
  have hget (f : Field) : (f.slot.send "Get" []).errors = [] := rfl
  simp [Class.toClassDecl, Class.builderMethod, Decl.errors, Stmt.errorsOf, Stmt.errors,
    Expr.errors, Expr.errorsOf, Expr.send, Class.failed, Class.contents, Class.goType]
  exact errorsOfFields_map hget

theorem hashPackage?_ne_fmt (type : ValueType) : type.hashPackage? ≠ some .fmt := by
  induction type with
  | list items ih => exact ih
  | _ => nofun

/-- Errors are made where a builder is checked and where a map is read, and nowhere else. -/
theorem errors_decls : c.decls.flatMap Decl.errors =
    ((c.fields.filter Field.isNeeded).map fun f => unset (c.memberPath f)) ++
      c.fields.flatMap fun f =>
        (f.type.readings (.name "val") 0).map (mistyped (c.memberPath f)) := by
  have hgetters : (c.fields.map c.getterDecl).flatMap Decl.errors = [] := by
    rw [List.flatMap_map, List.flatMap_eq_nil_iff]
    exact fun f _ => rfl
  have hsetters : (c.fields.map c.setterDecl).flatMap Decl.errors = [] := by
    rw [List.flatMap_map, List.flatMap_eq_nil_iff]
    exact fun f _ => rfl
  have hclone : c.cloneDecl.errors = [] := Decl.errors_eq_nil (by simp [packages_cloneDecl])
  have hless : c.lessDecl.errors = [] := Decl.errors_eq_nil (by simp [mem_packages_lessDecl])
  have hhash : c.hashDecl.errors = [] :=
    Decl.errors_eq_nil (by simp [mem_packages_hashDecl, hashPackage?_ne_fmt])
  have hmap : c.asMapDecl.errors = [] := Decl.errors_eq_nil (by simp [packages_asMapDecl])
  have htypes : c.typeDecls.flatMap Decl.errors = [] := by
    rw [Class.typeDecls, List.flatMap_append, hgetters]
    rfl
  have hbuilder : c.builderDecls.flatMap Decl.errors =
      (c.fields.filter Field.isNeeded).map fun f => unset (c.memberPath f) := by
    simp [Class.builderDecls, List.flatMap_append, hsetters, errors_newBuilderDecl,
      errors_isValidDecl, errors_toClassDecl]
    rfl
  have hfactory : c.factoryDecls.flatMap Decl.errors = c.fields.flatMap fun f =>
      (f.type.readings (.name "val") 0).map (mistyped (c.memberPath f)) := by
    rw [← errors_fromMapDecl]
    simp [Class.factoryDecls, Class.factoryMethod, Decl.errors, Stmt.errorsOf, Stmt.errors,
      Expr.errors, Expr.errorsOf]
  rw [Class.decls, List.flatMap_append, List.flatMap_append, List.flatMap_append, htypes, hbuilder,
    hfactory]
  simp [hclone, hless, hhash, hmap]

/-- Only the fields that are read and written as JSON have tags. -/
theorem tags_decls : c.decls.flatMap Decl.tags = c.fields.map Field.tag := by
  have htag (f : Field) : f.tag ≠ "" := by
    intro hempty
    have := congrArg String.toList hempty
    rw [Tag.toList_tag] at this
    cases this
  have hfunctions (decl : Field → Decl) (h : ∀ f, (decl f).tags = []) :
      (c.fields.map decl).flatMap Decl.tags = [] := by
    rw [List.flatMap_map, List.flatMap_eq_nil_iff]
    exact fun f _ => h f
  have hjson : c.jsonDecl.tags = c.fields.map Field.tag := by
    simp [Class.jsonDecl, Decl.tags, Function.comp_def, htag]
  have hplain (name : String) (member : Field → StructField) (h : ∀ f, (member f).tag = "") :
      (Decl.structType name (c.fields.map member)).tags = [] := by
    simp [Decl.tags, h]
  have hparam : c.paramDecl.tags = [] := hplain _ _ fun _ => rfl
  have himpl : c.implDecl.tags = [] := hplain _ _ fun _ => rfl
  have hbuilder : c.builderDecl.tags = [] := hplain _ _ fun _ => rfl
  have hinterface : c.interfaceDecl.tags = [] := rfl
  have htypes : c.typeDecls.flatMap Decl.tags = c.fields.map Field.tag := by
    simp [Class.typeDecls, hfunctions c.getterDecl fun _ => rfl, hjson, hparam, himpl, hinterface]
  have hbuilders : c.builderDecls.flatMap Decl.tags = [] := by
    simp only [Class.builderDecls, List.flatMap_append, hfunctions c.setterDecl fun _ => rfl,
      List.flatMap_cons, hbuilder]
    rfl
  rw [Class.decls, List.flatMap_append, List.flatMap_append, List.flatMap_append, htypes,
    hbuilders]
  exact (List.append_nil _).trans ((List.append_nil _).trans (List.append_nil _))

/-- What the errors of a field say behind its path, and the verb for what they are about: that its
attribute is not set, or what kind a value should be of. -/
inductive Report (f : Field) : String → Char → Prop where
  | unset (h : f.isNeeded = true) : Report f ": " 's'
  | mistyped {kind : String} {source : Expr} (h : (kind, source) ∈ f.type.readings (.name "val") 0) :
    Report f (": expected " ++ kind ++ ", got ") 'T'

theorem Report.isErrorVerb (h : Report f said verb) : Format.isErrorVerb verb = true := by
  cases h <;> rfl

theorem Report.percent_not_mem (h : Report f said verb) : '%' ∉ said.toList := by
  have hkinds (type : ValueType) (source : Expr) (level : Nat) :
      ∀ r ∈ type.readings source level, '%' ∉ r.1.toList := by
    induction type generalizing source level with
    | list items ih =>
      rw [ValueType.readings, List.forall_mem_cons]
      exact ⟨show '%' ∉ "array".toList by decide, ih _ _⟩
    | _ => simp [ValueType.readings]
  cases h with
  | unset => decide
  | mistyped h =>
    have hkind := hkinds _ _ _ _ h
    simp only [String.toList_append, List.mem_append, not_or]
    exact ⟨⟨by decide, hkind⟩, by decide⟩

/-- The format of a call that makes an error with one argument, as the code says it. -/
def format? : List Expr → Option (List Char)
  | [message, _] => Literal.ofText? message.render.toList
  | _ => none

theorem format?_text (s : String) (e : Expr) : format? [.text s, e] = some s.toList :=
  Literal.ofText?_quote s

/-- The format of a report. -/
def Class.format (c : Class) (f : Field) (said : String) (verb : Char) : List Char :=
  (c.memberPath f ++ said).toList ++ ['%', verb]

theorem format?_unset : format? (unset (c.memberPath f)) = some (c.format f ": " 's') := by
  rw [unset, format?_text, Class.format]
  simp [String.toList_append]

theorem format?_mistyped (reading : String × Expr) :
    format? (mistyped (c.memberPath f) reading) =
      some (c.format f (": expected " ++ reading.1 ++ ", got ") 'T') := by
  rw [mistyped, format?_text, Class.format]
  simp [String.toList_append]

/-- The errors of a class report on its fields. -/
theorem report_of_mem (h : args ∈ c.decls.flatMap Decl.errors) :
    ∃ f ∈ c.fields, ∃ said verb, Report f said verb ∧
      format? args = some (c.format f said verb) := by
  rw [errors_decls, List.mem_append] at h
  rcases h with h | h
  · obtain ⟨f, hf, rfl⟩ := List.mem_map.1 h
    obtain ⟨hf, hneeded⟩ := List.mem_filter.1 hf
    exact ⟨f, hf, _, _, .unset hneeded, format?_unset⟩
  · obtain ⟨f, hf, h⟩ := List.mem_flatMap.1 h
    obtain ⟨reading, hreading, rfl⟩ := List.mem_map.1 h
    exact ⟨f, hf, _, _, .mistyped hreading, format?_mistyped reading⟩

/-- And they make every report. -/
theorem exists_report (hf : f ∈ c.fields) (h : Report f said verb) :
    ∃ args ∈ c.decls.flatMap Decl.errors, format? args = some (c.format f said verb) := by
  rw [errors_decls]
  cases h with
  | unset hneeded =>
    refine ⟨unset (c.memberPath f), List.mem_append_left _ ?_, format?_unset⟩
    exact List.mem_map.2 ⟨f, List.mem_filter.2 ⟨hf, hneeded⟩, rfl⟩
  | @mistyped kind source hreading =>
    refine ⟨mistyped (c.memberPath f) (kind, source), List.mem_append_right _ ?_,
      format?_mistyped (kind, source)⟩
    exact List.mem_flatMap.2 ⟨f, hf, List.mem_map_of_mem hreading⟩

theorem percent_not_mem_iff (h : Report f said verb) :
    '%' ∉ (c.memberPath f ++ said).toList ↔ '%' ∉ c.title.toList ∧ '%' ∉ f.name.toList := by
  have hsaid := h.percent_not_mem
  simp [Class.memberPath, String.toList_append, hsaid]

/-- Text of a schema in the code of its class. The tags in a file are those of its members, in their
order, and each says the name of its member, and that it may be left out where it is optional,
exactly if the name has neither a backquote nor a comma. The errors are those of members that are not
set and of values that are not of their kinds, each with one argument. Their formats, as the code
says them, are the path of the member, the report and one verb exactly if neither the title nor the
name has a percent sign, and then they make that text with the argument behind it. -/
theorem text_in_code (hobject : g.object? id = some (head, members))
    (h : unit? style g id = .ok u) :
    ∃ c, Class.ofNode? g id = .ok c ∧ u.contents = contents style g id c ∧
      c.title = head.titleText ∧
      List.Forall₂ (fun m f => f.name = m.name ∧ f.optional = m.optional) members c.fields ∧
      c.decls.flatMap Decl.tags = c.fields.map Field.tag ∧
      (∀ f ∈ c.fields, Tag.json? f.tag =
          some (f.name.toList, if f.optional then ["omitempty".toList] else []) ↔
        '\x60' ∉ f.name.toList ∧ ',' ∉ f.name.toList) ∧
      (∀ args ∈ c.decls.flatMap Decl.errors, ∃ f ∈ c.fields, ∃ said verb, Report f said verb ∧
        format? args = some (c.format f said verb)) ∧
      ∀ f ∈ c.fields, ∀ said verb, Report f said verb →
        (∃ args ∈ c.decls.flatMap Decl.errors, format? args = some (c.format f said verb)) ∧
        (Format.pieces 0 (c.format f said verb) =
            (c.memberPath f ++ said).toList.map .plain ++ [.directive [] (some verb)] ↔
          '%' ∉ c.title.toList ∧ '%' ∉ f.name.toList) ∧
        ('%' ∉ c.title.toList → '%' ∉ f.name.toList →
          ∀ (α : Type) (print : List Char → Char → α → List Char) (extra : List α → List Char)
            (a : α), Format.expand? print extra [a] (Format.pieces 0 (c.format f said verb)) =
              some ((c.memberPath f ++ said).toList ++ print [] verb a)) := by
  obtain ⟨c, hc, hu⟩ := Generation.bind_ok h
  obtain ⟨_, _, hobject', htitle, hfields⟩ := forall₂_fields hc
  rw [hobject] at hobject'
  cases hobject'
  have hcontents : u.contents = contents style g id c := by
    rw [← Except.ok.inj hu]
  refine ⟨c, hc, hcontents, htitle, ?_, tags_decls, fun f _ => Tag.json?_tag f,
    fun args => report_of_mem, fun f hf said verb hreport => ?_⟩
  · exact hfields.imp fun m f hfield => ⟨(field?_ok hfield).1, (field?_ok hfield).2.1⟩
  · have hpieces : Format.pieces 0 (c.format f said verb) =
        (c.memberPath f ++ said).toList.map .plain ++ [.directive [] (some verb)] ↔
        '%' ∉ (c.memberPath f ++ said).toList := Format.pieces_eq_iff hreport.isErrorVerb
    rw [percent_not_mem_iff hreport] at hpieces
    refine ⟨exists_report hf hreport, hpieces, fun htitle hname α print extra a => ?_⟩
    rw [hpieces.2 ⟨htitle, hname⟩]
    exact Format.expand?_plain hreport.isErrorVerb print extra a _

/-- A curve, whose label is optional, and whose points come as an array. -/
theorem text_in_code_curve : ∃ u, unit? ⟨.standard, ""⟩ curveGraph 5 = .ok u ∧
    u.contents = contents ⟨.standard, ""⟩ curveGraph 5 curveClass ∧
    (∃ f ∈ curveClass.fields,
      Tag.json? f.tag = some ("label".toList, ["omitempty".toList])) ∧
    ∀ (α : Type) (print : List Char → Char → α → List Char) (extra : List α → List Char) (a : α),
      Format.expand? print extra [a]
          (Format.pieces 0 "Curve.points: expected array, got %T".toList) =
        some ("Curve.points: expected array, got ".toList ++ print [] 'T' a) := by
  obtain ⟨u, hunit, -⟩ := exists_unit ⟨.standard, ""⟩ ofNode?_curve
  have hobject : curveGraph.object? 5 = some (_, _) := rfl
  obtain ⟨c, hc, hcontents, -, -, -, htags, -, hreports⟩ := text_in_code hobject hunit
  rw [ofNode?_curve] at hc
  cases hc
  have hlabel : ⟨"label", .string, true, some (.string "none")⟩ ∈ curveClass.fields := by
    simp [curveClass]
  have hpoints : ⟨"points", .list (.object "Point"), false, none⟩ ∈ curveClass.fields := by
    simp [curveClass]
  have hreport : Report ⟨"points", .list (.object "Point"), false, none⟩
      (": expected " ++ "array" ++ ", got ") 'T' := .mistyped List.mem_cons_self
  refine ⟨u, hunit, hcontents, ⟨_, hlabel, (htags _ hlabel).2 (by decide)⟩, ?_⟩
  exact (hreports _ hpoints _ _ hreport).2.2 (by decide) (by decide)

/-- A share, whose name has a percent sign, and a pair, whose name has a comma. -/
def shareGraph : Graph where
  nodes := #[
    ⟨⟨⟨none, none⟩, .leaf (.string none none)⟩, some 1, none, false⟩,
    ⟨⟨⟨none, none⟩, .object ⟨some "S", none, some "S", true, none⟩
      [⟨"100%", 0, false, 0, none⟩, ⟨"a,b", 1, true, 0, none⟩]⟩, none, none, false⟩]

def shareClass : Class := ⟨"S", [⟨"100%", .string, false, none⟩, ⟨"a,b", .string, true, none⟩]⟩

theorem ofNode?_share : Class.ofNode? shareGraph 1 = .ok shareClass := by
  have hshare : Naming.goPublic "100%" = "X_100" := by decide
  have hpair : Naming.goPublic "a,b" = "AB" := by decide
  have hfault : MemberNames.fault? "S" Naming.goPublic ["100%", "a,b"] = none := by
    simp [MemberNames.fault?, MemberNames.faultAmong?, hshare, hpair, List.lookup]
  have hobject : shareGraph.object? 1 = some (⟨some "S", none, some "S", true, none⟩,
      [⟨"100%", 0, false, 0, none⟩, ⟨"a,b", 1, true, 0, none⟩]) := rfl
  exact ofNode?_of_parts hobject rfl hfault rfl

/-- The error of a share that is not set shows its argument by a verb that is none, and misses one
for the verb that should show it. The tag of the pair says half of its name. -/
theorem text_lost_in_code : ∃ u, unit? ⟨.standard, ""⟩ shareGraph 1 = .ok u ∧
    u.contents = contents ⟨.standard, ""⟩ shareGraph 1 shareClass ∧
    (∃ args ∈ shareClass.decls.flatMap Decl.errors, format? args = some "S.100%: %s".toList) ∧
    (∀ (α : Type) (print : List Char → Char → α → List Char) (extra : List α → List Char) (a : α),
      Format.expand? print extra [a] (Format.pieces 0 "S.100%: %s".toList) =
        some ("S.100".toList ++ print [] ':' a ++ " %!s(MISSING)".toList)) ∧
    ∃ f ∈ shareClass.fields, f.name = "a,b" ∧
      Tag.json? f.tag = some ("a".toList, ["b".toList, "omitempty".toList]) := by
  obtain ⟨u, hunit, hcontents⟩ := exists_unit ⟨.standard, ""⟩ ofNode?_share
  have hshare : ⟨"100%", .string, false, none⟩ ∈ shareClass.fields := by simp [shareClass]
  have hpair : ⟨"a,b", .string, true, none⟩ ∈ shareClass.fields := by simp [shareClass]
  have hpieces : Format.pieces 0 "S.100%: %s".toList = "S.100".toList.map .plain ++
      [.directive [] (some ':'), .plain ' ', .directive [] (some 's')] := by decide
  refine ⟨u, hunit, hcontents, exists_report hshare (.unset rfl), fun α print extra a => ?_,
    _, hpair, rfl, by decide⟩
  rw [hpieces]
  simp [Format.expand?]

end SchemaForge.Go
