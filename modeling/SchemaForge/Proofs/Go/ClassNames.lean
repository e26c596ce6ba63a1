import SchemaForge.Proofs.Go.Comparing
/-! The names of a class and of what belongs to it, and the functions that are found by them. -/
namespace SchemaForge.Go

variable {classes : List Class} {c c' : Class} {f : Field} {title : String} {g : Graph}
  {root : NodeId} {vs : List Value} {fields : List (String × Value)}

section names

theorem isWord_of (word : String) (h : (match word.toList with
    | [] => false
    | c :: cs => c.isUpper && (c :: cs).all Char.isAlphanum) = true) :
    Naming.IsWord word.toList := by
  cases hword : word.toList with
  | nil => simp [hword] at h
  | cons c cs =>
    rw [hword] at h
    obtain ⟨hupper, hall⟩ := Bool.and_eq_true_iff.1 h
    exact ⟨c, cs, rfl, hupper, List.all_eq_true.1 hall⟩

theorem typeName_builder (title : String) :
    typeName title "Builder" = Naming.goPublic title ++ "Builder" :=
  Naming.goPublic_append (isWord_of _ (by decide)) title

theorem typeName_factory (title : String) :
    typeName title "Factory" = Naming.goPublic title ++ "Factory" :=
  Naming.goPublic_append (isWord_of _ (by decide)) title

theorem typeName_class (title : String) :
    typeName title "Class" = Naming.goPublic title ++ "Class" :=
  Naming.goPublic_append (isWord_of _ (by decide)) title

/-- Titles belong to one class where they make one identifier. -/
theorem goPrivate_impl_iff {a b : String} :
    Naming.goPrivate (a ++ "Impl") = Naming.goPrivate (b ++ "Impl") ↔
      Naming.goPublic a = Naming.goPublic b := by
  have hword : Naming.IsWord "Impl".toList := isWord_of _ (by decide)
  rw [Naming.goPrivate_eq_iff, Naming.goPublic_append hword, Naming.goPublic_append hword,
    String.append_left_inj]

theorem builderName_eq_iff : c.builderName = c'.builderName ↔ c.implName = c'.implName := by
  rw [Class.builderName, Class.builderName, typeName_builder, typeName_builder, Class.implName,
    Class.implName, goPrivate_impl_iff, String.append_left_inj]

theorem factoryName_eq_iff : c.factoryName = c'.factoryName ↔ c.implName = c'.implName := by
  rw [Class.factoryName, Class.factoryName, typeName_factory, typeName_factory, Class.implName,
    Class.implName, goPrivate_impl_iff, String.append_left_inj]

theorem builderName_ne_factoryName : c.builderName ≠ c'.factoryName := by
  intro h
  rw [Class.builderName, Class.factoryName, typeName_builder, typeName_factory] at h
  have hlast := congrArg (fun s : String => s.toList.getLast?) h
  simp at hlast

theorem implName_ne_builderName : c.implName ≠ c'.builderName := by
  have hne : typeName c'.title "Builder" ≠ "" := by
    rw [typeName_builder]
    simp
  exact Naming.goPrivate_ne_goPublic hne

theorem implName_ne_factoryName : c.implName ≠ c'.factoryName := by
  have hne : typeName c'.title "Factory" ≠ "" := by
    rw [typeName_factory]
    simp
  exact Naming.goPrivate_ne_goPublic hne

/-- The factory of the class of a title. -/
theorem factoryName_of_classOf (hc : classOf classes title = some c) :
    c.factoryName = typeName title "Factory" := by
  have himpl : Naming.goPrivate (c.title ++ "Impl") = Naming.goPrivate (title ++ "Impl") :=
    implName_of_classOf hc
  rw [Class.factoryName, typeName_factory, typeName_factory, goPrivate_impl_iff.1 himpl]

end names

section functions

/-- The code of a class that its maps go through. -/
def Class.mappingDecls (c : Class) : List Decl :=
  c.asMapDecl :: (c.builderDecls ++ c.factoryDecls)

def mappingDecls (classes : List Class) : List Decl := classes.flatMap Class.mappingDecls

/-- A struct that is none of a class has no methods there. -/
theorem find?_foreign {type : String} (himpl : type ≠ c.implName) (hbuilder : type ≠ c.builderName)
    (hfactory : type ≠ c.factoryName) (name : String) (arity : Nat) :
    c.mappingDecls.find? (·.answers (some (.struct type fields)) name arity) = none := by
  simp [Class.mappingDecls, Class.asMapDecl, Class.implMethod, Class.builderDecls,
    Class.builderDecl, Class.newBuilderDecl, Class.setterDecl, Class.isValidDecl, Class.toClassDecl,
    Class.builderMethod, Class.factoryDecls, Class.fromMapDecl, Class.factoryMethod, Decl.answers,
    himpl, hbuilder, hfactory]

/-- A class has no functions but for those that make its builders and its factory. -/
theorem find?_function {name : String} (hbuilder : name ≠ "New" ++ c.builderName)
    (hfactory : name ≠ "New" ++ c.factoryName) :
    c.mappingDecls.find? (·.answers none name 0) = none := by
  simp [Class.mappingDecls, Class.asMapDecl, Class.implMethod, Class.builderDecls,
    Class.builderDecl, Class.newBuilderDecl, Class.setterDecl, Class.isValidDecl, Class.toClassDecl,
    Class.builderMethod, Class.factoryDecls, Class.fromMapDecl, Class.factoryMethod, Decl.answers,
    Ne.symm hbuilder, Ne.symm hfactory]

theorem find?_impl (hne : c'.implName ≠ c.implName) (name : String) (arity : Nat) :
    c'.mappingDecls.find? (·.answers (some (.struct c.implName fields)) name arity) = none :=
  find?_foreign (Ne.symm hne) implName_ne_builderName implName_ne_factoryName name arity

theorem find?_factory (hne : c'.implName ≠ c.implName) (name : String) (arity : Nat) :
    c'.mappingDecls.find? (·.answers (some (.struct c.factoryName fields)) name arity) = none :=
  find?_foreign implName_ne_factoryName.symm builderName_ne_factoryName.symm
    (fun h => hne (factoryName_eq_iff.1 h.symm)) name arity

theorem new_builder_ne_new_factory : "New" ++ c.builderName ≠ "New" ++ c'.factoryName :=
  fun h => builderName_ne_factoryName ((String.append_right_inj _).1 h)

/-- Setters take a value. -/
theorem find?_setters_zero (receiver : Option Value) (name : String) :
    (c.fields.map c.setterDecl).find? (·.answers receiver name 0) = none := by
  simp [Class.setterDecl, Class.builderMethod, Decl.answers]

theorem mappingDecls_parts : c.mappingDecls = [c.asMapDecl, c.builderDecl, c.newBuilderDecl] ++
    c.fields.map c.setterDecl ++ (c.isValidDecl :: c.toClassDecl :: c.factoryDecls) := by
  simp [Class.mappingDecls, Class.builderDecls]

/-- What is found after the setters. -/
theorem find?_after {p : Decl → Bool} {d : Decl}
    (hbefore : [c.asMapDecl, c.builderDecl, c.newBuilderDecl].find? p = none)
    (hsetters : (c.fields.map c.setterDecl).find? p = none)
    (hafter : (c.isValidDecl :: c.toClassDecl :: c.factoryDecls).find? p = some d) :
    c.mappingDecls.find? p = some d := by
  rw [mappingDecls_parts, List.find?_append, List.find?_append, hbefore, hsetters, hafter]
  rfl

theorem find?_asMap (hc : classOf classes title = some c) (vs : List Value) :
    (mappingDecls classes).find? (·.answers (some (c.object vs)) "AsMap" 0) =
      some (.method "my" c.implName Class.asMapSignature
        (.define ["res"] (.empty .anyMap) :: c.fields.flatMap mapField ++
          [.ret (.name "res")])) := by
  apply find?_of_classOf hc
  · simp [Class.mappingDecls, Class.asMapDecl, Class.implMethod, Decl.answers, Class.object,
      Class.asMapSignature]
  · exact fun c' hne => find?_impl hne _ _

theorem find?_newFactory (hc : classOf classes title = some c) :
    (mappingDecls classes).find? (·.answers none ("New" ++ c.factoryName) 0) =
      some (.function ⟨"New" ++ c.factoryName, [], some (.pointer (.named c.factoryName))⟩
        [.ret (.address (.empty (.named c.factoryName)))]) := by
  apply find?_of_classOf hc
  · apply find?_after
    · simp [Class.asMapDecl, Class.implMethod, Class.builderDecl, Class.newBuilderDecl,
        Decl.answers, builderName_ne_factoryName]
    · exact find?_setters_zero _ _
    · simp [Class.isValidDecl, Class.toClassDecl, Class.builderMethod, Class.factoryDecls,
        Decl.answers]
  · intro c' hne
    refine find?_function new_builder_ne_new_factory.symm (fun h => hne ?_)
    exact (factoryName_eq_iff.1 ((String.append_right_inj _).1 h)).symm

theorem find?_factoryBuilder (hc : classOf classes title = some c) :
    (mappingDecls classes).find? (·.answers (some (.struct c.factoryName fields)) "Builder" 0) =
      some (.method "f" c.factoryName ⟨"Builder", [], some c.builderType⟩
        [.ret (.call (.name ("New" ++ c.builderName)) [])]) := by
  apply find?_of_classOf hc
  · have hne : c.factoryName ≠ c.implName := implName_ne_factoryName.symm
    apply find?_after
    · simp [Class.asMapDecl, Class.implMethod, Class.builderDecl, Class.newBuilderDecl,
        Decl.answers, hne]
    · exact find?_setters_zero _ _
    · simp [Class.isValidDecl, Class.toClassDecl, Class.builderMethod, Class.factoryDecls,
        Class.factoryMethod, Decl.answers]
  · exact fun c' hne => find?_factory hne _ _

theorem find?_fromMap (hc : classOf classes title = some c) :
    (mappingDecls classes).find? (·.answers (some (.struct c.factoryName fields)) "FromMap" 1) =
      some c.fromMapDecl := by
  apply find?_of_classOf hc
  · have hne : c.factoryName ≠ c.implName := implName_ne_factoryName.symm
    have hne' : c.factoryName ≠ c.builderName := builderName_ne_factoryName.symm
    apply find?_after
    · simp [Class.asMapDecl, Class.implMethod, Class.builderDecl, Class.newBuilderDecl,
        Decl.answers, hne]
    · simp [Class.setterDecl, Class.builderMethod, Decl.answers, hne']
    · simp [Class.isValidDecl, Class.toClassDecl, Class.builderMethod, Class.factoryDecls,
        Class.factoryMethod, Class.fromMapDecl, Decl.answers]
  · exact fun c' hne => find?_factory hne _ _

end functions

section builders

variable {signature : Signature} {body : List Stmt} {part before after : Class → List Decl}
  {d : Decl}

/-- A declaration that is no function of the builder of a class. -/
structure Decl.BesideBuilder (c : Class) (d : Decl) : Prop where
  method : ∀ slots name arity, d.answers (some (.struct c.builderName slots)) name arity = false
  function : d.answers none ("New" ++ c.builderName) 0 = false

theorem besideBuilder_implMethod (c' : Class) :
    (c'.implMethod signature body).BesideBuilder c :=
  ⟨fun _ _ _ => by simp [Class.implMethod, Decl.answers, implName_ne_builderName.symm],
    by simp [Class.implMethod, Decl.answers]⟩

theorem besideBuilder_factoryMethod (c' : Class) :
    (c'.factoryMethod signature body).BesideBuilder c :=
  ⟨fun _ _ _ => by simp [Class.factoryMethod, Decl.answers, builderName_ne_factoryName],
    by simp [Class.factoryMethod, Decl.answers]⟩

theorem besideBuilder_builderMethod {c' : Class} (hne : c'.implName ≠ c.implName) :
    (c'.builderMethod signature body).BesideBuilder c := by
  have hbuilder : c.builderName ≠ c'.builderName := fun h => hne (builderName_eq_iff.1 h.symm)
  exact ⟨fun _ _ _ => by simp [Class.builderMethod, Decl.answers, hbuilder],
    by simp [Class.builderMethod, Decl.answers]⟩

theorem besideBuilder_typeDecls (c c' : Class) : ∀ d ∈ c'.typeDecls, d.BesideBuilder c := by
  intro d hd
  rcases List.mem_append.1 hd with hd | hd
  · simp only [List.mem_cons, List.not_mem_nil, or_false] at hd
    rcases hd with rfl | rfl | rfl | rfl <;> exact ⟨fun _ _ _ => rfl, rfl⟩
  · obtain ⟨f, -, rfl⟩ := List.mem_map.1 hd
    exact besideBuilder_implMethod c'

theorem besideBuilder_factoryDecls (c c' : Class) : ∀ d ∈ c'.factoryDecls, d.BesideBuilder c := by
  intro d hd
  simp only [Class.factoryDecls, List.mem_cons, List.not_mem_nil, or_false] at hd
  rcases hd with rfl | rfl | rfl | rfl
  · exact ⟨fun _ _ _ => rfl, rfl⟩
  · exact ⟨fun _ _ _ => rfl, by simp [Decl.answers, builderName_ne_factoryName.symm]⟩
  · exact besideBuilder_factoryMethod c'
  · exact besideBuilder_factoryMethod c'

theorem besideBuilder_builderDecls {c' : Class} (hne : c'.implName ≠ c.implName) :
    ∀ d ∈ c'.builderDecls, d.BesideBuilder c := by
  have hbuilder : c'.builderName ≠ c.builderName := fun h => hne (builderName_eq_iff.1 h)
  intro d hd
  simp only [Class.builderDecls, List.mem_append, List.mem_cons, List.not_mem_nil, or_false] at hd
  rcases hd with ((rfl | rfl) | hd) | rfl | rfl
  · exact ⟨fun _ _ _ => rfl, rfl⟩
  · exact ⟨fun _ _ _ => rfl, by simp [Class.newBuilderDecl, Decl.answers, hbuilder]⟩
  · obtain ⟨f, -, rfl⟩ := List.mem_map.1 hd
    exact besideBuilder_builderMethod hne
  · exact besideBuilder_builderMethod hne
  · exact besideBuilder_builderMethod hne

/-- Declarations among which the functions of builders of a class are found, where each attribute
has a name of its own and defaults are literals. -/
structure Class.BuiltBy (c : Class) (decls : List Decl) : Prop where
  names : (c.fields.map Field.privateName).Nodup
  defaults : ∀ f ∈ c.fields, ∀ d, f.default = some d → ∃ v, Value.ofJson d = some v
  newBuilder : decls.find? (·.answers none ("New" ++ c.builderName) 0) = some c.newBuilderDecl
  setter : ∀ f ∈ c.fields, ∀ slots,
    decls.find? (·.answers (some (.struct c.builderName slots)) f.publicName 1) =
      some (c.setterDecl f)
  isValid : ∀ slots, decls.find? (·.answers (some (.struct c.builderName slots)) "IsValid" 0) =
    some c.isValidDecl
  toClass : ∀ slots, decls.find? (·.answers (some (.struct c.builderName slots)) "ToClass" 0) =
    some c.toClassDecl

theorem find?_builderSetter (hnames : (c.fields.map Field.publicName).Nodup) (hf : f ∈ c.fields) :
    c.builderDecls.find? (·.answers (some (.struct c.builderName fields)) f.publicName 1) =
      some (c.setterDecl f) := by
  have hanswers : (fun f' => Decl.answers (some (.struct c.builderName fields)) f.publicName 1
      (c.setterDecl f')) = fun f' => f'.publicName == f.publicName := by
    funext f'
    simp [Class.setterDecl, Class.builderMethod, Decl.answers]
  have hsetters : (c.fields.map c.setterDecl).find?
      (·.answers (some (.struct c.builderName fields)) f.publicName 1) = some (c.setterDecl f) := by
    rw [List.find?_map, Function.comp_def, hanswers, find?_publicName hnames hf]
    rfl
  have hbefore : [c.builderDecl, c.newBuilderDecl].find?
      (·.answers (some (.struct c.builderName fields)) f.publicName 1) = none := by
    simp [Class.builderDecl, Class.newBuilderDecl, Decl.answers]
  rw [Class.builderDecls, List.find?_append, List.find?_append, hbefore, hsetters]
  rfl

/-- What is found after the setters of a builder. -/
theorem find?_afterSetters {name : String}
    (hafter : [c.isValidDecl, c.toClassDecl].find?
      (·.answers (some (.struct c.builderName fields)) name 0) = some d) :
    c.builderDecls.find? (·.answers (some (.struct c.builderName fields)) name 0) = some d := by
  have hbefore : [c.builderDecl, c.newBuilderDecl].find?
      (·.answers (some (.struct c.builderName fields)) name 0) = none := by
    simp [Class.builderDecl, Class.newBuilderDecl, Decl.answers]
  rw [Class.builderDecls, List.find?_append, List.find?_append, hbefore, find?_setters_zero, hafter]
  rfl

/-- The functions of a builder are found in each class's own part of a package. -/
theorem builtBy_flatMap (hpart : ∀ c, part c = before c ++ c.builderDecls ++ after c)
    (hbeside : ∀ c c', ∀ d ∈ before c' ++ after c', d.BesideBuilder c)
    (h : Class.ofNode? g root = .ok c) (hc : classOf classes title = some c) :
    c.BuiltBy (classes.flatMap part) := by
  have hfound {query : Decl → Bool} {d : Decl} (hquery : ∀ d, d.BesideBuilder c → query d = false)
      (hfind : c.builderDecls.find? query = some d) :
      (classes.flatMap part).find? query = some d := by
    apply find?_of_classOf hc
    · have hbefore : (before c).find? query = none := by
        rw [List.find?_eq_none]
        intro d hd
        simp [hquery d (hbeside c c d (List.mem_append_left _ hd))]
      rw [hpart, List.find?_append, List.find?_append, hbefore, hfind]
      rfl
    · intro c' hne
      rw [List.find?_eq_none]
      intro d hd
      rw [hpart] at hd
      have : d.BesideBuilder c := by
        rcases List.mem_append.1 hd with hd | hd
        · rcases List.mem_append.1 hd with hd | hd
          · exact hbeside c c' d (List.mem_append_left _ hd)
          · exact besideBuilder_builderDecls hne d hd
        · exact hbeside c c' d (List.mem_append_right _ hd)
      simp [hquery d this]
  refine ⟨nodup_privateNames h, fun f hf d hd => ofJson_of_default h hf hd, ?_, ?_, ?_, ?_⟩
  · apply hfound fun d hd => hd.function
    simp [Class.builderDecls, Class.builderDecl, Class.newBuilderDecl, Decl.answers]
  · intro f hf slots
    exact hfound (fun d hd => hd.method slots _ _) (find?_builderSetter (nodup_publicNames h) hf)
  · intro slots
    refine hfound (fun d hd => hd.method slots _ _) (find?_afterSetters ?_)
    simp [Class.isValidDecl, Class.builderMethod, Decl.answers]
  · intro slots
    refine hfound (fun d hd => hd.method slots _ _) (find?_afterSetters ?_)
    simp [Class.isValidDecl, Class.toClassDecl, Class.builderMethod, Decl.answers]

theorem builtBy_mappingDecls (h : Accepted g root classes) (hc : classOf classes title = some c) :
    c.BuiltBy (mappingDecls classes) := by
  obtain ⟨id, -, hclass⟩ := h.nodeOfClass c (mem_of_classOf hc)
  have hbeside : ∀ c c' : Class, ∀ d ∈ [c'.asMapDecl] ++ c'.factoryDecls, d.BesideBuilder c := by
    intro c c' d hd
    rcases List.mem_append.1 hd with hd | hd
    · rw [List.mem_singleton.1 hd]
      exact besideBuilder_implMethod c'
    · exact besideBuilder_factoryDecls c c' d hd
  exact builtBy_flatMap (fun c => rfl) hbeside hclass hc

/-- The code of classes that are in one package. -/
def packageDecls (classes : List Class) : List Decl := classes.flatMap Class.decls

theorem builtBy_packageDecls (h : Class.ofNode? g root = .ok c)
    (hc : classOf classes title = some c) : c.BuiltBy (packageDecls classes) := by
  have hparts : ∀ c : Class, c.decls = c.typeDecls ++ c.builderDecls ++
      ([c.cloneDecl, c.lessDecl, c.hashDecl, c.asMapDecl] ++ c.factoryDecls) :=
    fun c => List.append_assoc _ _ _
  have hbeside : ∀ c c' : Class, ∀ d ∈ c'.typeDecls ++
      ([c'.cloneDecl, c'.lessDecl, c'.hashDecl, c'.asMapDecl] ++ c'.factoryDecls),
      d.BesideBuilder c := by
    intro c c' d hd
    rcases List.mem_append.1 hd with hd | hd
    · exact besideBuilder_typeDecls c c' d hd
    · rcases List.mem_append.1 hd with hd | hd
      · simp only [List.mem_cons, List.not_mem_nil, or_false] at hd
        rcases hd with rfl | rfl | rfl | rfl <;> exact besideBuilder_implMethod c'
      · exact besideBuilder_factoryDecls c c' d hd
  exact builtBy_flatMap hparts hbeside h hc

end builders

end SchemaForge.Go
