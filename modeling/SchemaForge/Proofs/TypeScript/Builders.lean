import Mathlib
import SchemaForge.Proofs.TypeScript.Accepted
import SchemaForge.Proofs.TypeScript.Identifiers
/-!
The members of builders, and the functions that read their lists. Private names and the names of
those functions are made from the names of the members in other ways than public names are, and are
distinct because public names are.
-/
namespace SchemaForge.TypeScript

variable {g : Graph} {id : NodeId} {c : Class} {f f' : Field} {style : Style} {u : CodeUnit}
  {head : ObjectHead} {members : List Member}

/-- The names that a member gives to values of a class: what makes them goes by one name, and what
belongs to the class as a whole by none. -/
def ClassMember.instanceNames : ClassMember → List String
  | field name _ | method name .. => [name]
  | init .. => ["constructor"]
  | static .. | blank => []

namespace Decl

/-- The names of the members that values of a class have, in the order of their declaration. -/
def instanceNames (type : String) : Decl → List String
  | «class» name _ members =>
    if name = type then members.flatMap ClassMember.instanceNames else []
  | _ => []

/-- The names of functions that a module keeps for itself. -/
def localFunctions : Decl → List String
  | function false name _ _ _ => [name]
  | _ => []

end Decl

namespace Class

theorem instanceNames_builderDecl (c : Class) :
    c.builderDecl.instanceNames (c.named "Builder") =
      "param" :: c.fields.map Field.privateName ++
        "constructor" :: builderMethods.tail ++ c.fields.map Field.publicName := by
  have hgaps (ms : List ClassMember) : (ms.flatMap fun m => [.blank, m]).flatMap
      ClassMember.instanceNames = ms.flatMap ClassMember.instanceNames := by
    have hblank : ClassMember.blank.instanceNames = [] := rfl
    simp [List.flatMap_assoc, hblank]
  have hattributes : (c.fields.map attributeMember).flatMap ClassMember.instanceNames =
      c.fields.map Field.privateName := by
    rw [List.flatMap_map, List.map_eq_flatMap]
    rfl
  have hsetters : (c.fields.map c.setterMember).flatMap ClassMember.instanceNames =
      c.fields.map Field.publicName := by
    rw [List.flatMap_map, List.map_eq_flatMap]
    rfl
  have hmethods : [c.constructorMember, c.coerceAttributeMember, c.coerceMember, c.getMember,
      c.toObjectMember, c.fromResultsMember, c.toPayloadMember].flatMap
        ClassMember.instanceNames = "constructor" :: builderMethods.tail := rfl
  rw [builderDecl, Decl.instanceNames, if_pos rfl, List.flatMap_append, List.flatMap_cons,
    hattributes, hgaps, List.flatMap_append, hmethods, hsetters]
  simp [ClassMember.instanceNames]

theorem coercionDecl?_eq (c : Class) (f : Field) :
    (c.coercionDecl? f).isSome = f.type.isList ∧ ∀ d ∈ c.coercionDecl? f,
      d.instanceNames (c.named "Builder") = [] ∧ d.localFunctions = [c.coercionName f] := by
  unfold coercionDecl?
  cases f.type with
  | list items =>
    refine ⟨rfl, fun d hd => ?_⟩
    cases hd
    exact ⟨rfl, rfl⟩
  | _ => exact ⟨rfl, fun d hd => nomatch hd⟩

/-- No other class of a module is its builder. -/
theorem instanceNames_decls (c : Class) :
    c.decls.flatMap (Decl.instanceNames (c.named "Builder")) =
      c.builderDecl.instanceNames (c.named "Builder") := by
  have hother : c.named "FactoryImpl" ≠ c.named "Builder" := by
    simp [named, String.append_right_inj]
  have hcoercions : (c.fields.filterMap c.coercionDecl?).flatMap
      (Decl.instanceNames (c.named "Builder")) = [] := by
    rw [List.flatMap_eq_nil_iff]
    intro d hd
    obtain ⟨f, -, hdecl⟩ := List.mem_filterMap.1 hd
    exact ((coercionDecl?_eq c f).2 d hdecl).1
  simp only [decls, List.flatMap_append, List.flatMap_cons, hcoercions]
  simp [viewDecl, paramDecl, wireDecl, toObjectDecl, getterDecl, schemaDecl, resultsDecl,
    coerceTypeDecl, namesDecl, factoryClassDecl, factoryDecl, Decl.instanceNames, hother]

/-- A module has a function of its own for each list that a field holds. -/
theorem localFunctions_decls (c : Class) :
    c.decls.flatMap Decl.localFunctions =
      (c.fields.filter fun f => f.type.isList).map c.coercionName := by
  have hcoercions : ∀ fields : List Field,
      (fields.filterMap c.coercionDecl?).flatMap Decl.localFunctions =
        (fields.filter fun f => f.type.isList).map c.coercionName := by
    intro fields
    induction fields with
    | nil => rfl
    | cons f fields ih =>
      obtain ⟨hsome, hname⟩ := coercionDecl?_eq c f
      cases hdecl : c.coercionDecl? f with
      | none =>
        rw [hdecl] at hsome
        rw [List.filterMap_cons_none hdecl, ih, List.filter_cons_of_neg (by simp [← hsome])]
      | some d =>
        rw [hdecl] at hsome
        rw [List.filterMap_cons_some hdecl, List.flatMap_cons, (hname d hdecl).2, ih,
          List.filter_cons_of_pos (by simp [← hsome])]
        rfl
  simp only [decls, List.flatMap_append, List.flatMap_cons, hcoercions]
  simp [viewDecl, paramDecl, wireDecl, toObjectDecl, getterDecl, schemaDecl, resultsDecl,
    coerceTypeDecl, namesDecl, factoryClassDecl, factoryDecl, builderDecl, Decl.localFunctions]

end Class

section names

/-- Each field has a private name of its own, since it has a public one. -/
theorem nodup_privateNames (h : Class.ofNode? g id = .ok c) :
    (c.fields.map Field.privateName).Nodup := by
  have hpublic := nodup_publicNames h
  rw [List.Nodup, List.pairwise_map] at hpublic ⊢
  exact hpublic.imp fun hne heq => hne (Naming.tsPublic_eq_of_tsPrivate_eq heq)

/-- Fields whose lists a function of one name reads have one public name. -/
theorem publicName_eq_of_coercionName_eq (h : c.coercionName f = c.coercionName f') :
    f.publicName = f'.publicName := by
  have hlist := congrArg String.toList h
  rw [Class.coercionName, Class.coercionName, Naming.toList_tsPublic_marked,
    Naming.toList_tsPublic_marked, List.append_cancel_left_eq, List.cons.injEq,
    List.append_cancel_right_eq] at hlist
  exact Naming.tsPublic_eq_of_squash_eq hlist.2

/-- The functions that read lists have names of their own. -/
theorem nodup_coercionNames (h : Class.ofNode? g id = .ok c) :
    ((c.fields.filter fun f => f.type.isList).map c.coercionName).Nodup := by
  have hpublic : ((c.fields.filter fun f => f.type.isList).map Field.publicName).Nodup :=
    (nodup_publicNames h).sublist (List.filter_sublist.map _)
  rw [List.Nodup, List.pairwise_map] at hpublic ⊢
  exact hpublic.imp fun hne heq => hne (publicName_eq_of_coercionName_eq heq)

/-- Private names start with `_`. -/
theorem head?_privateName (f : Field) : f.privateName.toList.head? = some '_' := by
  rw [Field.privateName, Naming.tsPrivate, String.toList_ofList]
  rfl

/-- The members of a builder have different names exactly if no field takes the name of what makes
builders. -/
theorem nodup_builderNames_iff (h : Class.ofNode? g id = .ok c) :
    ("param" :: c.fields.map Field.privateName ++ "constructor" :: builderMethods.tail ++
        c.fields.map Field.publicName).Nodup ↔ "constructor" ∉ c.fields.map Field.publicName := by
  have hprivate : ∀ x ∈ c.fields.map Field.privateName, x.toList.head? = some '_' :=
    List.forall_mem_map.2 fun f _ => head?_privateName f
  have hpublic : ∀ x ∈ c.fields.map Field.publicName, x.toList.head? ≠ some '_' ∧
      x ∉ builderMethods :=
    List.forall_mem_map.2 fun f hf =>
      ⟨Naming.head?_tsPublic_ne f.name, publicName_not_method h hf⟩
  have hmethods : ∀ x ∈ "constructor" :: builderMethods, x.toList.head? ≠ some '_' := by decide
  have horder : ("param" :: c.fields.map Field.privateName ++ "constructor" :: builderMethods.tail ++
      c.fields.map Field.publicName).Perm ((c.fields.map Field.privateName ++
        c.fields.map Field.publicName) ++ "constructor" :: builderMethods) := by
    rw [List.perm_iff_count]
    intro x
    simp only [builderMethods, List.count_append, List.count_cons, List.tail_cons]
    omega
  have hnames : (c.fields.map Field.privateName ++ c.fields.map Field.publicName).Nodup := by
    rw [List.nodup_append']
    exact ⟨nodup_privateNames h, nodup_publicNames h,
      fun x hx hx' => (hpublic x hx').1 (hprivate x hx)⟩
  rw [horder.nodup_iff, Naming.nodup_append_iff hnames (by decide), List.forall_mem_append]
  constructor
  · rintro ⟨-, hfree⟩ hmem
    exact hfree _ hmem List.mem_cons_self
  · intro hfree
    refine ⟨fun x hx hx' => hmethods x hx' (hprivate x hx), fun x hx => ?_⟩
    rw [List.mem_cons, not_or]
    exact ⟨fun heq => hfree (heq ▸ hx), (hpublic x hx).2⟩

end names

/-- In the module of an object the values of its builder have members of different names exactly if
no member of the object is named `constructor`, and the functions that read its lists have different
names in any case. -/
theorem nodup_builder_members (hobject : g.object? id = some (head, members))
    (h : unit? style g id = .ok u) :
    ∃ c, Class.ofNode? g id = .ok c ∧ u.contents = contents style g id c ∧
      c.decls.flatMap (Decl.instanceNames (c.named "Builder")) =
        "param" :: members.map (fun m => Naming.tsPrivate m.name) ++
          "constructor" :: builderMethods.tail ++ members.map (fun m => Naming.tsPublic m.name) ∧
      ((c.decls.flatMap (Decl.instanceNames (c.named "Builder"))).Nodup ↔
        ∀ m ∈ members, Naming.tsPublic m.name ≠ "constructor") ∧
      c.decls.flatMap Decl.localFunctions =
        (c.fields.filter fun f => f.type.isList).map c.coercionName ∧
      (c.decls.flatMap Decl.localFunctions).Nodup := by
  obtain ⟨c, hc, -, hcontents⟩ := unit?_ok h
  have hpublic : c.fields.map Field.publicName = members.map fun m => Naming.tsPublic m.name :=
    map_names_eq Naming.tsPublic hobject hc
  have hprivate : c.fields.map Field.privateName = members.map fun m => Naming.tsPrivate m.name :=
    map_names_eq Naming.tsPrivate hobject hc
  have hbuilder := c.instanceNames_decls.trans c.instanceNames_builderDecl
  have hfunctions := nodup_coercionNames hc
  rw [← c.localFunctions_decls] at hfunctions
  refine ⟨c, hc, hcontents, ?_, ?_, c.localFunctions_decls, hfunctions⟩
  · rw [hbuilder, hpublic, hprivate]
  · rw [hbuilder, nodup_builderNames_iff hc, hpublic]
    simp

/-- The builder of a route has members of different names. -/
theorem nodup_builder_members_route : ∃ c u, unit? ⟨.standard, ""⟩ routeGraph 5 = .ok u ∧
    u.contents = contents ⟨.standard, ""⟩ routeGraph 5 c ∧
    (c.decls.flatMap (Decl.instanceNames (c.named "Builder"))).Nodup ∧
    (c.decls.flatMap Decl.localFunctions).Nodup := by
  obtain ⟨u, hu, -⟩ := exists_unit ⟨.standard, ""⟩ ofNode?_route
  obtain ⟨c, -, hcontents, -, hmembers, -, hfunctions⟩ :=
    nodup_builder_members (show routeGraph.object? 5 = some _ from rfl) hu
  exact ⟨c, u, hu, hcontents, hmembers.2 (by decide), hfunctions⟩

/-- A member may take the name of what makes values of a class: its module is written with two
members of that name in the builder. -/
theorem two_constructors : ∃ u, unit? ⟨.standard, ""⟩ (soloGraph "S" "constructor") 1 = .ok u ∧
    u.contents = contents ⟨.standard, ""⟩ (soloGraph "S" "constructor") 1
      (soloClass "S" "constructor") ∧
    (soloClass "S" "constructor").decls.flatMap
        (Decl.instanceNames ((soloClass "S" "constructor").named "Builder")) =
      ["param", "_constructor", "constructor", "CoerceAttribute", "Coerce", "Get", "ToObject",
        "ToPayload", "constructor"] := by
  have hclass := ofNode?_solo "S" "constructor" rfl (by decide) (by decide)
  obtain ⟨u, hu, hcontents⟩ := exists_unit ⟨.standard, ""⟩ hclass
  have hpublic : (soloClass "S" "constructor").fields.map Field.publicName = ["constructor"] := by
    decide
  have hprivate : (soloClass "S" "constructor").fields.map Field.privateName =
      ["_constructor"] := by
    decide
  refine ⟨u, hu, hcontents, ?_⟩
  rw [Class.instanceNames_decls, Class.instanceNames_builderDecl, hpublic, hprivate]
  rfl

end SchemaForge.TypeScript
