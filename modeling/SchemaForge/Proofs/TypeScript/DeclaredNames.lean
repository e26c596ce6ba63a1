import Mathlib
import SchemaForge.Proofs.TypeScript.Accepted
import SchemaForge.Proofs.TypeScript.Identifiers
/-!
The names that a module declares. They are identifiers exactly if the name of the object is one:
unless the titles around the object start with a digit, or are a reserved word, or are no name at
all.
-/
namespace SchemaForge

/-- The titles of the objects around a node and its own, as its name is made of them. -/
def Graph.titlePath (g : Graph) (id : NodeId) : String :=
  "$".intercalate (g.titlesOutwards (g.size + 1) id).reverse

namespace TypeScript

open Naming

variable {g : Graph} {id : NodeId} {c : Class} {style : Style} {u : CodeUnit} {head : ObjectHead}
  {members : List Member} {d : Decl} {a b : String}

/-- The name that a declaration declares. -/
def Decl.name : Decl → String
  | interface _ name _ | «alias» name _ | function _ name _ _ _ | literal _ name _ _
  | «class» name _ _ | constant name _ => name

/-- What the names of types and values have behind the name of their object. -/
def suffixes : List String :=
  ["", "Param", "Object", "ToObject", "Getter", "Schema", "Results", "CoerceType", "Builder",
    "FactoryImpl", "Factory"]

theorem isTsChar_of_suffix {suffix : String} (h : suffix ∈ suffixes) :
    ∀ c ∈ suffix.toList, isTsChar c = true := by
  have hall : suffixes.all (fun suffix => suffix.toList.all isTsChar) = true := by decide
  simpa using List.all_eq_true.1 hall suffix h

/-- A module declares the name of its object with each suffix, that of its table of names, and those
of functions for lists. -/
theorem name_of_mem_decls (hd : d ∈ c.decls) : (∃ suffix ∈ suffixes, d.name = c.named suffix) ∨
    d.name = c.namesName ∨ ∃ f ∈ c.fields, d.name = c.coercionName f := by
  have hsuffix {d : Decl} (suffix : String) (h : suffix ∈ suffixes)
      (hname : d.name = c.named suffix) : ∃ suffix ∈ suffixes, d.name = c.named suffix := ⟨suffix, h, hname⟩
  have hown : c.name = c.named "" := (String.append_empty ..).symm
  simp only [Class.decls, List.mem_append, List.mem_cons, List.not_mem_nil, or_false] at hd
  rcases hd with (hd | hd) | hd
  · left
    rcases hd with rfl | rfl | rfl | rfl | rfl | rfl | rfl | rfl
    · exact hsuffix "" (by decide) hown
    · exact hsuffix "Param" (by decide) rfl
    · exact hsuffix "Object" (by decide) rfl
    · exact hsuffix "ToObject" (by decide) rfl
    · exact hsuffix "Getter" (by decide) rfl
    · exact hsuffix "Schema" (by decide) rfl
    · exact hsuffix "Results" (by decide) rfl
    · exact hsuffix "CoerceType" (by decide) rfl
  · obtain ⟨f, hf, hdecl⟩ := List.mem_filterMap.1 hd
    refine Or.inr (Or.inr ⟨f, hf, ?_⟩)
    unfold Class.coercionDecl? at hdecl
    split at hdecl
    · cases hdecl
      rfl
    · cases hdecl
  · rcases hd with rfl | rfl | rfl | rfl
    · exact Or.inl (hsuffix "Builder" (by decide) rfl)
    · exact Or.inr (Or.inl rfl)
    · exact Or.inl (hsuffix "FactoryImpl" (by decide) rfl)
    · exact Or.inl (hsuffix "Factory" (by decide) rfl)

/-- The name of a table of names is an identifier if what stands in it can stand in one. -/
theorem isIdentifier_namesName (h : isIdentifier c.name = true) :
    isIdentifier c.namesName = true := by
  refine isIdentifier_iff.2 ⟨'_', c.name.toList ++ "Names".toList, ?_, by decide, ?_⟩
  · simp [Class.namesName, Class.named]
  · exact List.forall_mem_append.2 ⟨isTsChar_of_isIdentifier h,
      isTsChar_of_isIdentifier (show isIdentifier "Names" = true by decide)⟩

/-- The names that a module declares are identifiers exactly if that of its object is. -/
theorem isIdentifier_decls_iff (h : c.name = tsPublic a) :
    (∀ d ∈ c.decls, isIdentifier d.name = true) ↔ isIdentifier c.name = true := by
  constructor
  · intro hall
    exact hall c.viewDecl (by simp [Class.decls])
  · intro hname d hd
    rcases name_of_mem_decls hd with ⟨suffix, hsuffix, heq⟩ | heq | ⟨f, -, heq⟩
    · rw [heq]
      exact isIdentifier_append hname (isTsChar_of_suffix hsuffix)
    · rw [heq]
      exact isIdentifier_namesName hname
    · rw [heq, Class.coercionName, h]
      exact isIdentifier_marked (h ▸ hname) f.name

/-- In the module of an object the public name of a member is an identifier or stands in quotes
exactly if it leads with no digit. The names that the module declares, which are that of the object
and what is made of it, are identifiers exactly if the titles of the object lead with a character
that is no digit and are no reserved word. -/
theorem wellFormed_names (hobject : g.object? id = some (head, members))
    (h : unit? style g id = .ok u) :
    ∃ c, Class.ofNode? g id = .ok c ∧ u.contents = contents style g id c ∧
      (∀ m ∈ members, ∃ first, lead? m.name = some first ∧
        ((isIdentifier (tsPublic m.name) = true ∨ IsQuoted (tsPublic m.name)) ↔
          first.isDigit = false)) ∧
      ((∀ d ∈ c.decls, isIdentifier d.name = true) ↔
        (∃ first, lead? (g.titlePath id) = some first ∧ first.isDigit = false) ∧
          tsWord (g.titlePath id) ∉ tsReserved) := by
  obtain ⟨c, hc, -, hcontents⟩ := unit?_ok h
  obtain ⟨_, hobject', hname, -, hfault, -⟩ := ofNode?_ok hc
  rw [hobject] at hobject'
  cases hobject'
  have hpublic : ∀ m ∈ members, tsPublic m.name ≠ "" := fun m hm =>
    ((MemberNames.nodup_of_faultAmong?_none hfault).2 m.name (List.mem_map_of_mem hm)).1
  have hname : c.name = tsPublic (g.titlePath id) := hname
  refine ⟨c, hc, hcontents, ?_, ?_⟩
  · intro m hm
    obtain ⟨first, hfirst⟩ := exists_lead? (hpublic m hm)
    refine ⟨first, hfirst, ?_⟩
    rw [isIdentifier_or_isQuoted_iff, hfirst]
    simp
  · rw [isIdentifier_decls_iff hname, hname, isIdentifier_tsPublic_iff]

/-- The names in the module of a route are identifiers, and so are those of its members but for one
that is reserved and stands in quotes. -/
theorem wellFormed_names_route : ∃ c u, unit? ⟨.standard, ""⟩ routeGraph 5 = .ok u ∧
    u.contents = contents ⟨.standard, ""⟩ routeGraph 5 c ∧
    (isIdentifier (tsPublic "new") = true ∨ IsQuoted (tsPublic "new")) ∧
    ∀ d ∈ c.decls, isIdentifier d.name = true := by
  obtain ⟨u, hu, -⟩ := exists_unit ⟨.standard, ""⟩ ofNode?_route
  obtain ⟨c, -, hcontents, hmembers, hdecls⟩ :=
    wellFormed_names (show routeGraph.object? 5 = some _ from rfl) hu
  obtain ⟨first, hfirst, hnew⟩ := hmembers ⟨"new", 1, true, 4, none⟩ (by simp)
  have hlead : lead? "new" = some 'n' := by decide
  rw [show lead? "new" = some first from hfirst, Option.some.injEq] at hlead
  exact ⟨c, u, hu, hcontents, hnew.2 (by rw [hlead]; decide),
    hdecls.2 ⟨⟨'R', by decide, by decide⟩, by decide⟩⟩

/-- A member whose name starts with a digit has a public name that is neither an identifier nor in
quotes, and an object whose title is a reserved word has names that are no identifiers; the module
is written all the same. -/
theorem malformed_names : ∃ u, unit? ⟨.standard, ""⟩ (soloGraph "new" "1st") 1 = .ok u ∧
    u.contents = contents ⟨.standard, ""⟩ (soloGraph "new" "1st") 1 (soloClass "new" "1st") ∧
    ¬ (isIdentifier (tsPublic "1st") = true ∨ IsQuoted (tsPublic "1st")) ∧
    (soloClass "new" "1st").paramDecl.name = "\"new\"Param" ∧
    isIdentifier (soloClass "new" "1st").paramDecl.name = false := by
  have hclass := ofNode?_solo "new" "1st" rfl (by decide) (by decide)
  obtain ⟨u, hu, hcontents⟩ := exists_unit ⟨.standard, ""⟩ hclass
  have hparam : (soloClass "new" "1st").paramDecl.name = "\"new\"Param" := by decide
  refine ⟨u, hu, hcontents, ?_, hparam, by rw [hparam]; rfl⟩
  rw [isIdentifier_or_isQuoted_iff]
  rintro ⟨first, hfirst, hdigit⟩
  have hlead : lead? "1st" = some '1' := by decide
  rw [hfirst, Option.some.injEq] at hlead
  rw [hlead] at hdigit
  cases hdigit

end TypeScript

end SchemaForge
