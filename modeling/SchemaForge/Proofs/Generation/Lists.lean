import Mathlib
import SchemaForge.Proofs.Go.Imports
import SchemaForge.Proofs.Go.ListLoops
import SchemaForge.Proofs.TypeScript.ListLoops
/-! How the files of both languages read the lists of a member. -/
namespace SchemaForge.Generation

variable {g : Graph} {id : NodeId} {head : ObjectHead} {members : List Member} {m : Member}
  {chain : ArrayChain}

/-- A member that holds lists is read with a loop for each level of its chain, whatever it holds in
the end. In TypeScript a function of its own does so. In Go the factory does so where it reads the
entry of the member from a map, and it gives what the loops have read to the builder. -/
theorem lists_read_by_levels (hobject : g.object? id = some (head, members)) (hm : m ∈ members)
    (hchain : g.arrayChain? m.node = some chain) (hdepth : 0 < chain.depth) :
    (∀ style u, TypeScript.unit? style g id = .ok u →
      ∃ c, u.contents = TypeScript.contents style g id c ∧ ∃ f ∈ c.fields, f.name = m.name ∧
        ∃ params result body inside,
          let d := TypeScript.Decl.function false (c.coercionName f) params result body
          c.coercionDecl? f = some d ∧ d ∈ c.decls ∧
            TypeScript.ReadsLevels d body chain.depth inside) ∧
    (∀ style u, Go.unit? style g id = .ok u →
      ∃ c, u.contents = Go.contents style g id c ∧ ∃ f ∈ c.fields, f.name = m.name ∧
        ∃ body leaf stmts inside,
          let list := Go.Expr.name (Go.levelName "s" 0)
          let given := if f.optional then Go.Expr.present f.type.goType list else list
          let give := Go.Stmt.run ((Go.Expr.name "b").send f.publicName [given])
          Go.ReadsEntry c m.name body (stmts ++ [give]) ∧
            f.type = Go.ValueType.nested leaf chain.depth ∧ Go.ValueType.isList leaf = false ∧
            Go.ReadsLevels c (c.title ++ "." ++ f.name) (.name "val") leaf chain.depth stmts
              inside) := by
  obtain ⟨below, hbelow⟩ : ∃ below, chain.depth = below + 1 := ⟨chain.depth - 1, by omega⟩
  refine ⟨fun style u hu => ?_, fun style u hu => ?_⟩
  · obtain ⟨c, hc, -, hcontents⟩ := TypeScript.unit?_ok hu
    obtain ⟨f, hf, hfield⟩ := forall₂_left (TypeScript.forall₂_fields hobject hc).2 hm
    obtain ⟨hname, -, -, hmember⟩ := TypeScript.field?_ok hfield
    obtain ⟨_, leaf, hchain', hleaf, htype⟩ := TypeScript.memberType?_ok hmember
    cases hchain.symm.trans hchain'
    rw [hbelow] at htype ⊢
    have hdecl := TypeScript.coercionDecl?_nested c (TypeScript.isList_of_leafType? hleaf) htype
    have hlevels := TypeScript.readsLevels c f (TypeScript.named_of_leafType? hleaf) below
    refine ⟨c, hcontents, f, hf, hname, _, _, _, _, hdecl, ?_, hlevels⟩
    rw [TypeScript.Class.decls]
    exact List.mem_append_left _ (List.mem_append_right _ (List.mem_filterMap.2 ⟨f, hf, hdecl⟩))
  · obtain ⟨c, hc, hu⟩ := bind_ok hu
    obtain ⟨_, _, hobject', -, hfields⟩ := Go.forall₂_fields hc
    rw [hobject] at hobject'
    cases hobject'
    obtain ⟨f, hf, hfield⟩ := forall₂_left hfields hm
    obtain ⟨hname, -, hmember, -⟩ := Go.field?_ok hfield
    obtain ⟨_, leaf, hchain', hleaf, htype⟩ := Go.memberType?_ok hmember
    cases hchain.symm.trans hchain'
    replace hleaf := Go.isList_of_leafType? hleaf
    rw [hbelow] at htype
    have hlevels := Go.readsLevels hleaf c (c.title ++ "." ++ f.name) (.name "val") below
    have hvalue := Go.value_readValue_list c (.name "val") (c.title ++ "." ++ f.name) leaf 0 below
    rw [← htype] at hlevels hvalue
    rw [← hbelow] at htype hlevels
    obtain ⟨body, hentry⟩ := Go.readsEntry hc hf
    rw [hname, Go.Class.entryBody, hvalue] at hentry
    refine ⟨c, ?_, f, hf, hname, body, leaf, _, _, hentry, htype, hleaf, hlevels⟩
    rw [← Except.ok.inj hu]

section route

open TypeScript (routeGraph)

def routeClass : Go.Class :=
  ⟨"Route", [⟨"stops", .list (.list (.object "Stop")), false, none⟩, ⟨"new", .boolean, true, none⟩]⟩

theorem ofNode?_route : Go.Class.ofNode? routeGraph 5 = .ok routeClass := by
  have hstops : Naming.goPublic "stops" = "Stops" := by decide
  have hnew : Naming.goPublic "new" = "New" := by decide
  have hfault : MemberNames.fault? "Route" Naming.goPublic ["stops", "new"] = none := by
    simp [MemberNames.fault?, MemberNames.faultAmong?, hstops, hnew, List.lookup]
  have hobject : routeGraph.object? 5 = some (⟨none, none, some "Route", true, none⟩,
      [⟨"stops", 0, false, 3, none⟩, ⟨"new", 1, true, 4, none⟩]) := rfl
  exact Go.ofNode?_of_parts hobject rfl hfault rfl

/-- The stops of a route are in lists of lists, which two loops read in either language. -/
theorem lists_read_by_levels_route :
    (∃ u c, TypeScript.unit? ⟨.standard, ""⟩ routeGraph 5 = .ok u ∧
      u.contents = TypeScript.contents ⟨.standard, ""⟩ routeGraph 5 c ∧
      ∃ d ∈ c.decls, ∃ body inside, TypeScript.ReadsLevels d body 2 inside) ∧
    (∃ u c, Go.unit? ⟨.standard, ""⟩ routeGraph 5 = .ok u ∧
      u.contents = Go.contents ⟨.standard, ""⟩ routeGraph 5 c ∧
      ∃ body path leaf stmts inside give, Go.ReadsEntry c "stops" body (stmts ++ [give]) ∧
        Go.ReadsLevels c path (.name "val") leaf 2 stmts inside) := by
  obtain ⟨u, hu, -⟩ := TypeScript.exists_unit ⟨.standard, ""⟩ TypeScript.ofNode?_route
  obtain ⟨v, hv, -⟩ := Go.exists_unit ⟨.standard, ""⟩ ofNode?_route
  have hobject : routeGraph.object? 5 = some (⟨none, none, some "Route", true, none⟩,
      [⟨"stops", 0, false, 3, none⟩, ⟨"new", 1, true, 4, none⟩]) := rfl
  have hchain : routeGraph.arrayChain? 3 = some ⟨[3, 2], 1⟩ := by decide
  obtain ⟨hts, hgo⟩ := lists_read_by_levels hobject List.mem_cons_self hchain (by decide)
  obtain ⟨c, hc, f, -, -, _, _, body, inside, -, hd, hlevels⟩ := hts _ u hu
  obtain ⟨c', hc', f', -, -, body', leaf, stmts, inside', hentry, -, -, hlevels'⟩ := hgo _ v hv
  exact ⟨⟨u, c, hu, hc, _, hd, body, inside, hlevels⟩, v, c', hv, hc', body', _, leaf, stmts,
    inside', _, hentry, hlevels'⟩

end route

end SchemaForge.Generation
