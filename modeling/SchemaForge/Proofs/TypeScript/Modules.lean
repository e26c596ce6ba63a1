import Mathlib
import SchemaForge.Proofs.Generation.Names
import SchemaForge.Proofs.Generation.Traversal
import SchemaForge.Proofs.TypeScript.Accepted
import SchemaForge.Proofs.TypeScript.Renaming
/-!
Modules link: what one of them imports from another is what that one exports, and it imports all
that it takes from others.
-/
namespace SchemaForge.TypeScript

variable {g : Graph} {id root child leaf : NodeId} {c : Class} {settings : CodeSettings}
  {style : Style} {u : CodeUnit} {us : List CodeUnit} {source name suffix s x : String}
  {names : List String} {f : Field}

theorem mem_insertSorted : x ∈ insertSorted name names ↔ x = name ∨ x ∈ names := by
  induction names with
  | nil => simp [insertSorted]
  | cons n ns ih =>
    rw [insertSorted]
    split
    · simp
    · split
      · next heq => simp [heq]
      · rw [List.mem_cons, ih, List.mem_cons, or_left_comm]

theorem mem_sorted : x ∈ sorted names ↔ x ∈ names := by
  induction names with
  | nil => simp [sorted]
  | cons name names ih =>
    rw [sorted, List.foldr_cons, mem_insertSorted, List.mem_cons, ← ih]
    rfl

namespace Class

/-- Whether the module of a class imports a name from somewhere. -/
def Takes (settings : CodeSettings) (c : Class) (source s : String) : Prop :=
  ∃ i ∈ imports settings c.name c.decls, i.source = source ∧ s ∈ i.names

/-- The names that other modules can import from that of a class. -/
def exports (c : Class) : List String := c.decls.filterMap Decl.exported?

/-- What is imported is what the symbols of the declarations ask for. -/
theorem takes_iff : c.Takes settings source s ↔
    ∃ symbol ∈ c.decls.flatMap Decl.symbols, symbol.import? settings c.name = some (source, s) := by
  have hpair (pairs : List (String × String)) :
      s ∈ sorted ((pairs.filter (·.1 == source)).map Prod.snd) ↔ (source, s) ∈ pairs := by
    simp [mem_sorted]
  rw [← List.mem_filterMap, ← hpair]
  constructor
  · rintro ⟨i, hi, hsource, hs⟩
    obtain ⟨_, -, rfl⟩ := List.mem_map.1 hi
    cases hsource
    exact hs
  · intro hs
    refine ⟨_, List.mem_map_of_mem ?_, rfl, hs⟩
    rw [mem_sorted]
    exact List.mem_map_of_mem ((hpair _).1 hs)

/-- Other modules see what objects offer to those that hold them. -/
theorem mem_exports (h : suffix ∈ ValueType.shared) : c.name ++ suffix ∈ c.exports := by
  have hmem (d : Decl) (hd : d ∈ c.decls) (hname : d.exported? = some (c.name ++ suffix)) :
      c.name ++ suffix ∈ c.exports := List.mem_filterMap.2 ⟨d, hd, hname⟩
  simp only [ValueType.shared, List.mem_cons, List.not_mem_nil, or_false] at h
  rcases h with rfl | rfl | rfl | rfl | rfl | rfl
  · exact hmem c.viewDecl (by simp [decls]) (by rw [String.append_empty]; rfl)
  · exact hmem c.coerceTypeDecl (by simp [decls]) rfl
  · exact hmem c.wireDecl (by simp [decls]) rfl
  · exact hmem c.factoryDecl (by simp [decls]) rfl
  · exact hmem c.schemaDecl (by simp [decls]) rfl
  · exact hmem c.getterDecl (by simp [decls]) rfl

end Class

/-- Neither the runtime nor the type of results is beside the modules. -/
def Apart (settings : CodeSettings) : Prop :=
  ¬ "./".toList <+: settings.runtimePath.toList ∧ ¬ "./".toList <+: settings.resultPath.toList

/-- What is imported from beside a module is a name of another object. -/
theorem takes_beside (hapart : Apart settings) (h : c.Takes settings ("./" ++ x) s) :
    ∃ name suffix, Symbol.object name suffix ∈ c.decls.flatMap Decl.symbols ∧
      Naming.fileStem c.name ≠ Naming.fileStem name ∧ x = Naming.fileStem name ∧
      s = name ++ suffix := by
  obtain ⟨symbol, hsymbol, himport⟩ := Class.takes_iff.1 h
  have hbeside : "./".toList <+: ("./" ++ x).toList := by
    rw [String.toList_append]
    exact List.prefix_append _ _
  cases symbol with
  | runtime name =>
    simp only [Symbol.import?, Option.some.injEq, Prod.mk.injEq] at himport
    exact absurd (himport.1 ▸ hbeside) hapart.1
  | result =>
    simp only [Symbol.import?, Option.some.injEq, Prod.mk.injEq] at himport
    exact absurd (himport.1 ▸ hbeside) hapart.2
  | object name suffix =>
    rw [Symbol.import?] at himport
    split at himport
    · cases himport
    · next hne =>
      simp only [Option.some.injEq, Prod.mk.injEq, Symbol.modulePath,
        String.append_right_inj] at himport
      exact ⟨name, suffix, hsymbol, hne, himport.1.symm, himport.2.symm⟩

/-- Another object whose names stand in a module is one that a member of the object holds. -/
theorem held_of_symbol (h : Class.ofNode? g id = .ok c) (hname : name ≠ c.name)
    (hsymbol : .object name suffix ∈ c.decls.flatMap Decl.symbols) :
    suffix ∈ ValueType.shared ∧ ∃ child ∈ g.children id, ∃ leaf,
      g.memberObject? child = some leaf ∧ g.objectName leaf = name := by
  obtain ⟨hsuffix, f, hf, hleaf⟩ := (mem_symbols_decls hname).1 hsymbol
  obtain ⟨members, hobject, -⟩ := ofNode?_ok h
  obtain ⟨m, hm, hfield⟩ := Generation.forall₂_left (forall₂_fields hobject h).2.flip hf
  obtain ⟨leaf, hheld, hobjectName⟩ := memberType?_object (field?_ok hfield).2.2.2 hleaf
  refine ⟨hsuffix, m.node, ?_, leaf, hheld, hobjectName⟩
  rw [Graph.children_object hobject]
  exact List.mem_map_of_mem hm

/-- A unit that is the module of the class of a node. -/
structure IsModule (style : Style) (g : Graph) (id : NodeId) (c : Class) (u : CodeUnit) :
    Prop where
  ofNode? : Class.ofNode? g id = .ok c
  fileName : u.fileName = Naming.fileStem c.name ++ ".ts"
  contents : u.contents = contents style g id c

theorem isModule_of_unit? (h : unit? style g id = .ok u) : ∃ c, IsModule style g id c u := by
  obtain ⟨c, hc, hfile, hcontents⟩ := unit?_ok h
  obtain ⟨-, -, hname, -⟩ := ofNode?_ok hc
  refine ⟨c, hc, ?_, hcontents⟩
  rw [hfile, hname]
  rfl

theorem IsModule.name_eq (h : IsModule style g id c u) : c.name = g.objectName id := by
  obtain ⟨-, -, hname, -⟩ := ofNode?_ok h.ofNode?
  exact hname

section written

variable {root child leaf : NodeId}

/-- A node whose unit is written is one that the root leads to, with members unless it is the
root. -/
theorem reaches_claimed (hid : id ∈ Generation.claimants .typeScript g root [] [root]) :
    g.Reaches root id ∧ (g.hasMembers id = true ∨ id = root) := by
  refine Generation.reaches_claimants (fun other hother => ?_) hid
  rw [List.mem_singleton.1 hother]
  exact .refl

/-- An object that a member of a written node holds is one of these, too. -/
theorem reaches_held (hid : id ∈ Generation.claimants .typeScript g root [] [root])
    (hchild : child ∈ g.children id) (hleaf : g.memberObject? child = some leaf) :
    g.Reaches root leaf ∧ (g.hasMembers leaf = true ∨ leaf = root) :=
  ⟨((reaches_claimed hid).1.tail hchild).trans (Graph.reaches_memberObject? hleaf),
    Or.inl (Graph.hasMembers_of_memberObject? hleaf)⟩

/-- And a module is written for its name. -/
theorem exists_module
    (hunits : List.Forall₂ (fun id u => unit? style g id = .ok u)
      (Generation.claimants .typeScript g root [] [root]) us)
    (hid : id ∈ Generation.claimants .typeScript g root [] [root])
    (hchild : child ∈ g.children id) (hleaf : g.memberObject? child = some leaf) :
    ∃ u ∈ us, ∃ id' ∈ Generation.claimants .typeScript g root [] [root], ∃ c,
      IsModule style g id' c u ∧
        Naming.fileStem (g.objectName id') = Naming.fileStem (g.objectName leaf) := by
  have hclaimed := (Generation.claimed_of_met .typeScript g root [] [root] rfl).2
  have hfile := hclaimed id hid child hchild leaf hleaf
  rw [List.nil_append, List.mem_map] at hfile
  obtain ⟨id', hid', hfile⟩ := hfile
  obtain ⟨u, hu, hunit⟩ := Generation.forall₂_left hunits hid'
  obtain ⟨c, hmodule⟩ := isModule_of_unit? hunit
  exact ⟨u, hu, id', hid', c, hmodule, (String.append_left_inj _).1 hfile⟩

end written

/-- Where other names of objects make other names of files, the modules that are written link. What
one of them imports from beside it, one other unit exports, and no more than one has the name of the
file. And it imports what it takes from other objects: their names stand in its text only where it
has symbols of theirs, and these are all imported. -/
theorem modules_link (lib : Library) (calls : List Build.Call) (style : Style) (w : Workspace)
    (hw : w = Workspace.after lib calls) (root : NodeId) (us : List CodeUnit)
    (hapart : Apart style.settings)
    (hstem : ∀ a b, w.graph.Reaches root a → w.graph.Reaches root b →
      w.graph.hasMembers a = true ∨ a = root → w.graph.hasMembers b = true ∨ b = root →
      Naming.fileStem (w.graph.objectName a) = Naming.fileStem (w.graph.objectName b) →
      w.graph.objectName a = w.graph.objectName b)
    (hus : (Generation.units style .typeScript w.graph w.registry root).1 = .ok us) :
    ∀ u ∈ us, ∃ id c, w.graph.Reaches root id ∧ IsModule style w.graph id c u ∧
      (∀ x s, c.Takes style.settings ("./" ++ x) s →
        ∃ u' id' c', us.filter (·.fileName == x ++ ".ts") = [u'] ∧ u' ≠ u ∧
          IsModule style w.graph id' c' u' ∧ s ∈ c'.exports) ∧
      (∀ name suffix, .object name suffix ∈ c.decls.flatMap Decl.symbols → name ≠ c.name →
        c.Takes style.settings (Symbol.modulePath name) (name ++ suffix)) ∧
      ∀ names : String → String, names c.name = c.name →
        (c.rename names).decls = c.decls.map (Decl.rename names) := by
  have hroot := Generation.object?_of_units hus
  subst hw
  rw [Generation.units_after_claimants lib calls style .typeScript hroot] at hus
  generalize (Workspace.after lib calls).graph = g at hus hroot hstem ⊢
  have hmapM := Generation.ok_of_mapError hus
  have hunits := Generation.forall₂_of_mapM hmapM
  have hnodup : (us.map CodeUnit.fileName).Nodup := by
    rw [Generation.fileNames_of_mapM hmapM]
    exact (Generation.nodup_claimants .typeScript g root [] [root]).1
  intro u hu
  obtain ⟨id, hid, hunit⟩ := Generation.forall₂_left hunits.flip hu
  obtain ⟨c, hmodule⟩ := isModule_of_unit? hunit
  obtain ⟨hreach, hwritten⟩ := reaches_claimed hid
  -- an object that is held has the name of one whose module is written
  have hheld (name suffix : String) (hname : name ≠ c.name)
      (hsymbol : .object name suffix ∈ c.decls.flatMap Decl.symbols) :
      Naming.fileStem name ≠ Naming.fileStem c.name ∧ ∃ u' ∈ us, ∃ id' c',
        IsModule style g id' c' u' ∧ c'.name = name ∧ name ++ suffix ∈ c'.exports := by
    obtain ⟨hsuffix, child, hchild, leaf, hleaf, rfl⟩ :=
      held_of_symbol hmodule.ofNode? hname hsymbol
    obtain ⟨hleafReach, hmembers⟩ := reaches_held hid hchild hleaf
    obtain ⟨u', hu', id', hid', c', hmodule', hfile⟩ := exists_module hunits hid hchild hleaf
    obtain ⟨hreach', hwritten'⟩ := reaches_claimed hid'
    have hsame : c'.name = g.objectName leaf := by
      rw [hmodule'.name_eq]
      exact hstem id' leaf hreach' hleafReach hwritten' hmembers hfile
    refine ⟨fun heq => hname ?_, u', hu', id', c', hmodule', hsame, ?_⟩
    · rw [hmodule.name_eq] at heq ⊢
      exact hstem leaf id hleafReach hreach hmembers hwritten heq
    · rw [← hsame]
      exact Class.mem_exports hsuffix
  refine ⟨id, c, hreach, hmodule, ?_, ?_, fun names hnames => Class.decls_rename hnames⟩
  · intro x s htakes
    obtain ⟨name, suffix, hsymbol, hstems, rfl, rfl⟩ := takes_beside hapart htakes
    have hname : name ≠ c.name := fun heq => hstems (heq ▸ rfl)
    obtain ⟨-, u', hu', id', c', hmodule', hsame, hexport⟩ := hheld name suffix hname hsymbol
    have hfile : u'.fileName = Naming.fileStem name ++ ".ts" := by rw [hmodule'.fileName, hsame]
    refine ⟨u', id', c', ?_, ?_, hmodule', hexport⟩
    · rw [← hfile]
      exact Generation.filter_of_nodup hnodup hu'
    · rintro rfl
      rw [hmodule.fileName] at hfile
      exact hstems ((String.append_left_inj _).1 hfile)
  · intro name suffix hsymbol hname
    obtain ⟨hstems, -⟩ := hheld name suffix hname hsymbol
    refine Class.takes_iff.2 ⟨_, hsymbol, ?_⟩
    rw [Symbol.import?, if_neg hstems.symm]

section tree

open Generation (treeGraph treeLibrary graph_tree lt_of_reaches_tree)

/-- The class of the nodes of a tree. -/
def nodeClass : Class :=
  ⟨"Node", ⟨some "t", none, some "Node", true, none⟩,
    [⟨"next", .list (.object "Node"), true, none⟩, ⟨"tag", .object "Node$Tag", true, none⟩]⟩

theorem objectName_tree :
    treeGraph.objectName 0 = "Node" ∧ treeGraph.objectName 3 = "Node$Tag" := by decide

theorem ofNode?_node : Class.ofNode? treeGraph 0 = .ok nodeClass := by
  obtain ⟨hnode, htag⟩ := objectName_tree
  have hobject : treeGraph.object? 0 = some (⟨some "t", none, some "Node", true, none⟩,
      [⟨"next", 0, true, 1, none⟩, ⟨"tag", 1, true, 3, none⟩]) := rfl
  have hfault : MemberNames.fault? "Node" Naming.tsPublic ["next", "tag"] = none := by decide
  have hnext : memberType? treeGraph "Node" "next" 1 =
      .ok (.list (.object (treeGraph.objectName 0))) := by
    rw [memberType?, show treeGraph.arrayChain? 1 = some ⟨[1], 0⟩ by decide]
    rfl
  have hheld : memberType? treeGraph "Node" "tag" 3 = .ok (.object (treeGraph.objectName 3)) := by
    rw [memberType?, show treeGraph.arrayChain? 3 = some ⟨[], 3⟩ by decide]
    rfl
  have hfree : Naming.tsPublic "next" ∉ builderMethods ∧
      Naming.tsPublic "tag" ∉ builderMethods := by decide
  have hfields : [⟨"next", 0, true, 1, none⟩, ⟨"tag", 1, true, 3, none⟩].mapM
      (field? treeGraph "Node") = .ok nodeClass.fields := by
    rw [hnode] at hnext
    rw [htag] at hheld
    simp [field?, hfree, hnext, hheld, List.mapM_cons]
    rfl
  rw [ofNode?_of_parts hobject rfl hfault hfields, hnode]
  rfl

theorem ofNode?_tag : ∃ c, Class.ofNode? treeGraph 3 = .ok c := by
  have hobject : treeGraph.object? 3 = some (⟨some "g", none, some "Tag", true, none⟩,
      [⟨"name", 0, true, 2, none⟩]) := rfl
  have hfault : MemberNames.fault? "Tag" Naming.tsPublic ["name"] = none := by decide
  have hfields : [⟨"name", 0, true, 2, none⟩].mapM (field? treeGraph "Tag") =
      .ok [⟨"name", .string none, true, none⟩] := by
    have hfree : Naming.tsPublic "name" ∉ builderMethods := by decide
    have hfield : field? treeGraph "Tag" ⟨"name", 0, true, 2, none⟩ =
        .ok ⟨"name", .string none, true, none⟩ := by
      rw [field?, if_neg (mt List.contains_iff_mem.1 hfree)]
      rfl
    rw [List.mapM_cons, hfield]
    rfl
  exact ⟨_, ofNode?_of_parts hobject rfl hfault hfields⟩

/-- The two modules of a tree. -/
theorem units_tree : ∃ node tag,
    (Generation.units ⟨.standard, ""⟩ .typeScript
      (Workspace.after treeLibrary [.load "file:///t"]).graph
      (Workspace.after treeLibrary [.load "file:///t"]).registry 0).1 = .ok [node, tag] ∧
    node.fileName = "node.ts" := by
  obtain ⟨hnode, htag⟩ := objectName_tree
  have hnodeFile : Generation.fileName .typeScript treeGraph 0 = "node.ts" := by
    rw [Generation.fileName, fileName, hnode]
    decide
  have htagFile : Generation.fileName .typeScript treeGraph 3 = "node_tag.ts" := by
    rw [Generation.fileName, fileName, htag]
    decide
  have hclaimants : Generation.claimants .typeScript treeGraph 0 [] [0] = [0, 3] := by
    have hchildren : (treeGraph.children 0).filterMap treeGraph.memberObject? = [0, 3] := by decide
    have hinner : (treeGraph.children 3).filterMap treeGraph.memberObject? = [] := by decide
    rw [Generation.claimants_free (by decide) List.not_mem_nil, hchildren, hnodeFile]
    simp only [List.nil_append, List.append_nil]
    rw [Generation.claimants_claimed (by simp [hnodeFile]),
      Generation.claimants_free (by decide) (by simp [htagFile]), hinner, List.nil_append,
      Generation.claimants]
  obtain ⟨node, hunit, -⟩ := exists_unit ⟨.standard, ""⟩ ofNode?_node
  obtain ⟨c, hc⟩ := ofNode?_tag
  obtain ⟨tag, hunit', -⟩ := exists_unit ⟨.standard, ""⟩ hc
  have hmapM : [0, 3].mapM (Generation.unit? ⟨.standard, ""⟩ .typeScript treeGraph) =
      .ok [node, tag] := by
    rw [List.mapM_cons, Generation.unit?, hunit, List.mapM_cons, Generation.unit?, hunit']
    rfl
  refine ⟨node, tag, ?_, ?_⟩
  · rw [Generation.units_after_claimants treeLibrary [.load "file:///t"] _ .typeScript
      (by rw [graph_tree]; rfl), graph_tree, hclaimants, hmapM]
    rfl
  · obtain ⟨-, -, hfile, -⟩ := unit?_ok hunit
    exact hfile.trans hnodeFile

theorem stems_tree {a b : NodeId} (ha : treeGraph.Reaches 0 a) (hb : treeGraph.Reaches 0 b)
    (hma : treeGraph.hasMembers a = true ∨ a = 0) (hmb : treeGraph.hasMembers b = true ∨ b = 0)
    (heq : Naming.fileStem (treeGraph.objectName a) = Naming.fileStem (treeGraph.objectName b)) :
    a = b := by
  have hobject : ∀ id < 4, treeGraph.hasMembers id = true ∨ id = 0 → id = 0 ∨ id = 3 := by decide
  have hstems : Naming.fileStem "Node" ≠ Naming.fileStem "Node$Tag" := by decide
  obtain ⟨hnode, htag⟩ := objectName_tree
  rcases hobject a (lt_of_reaches_tree ha) hma with rfl | rfl <;>
    rcases hobject b (lt_of_reaches_tree hb) hmb with rfl | rfl
  · rfl
  · rw [hnode, htag] at heq
    exact absurd heq hstems
  · rw [hnode, htag] at heq
    exact absurd heq.symm hstems
  · rfl

/-- The module of a node imports the factory of tags from that of tags. -/
theorem modules_link_tree : ∃ us,
    (Generation.units ⟨.standard, ""⟩ .typeScript
      (Workspace.after treeLibrary [.load "file:///t"]).graph
      (Workspace.after treeLibrary [.load "file:///t"]).registry 0).1 = .ok us ∧
    ∃ u ∈ us, IsModule ⟨.standard, ""⟩ treeGraph 0 nodeClass u ∧
      nodeClass.Takes .standard "./node_tag" "Node$TagFactory" ∧
      ∃ u' id' c', us.filter (·.fileName == "node_tag.ts") = [u'] ∧ u' ≠ u ∧
        IsModule ⟨.standard, ""⟩ treeGraph id' c' u' ∧ "Node$TagFactory" ∈ c'.exports := by
  obtain ⟨node, tag, hus, hfile⟩ := units_tree
  have hlink := modules_link treeLibrary [.load "file:///t"] ⟨.standard, ""⟩ _ rfl 0 [node, tag]
    ⟨by decide, by decide⟩ (fun a b => by
      rw [graph_tree]
      exact fun ha hb hma hmb heq => congrArg _ (stems_tree ha hb hma hmb heq)) hus
  obtain ⟨id, c, hreach, hmodule, himports, htakes, -⟩ := hlink node List.mem_cons_self
  rw [graph_tree] at hreach hmodule himports
  have hid : id = 0 := by
    obtain ⟨members, hobject, hname, -⟩ := ofNode?_ok hmodule.ofNode?
    have hobjects : ∀ id < 4, (treeGraph.object? id).isSome = true → id = 0 ∨ id = 3 := by decide
    rcases hobjects id (lt_of_reaches_tree hreach) (by rw [hobject]; rfl) with rfl | rfl
    · rfl
    · rw [hmodule.fileName, hname, objectName_tree.2] at hfile
      exact absurd hfile (by decide)
  subst hid
  have hc : c = nodeClass := Except.ok.inj (hmodule.ofNode?.symm.trans ofNode?_node)
  subst hc
  have hfactory : nodeClass.Takes .standard "./node_tag" "Node$TagFactory" :=
    htakes "Node$Tag" "Factory" ((mem_symbols_decls (by decide)).2
      ⟨by decide, ⟨"tag", .object "Node$Tag", true, none⟩, by simp [nodeClass], rfl⟩) (by decide)
  exact ⟨[node, tag], hus, node, List.mem_cons_self, hmodule, hfactory,
    himports "node_tag" "Node$TagFactory" hfactory⟩

end tree

end SchemaForge.TypeScript
