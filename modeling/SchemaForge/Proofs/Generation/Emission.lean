import Mathlib
import SchemaForge.Proofs.Documents
import SchemaForge.Proofs.Generation.ObjectNames
import SchemaForge.Proofs.Go.Imports
import SchemaForge.Proofs.Go.ListLoops
import SchemaForge.Proofs.TypeScript.Modules
/-!
Writing a unit comes to an end, also where schemas refer to each other in circles: what is made of a
member follows its arrays and goes no further, names climb to where a file or an object begins, and
documents stop at references.
-/
namespace SchemaForge

namespace Graph

variable {g : Graph} {id n q x : NodeId} {chain : ArrayChain} {path : List NodeId} {limit : Nat}
  {α : Type} {leaf? : NodeId → Option α} {list : α → α} {a : α}

section items

/-- What a walk makes of a node, at most so many nodes deep: of an array something from what it
makes of the items, and of what is no array something at once. It tells the nodes that it meets. -/
def walkItems (g : Graph) (leaf? : NodeId → Option α) (list : α → α) :
    Nat → NodeId → Option (α × List NodeId)
  | 0, _ => none
  | limit + 1, id =>
    match g.property? id with
    | some ⟨_, .array items _⟩ =>
      (g.walkItems leaf? list limit items).map fun (made, met) => (list made, id :: met)
    | _ => (leaf? id).map fun made => (made, [id])

theorem walkItems_array {info : Info} {items : NodeId} {site : Option RefSite}
    (hp : g.property? id = some ⟨info, .array items site⟩) :
    g.walkItems leaf? list (limit + 1) id =
      (g.walkItems leaf? list limit items).map fun (made, met) => (list made, id :: met) := by
  simp only [walkItems, hp]

theorem walkItems_leaf
    (hp : ∀ info items site, g.property? id ≠ some ⟨info, .array items site⟩) :
    g.walkItems leaf? list (limit + 1) id = (leaf? id).map fun made => (made, [id]) := by
  rw [walkItems]
  split
  · next hp' => exact absurd hp' (hp _ _ _)
  · rfl

/-- A walk meets the arrays of a chain and what they hold in the end. -/
theorem walkItems_eq (hchain : g.arrayChainWithin limit id = some chain)
    (hleaf : leaf? chain.leaf = some a) :
    g.walkItems leaf? list limit id =
      some (list^[chain.depth] a, chain.levels ++ [chain.leaf]) := by
  induction limit generalizing id chain with
  | zero => cases hchain
  | succ limit ih =>
    rw [arrayChainWithin] at hchain
    split at hchain
    · next items _ hp =>
      obtain ⟨inner, hinner, rfl⟩ := Option.map_eq_some_iff.1 hchain
      rw [walkItems_array hp, ih hinner hleaf, Option.map_some]
      simp only [ArrayChain.depth, List.length_cons, Function.iterate_succ_apply', List.cons_append]
    · next hp =>
      cases hchain
      rw [walkItems_leaf hp, hleaf]
      rfl

/-- The levels of a chain are arrays, and its leaf is none. -/
theorem kind_chain (h : g.arrayChainWithin limit id = some chain) :
    (∀ n ∈ chain.levels, g.kind n = .array) ∧ g.kind chain.leaf ≠ .array := by
  induction limit generalizing id chain with
  | zero => cases h
  | succ limit ih =>
    rw [arrayChainWithin] at h
    split at h
    · next items _ hp =>
      obtain ⟨inner, hinner, rfl⟩ := Option.map_eq_some_iff.1 h
      obtain ⟨hlevels, hleaf⟩ := ih hinner
      refine ⟨List.forall_mem_cons.2 ⟨?_, hlevels⟩, hleaf⟩
      rw [kind, hp]
      rfl
    · next hp =>
      cases h
      refine ⟨fun n hn => absurd hn List.not_mem_nil, ?_⟩
      rw [kind]
      cases hq : g.property? id with
      | none => decide
      | some p =>
        obtain ⟨info, l | ⟨items, site⟩ | ⟨head, members⟩⟩ := p
        · cases l <;> exact Kind.noConfusion
        · exact absurd hq (hp _ _ _)
        · exact Kind.noConfusion

end items

section climb

/-- The way from a node outwards along parents, up to the root of a file or to where no parent
is. -/
inductive Climb (g : Graph) : NodeId → List NodeId → Prop
  | ends {n : NodeId} : g.isFileRoot n = true ∨ g.parent? n = none → Climb g n [n]
  | up {n q : NodeId} {path : List NodeId} :
      g.isFileRoot n = false → g.parent? n = some q → Climb g q path → Climb g n (n :: path)

theorem Climb.titlesOutwards_eq (h : g.Climb n path) (hlimit : path.length ≤ limit) :
    g.titlesOutwards limit n = path.flatMap g.ownTitle := by
  induction h generalizing limit with
  | ends hend =>
    obtain ⟨limit, rfl⟩ : ∃ k, limit = k + 1 := ⟨limit - 1, by simp at hlimit; omega⟩
    rw [titlesOutwards_end hend, List.flatMap_singleton]
  | up hroot hq _ ih =>
    obtain ⟨limit, rfl⟩ : ∃ k, limit = k + 1 := ⟨limit - 1, by simp at hlimit; omega⟩
    rw [titlesOutwards_inner hroot hq, ih (Nat.le_of_succ_le_succ hlimit), List.flatMap_cons]

variable (ht : g.Tidy) (hparent : ∀ {c q}, g.parent? c = some q → c ∈ g.children q)

include ht hparent

/-- A node that is not the root of a file stands inside its parent. -/
theorem inside_parent (hn : g.isFileRoot n = false) (hq : g.parent? n = some q) : g.Inside n q := by
  obtain ⟨site, hedge⟩ := mem_children_iff.1 (hparent hq)
  cases site with
  | none => exact hedge
  | some site =>
    have hroot := (ht.sited q n _ hedge).2.1 rfl
    rw [hn] at hroot
    cases hroot

theorem Climb.inside (h : g.Climb n path) : ∀ x ∈ path, Relation.ReflTransGen g.Inside n x := by
  induction h with
  | ends => intro x hx; rw [List.mem_singleton.1 hx]
  | up hroot hq _ ih =>
    have hinside := inside_parent ht hparent hroot hq
    intro x hx
    rcases List.mem_cons.1 hx with rfl | hx
    · exact .refl
    · exact .head hinside (ih x hx)

/-- A climb comes by no node twice, since no node stands inside itself. -/
theorem Climb.nodup (h : g.Climb n path) : path.Nodup := by
  induction h with
  | ends => exact List.nodup_singleton _
  | @up n q path hroot hq hclimb ih =>
    have hinside := inside_parent ht hparent hroot hq
    refine List.nodup_cons.2 ⟨fun hmem => ht.not_inside_itself n ?_, ih⟩
    exact .head' hinside (hclimb.inside ht hparent n hmem)

theorem Climb.length_le (h : g.Climb n path) (hn : n < g.size) : path.length ≤ g.size := by
  have hlt : ∀ x ∈ path, x < g.size := by
    intro x hx
    rcases (h.inside ht hparent x hx).cases_tail with rfl | ⟨y, -, hy⟩
    · exact hn
    · exact lt_of_mem_edges hy
  exact length_le_size (h.nodup ht hparent) hlt

/-- Each climb comes to an end. Inside a file it goes to nodes with greater numbers. -/
theorem exists_climb (hn : n < g.size) : ∃ path, g.Climb n path := by
  induction hroom : g.size - n using Nat.strongRecOn generalizing n with
  | ind room ih =>
    cases hroot : g.isFileRoot n with
    | true => exact ⟨[n], .ends (Or.inl hroot)⟩
    | false =>
      cases hq : g.parent? n with
      | none => exact ⟨[n], .ends (Or.inr hq)⟩
      | some q =>
        have hinside := inside_parent ht hparent hroot hq
        have hlt : q < g.size := lt_of_mem_edges hinside
        cases hroot' : g.isFileRoot q with
        | true => exact ⟨[n, q], .up hroot hq (.ends (Or.inl hroot'))⟩
        | false =>
          have hless := Nat.sub_lt_sub_left hn (ht.below hroot' hinside)
          obtain ⟨path, hpath⟩ := ih (g.size - q) (hroom ▸ hless) hlt rfl
          exact ⟨n :: path, .up hroot hq hpath⟩

end climb

/-- A document has no more room than there are nodes, and takes none that is left. -/
theorem Tidy.membersWithin_of_le (h : g.Tidy) (hlimit : g.size ≤ limit) (id : NodeId) :
    g.membersWithin limit id = (g.document id).members := by
  rw [h.members_document]
  by_cases hid : id < g.size
  · have hpos : 0 < g.size := Nat.zero_lt_of_lt hid
    obtain ⟨limit, rfl⟩ : ∃ k, limit = k + 1 := ⟨limit - 1, by omega⟩
    rw [membersWithin_succ]
    apply membersFrom_congr
    intro c hc
    have hroom := h.innerBelow_lt_size hc hid
    exact h.membersWithin_eq (h.inner hc) (by omega) (Nat.le_of_lt hroom)
  · have hnone : g.property? id = none := by
      cases hp : g.property? id with
      | none => rfl
      | some p => exact absurd (lt_of_property? hp) hid
    cases limit with
    | zero => rw [membersWithin, membersFrom, hnone]
    | succ limit => rw [membersWithin_succ, membersFrom, membersFrom, hnone]

end Graph

/-- Something that is made of types: of lists from their items and from what is made of these. -/
structure Walk (τ : Type) (list : τ → τ) where
  Made : Type
  made : τ → Made
  step : τ → Made → Made
  made_list : ∀ t, made (list t) = step t (made t)

namespace Walk

variable {τ : Type} {list : τ → τ} {g : Graph} {leaf? : NodeId → Option τ} {id : NodeId} {t : τ}
  {chain : ArrayChain} {limit : Nat}

/-- The walk that goes by the nodes of a graph, and tells their types beside what it makes. -/
def onGraph (walk : Walk τ list) (g : Graph) (leaf? : NodeId → Option τ) (limit : Nat)
    (id : NodeId) : Option ((τ × walk.Made) × List NodeId) :=
  g.walkItems (fun id => (leaf? id).map fun t => (t, walk.made t))
    (fun (t, made) => (list t, walk.step t made)) limit id

theorem iterate_made (walk : Walk τ list) (t : τ) (depth : Nat) :
    (fun (t, made) => (list t, walk.step t made))^[depth] (t, walk.made t) =
      (list^[depth] t, walk.made (list^[depth] t)) := by
  induction depth with
  | zero => rfl
  | succ depth ih =>
    rw [Function.iterate_succ_apply', Function.iterate_succ_apply', ih, walk.made_list]

/-- By the nodes of a graph the same is made as of the type that they have. -/
theorem onGraph_eq (walk : Walk τ list) (hchain : g.arrayChainWithin limit id = some chain)
    (hleaf : leaf? chain.leaf = some t) :
    walk.onGraph g leaf? limit id =
      some ((list^[chain.depth] t, walk.made (list^[chain.depth] t)),
        chain.levels ++ [chain.leaf]) := by
  have hmade : (leaf? chain.leaf).map (fun t => (t, walk.made t)) = some (t, walk.made t) := by
    rw [hleaf, Option.map_some]
  rw [onGraph, Graph.walkItems_eq hchain hmade, walk.iterate_made]

/-- Walks that make of a node what they make of its type, and meet nothing but the arrays of its
chain and what these hold in the end. Objects with members stand there for their names. -/
structure Follow (walks : List (Walk τ list)) (g : Graph) (leaf? : NodeId → Option τ)
    (named : NodeId → τ) (id : NodeId) (type : τ) (chain : ArrayChain) : Prop where
  ends : g.arrayChain? id = some chain
  depth_le : chain.depth ≤ g.size
  arrays : ∀ n ∈ chain.levels, g.kind n = .array
  no_array : g.kind chain.leaf ≠ .array
  object : g.hasMembers chain.leaf = true → type = list^[chain.depth] (named chain.leaf)
  made : ∀ walk ∈ walks, ∀ limit, chain.depth < limit →
    walk.onGraph g leaf? limit id = some ((type, walk.made type), chain.levels ++ [chain.leaf])

theorem follow {named : NodeId → τ} (walks : List (Walk τ list))
    (hchain : g.arrayChain? id = some chain) (hleaf : leaf? chain.leaf = some t)
    (hnamed : g.hasMembers chain.leaf = true → leaf? chain.leaf = some (named chain.leaf)) :
    Follow walks g leaf? named id (list^[chain.depth] t) chain where
  ends := hchain
  depth_le := Graph.depth_le_size hchain
  arrays := (Graph.kind_chain hchain).1
  no_array := (Graph.kind_chain hchain).2
  object hmembers := by rw [Option.some.inj (hleaf.symm.trans (hnamed hmembers))]
  made walk _ _ hlimit := walk.onGraph_eq (Graph.arrayChainWithin_of_depth_lt hchain hlimit) hleaf

end Walk

namespace Go

open SchemaForge.Go.Expr

theorem ValueType.nested_eq (t : ValueType) (depth : Nat) : t.nested depth = .list^[depth] t := by
  induction depth with
  | zero => rfl
  | succ depth ih => rw [ValueType.nested, ih, Function.iterate_succ_apply']

def compareWalk : Walk ValueType .list where
  Made := Expr → Expr → Nat → List Stmt
  made t mine other level := compareValues mine other level t
  step _ items mine other level :=
    let i := levelName "i" level
    decideBy (binary .less (len mine) (len other)) (binary .greater (len mine) (len other)) ++
      [.loop i mine (items (index mine (name i)) (index other (name i)) (level + 1))]
  made_list _ := rfl

def hashWalk : Walk ValueType .list where
  Made := Expr → Nat → List Stmt
  made t e level := hashValue e level t
  step _ items e level :=
    let i := levelName "i" level
    [writeBytes (text "["),
      .loop i e <|
        .cond (binary .greater (name i) (number 0)) [writeBytes (text ",")] ::
          items (index e (name i)) (level + 1),
      writeBytes (text "]")]
  made_list _ := rfl

def mapWalk : Walk ValueType .list where
  Made := Expr → Nat → List Stmt × Expr
  made t e level := mapValue e level t
  step t items e level :=
    if t.leadsToObject then
      let m := levelName "m" level
      let i := levelName "i" level
      let (before, item) := items (index e (name i)) (level + 1)
      ([.define [m] (makeSlice (.slice .any) (len e)),
        .loop i e (before ++ [.assign (name m) (call (name "append") [name m, item])])],
        name m)
    else ([], e)
  made_list _ := rfl

def readWalk : Walk ValueType .list where
  Made := Class → Expr → String → Nat → List Stmt × Expr
  made t c source path level := readValue c source path level t
  step t items c source path level :=
    let r := levelName "r" level
    let s := levelName "s" level
    let i := levelName "i" level
    let (before, item) := items c (index (name r) (name i)) path (level + 1)
    (assertType c r source (.slice .any) path "array" ++
      [.define [s] (makeSlice (.slice t.goType) (len (name r))),
        .loop i (name r) (before ++ [.assign (name s) (call (name "append") [name s, item])])],
      name s)
  made_list _ := rfl

/-- All that goes by the type of a member: its Go types, whether it leads to an object, comparison,
hashing, and the ways into maps and out of them. -/
def walks : List (Walk ValueType .list) :=
  [⟨GoType, ValueType.goType, fun _ items => .slice items, fun _ => rfl⟩,
    ⟨GoType, ValueType.jsonType, fun _ items => .slice items, fun _ => rfl⟩,
    ⟨Bool, ValueType.leadsToObject, fun _ items => items, fun _ => rfl⟩,
    compareWalk, hashWalk, mapWalk, readWalk]

variable {g : Graph} {id : NodeId} {title member : String} {type : ValueType}

/-- An object with members stands for its title. -/
theorem leafType?_of_hasMembers (h : g.hasMembers id = true) :
    leafType? g id = some (.object (g.title id)) := by
  obtain ⟨head, m, members, hobject⟩ := Graph.object?_of_hasMembers h
  obtain ⟨info, hp⟩ := Graph.property?_of_object? hobject
  rw [leafType?, hp, Graph.title, hobject]

/-- What follows the type of a member follows its arrays. -/
theorem follow_memberType? (h : memberType? g title member id = .ok type) :
    ∃ chain, Walk.Follow walks g (leafType? g) (fun n => .object (g.title n)) id type chain := by
  obtain ⟨chain, leaf, hchain, hleaf, rfl⟩ := memberType?_ok h
  rw [ValueType.nested_eq]
  exact ⟨chain, Walk.follow walks hchain hleaf leafType?_of_hasMembers⟩

end Go

namespace TypeScript

theorem ValueType.nested_eq (t : ValueType) (depth : Nat) : t.nested depth = .list^[depth] t := by
  induction depth with
  | zero => rfl
  | succ depth ih => rw [ValueType.nested, ih, Function.iterate_succ_apply']

def wireWalk : Walk ValueType .list where
  Made := String → Nat → List Stmt × Code
  made t v level := wireValue v level t
  step t items v level :=
    if t.isConverted then
      let o := levelName "o" level
      let e := levelName "e" level
      let (before, item) := items e (level + 1)
      ([.constant o (some (.join [t.wireType, "[]"])) "[]",
        .forOf e v (before ++ [.run (.join [o, ".push(", item, ")"])])],
        o)
    else ([], v)
  made_list _ := rfl

def visitWalk : Walk ValueType .list where
  Made := String → Code → Nat → Stmt
  made t v place level := visit v place level t
  step _ items v place level :=
    let e := levelName "e" level
    .forOf e v [items e place (level + 1)]
  made_list _ := rfl

def describeWalk : Walk ValueType .list where
  Made := String → Literal
  made t path := describe path t
  step _ items path :=
    .object [("id", .value (.quote path)), ("type", .value (.quote "array")),
      ("items", items path)]
  made_list _ := rfl

/-- All that goes by the type of a member: its types, what its lists hold in the end, whether it is
another value on the wire, the way there, visits and descriptions. -/
def walks : List (Walk ValueType .list) :=
  [⟨Code, ValueType.viewType, fun _ items => .join [items, "[]"], fun _ => rfl⟩,
    ⟨Code, ValueType.coerceType, fun _ items => .join [items, "[]"], fun _ => rfl⟩,
    ⟨Code, ValueType.wireType, fun _ items => .join [items, "[]"], fun _ => rfl⟩,
    ⟨ValueType × Nat, ValueType.innermost, fun _ items => (items.1, items.2 + 1), fun _ => rfl⟩,
    ⟨Bool, ValueType.isConverted, fun _ items => items, fun _ => rfl⟩,
    wireWalk, visitWalk, describeWalk]

variable {g : Graph} {id : NodeId} {title member : String} {type : ValueType}

/-- An object with members stands for its name. -/
theorem leafType?_of_hasMembers (h : g.hasMembers id = true) :
    leafType? g id = some (.object (g.objectName id)) := by
  obtain ⟨head, m, members, hobject⟩ := Graph.object?_of_hasMembers h
  obtain ⟨info, hp⟩ := Graph.property?_of_object? hobject
  rw [leafType?, hp]

/-- What follows the type of a member follows its arrays. -/
theorem follow_memberType? (h : memberType? g title member id = .ok type) :
    ∃ chain,
      Walk.Follow walks g (leafType? g) (fun n => .object (g.objectName n)) id type chain := by
  obtain ⟨chain, leaf, hchain, hleaf, rfl⟩ := memberType?_ok h
  rw [ValueType.nested_eq]
  exact ⟨chain, Walk.follow walks hchain hleaf leafType?_of_hasMembers⟩

end TypeScript

namespace Generation

variable {head : ObjectHead} {members : List Member} {id : NodeId}

/-- Writing the unit of an object comes to an end, whatever leads back to it in a graph that calls
have made. Arrays that end do so within the number of nodes, and more room shows nothing more. What
is made of a member that a language accepts meets the arrays of its chain, in their order, and the
node that these hold in the end; an object with members is left there to its own unit. Names climb
to the root of a file or to a node without a parent, by no node twice. The document whose hash a
unit shows is made of what stands inside the object, which never comes back to it. -/
theorem emission_ends (lib : Library) (calls : List Build.Call)
    (hobject : (Workspace.after lib calls).graph.object? id = some (head, members)) :
    let g := (Workspace.after lib calls).graph
    (∀ n limit chain, g.arrayChainWithin limit n = some chain →
      chain.depth ≤ g.size ∧ ∀ room, g.size < room → g.arrayChainWithin room n = some chain) ∧
    (∀ c, Go.Class.ofNode? g id = .ok c →
      (∀ style, ∃ u, Go.unit? style g id = .ok u ∧ u.contents = Go.contents style g id c) ∧
      List.Forall₂ (fun m (f : Go.Field) => ∃ chain, Walk.Follow Go.walks g (Go.leafType? g)
        (fun n => .object (g.title n)) m.node f.type chain) members c.fields) ∧
    (∀ c, TypeScript.Class.ofNode? g id = .ok c →
      (∀ style, ∃ u, TypeScript.unit? style g id = .ok u ∧
        u.contents = TypeScript.contents style g id c) ∧
      List.Forall₂ (fun m (f : TypeScript.Field) => ∃ chain, Walk.Follow TypeScript.walks g
        (TypeScript.leafType? g) (fun n => .object (g.objectName n)) m.node f.type chain)
        members c.fields) ∧
    (∀ n < g.size, ∃ path, g.Climb n path ∧ path.Nodup ∧ path.length ≤ g.size ∧
      (∀ limit, path.length ≤ limit → g.titlesOutwards limit n = path.flatMap g.ownTitle) ∧
      g.objectName n = Naming.tsPublic ("$".intercalate (path.flatMap g.ownTitle).reverse)) ∧
    WellFounded g.Inside ∧
    ∀ n limit, g.size ≤ limit → g.membersWithin limit n = (g.document n).members := by
  intro g
  have hcoherent := Workspace.coherent_after lib calls
  have htidy : g.Tidy := hcoherent.tidy
  have hparent : ∀ {c q}, g.parent? c = some q → c ∈ g.children q := hcoherent.attributed.parent
  refine ⟨fun n limit chain hchain => ?_, fun c hc => ⟨?_, ?_⟩, fun c hc => ⟨?_, ?_⟩,
    fun n hn => ?_, htidy.wellFounded_inside,
    fun n limit hlimit => htidy.membersWithin_of_le hlimit n⟩
  · have hdepth := Graph.depth_le_size hchain
    exact ⟨hdepth, fun room hroom =>
      Graph.arrayChainWithin_of_depth_lt hchain (Nat.lt_of_le_of_lt hdepth hroom)⟩
  · exact fun style => Go.exists_unit style hc
  · obtain ⟨_, _, hobject', -, hfields⟩ := Go.forall₂_fields hc
    cases hobject.symm.trans hobject'
    exact hfields.imp fun m f hf => Go.follow_memberType? (Go.field?_ok hf).2.2.1
  · exact fun style => TypeScript.exists_unit style hc
  · apply (TypeScript.forall₂_fields hobject hc).2.imp
    exact fun m f hf => TypeScript.follow_memberType? (TypeScript.field?_ok hf).2.2.2
  · obtain ⟨path, hpath⟩ := Graph.exists_climb htidy hparent hn
    have hlength := hpath.length_le htidy hparent hn
    have htitles := fun limit (h : path.length ≤ limit) => hpath.titlesOutwards_eq h
    refine ⟨path, hpath, hpath.nodup htidy hparent, hlength, htitles, ?_⟩
    rw [Graph.objectName, htitles _ (Nat.le_succ_of_le hlength)]

theorem ofNode?_tree : Go.Class.ofNode? treeGraph 0 =
    .ok ⟨"Node", [⟨"next", .list (.object "Node"), true, none⟩,
      ⟨"tag", .object "Tag", true, none⟩]⟩ := by
  have hfault : MemberNames.fault? "Node" Naming.goPublic ["next", "tag"] = none := by decide
  have hobject : treeGraph.object? 0 = some (⟨some "t", none, some "Node", true, none⟩,
      [⟨"next", 0, true, 1, none⟩, ⟨"tag", 1, true, 3, none⟩]) := rfl
  exact Go.ofNode?_of_parts hobject rfl hfault rfl

/-- A tree leads back to itself. What is made of its next trees meets their array and the tree,
which stands there for its name in either language. -/
theorem emission_ends_tree :
    let g := (Workspace.after treeLibrary [.load "file:///t"]).graph
    (0 ∈ g.children 1 ∧ 1 ∈ g.children 0) ∧
    (∃ u c, Go.unit? ⟨.standard, ""⟩ g 0 = .ok u ∧ u.contents = Go.contents ⟨.standard, ""⟩ g 0 c ∧
      ∃ f ∈ c.fields, Walk.Follow Go.walks g (Go.leafType? g) (fun n => .object (g.title n)) 1
        f.type ⟨[1], 0⟩) ∧
    (∃ u c, TypeScript.unit? ⟨.standard, ""⟩ g 0 = .ok u ∧
      u.contents = TypeScript.contents ⟨.standard, ""⟩ g 0 c ∧
      ∃ f ∈ c.fields, Walk.Follow TypeScript.walks g (TypeScript.leafType? g)
        (fun n => .object (g.objectName n)) 1 f.type ⟨[1], 0⟩) ∧
    (∃ path, g.Climb 1 path ∧ path.length ≤ 4) ∧
    g.membersWithin 5 0 = (g.document 0).members := by
  have hobject : (Workspace.after treeLibrary [.load "file:///t"]).graph.object? 0 =
      some (⟨some "t", none, some "Node", true, none⟩,
        [⟨"next", 0, true, 1, none⟩, ⟨"tag", 1, true, 3, none⟩]) := by
    rw [graph_tree]
    rfl
  have hmember : (⟨"next", 0, true, 1, none⟩ : Member) ∈
      [(⟨"next", 0, true, 1, none⟩ : Member), ⟨"tag", 1, true, 3, none⟩] := List.mem_cons_self
  have hchain : treeGraph.arrayChain? 1 = some ⟨[1], 0⟩ := by decide
  obtain ⟨-, hgo, hts, hclimb, -, hdocument⟩ :=
    emission_ends treeLibrary [.load "file:///t"] hobject
  rw [graph_tree] at hgo hts hclimb hdocument ⊢
  refine ⟨by decide, ?_, ?_, ?_, hdocument 0 5 (by decide)⟩
  · obtain ⟨hunit, hfields⟩ := hgo _ ofNode?_tree
    obtain ⟨u, hu, hcontents⟩ := hunit ⟨.standard, ""⟩
    obtain ⟨f, hf, chain, hfollow⟩ := forall₂_left hfields hmember
    cases hchain.symm.trans hfollow.ends
    exact ⟨u, _, hu, hcontents, f, hf, hfollow⟩
  · obtain ⟨hunit, hfields⟩ := hts _ TypeScript.ofNode?_node
    obtain ⟨u, hu, hcontents⟩ := hunit ⟨.standard, ""⟩
    obtain ⟨f, hf, chain, hfollow⟩ := forall₂_left hfields hmember
    cases hchain.symm.trans hfollow.ends
    exact ⟨u, _, hu, hcontents, f, hf, hfollow⟩
  · obtain ⟨path, hpath, -, hlength, -⟩ := hclimb 1 (by decide)
    exact ⟨path, hpath, hlength⟩

end Generation

end SchemaForge
