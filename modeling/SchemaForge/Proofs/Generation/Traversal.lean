import Mathlib
import SchemaForge.Proofs.Generation.Claimants
import SchemaForge.Proofs.Json
/-! Writing units as a full traversal: where names tell objects apart, no object is passed over. -/
namespace SchemaForge.Generation

open Build

variable {style : Style} {language : Language} {g : Graph} {root id items : NodeId}
  {seen pending : List NodeId} {units : List String} {head : Option NodeId} {info : Info}
  {site : Option RefSite}

/-- What a node in sight leads to is in sight too, but for arrays on the way to the next node. -/
def Settled (g : Graph) (seen : List NodeId) (head : Option NodeId) : Prop :=
  ∀ a ∈ seen, ∀ m, g.memberObject? a = some m →
    m ∈ seen ∨ ∃ x ∈ head, g.arrayDepth x < g.arrayDepth a ∧ g.memberObject? x = some m

/-- The names that are claimed are those of the objects in sight. -/
def Named (language : Language) (g : Graph) (root : NodeId) (seen : List NodeId)
    (units : List String) : Prop :=
  ∀ id, g.Reaches root id → g.hasMembers id = true →
    (fileName language g id ∈ units ↔ id ∈ seen)

theorem Settled.mem (h : Settled g seen (some id)) (hid : id ∈ seen) {m : NodeId}
    (hm : g.memberObject? id = some m) : m ∈ seen := by
  rcases h id hid m hm with hm | ⟨x, hx, hdepth, -⟩
  · exact hm
  · cases hx
    omega

/-- A node that leads to nothing new leaves all as it was. -/
theorem Settled.skip (h : Settled g seen (some id))
    (hid : ∀ m, g.memberObject? id = some m → m ∈ seen) : Settled g seen head := by
  intro a ha m hm
  rcases h a ha m hm with hm | ⟨x, hx, -, hx'⟩
  · exact Or.inl hm
  · cases hx
    exact Or.inl (hid m hx')

theorem Settled.cons (h : Settled g seen (some id))
    (hid : ∀ m, g.memberObject? id = some m → m = id) : Settled g (id :: seen) head := by
  intro a ha m hm
  rcases List.mem_cons.1 ha with rfl | ha
  · rw [hid m hm]
    exact Or.inl List.mem_cons_self
  · rcases h a ha m hm with hm | ⟨x, hx, -, hx'⟩
    · exact Or.inl (List.mem_cons_of_mem _ hm)
    · cases hx
      rw [hid m hx']
      exact Or.inl List.mem_cons_self

/-- An array comes before its items. -/
theorem Settled.array (h : Settled g seen (some id))
    (hp : g.property? id = some ⟨info, .array items site⟩) (hc : (g.arrayChain? id).isSome) :
    Settled g (id :: seen) (some items) := by
  have hdepth := (Graph.arrayLeaf_array hp hc).2
  have hmember := Graph.memberObject?_array hp hc
  intro a ha m hm
  rcases List.mem_cons.1 ha with rfl | ha
  · exact Or.inr ⟨items, rfl, by omega, hmember ▸ hm⟩
  · rcases h a ha m hm with hm | ⟨x, hx, hlt, hx'⟩
    · exact Or.inl (List.mem_cons_of_mem _ hm)
    · cases hx
      exact Or.inr ⟨items, rfl, by omega, hmember ▸ hx'⟩

theorem Named.cons_other (h : Named language g root seen units) (hid : g.hasMembers id = false) :
    Named language g root (id :: seen) units := by
  intro other hreach hother
  have hne : other ≠ id := by
    rintro rfl
    rw [hid] at hother
    cases hother
  rw [h other hreach hother, List.mem_cons]
  exact ⟨Or.inr, fun hmem => hmem.resolve_left hne⟩

theorem filter_objectsAlong_cons (h : id < g.size ∧ seen.contains id = false) :
    (g.objectsAlong seen (id :: pending)).filter g.hasMembers =
      if g.hasMembers id then
        id :: (g.objectsAlong (id :: seen) (g.children id ++ pending)).filter g.hasMembers
      else (g.objectsAlong (id :: seen) (g.children id ++ pending)).filter g.hasMembers := by
  rw [Graph.objectsAlong, dif_pos h]
  cases hid : g.hasMembers id with
  | true => simp [Graph.kind_of_hasMembers hid, hid]
  | false =>
    dsimp only
    split <;> simp [hid]

section names

variable (hname : ∀ {a b}, g.Reaches root a → g.Reaches root b → g.hasMembers a = true →
    g.hasMembers b = true → fileName language g a = fileName language g b → a = b)

include hname

theorem Named.cons (h : Named language g root seen units) (hreach : g.Reaches root id)
    (hid : g.hasMembers id = true) :
    Named language g root (id :: seen) (units ++ [fileName language g id]) := by
  intro other hother hmembers
  rw [List.mem_append, List.mem_singleton, List.mem_cons, h other hother hmembers]
  constructor
  · rintro (hseen | heq)
    · exact Or.inr hseen
    · exact Or.inl (hname hother hreach hmembers hid heq)
  · rintro (rfl | hseen)
    · exact Or.inr rfl
    · exact Or.inl hseen

variable (hchain : ∀ {id}, g.Reaches root id → (g.arrayChain? id).isSome)

include hchain

/-- A walk through all nodes meets the objects that claim names, in the same order. -/
theorem filter_objectsAlong (hpending : ∀ id ∈ pending, g.Reaches root id)
    (hs : Settled g seen pending.head?) (hn : Named language g root seen units) :
    (g.objectsAlong seen pending).filter g.hasMembers =
      claimants language g root units (pending.filterMap g.memberObject?) := by
  induction seen, pending using Graph.objectsAlong.induct g generalizing units with
  | case1 seen => rw [Graph.objectsAlong, List.filterMap_nil, claimants, List.filter_nil]
  | case2 seen id pending h _ ih | case3 seen id pending h _ ih =>
    obtain ⟨hid, hpending⟩ := List.forall_mem_cons.1 hpending
    have hchildren : ∀ child ∈ g.children id ++ pending, g.Reaches root child := by
      intro child hchild
      rcases List.mem_append.1 hchild with hchild | hchild
      · exact hid.tail hchild
      · exact hpending child hchild
    rw [filter_objectsAlong_cons h]
    rcases Graph.array_or_hasMembers_or_none g id with
      ⟨info, items, site, hp⟩ | hmembers | ⟨hmembers, hnone, hnil⟩
    · -- the items of an array are next, and lead to the same object
      have hmembers : g.hasMembers id = false := by
        cases hm : g.hasMembers id with
        | true => exact absurd hp (Graph.not_array_of_hasMembers hm _ _ _)
        | false => rfl
      rw [hmembers, if_neg Bool.false_ne_true, List.filterMap_cons,
        Graph.memberObject?_array hp (hchain hid), ← List.filterMap_cons]
      rw [Graph.children_array hp] at ih hchildren ⊢
      exact ih hchildren (hs.array hp (hchain hid)) (hn.cons_other hmembers)
    · have hself := Graph.memberObject?_of_hasMembers hmembers
      have hfree : fileName language g id ∉ units := by
        rw [hn id hid hmembers]
        simpa using h.2
      have hsettled : Settled g (id :: seen) (g.children id ++ pending).head? := by
        apply hs.cons
        intro m hm
        rw [hself] at hm
        exact (Option.some.inj hm).symm
      rw [if_pos hmembers, List.filterMap_cons, hself,
        claimants_free ⟨h.1, Or.inl hmembers⟩ hfree,
        ih hchildren hsettled (hn.cons hname hid hmembers), List.filterMap_append]
    · have hsettled : Settled g (id :: seen) (g.children id ++ pending).head? := by
        apply hs.cons
        intro m hm
        rw [hnone] at hm
        cases hm
      rw [hmembers, if_neg Bool.false_ne_true, List.filterMap_cons, hnone,
        ih hchildren hsettled (hn.cons_other hmembers), hnil, List.nil_append]
  | case4 seen id pending h ih =>
    obtain ⟨hid, hpending⟩ := List.forall_mem_cons.1 hpending
    have hmem : ∀ m, g.memberObject? id = some m → m ∈ seen := by
      intro m hm
      have hlt := Graph.lt_of_memberObject? hm
      exact Settled.mem hs (by simpa [hlt] using h) hm
    rw [Graph.objectsAlong, dif_neg h, ih hpending (hs.skip hmem) hn, List.filterMap_cons]
    cases hm : g.memberObject? id with
    | none => rfl
    | some m =>
      have hmembers := Graph.hasMembers_of_memberObject? hm
      have hreach : g.Reaches root m := hid.trans (Graph.reaches_memberObject? hm)
      rw [claimants_claimed ((hn m hreach hmembers).2 (hmem m hm))]

end names

/-- An object without members is alone. -/
theorem objects_memberless (h : (g.object? root).isSome = true) (hm : g.hasMembers root = false) :
    g.objects root = [root] ∧ claimants language g root [] [root] = [root] := by
  have hlt := Graph.lt_of_object? h
  have hnot : ∀ info items site, g.property? root ≠ some ⟨info, .array items site⟩ := by
    intro info items site hp
    simp [Graph.object?, hp] at h
  have hkind : g.kind root = .object := by
    unfold Graph.object? at h
    unfold Graph.kind
    cases hp : g.property? root with
    | none => rfl
    | some p =>
      obtain ⟨info, shape⟩ := p
      cases shape <;> simp [hp, Property.kind] at h ⊢
  have hnil := Graph.children_eq_nil hnot hm
  constructor
  · rw [Graph.objects, Graph.objectsAlong, dif_pos ⟨hlt, rfl⟩, hnil, List.nil_append,
      Graph.objectsAlong]
    simp [hkind]
  · rw [claimants_free ⟨hlt, Or.inr rfl⟩ List.not_mem_nil, hnil]
    simp only [List.filterMap_nil, List.nil_append, claimants]

/-- Where names tell objects apart and all arrays come to an end, writing units is a full
traversal: each object with members that can be reached has its unit written, in the order in which
the objects are met. -/
theorem units_eq_mapM_objects (lib : Library) (calls : List Build.Call) (style : Style)
    (language : Language) (w : Workspace) (hw : w = Workspace.after lib calls) (root : NodeId)
    (hroot : (w.graph.object? root).isSome = true)
    (hchain : ∀ id, w.graph.Reaches root id → (w.graph.arrayChain? id).isSome = true)
    (hname : ∀ a b, w.graph.Reaches root a → w.graph.Reaches root b →
      w.graph.hasMembers a = true ∨ a = root → w.graph.hasMembers b = true ∨ b = root →
      fileName language w.graph a = fileName language w.graph b → a = b) :
    (Generation.units style language w.graph w.registry root).1 =
      (((w.graph.objects root).filter fun id => w.graph.hasMembers id || id == root).mapM
        (unit? style language w.graph)).mapError Error.shape := by
  subst hw
  rw [units_after_claimants lib calls style language hroot]
  congr 2
  generalize (Workspace.after lib calls).graph = g at hroot hchain hname
  cases hm : g.hasMembers root with
  | true =>
    have hobjects : (g.objects root).filter g.hasMembers =
        claimants language g root [] ([root].filterMap g.memberObject?) := by
      apply filter_objectsAlong
      · intro a b ha hb hma hmb
        exact hname a b ha hb (Or.inl hma) (Or.inl hmb)
      · exact fun {id} => hchain id
      · intro id hid
        rw [List.mem_singleton.1 hid]
        exact Relation.ReflTransGen.refl
      · exact fun a ha => absurd ha List.not_mem_nil
      · exact fun id _ _ => by simp
    have hroot' : [root].filterMap g.memberObject? = [root] := by
      rw [List.filterMap_cons, Graph.memberObject?_of_hasMembers hm, List.filterMap_nil]
    rw [← hroot', ← hobjects]
    apply List.filter_congr
    intro id _
    by_cases hid : id = root
    · rw [hid, hm]
      rfl
    · simp [hid]
  | false =>
    obtain ⟨hobjects, hclaimants⟩ :
      g.objects root = [root] ∧ claimants language g root [] [root] = [root] :=
      objects_memberless hroot hm
    rw [hobjects, hclaimants]
    simp

/-- A schema file of nodes that hold rows of nodes. -/
def treeText : String :=
  "\x7b\"$id\":\"t\",\"title\":\"Node\",\"type\":\"object\",\"properties\":" ++
    "\x7b\"next\":\x7b\"type\":\"array\",\"items\":\x7b\"$ref\":\"file:///t\"\x7d\x7d," ++
    "\"tag\":\x7b\"$id\":\"g\",\"title\":\"Tag\",\"type\":\"object\",\"properties\":" ++
    "\x7b\"name\":\x7b\"type\":\"string\"\x7d\x7d\x7d\x7d\x7d"

def treeDocument : Document where
  members := [
    ("$id", .string "t"), ("title", .string "Node"), ("type", .string "object"),
    ("properties", .object [
      ("next", .object [("type", .string "array"),
        ("items", .object [("$ref", .string "file:///t")])]),
      ("tag", .object [("$id", .string "g"), ("title", .string "Tag"), ("type", .string "object"),
        ("properties", .object [("name", .object [("type", .string "string")])])])])]

def treeLibrary : Library := FileMap.library ⟨⟨"/"⟩, [(⟨"/t"⟩, treeText)]⟩ []

/-- The graph of a tree: node 0 is the root, which node 1 leads back to, and node 3 the tag. -/
def treeGraph : Graph where
  nodes := #[
    ⟨⟨⟨none, none⟩, .object ⟨some "t", none, some "Node", true, none⟩
        [⟨"next", 0, true, 1, none⟩, ⟨"tag", 1, true, 3, none⟩]⟩,
      some 1, some ⟨"/t"⟩, true⟩,
    ⟨⟨⟨none, none⟩, .array 0 (some ⟨"file:///t", none⟩)⟩, some 0, some ⟨"/t"⟩, false⟩,
    ⟨⟨⟨none, none⟩, .leaf (.string none none)⟩, some 3, some ⟨"/t"⟩, false⟩,
    ⟨⟨⟨none, none⟩, .object ⟨some "g", none, some "Tag", true, none⟩ [⟨"name", 0, true, 2, none⟩]⟩,
      some 0, some ⟨"/t"⟩, false⟩]

theorem graph_tree : (Workspace.after treeLibrary [.load "file:///t"]).graph = treeGraph := by
  have hlocated : ∀ referrer, treeLibrary.locate referrer "file:///t" = .ok ⟨"/t"⟩ :=
    fun _ => rfl
  have hchars : treeText.toList = _ :=
    toList_literals (toList_literals (toList_literals (toList_literal rfl) (toList_literal rfl))
      (toList_literal rfl)) (toList_literal rfl)
  have hread : Document.read ⟨"/t"⟩ treeText = .ok treeDocument :=
    Document.read_of_toList hchars (by cbv)
  have hschema : Schema.ofDocument treeDocument =
      .object "Node" ⟨none, none⟩ ⟨some "t", none, some "Node", true, none⟩ []
        [("next", .array ⟨none, none⟩ (.reference ⟨"file:///t", none⟩)),
          ("tag", .object "Tag" ⟨none, none⟩ ⟨some "g", none, some "Tag", true, none⟩ []
            [("name", .leaf ⟨none, none⟩ (.string none none))] [])] [] := by cbv
  have hr := Registry.resolve_new (r := .empty) (hlocated none) rfl rfl hread
  have hw : reference treeLibrary [] none "file:///t" .empty = _ :=
    reference_typed hr rfl rfl (by rw [hschema]; rfl)
  have hinner := @reference_built treeLibrary [⟨"/t"⟩] (some ⟨"/t"⟩) "file:///t"
    (reserved ⟨"/t"⟩
      { Workspace.empty with
        registry := { Registry.empty with reads := 1 }.register ⟨"/t"⟩
          (Text.trim "file:///t") treeDocument })
    ⟨"/t"⟩ 0 (hlocated _) rfl
  dsimp only at hw
  rw [hschema] at hw
  simp only [schema, members_cons, bind_apply] at hw
  erw [hinner] at hw
  rw [Workspace.after_load, load_apply, hw]
  rfl

/-- A walk through a tree meets no other nodes. -/
theorem lt_of_reaches_tree {id : NodeId} (h : treeGraph.Reaches 0 id) : id < 4 := by
  have hclosed : ∀ a < 4, ∀ b ∈ treeGraph.children a, b < 4 := by decide
  induction h with
  | refl => decide
  | tail _ hb ih => exact hclosed _ ih _ hb

theorem units_eq_mapM_objects_tree :
    let w := Workspace.after treeLibrary [.load "file:///t"]
    (Generation.units ⟨.standard, ""⟩ .go w.graph w.registry 0).1 =
      (((w.graph.objects 0).filter fun id => w.graph.hasMembers id || id == 0).mapM
        (unit? ⟨.standard, ""⟩ .go w.graph)).mapError Error.shape := by
  refine units_eq_mapM_objects treeLibrary [.load "file:///t"] _ .go _ rfl 0 ?_ ?_ ?_
  · rw [graph_tree]
    rfl
  · rw [graph_tree]
    have hends : ∀ id < 4, (treeGraph.arrayChain? id).isSome = true := by decide
    exact fun id hid => hends id (lt_of_reaches_tree hid)
  · rw [graph_tree]
    have hnames : fileName .go treeGraph 0 = "node.go" ∧ fileName .go treeGraph 3 = "tag.go" := by
      constructor <;> cbv
    have hobject : ∀ id < 4, treeGraph.hasMembers id = true ∨ id = 0 → id = 0 ∨ id = 3 := by
      decide
    intro a b ha hb hma hmb heq
    rcases hobject a (lt_of_reaches_tree ha) hma with rfl | rfl <;>
      rcases hobject b (lt_of_reaches_tree hb) hmb with rfl | rfl
    · rfl
    · simp [hnames] at heq
    · simp [hnames] at heq
    · rfl

end SchemaForge.Generation
