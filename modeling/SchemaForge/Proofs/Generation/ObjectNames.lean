import Mathlib.Data.List.Nodup
import SchemaForge.Proofs.Building.Attribution
import SchemaForge.TypeScript.Class
/-! Names of objects in TypeScript: they follow what stands inside what, and nothing else. -/
namespace SchemaForge

namespace Graph

variable {g g' : Graph} {root top top' q c n : NodeId} {path path' : List NodeId} {limit : Nat}

/-- The way from a node down to another one, along nodes that stand right inside each other. -/
inductive Descent (g : Graph) (top : NodeId) : List NodeId → NodeId → Prop
  | top : Descent g top [top] top
  | inner {path : List NodeId} {q c : NodeId} :
      Descent g top path q → g.Inside c q → Descent g top (path ++ [c]) c

/-- The title of a node, if it has one. -/
def ownTitle (g : Graph) (id : NodeId) : List String :=
  if (g.title id).isEmpty then [] else [g.title id]

/-- The titles along a way, without those that are missing. -/
def titled (g : Graph) (path : List NodeId) : List String :=
  (path.map g.title).filter (!·.isEmpty)

theorem titled_append (g : Graph) (path path' : List NodeId) :
    g.titled (path ++ path') = g.titled path ++ g.titled path' := by
  simp only [titled, List.map_append, List.filter_append]

theorem titled_singleton (g : Graph) (id : NodeId) : g.titled [id] = g.ownTitle id := by
  cases hempty : (g.title id).isEmpty <;> simp [titled, ownTitle, hempty]

theorem reverse_ownTitle (g : Graph) (id : NodeId) : (g.ownTitle id).reverse = g.ownTitle id := by
  unfold ownTitle
  split <;> rfl

/-- A climb ends at the root of a file, and where there is no parent. -/
theorem titlesOutwards_end (h : g.isFileRoot n = true ∨ g.parent? n = none) :
    g.titlesOutwards (limit + 1) n = g.ownTitle n := by
  rw [titlesOutwards, ← ownTitle]
  cases hroot : g.isFileRoot n with
  | true => exact List.append_nil _
  | false =>
    rw [h.resolve_left (by simp [hroot])]
    exact List.append_nil _

theorem titlesOutwards_inner (h : g.isFileRoot n = false) (hq : g.parent? n = some q) :
    g.titlesOutwards (limit + 1) n = g.ownTitle n ++ g.titlesOutwards limit q := by
  rw [titlesOutwards, ← ownTitle, h, hq]
  rfl

/-- A file root is named by its own title. -/
theorem objectName_fileRoot (h : g.isFileRoot n = true) :
    g.objectName n = Naming.tsPublic (g.title n) := by
  rw [objectName, titlesOutwards_end (Or.inl h), reverse_ownTitle, ownTitle]
  split
  · next hempty =>
    have htitle : g.title n = "" := by simpa using hempty
    rw [htitle]
    rfl
  · rfl

theorem title_congr (h : g'.property? n = g.property? n) : g'.title n = g.title n := by
  rw [title, title, object?, object?, h]

theorem titled_congr (h : ∀ id ∈ path, g'.property? id = g.property? id) :
    g'.titled path = g.titled path := by
  rw [titled, titled, List.map_congr_left fun id hid => title_congr (h id hid)]

/-- A climb goes the same way through two graphs that agree but for the parents of the roots of
files. -/
theorem titlesOutwards_congr (hproperty : ∀ id, g'.property? id = g.property? id)
    (hroot : ∀ id, g'.isFileRoot id = g.isFileRoot id)
    (hparent : ∀ id, g.isFileRoot id = false → g'.parent? id = g.parent? id) (limit : Nat)
    (n : NodeId) : g'.titlesOutwards limit n = g.titlesOutwards limit n := by
  induction limit generalizing n with
  | zero => rfl
  | succ limit ih =>
    have hown : g'.ownTitle n = g.ownTitle n := by
      rw [ownTitle, ownTitle, title_congr (hproperty n)]
    cases hn : g.isFileRoot n with
    | true =>
      rw [titlesOutwards_end (Or.inl hn), titlesOutwards_end (Or.inl ((hroot n).trans hn)), hown]
    | false =>
      have hn' := (hroot n).trans hn
      have hsame := hparent n hn
      cases hq : g.parent? n with
      | none =>
        rw [titlesOutwards_end (Or.inr hq), titlesOutwards_end (Or.inr (hsame.trans hq)), hown]
      | some q =>
        rw [titlesOutwards_inner hn hq, titlesOutwards_inner hn' (hsame.trans hq), hown, ih]

/-- Nobody asks for the parent of the root of a file. -/
theorem objectName_parent (h : g.isFileRoot top = true) (parent : Option NodeId) (n : NodeId) :
    (g.modify top fun node => { node with parent := parent }).objectName n = g.objectName n := by
  rw [objectName, objectName, size_modify, titlesOutwards_congr]
  · intro id
    rw [property?, node?_modify, property?]
    split
    · cases g.node? id <;> rfl
    · rfl
  · intro id
    rw [isFileRoot_eq, node?_modify, isFileRoot_eq]
    split
    · cases g.node? id <;> rfl
    · rfl
  · intro id hinner
    have hne : top ≠ id := by
      rintro rfl
      rw [h] at hinner
      cases hinner
    rw [parent?, node?_modify, if_neg hne, parent?]

/-- A graph in which all that a root leads to knows the nodes that it stands in. The root is that of
a file, or nothing refers to it. -/
structure Rooted (g : Graph) (root : NodeId) : Prop where
  orderly : g.Orderly
  tidy : g.Tidy
  root_lt : root < g.size
  parent : ∀ {q c}, g.Reaches root q → g.Inside c q → g.parent? c = some q
  free : g.isFileRoot root = false → g.parent? root = none ∧ ∀ q, root ∉ g.children q

/-- Where names begin: at the roots of files, and at the root that was asked for. -/
def Begins (g : Graph) (root top : NodeId) : Prop := g.isFileRoot top = true ∨ top = root

namespace Descent

theorem mono (h : g.Descent top path n) (hg : g.Extends g') : g'.Descent top path n := by
  induction h with
  | top => exact .top
  | @inner path q c _ hc ih =>
    refine .inner ih ?_
    rw [Inside, edges, hg.property (lt_of_mem_edges hc), ← edges]
    exact hc

theorem lt (h : g.Descent top path n) (ht : g.Tidy) (htop : top < g.size) :
    ∀ x ∈ path, x < g.size := by
  induction h with
  | top => simpa using htop
  | @inner path q c _ hc ih =>
    intro x hx
    rcases List.mem_append.1 hx with hx | hx
    · exact ih x hx
    · rw [List.mem_singleton.1 hx]
      exact (ht.sited q c none hc).1

theorem reaches (h : g.Descent top path n) : g.Reaches top n := by
  induction h with
  | top => exact .refl
  | inner _ hc ih => exact ih.tail (mem_children_iff.2 ⟨none, hc⟩)

/-- All nodes before the last one have it inside them. -/
theorem within (h : g.Descent top path n) :
    ∀ x ∈ path, Relation.ReflTransGen g.Inside n x := by
  induction h with
  | top => intro x hx; rw [List.mem_singleton.1 hx]
  | inner _ hc ih =>
    intro x hx
    rcases List.mem_append.1 hx with hx | hx
    · exact .head hc (ih x hx)
    · rw [List.mem_singleton.1 hx]

/-- A way down passes no node twice, since no node stands inside itself. -/
theorem nodup (h : g.Descent top path n) (ht : g.Tidy) : path.Nodup := by
  induction h with
  | top => exact List.nodup_singleton _
  | @inner path q c hq hc ih =>
    rw [← List.concat_eq_append]
    refine ih.concat fun hmem => ht.not_inside_itself c ?_
    exact .head' hc (hq.within c hmem)

theorem length_le (h : g.Descent top path n) (ht : g.Tidy) (htop : top < g.size) :
    path.length ≤ g.size := length_le_size (h.nodup ht) (h.lt ht htop)

end Descent

namespace Rooted

variable (h : g.Rooted root)

include h

/-- Nothing lies around the place where a name begins. -/
theorem not_inside (htop : g.Begins root top) : ¬ g.Inside top q := by
  intro hinside
  have hinner := h.tidy.inner hinside
  rcases htop with htop | rfl
  · rw [hinner] at htop
    cases htop
  · exact (h.free hinner).2 q (mem_children_iff.2 ⟨none, hinside⟩)

/-- What a reached node stands in is reached. -/
theorem reaches_outer (hc : g.Reaches root c) (hinside : g.Inside c q) : g.Reaches root q := by
  cases hc with
  | refl => exact absurd hinside (h.not_inside (Or.inr rfl))
  | tail hq' hchild =>
    have hchild' : c ∈ g.children q := mem_children_iff.2 ⟨none, hinside⟩
    rwa [h.orderly.parent_unique (h.tidy.inner hinside) hchild' hchild]

theorem exists_descent (hn : g.Reaches root n) :
    ∃ top path, g.Begins root top ∧ g.Descent top path n := by
  induction hn with
  | refl => exact ⟨root, [root], Or.inr rfl, .top⟩
  | @tail q n _ hchild ih =>
    obtain ⟨_ | site, hedge⟩ := mem_children_iff.1 hchild
    · obtain ⟨top, path, htop, hq⟩ := ih
      exact ⟨top, path ++ [n], htop, .inner hq hedge⟩
    · exact ⟨n, [n], Or.inl ((h.tidy.sited q n _ hedge).2.1 rfl), .top⟩

theorem descent_unique (hp : g.Descent top path n) (hp' : g.Descent top' path' n)
    (htop : g.Begins root top) (htop' : g.Begins root top') : top' = top ∧ path' = path := by
  induction hp generalizing path' with
  | top =>
    cases hp' with
    | top => exact ⟨rfl, rfl⟩
    | inner _ hc => exact absurd hc (h.not_inside htop)
  | @inner path q c _ hc ih =>
    cases hp' with
    | top => exact absurd hc (h.not_inside htop')
    | @inner path' q' _ hq' hc' =>
      have hchild : c ∈ g.children q := mem_children_iff.2 ⟨none, hc⟩
      have hchild' : c ∈ g.children q' := mem_children_iff.2 ⟨none, hc'⟩
      cases h.orderly.parent_unique (h.tidy.inner hc) hchild hchild'
      obtain ⟨hsame, hpath⟩ := ih hq'
      exact ⟨hsame, by rw [hpath]⟩

theorem begins_lt (htop : g.Begins root top) : top < g.size := by
  rcases htop with htop | rfl
  · exact lt_of_isFileRoot htop
  · exact h.root_lt

/-- Climbing along parents goes the way back, and ends where the name begins. -/
theorem titlesOutwards_eq (hp : g.Descent top path n) (htop : g.Begins root top)
    (hn : g.Reaches root n) (hlimit : path.length ≤ limit) :
    g.titlesOutwards limit n = (g.titled path).reverse := by
  induction hp generalizing limit with
  | top =>
    obtain ⟨limit, rfl⟩ : ∃ k, limit = k + 1 := ⟨limit - 1, by simp at hlimit; omega⟩
    have hend : g.isFileRoot top = true ∨ g.parent? top = none := by
      cases hroot : g.isFileRoot top with
      | true => exact Or.inl rfl
      | false =>
        rcases htop with htop | rfl
        · exact Or.inl (hroot ▸ htop)
        · exact Or.inr (h.free hroot).1
    rw [titlesOutwards_end hend, titled_singleton, reverse_ownTitle]
  | @inner path q c _ hc ih =>
    rw [List.length_append, List.length_singleton] at hlimit
    obtain ⟨limit, rfl⟩ : ∃ k, limit = k + 1 := ⟨limit - 1, by omega⟩
    have hq := h.reaches_outer hn hc
    have hrest := ih hq (Nat.le_of_succ_le_succ hlimit)
    rw [titlesOutwards_inner (h.tidy.inner hc) (h.parent hq hc), hrest, titled_append,
      List.reverse_append, titled_singleton, reverse_ownTitle]

theorem objectName_eq (hp : g.Descent top path n) (htop : g.Begins root top)
    (hn : g.Reaches root n) :
    g.objectName n = Naming.tsPublic ("$".intercalate (g.titled path)) := by
  have hlimit := hp.length_le h.tidy (h.begins_lt htop)
  rw [objectName, h.titlesOutwards_eq hp htop hn (Nat.le_succ_of_le hlimit), List.reverse_reverse]

end Rooted

end Graph

namespace Build

variable {lib : Library} {calls : List Call} {c : Call} {root : NodeId}

/-- What a call that works leads to knows the nodes that it stands in. -/
theorem rooted_run (h : (c.run lib (Workspace.after lib calls)).1 = .ok root) :
    (Workspace.after lib (calls ++ [c])).graph.Rooted root := by
  have hcoherent := Workspace.coherent_after lib (calls ++ [c])
  have hends := ends_run c (Workspace.coherent_after lib calls)
  rw [Workspace.after_concat] at hcoherent ⊢
  generalize c.run lib (Workspace.after lib calls) = out at h hends hcoherent ⊢
  cases hends with
  | failed => cases h
  | @linked id w hw _ hlt hfree =>
    cases h
    have hlearns := Graph.learns_link hw.passable hlt
    refine ⟨hcoherent.orderly, hcoherent.tidy, hlearns.size.symm ▸ hlt, fun {q n} hq hn => ?_,
      fun hinner => ?_⟩
    · have hchild : n ∈ (w.graph.link root).children q := Graph.mem_children_iff.2 ⟨none, hn⟩
      have hne : n ≠ q := by
        rintro rfl
        exact hcoherent.tidy.not_inside_itself n (.single hn)
      have hreach : w.graph.Reaches root q :=
        Graph.Reaches.mono hq fun id _ hc => (hlearns.children id) ▸ hc
      rw [hlearns.children] at hchild
      obtain ⟨parent, hparent⟩ := Option.isSome_iff_exists.1
        (Graph.telling_link hw.passable hlt Graph.telling_parents trivial hreach hchild hne)
      have hreferrer := hcoherent.attributed.parent hparent
      dsimp only at hreferrer
      rw [hlearns.children] at hreferrer
      have hinner := (hlearns.extends'.isFileRoot hlearns.size n).symm.trans
        (hcoherent.tidy.inner hn)
      rw [hparent, hw.orderly.parent_unique hinner hreferrer hchild]
    · dsimp only at hinner ⊢
      rw [hlearns.extends'.isFileRoot hlearns.size] at hinner
      have hunreferred : ∀ q, root ∉ (w.graph.link root).children q := fun q => by
        rw [hlearns.children]
        exact hfree hinner q
      refine ⟨?_, hunreferred⟩
      cases hparent : (w.graph.link root).parent? root with
      | none => rfl
      | some q => exact absurd (hcoherent.attributed.parent hparent) (hunreferred q)

/-- Nothing that later calls build refers to old nodes inside files. -/
theorem apart_append (lib : Library) (calls more : List Call) :
    Apart (Workspace.after lib calls).graph (Workspace.after lib (calls ++ more)).graph := by
  induction more using List.reverseRecOn with
  | nil =>
    rw [List.append_nil]
    exact fun _ _ _ _ hc => hc
  | append_singleton more c ih =>
    intro n q hlt hinner hc
    have hextends := (Workspace.extends_after_append lib calls more).graph
    have hlast := apart_run c (Workspace.coherent_after lib (calls ++ more))
    rw [← List.append_assoc, Workspace.after_concat] at hc
    exact ih n q hlt hinner (hlast n q (Nat.lt_of_lt_of_le hlt hextends.size_le)
      ((hextends.fileRoot hlt).trans hinner) hc)

/-- What has been told stays so, whatever else is asked of builders. -/
theorem rooted_append (h : (c.run lib (Workspace.after lib calls)).1 = .ok root)
    (more : List Call) : (Workspace.after lib (calls ++ c :: more)).graph.Rooted root := by
  have hrooted := rooted_run h
  have hcoherent := Workspace.coherent_after lib (calls ++ c :: more)
  have hextends := (Workspace.extends_after_append lib (calls ++ [c]) more).graph
  have hapart := apart_append lib (calls ++ [c]) more
  rw [List.append_assoc, List.singleton_append] at hextends hapart
  refine ⟨hcoherent.orderly, hcoherent.tidy, Nat.lt_of_lt_of_le hrooted.root_lt hextends.size_le,
    fun {q n} hq hn => ?_, fun hinner => ?_⟩
  · obtain ⟨hreach, hlt⟩ := hextends.reaches_of_lt hrooted.orderly.child_lt hrooted.root_lt hq
    rw [Graph.Inside, Graph.edges, hextends.property hlt, ← Graph.edges] at hn
    exact hextends.parent (hrooted.parent hreach hn)
  · rw [hextends.fileRoot hrooted.root_lt] at hinner
    have hunreferred : ∀ q, root ∉ (Workspace.after lib (calls ++ c :: more)).graph.children q :=
      fun q hq => (hrooted.free hinner).2 q (hapart root q hrooted.root_lt hinner hq)
    refine ⟨?_, hunreferred⟩
    cases hparent : (Workspace.after lib (calls ++ c :: more)).graph.parent? root with
    | none => rfl
    | some q => exact absurd (hcoherent.attributed.parent hparent) (hunreferred q)

/-- The names of objects follow what stands inside what. Whatever else has been or will be built,
for each node that a call has led to there is one way to it, from the root of a file or from the
root of the document that the call was for, along nodes that stand right inside each other. The
node is named by the titles along this way, those that there are; a climb along the parents is over
before it could have met all nodes, wherever its limit is set, and finds just these titles. The root
of a file is named by its own title. Neither later calls change a name nor would another parent of
the root of a file, that is, another one that refers to the file first. -/
theorem objectName_of_run (lib : Library) (calls : List Call) (c : Call) (root : NodeId)
    (h : (c.run lib (Workspace.after lib calls)).1 = .ok root) (more : List Call) :
    let g := (Workspace.after lib (calls ++ c :: more)).graph
    ∀ n, g.Reaches root n →
      (∃ top path, g.Begins root top ∧ g.Descent top path n ∧
        (∀ top' path', g.Begins root top' → g.Descent top' path' n →
          top' = top ∧ path' = path) ∧
        path.length ≤ g.size ∧
        (∀ limit, path.length ≤ limit → g.titlesOutwards limit n = (g.titled path).reverse) ∧
        g.objectName n = Naming.tsPublic ("$".intercalate (g.titled path))) ∧
      (g.isFileRoot n = true → g.objectName n = Naming.tsPublic (g.title n)) ∧
      (Workspace.after lib (calls ++ [c])).graph.objectName n = g.objectName n ∧
      ∀ file parent, g.isFileRoot file = true →
        (g.modify file fun node => { node with parent := parent }).objectName n =
          g.objectName n := by
  have hrooted := rooted_append h more
  have hextends := (Workspace.extends_after_append lib (calls ++ [c]) more).graph
  rw [List.append_assoc, List.singleton_append] at hextends
  intro g n hn
  obtain ⟨top, path, htop, hpath⟩ := hrooted.exists_descent hn
  refine ⟨⟨top, path, htop, hpath, ?_, ?_, ?_, ?_⟩, Graph.objectName_fileRoot, ?_, ?_⟩
  · exact fun top' path' htop' hpath' => hrooted.descent_unique hpath hpath' htop htop'
  · exact hpath.length_le hrooted.tidy (hrooted.begins_lt htop)
  · exact fun limit hlimit => hrooted.titlesOutwards_eq hpath htop hn hlimit
  · exact hrooted.objectName_eq hpath htop hn
  · have hfirst := rooted_run h
    obtain ⟨hreach, -⟩ := hextends.reaches_of_lt hfirst.orderly.child_lt hfirst.root_lt hn
    obtain ⟨top', path', htop', hpath'⟩ := hfirst.exists_descent hreach
    have hold := hpath'.lt hfirst.tidy (hfirst.begins_lt htop')
    have htop'' : g.Begins root top' := htop'.imp_left fun hroot =>
      (hextends.fileRoot (Graph.lt_of_isFileRoot hroot)).trans hroot
    rw [hfirst.objectName_eq hpath' htop' hreach,
      hrooted.objectName_eq (hpath'.mono hextends) htop'' hn]
    rw [Graph.titled_congr fun id hid => hextends.property (hold id hid)]
  · intro file parent hfile
    exact Graph.objectName_parent hfile parent n

/-- A shop whose tills have no titles, with drawers that do. -/
def shopDocument : Document where
  members := [("$id", .string "s"), ("title", .string "Shop"), ("type", .string "object"),
    ("properties", .object [("tills", .object [("type", .string "array"),
      ("items", .object [("$id", .string "t"), ("type", .string "object"),
        ("properties", .object [("drawer", .object [("$id", .string "d"),
          ("title", .string "Drawer"), ("type", .string "object"),
          ("properties", .object [("sum", .object [("type", .string "integer")])])])])])])])]

theorem schema_shop : Schema.ofDocument shopDocument =
    .object "Shop" ⟨none, none⟩ ⟨some "s", none, some "Shop", true, none⟩ []
      [("tills", .array ⟨none, none⟩
        (.object "t" ⟨none, none⟩ ⟨some "t", none, none, true, none⟩ []
          [("drawer", .object "Drawer" ⟨none, none⟩ ⟨some "d", none, some "Drawer", true, none⟩ []
            [("sum", .leaf ⟨none, none⟩ (.integer none none none none))] [])] []))] [] := by cbv

theorem run_shop : ∃ w,
    (Call.document none shopDocument).run houseLibrary .empty = (.ok 4, w) ∧
    w.graph.Inside 3 4 ∧ w.graph.Inside 2 3 ∧ w.graph.Inside 1 2 ∧
    [4, 3, 2, 1].map w.graph.title = ["Shop", "", "", "Drawer"] := by
  have hrun : (Call.document none shopDocument).run houseLibrary .empty = _ :=
    document_apply houseLibrary none shopDocument .empty
  rw [schema_shop] at hrun
  exact ⟨_, hrun, List.mem_singleton_self _, List.mem_singleton_self _,
    List.mem_singleton_self _, rfl⟩

theorem objectName_of_run_shop :
    ((Call.document none shopDocument).run houseLibrary (Workspace.after houseLibrary [])).1 =
      .ok 4 ∧
    ∀ more,
      (Workspace.after houseLibrary (.document none shopDocument :: more)).graph.objectName 1 =
        "Shop$Drawer" := by
  obtain ⟨w, hrun, htills, htill, hdrawer, htitles⟩ := run_shop
  have h : ((Call.document none shopDocument).run houseLibrary
      (Workspace.after houseLibrary [])).1 = .ok 4 := congrArg Prod.fst hrun
  have hw : Workspace.after houseLibrary [.document none shopDocument] = w :=
    congrArg Prod.snd hrun
  have hpath : w.graph.Descent 4 [4, 3, 2, 1] 1 := .inner (.inner (.inner .top htills) htill) hdrawer
  refine ⟨h, fun more => ?_⟩
  have hextends := (Workspace.extends_after_append houseLibrary [.document none shopDocument]
    more).graph
  rw [List.singleton_append, hw] at hextends
  have hreach := (hpath.mono hextends).reaches
  obtain ⟨⟨top, path, -, -, hunique, -, -, hname⟩, -⟩ :=
    objectName_of_run houseLibrary [] (.document none shopDocument) 4 h more 1 hreach
  obtain ⟨-, rfl⟩ := hunique 4 [4, 3, 2, 1] (Or.inr rfl) (hpath.mono hextends)
  have hold : ∀ id ∈ [4, 3, 2, 1], id < w.graph.size :=
    hpath.lt (hw ▸ (rooted_run h).tidy) (hw ▸ (rooted_run h).root_lt)
  rw [List.nil_append, Graph.titled_congr fun id hid => hextends.property (hold id hid),
    Graph.titled, htitles] at hname
  rw [hname]
  decide +kernel

end Build

end SchemaForge
