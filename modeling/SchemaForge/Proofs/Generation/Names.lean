import Mathlib
import SchemaForge.Proofs.Generation.Claimants
/-! Names as the one thing that tells units apart: which objects are passed over, and why. -/
namespace SchemaForge.Generation

open Build

variable {style : Style} {language : Language} {g : Graph} {root id child target m : NodeId}
  {units : List String} {pending : List NodeId} {ids : List NodeId} {us : List CodeUnit}

/-- No name is claimed twice, and none that was claimed before. -/
theorem nodup_claimants (language : Language) (g : Graph) (root : NodeId) (units : List String)
    (pending : List NodeId) :
    ((claimants language g root units pending).map (fileName language g)).Nodup ∧
      ∀ id ∈ claimants language g root units pending, fileName language g id ∉ units := by
  fun_induction claimants language g root units pending with
  | case1 => simp
  | case2 units id pending hid ih =>
    obtain ⟨hnodup, hfresh⟩ := ih
    refine ⟨List.nodup_cons.2 ⟨?_, hnodup⟩, ?_⟩
    · intro hmem
      obtain ⟨other, hother, heq⟩ := List.mem_map.1 hmem
      exact hfresh other hother (by simp [heq])
    · intro other hother
      rcases List.mem_cons.1 hother with rfl | hother
      · simpa using hid.2
      · exact fun hmem => hfresh other hother (List.mem_append_left _ hmem)
  | case3 units id pending hid ih => exact ih

/-- Claims are made by objects that the walk can reach. -/
theorem reaches_claimants (hpending : ∀ id ∈ pending, g.Reaches root id)
    (hid : id ∈ claimants language g root units pending) :
    g.Reaches root id ∧ (g.hasMembers id = true ∨ id = root) := by
  fun_induction claimants language g root units pending with
  | case1 => exact absurd hid List.not_mem_nil
  | case2 units next pending hnext ih =>
    obtain ⟨hreach, hpending⟩ := List.forall_mem_cons.1 hpending
    rcases List.mem_cons.1 hid with rfl | hid
    · exact ⟨hreach, hnext.1.2⟩
    · refine ih ?_ hid
      intro m hm
      rcases List.mem_append.1 hm with hm | hm
      · obtain ⟨child, hchild, hm⟩ := List.mem_filterMap.1 hm
        have hchild : g.Reaches root child := hreach.tail hchild
        exact hchild.trans (Graph.reaches_memberObject? hm)
      · exact hpending m hm
  | case3 units next pending hnext ih =>
    exact ih (List.forall_mem_cons.1 hpending).2 hid

/-- The name of what is met is claimed in the end: of what was pending, and of the objects that
those with a claim refer to. -/
theorem claimed_of_met (language : Language) (g : Graph) (root : NodeId) (units : List String)
    (pending : List NodeId) {ids : List NodeId}
    (hids : claimants language g root units pending = ids) :
    (∀ m ∈ pending, m < g.size ∧ (g.hasMembers m = true ∨ m = root) →
      fileName language g m ∈ units ++ ids.map (fileName language g)) ∧
    ∀ id ∈ ids, ∀ child ∈ g.children id, ∀ m, g.memberObject? child = some m →
      fileName language g m ∈ units ++ ids.map (fileName language g) := by
  fun_induction claimants language g root units pending generalizing ids with
  | case1 => simp [← hids]
  | case2 units next pending hnext ih =>
    subst hids
    obtain ⟨hpending, hchildren⟩ := ih rfl
    simp only [List.append_assoc, List.singleton_append] at hpending hchildren
    rw [List.map_cons]
    constructor
    · intro m hm hwanted
      rcases List.mem_cons.1 hm with rfl | hm
      · simp
      · exact hpending m (List.mem_append_right _ hm) hwanted
    · intro id hid child hchild m hm
      rcases List.mem_cons.1 hid with rfl | hid
      · have hmembers := Graph.hasMembers_of_memberObject? hm
        have hmem : m ∈ (g.children id).filterMap g.memberObject? :=
          List.mem_filterMap.2 ⟨child, hchild, hm⟩
        exact hpending m (List.mem_append_left _ hmem)
          ⟨Graph.lt_of_hasMembers hmembers, Or.inl hmembers⟩
      · exact hchildren id hid child hchild m hm
  | case3 units next pending hnext ih =>
    obtain ⟨hpending, hchildren⟩ := ih hids
    refine ⟨?_, hchildren⟩
    intro m hm hwanted
    rcases List.mem_cons.1 hm with rfl | hm
    · have hclaimed : fileName language g m ∈ units := by
        simpa [hwanted] using hnext
      exact List.mem_append_left _ hclaimed
    · exact hpending m hm hwanted

/-- An object whose name another one has claimed stands between the root and a target, or is the
target. -/
def Barred (language : Language) (g : Graph) (root : NodeId) (ids : List NodeId)
    (target : NodeId) : Prop :=
  ∃ m ∉ ids, g.hasMembers m = true ∧ g.Reaches root m ∧ g.Reaches m target ∧
    ∃ other ∈ ids, fileName language g other = fileName language g m

theorem barred (hm : g.hasMembers m = true) (hroot : g.Reaches root m)
    (htarget : g.Reaches m target)
    (hclaimed : fileName language g m ∈ ids.map (fileName language g)) (hfree : m ∉ ids) :
    Barred language g root ids target :=
  ⟨m, hfree, hm, hroot, htarget, List.mem_map.1 hclaimed⟩

/-- Along any way from an object that is met to another one, all objects have claims up to one that
is passed over. -/
theorem mem_or_barred
    (hclosed : ∀ id ∈ ids, ∀ child ∈ g.children id, ∀ m, g.memberObject? child = some m →
      fileName language g m ∈ ids.map (fileName language g))
    (ht : g.hasMembers target = true) (h : g.Reaches id target) (hid : g.Reaches root id)
    (hm : g.memberObject? id = some m)
    (hclaimed : fileName language g m ∈ ids.map (fileName language g)) :
    target ∈ ids ∨ Barred language g root ids target := by
  induction h using Relation.ReflTransGen.head_induction_on generalizing m with
  | refl =>
    rw [Graph.memberObject?_of_hasMembers ht] at hm
    cases hm
    by_cases hmem : target ∈ ids
    · exact Or.inl hmem
    · exact Or.inr (barred ht hid .refl hclaimed hmem)
  | head hchild hrest ih =>
    next a b =>
    have hb : g.Reaches root b := hid.tail hchild
    rcases Graph.array_or_hasMembers_or_none g a with ⟨info, items, site, hp⟩ | ha | ⟨-, -, hnil⟩
    · rw [Graph.children_array hp, List.mem_singleton] at hchild
      subst hchild
      rw [Graph.memberObject?_array hp (Graph.arrayChain?_of_memberObject? hm)] at hm
      exact ih hb hm hclaimed
    · rw [Graph.memberObject?_of_hasMembers ha] at hm
      cases hm
      by_cases hmem : a ∈ ids
      · obtain ⟨m, hm, -⟩ := Graph.memberObject?_of_reaches ht hrest
        exact ih hb hm (hclosed a hmem b hchild m hm)
      · exact Or.inr (barred ha hid (.head hchild hrest) hclaimed hmem)
    · rw [hnil] at hchild
      exact absurd hchild List.not_mem_nil

theorem fileNames_of_mapM (h : ids.mapM (unit? style language g) = .ok us) :
    us.map CodeUnit.fileName = ids.map (fileName language g) := by
  induction ids generalizing us with
  | nil =>
    cases h
    rfl
  | cons id ids ih =>
    rw [List.mapM_cons] at h
    obtain ⟨unit, hunit, h⟩ := bind_ok h
    obtain ⟨rest, hrest, h⟩ := bind_ok h
    cases h
    rw [List.map_cons, List.map_cons, (told_of_unit? hunit).1, ih hrest]

theorem object?_of_units {r : Registry}
    (h : (Generation.units style language g r root).1 = .ok us) :
    (g.object? root).isSome = true := by
  unfold Generation.units at h
  split at h
  · assumption
  · cases h

theorem ok_of_mapError {ε ε' α : Type} {x : Except ε α} {wrap : ε → ε'} {a : α}
    (h : x.mapError wrap = .ok a) : x = .ok a := by
  cases x with
  | error e => cases h
  | ok b =>
    cases h
    rfl

/-- A run that works writes one unit for each name that it meets, that of the first object to
claim it. The others of that name are passed over, with all that only they lead to, and nothing
tells so. -/
theorem units_one_each_name (lib : Library) (calls : List Call) (style : Style)
    (language : Language) (w : Workspace) (hw : w = Workspace.after lib calls) (root : NodeId)
    (us : List CodeUnit)
    (hus : (Generation.units style language w.graph w.registry root).1 = .ok us) :
    ∃ ids : List NodeId, ids.mapM (unit? style language w.graph) = .ok us ∧
      us.map CodeUnit.fileName = ids.map (fileName language w.graph) ∧
      (us.map CodeUnit.fileName).Nodup ∧ root ∈ ids ∧
      (∀ id ∈ ids, w.graph.Reaches root id ∧ (w.graph.hasMembers id = true ∨ id = root)) ∧
      ∀ target, w.graph.Reaches root target → w.graph.hasMembers target = true →
        target ∉ ids → ∃ m ∉ ids, w.graph.hasMembers m = true ∧ w.graph.Reaches root m ∧
          w.graph.Reaches m target ∧
          ∃ other ∈ ids, fileName language w.graph other = fileName language w.graph m := by
  subst hw
  have hroot := object?_of_units hus
  rw [units_after_claimants lib calls style language hroot] at hus
  generalize (Workspace.after lib calls).graph = g at hus hroot ⊢
  have hmapM := ok_of_mapError hus
  have hnames := fileNames_of_mapM hmapM
  have hfirst : claimants language g root [] [root] = root ::
      claimants language g root [fileName language g root]
        ((g.children root).filterMap g.memberObject? ++ []) :=
    claimants_free ⟨Graph.lt_of_object? hroot, Or.inr rfl⟩ List.not_mem_nil
  obtain ⟨hpending, hclosed⟩ := claimed_of_met language g root [] [root] rfl
  simp only [List.nil_append] at hpending hclosed
  refine ⟨claimants language g root [] [root], hmapM, hnames, ?_, ?_, ?_, ?_⟩
  · rw [hnames]
    exact (nodup_claimants language g root [] [root]).1
  · rw [hfirst]
    exact List.mem_cons_self
  · intro id hid
    apply reaches_claimants ?_ hid
    intro other hother
    rw [List.mem_singleton.1 hother]
    exact .refl
  · intro target hreach htarget hfree
    obtain ⟨m, hm, -⟩ := Graph.memberObject?_of_reaches htarget hreach
    have hclaimed : fileName language g m ∈ (claimants language g root [] [root]).map
        (fileName language g) := by
      rcases Graph.array_or_hasMembers_or_none g root with
        ⟨info, items, site, hp⟩ | hself | ⟨-, hnone, -⟩
      · simp [Graph.object?, hp] at hroot
      · rw [Graph.memberObject?_of_hasMembers hself] at hm
        cases hm
        exact hpending root List.mem_cons_self ⟨Graph.lt_of_object? hroot, Or.inr rfl⟩
      · rw [hnone] at hm
        cases hm
    rcases mem_or_barred hclosed htarget hreach .refl hm hclaimed with hmem | hbarred
    · exact absurd hmem hfree
    · exact hbarred

/-- A document with two schemas of one title. -/
def clash : Document where
  members := [
    ("$id", .string "r"), ("title", .string "Root"), ("type", .string "object"),
    ("properties", .object [
      ("a", .object [("$id", .string "a"), ("title", .string "Sub"), ("type", .string "object"),
        ("properties", .object [("x", .object [("type", .string "string")])])]),
      ("b", .object [("$id", .string "b"), ("title", .string "Sub"), ("type", .string "object"),
        ("properties", .object [("y", .object [("type", .string "integer")])])])])]

/-- The library of nobody: no file is there. -/
def noLibrary : Library := FileMap.library ⟨⟨"/"⟩, []⟩ []

/-- The graph of the clash: nodes 1 and 3 are the schemas, node 4 holds them. -/
def clashGraph : Graph where
  nodes := #[
    ⟨⟨⟨none, none⟩, .leaf (.string none none)⟩, some 1, none, false⟩,
    ⟨⟨⟨none, none⟩, .object ⟨some "a", none, some "Sub", true, none⟩ [⟨"x", 0, true, 0, none⟩]⟩,
      some 4, none, false⟩,
    ⟨⟨⟨none, none⟩, .leaf (.integer none none none none)⟩, some 3, none, false⟩,
    ⟨⟨⟨none, none⟩, .object ⟨some "b", none, some "Sub", true, none⟩ [⟨"y", 0, true, 2, none⟩]⟩,
      some 4, none, false⟩,
    ⟨⟨⟨none, none⟩, .object ⟨some "r", none, some "Root", true, none⟩
      [⟨"a", 0, true, 1, none⟩, ⟨"b", 1, true, 3, none⟩]⟩, none, none, false⟩]

theorem graph_clash : (Workspace.after noLibrary [.document none clash]).graph = clashGraph := by
  have hschema : Schema.ofDocument clash =
      .object "Root" ⟨none, none⟩ ⟨some "r", none, some "Root", true, none⟩ []
        [("a", .object "Sub" ⟨none, none⟩ ⟨some "a", none, some "Sub", true, none⟩ []
            [("x", .leaf ⟨none, none⟩ (.string none none))] []),
          ("b", .object "Sub" ⟨none, none⟩ ⟨some "b", none, some "Sub", true, none⟩ []
            [("y", .leaf ⟨none, none⟩ (.integer none none none none))] [])] [] := by cbv
  change (document noLibrary none clash .empty).2.graph = clashGraph
  rw [document_apply, hschema]
  rfl

theorem fileName_clash : fileName .go clashGraph 4 = "root.go" ∧
    fileName .go clashGraph 1 = "sub.go" ∧ fileName .go clashGraph 3 = "sub.go" := by
  refine ⟨?_, ?_, ?_⟩ <;> cbv

theorem claimants_clash : claimants .go clashGraph 4 [] [4] = [4, 1] := by
  obtain ⟨hroot, hfirst, hsecond⟩ := fileName_clash
  have hchildren : (clashGraph.children 4).filterMap clashGraph.memberObject? = [1, 3] := by decide
  have hinner : (clashGraph.children 1).filterMap clashGraph.memberObject? = [] := by decide
  rw [claimants_free (by decide) List.not_mem_nil, hchildren, hroot]
  simp only [List.nil_append, List.append_nil]
  rw [claimants_free (by decide) (by simp [hfirst]), hinner, hfirst, List.nil_append,
    claimants_claimed (by simp [hsecond]), claimants]

theorem go_unit?_of_class (h : (Go.Class.ofNode? g id).isOk = true) :
    ∃ unit, unit? style .go g id = .ok unit := by
  cases hc : Go.Class.ofNode? g id with
  | error fault => simp [hc, Except.isOk, Except.toBool] at h
  | ok c =>
    rw [unit?, Go.unit?, hc]
    exact ⟨_, rfl⟩

theorem units_clash : ∃ us,
    (Generation.units ⟨.standard, ""⟩ .go (Workspace.after noLibrary [.document none clash]).graph
      (Workspace.after noLibrary [.document none clash]).registry 4).1 = .ok us ∧
    us.map CodeUnit.fileName = ["root.go", "sub.go"] := by
  obtain ⟨root, hroot⟩ : ∃ unit, unit? ⟨.standard, ""⟩ .go clashGraph 4 = .ok unit :=
    go_unit?_of_class (by cbv)
  obtain ⟨first, hfirst⟩ : ∃ unit, unit? ⟨.standard, ""⟩ .go clashGraph 1 = .ok unit :=
    go_unit?_of_class (by cbv)
  have hmapM : [4, 1].mapM (unit? ⟨.standard, ""⟩ .go clashGraph) = .ok [root, first] := by
    rw [List.mapM_cons, hroot, List.mapM_cons, hfirst]
    rfl
  refine ⟨[root, first], ?_, ?_⟩
  · rw [units_after_claimants noLibrary [.document none clash] _ .go (by rw [graph_clash]; rfl),
      graph_clash, claimants_clash, hmapM]
    rfl
  · obtain ⟨hroot, hfirst, -⟩ := fileName_clash
    rw [fileNames_of_mapM hmapM, List.map_cons, List.map_cons, hroot, hfirst]
    rfl

theorem units_one_each_name_clash :
    ∃ us, (Generation.units ⟨.standard, ""⟩ .go
      (Workspace.after noLibrary [.document none clash]).graph
      (Workspace.after noLibrary [.document none clash]).registry 4).1 = .ok us ∧
    ∃ ids : List NodeId,
      ids.mapM (unit? ⟨.standard, ""⟩ .go
        (Workspace.after noLibrary [.document none clash]).graph) = .ok us ∧
      (us.map CodeUnit.fileName).Nodup ∧ 4 ∈ ids := by
  obtain ⟨us, hus, -⟩ := units_clash
  obtain ⟨ids, hmapM, -, hnodup, hroot, -⟩ :=
    units_one_each_name noLibrary [.document none clash] _ .go _ rfl 4 us hus
  exact ⟨us, hus, ids, hmapM, hnodup, hroot⟩

/-- The second schema of the title has no unit, and nothing tells so. -/
theorem same_name_other_schema :
    let w := Workspace.after noLibrary [.document none clash]
    (∃ us, (Generation.units ⟨.standard, ""⟩ .go w.graph w.registry 4).1 = .ok us ∧
      us.map CodeUnit.fileName = ["root.go", "sub.go"]) ∧
    (w.graph.Reaches 4 1 ∧ w.graph.hasMembers 1 = true) ∧
    (w.graph.Reaches 4 3 ∧ w.graph.hasMembers 3 = true) ∧
    fileName .go w.graph 1 = fileName .go w.graph 3 ∧
    (w.graph.document 1).compact ≠ (w.graph.document 3).compact := by
  refine ⟨units_clash, ?_⟩
  rw [graph_clash]
  obtain ⟨-, hfirst, hsecond⟩ := fileName_clash
  have hchild : ∀ child ∈ [1, 3], clashGraph.Reaches 4 child := by
    intro child hchild
    have hmem : child ∈ clashGraph.children 4 := hchild
    exact .single hmem
  refine ⟨⟨hchild 1 (by decide), by decide⟩, ⟨hchild 3 (by decide), by decide⟩, ?_, ?_⟩
  · rw [hfirst, hsecond]
  · cbv

end SchemaForge.Generation
