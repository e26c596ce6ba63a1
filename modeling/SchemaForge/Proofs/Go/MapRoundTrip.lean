import SchemaForge.Proofs.Go.Factories
/-! Round trips: what a factory makes of the map of an object. -/
namespace SchemaForge.Go

variable {rt : Runtime} {numbers : Float64 → Prop} {classes : List Class} {title : String}
  {x : Value} {g : Graph} {root : NodeId}

/-- The result that the factory of a title has for the map of an object. -/
def ThroughMap (rt : Runtime) (classes : List Class) (title : String) (x result : Value) : Prop :=
  ∃ entries factory,
    Ends rt (mappingDecls classes) (some x) "AsMap" [] ⟨some (.map entries), some x, .empty⟩ ∧
    Ends rt (mappingDecls classes) none ("New" ++ typeName title "Factory") []
      ⟨some factory, none, .empty⟩ ∧
    Ends rt (mappingDecls classes) (some factory) "FromMap" [.map entries]
      ⟨some result, some factory, .empty⟩

theorem throughMap_restored (h : Accepted g root classes)
    (hx : Inhabits numbers classes (.object title) x) (hlists : x.listsHoldObjects = true) :
    ThroughMap rt classes title x (.ok (restored classes x)) := by
  obtain ⟨entries, hentries⟩ : ∃ entries, mapForm classes x = .map entries := by
    cases hx with
    | object hc hvs => exact ⟨_, mapForm_object hc⟩
  have hmap (more : Nat) : MapsUpTo (callWithin rt (mappingDecls classes) (sizeOf x + more)) numbers
      classes (sizeOf x + more) := mapsUpTo_callWithin h _
  have hmaps (more : Nat) := hmap more title x hx (Nat.le_add_right _ _)
  have hread (more : Nat) : ReadsUpTo (callWithin rt (mappingDecls classes) (sizeOf x + 2 + more))
      numbers classes (sizeOf x + more) := by
    rw [Nat.add_right_comm]
    exact readsUpTo_callWithin h _
  have hreads (more : Nat) := hread more title x hx hlists (Nat.le_add_right _ _)
  rw [hentries] at hmaps hreads
  exact ⟨entries, .struct (typeName title "Factory") [], ⟨_, hmaps⟩,
    ⟨_, fun more => (hreads more).1⟩, ⟨_, fun more => (hreads more).2⟩⟩

/-- A factory makes an object again of its map, where all lists hold objects in the end. Optional
members that were absent have their defaults afterwards; all others are as they were. -/
theorem fromMap_asMap (h : Accepted g root classes)
    (hx : Inhabits (fun _ => True) classes (.object (g.title root)) x)
    (hlists : x.listsHoldObjects = true) :
    ThroughMap rt classes (g.title root) x (.ok (restored classes x)) :=
  throughMap_restored h hx hlists

section curve

theorem inhabits_curve_unlabelled : Inhabits (fun _ => True) curveClasses
    (.object (curveGraph.title 5)) (curve [point 1] .absent .absent) := by
  apply inhabits_curve
  · intro v hv
    rw [List.mem_singleton.1 hv]
    exact inhabits_point _ 1
  · exact .absent
  · exact .absent

/-- A curve without a label has the label of the default afterwards. -/
theorem restored_curve : restored curveClasses (curve [point 1] .absent .absent) =
    curve [point 1] (.present (.string "none")) .absent := rfl

theorem fromMap_asMap_curve :
    Accepted curveGraph 5 curveClasses ∧
    Inhabits (fun _ => True) curveClasses (.object (curveGraph.title 5))
      (curve [point 1] .absent .absent) ∧
    (curve [point 1] .absent .absent).listsHoldObjects = true ∧
    ThroughMap zeroPrinter curveClasses (curveGraph.title 5) (curve [point 1] .absent .absent)
      (.ok (restored curveClasses (curve [point 1] .absent .absent))) :=
  ⟨accepted_curve, inhabits_curve_unlabelled, rfl,
    fromMap_asMap accepted_curve inhabits_curve_unlabelled rfl⟩

end curve

section tags

/-- A class with a list of texts. -/
def tagsGraph : Graph where
  nodes := #[
    ⟨⟨⟨none, none⟩, .leaf (.string none none)⟩, some 1, none, false⟩,
    ⟨⟨⟨none, none⟩, .array 0 none⟩, some 2, none, false⟩,
    ⟨⟨⟨none, none⟩, .object ⟨none, none, some "Tags", true, none⟩ [⟨"tags", 0, false, 1, none⟩]⟩,
      none, none, false⟩]

def tagsClass : Class := ⟨"Tags", [⟨"tags", .list .string, false, none⟩]⟩

def tags (texts : List Value) : Value := tagsClass.object [.slice (.named "string") texts]

theorem accepted_tags : Accepted tagsGraph 2 [tagsClass] := by
  have hname : Naming.goPublic "tags" = "Tags" := by decide
  have hfault : MemberNames.fault? "Tags" Naming.goPublic ["tags"] = none := by
    simp [MemberNames.fault?, MemberNames.faultAmong?, hname, List.lookup]
  have hobject : tagsGraph.object? 2 = some (⟨none, none, some "Tags", true, none⟩,
      [⟨"tags", 0, false, 1, none⟩]) := rfl
  have hclass : Class.ofNode? tagsGraph 2 = .ok tagsClass :=
    ofNode?_of_parts hobject rfl hfault rfl
  have hclosed : ∀ id < 3, ∀ child ∈ tagsGraph.children id, child < 3 := by decide
  have hreach : ∀ id, tagsGraph.Reaches 2 id → id < 3 := by
    intro id hid
    induction hid with
    | refl => decide
    | tail _ hchild ih => exact hclosed _ ih _ hchild
  have hobjects : ∀ id < 3, (tagsGraph.object? id).isSome = true → id = 2 := by decide
  refine ⟨by decide, ?_, ?_⟩
  · intro id hid hobject
    rw [hobjects id (hreach id hid) hobject]
    exact ⟨tagsClass, List.mem_singleton_self _, hclass⟩
  · intro c hc
    rw [List.mem_singleton.1 hc]
    exact ⟨2, .refl, hclass⟩

theorem inhabits_tags : Inhabits (fun _ => True) [tagsClass] (.object (tagsGraph.title 2))
    (tags []) := by
  have hc : classOf [tagsClass] "Tags" = some tagsClass := by
    simp only [classOf]
    rfl
  have hlist : Inhabits (fun _ => True) [tagsClass] (.list .string) (.slice (.named "string") []) :=
    .list fun _ h => absurd h List.not_mem_nil
  exact .object hc (.cons (.required hlist) .nil)

/-- The map of tags holds a list of texts, where the factory asks for a list of anything. -/
theorem throughMap_tags : ThroughMap zeroPrinter [tagsClass] "Tags" (tags [])
    (.err (.error "Tags.tags: expected array, got %T")) := by
  refine ⟨[("tags", .slice (.named "string") [])], .struct "TagsFactory" [],
    ⟨3, fun more => ?_⟩, ⟨3, fun more => ?_⟩, ⟨3, fun more => ?_⟩⟩
  all_goals rw [Nat.add_comm]
  · rfl
  · rfl
  · rfl

/-- Objects need not come back as they were: a curve comes back with the label of the default, and
tags do not come back at all. -/
theorem throughMap_changes :
    (Accepted curveGraph 5 curveClasses ∧
      Inhabits (fun _ => True) curveClasses (.object (curveGraph.title 5))
        (curve [point 1] .absent .absent) ∧
      ThroughMap zeroPrinter curveClasses (curveGraph.title 5) (curve [point 1] .absent .absent)
        (.ok (curve [point 1] (.present (.string "none")) .absent)) ∧
      curve [point 1] (.present (.string "none")) .absent ≠ curve [point 1] .absent .absent) ∧
    (Accepted tagsGraph 2 [tagsClass] ∧
      Inhabits (fun _ => True) [tagsClass] (.object (tagsGraph.title 2)) (tags []) ∧
      ThroughMap zeroPrinter [tagsClass] (tagsGraph.title 2) (tags [])
        (.err (.error "Tags.tags: expected array, got %T"))) := by
  have hcurve : ThroughMap zeroPrinter curveClasses (curveGraph.title 5)
      (curve [point 1] .absent .absent)
      (.ok (restored curveClasses (curve [point 1] .absent .absent))) :=
    throughMap_restored accepted_curve inhabits_curve_unlabelled rfl
  rw [restored_curve] at hcurve
  have hlabel : curve [point 1] (.present (.string "none")) .absent ≠
      curve [point 1] .absent .absent := by
    simp [curve, Class.object, curveClass]
  exact ⟨⟨accepted_curve, inhabits_curve_unlabelled, hcurve, hlabel⟩,
    ⟨accepted_tags, inhabits_tags, throughMap_tags⟩⟩

end tags

end SchemaForge.Go
