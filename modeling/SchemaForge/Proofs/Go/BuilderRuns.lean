import SchemaForge.Proofs.Go.Builders
/-! Runs of builders: whatever setters are called, a class comes out once each member that needs a
value has been given one, and no attribute is read before it has a value. -/
namespace SchemaForge.Go

variable {rt : Runtime} {decls : List Decl} {classes : List Class} {c : Class} {f f' : Field}
  {g : Graph} {id : NodeId} {p : Field → Value} {sets : List (Field × Value)} {v w : Value}

/-- What a field was set to last, if it was set at all. -/
def lastSet : List (Field × Value) → Field → Option Value
  | [], _ => none
  | (f, w) :: sets, f' => (lastSet sets f').or (if f.name = f'.name then some w else none)

/-- Setters are called, each on the builder that the one before gave back. -/
inductive Sets (rt : Runtime) (decls : List Decl) : Value → List (Field × Value) → Value → Prop
  | nil (b : Value) : Sets rt decls b [] b
  | cons {b b' b'' : Value} {f : Field} {w : Value} {sets : List (Field × Value)}
      (first : Ends rt decls (some b) f.publicName [w] ⟨some b', some b', .empty⟩)
      (rest : Sets rt decls b' sets b'') : Sets rt decls b ((f, w) :: sets) b''

/-- The value that a member has after its setters: the one that it was set to last, or else its
default, or none for an optional member without a default. -/
inductive Field.Holds (sets : List (Field × Value)) (f : Field) : Value → Prop
  | set {w : Value} (hset : lastSet sets f = some w) : f.Holds sets (w.as f.goType)
  | default {d : Json} {v : Value} (hset : lastSet sets f = none) (hd : f.default = some d)
      (hv : Value.ofJson d = some v) :
      f.Holds sets (if f.optional then .present (v.as f.type.goType) else v.as f.type.goType)
  | absent (hset : lastSet sets f = none) (hoptional : f.optional = true)
      (hd : f.default = none) : f.Holds sets .absent

/-- What comes out of a builder, by what its setters were called with and the attributes it has
then: a struct of its members, or the error of the first member that still needs a value. -/
inductive Class.Yields (rt : Runtime) (c : Class) (sets : List (Field × Value))
    (p : Field → Value) : Value → Prop
  | complete {value : Field → Value} (hslots : ∀ f ∈ c.fields, p f = .set f.goType (value f))
      (hvalues : ∀ f ∈ c.fields, f.Holds sets (value f)) :
      c.Yields rt sets p
        (.ok (.struct c.implName (c.fields.map fun f => (f.privateName, value f))))
  | incomplete {before : List Field} {f : Field} {after : List Field}
      (hfields : c.fields = before ++ f :: after) (hneeded : f.isNeeded = true)
      (hset : lastSet sets f = none)
      (hbefore : ∀ f ∈ before, f.isNeeded = true → (lastSet sets f).isSome = true) :
      c.Yields rt sets p (.err (c.unsetError rt f))

section slots

theorem isNeeded_iff : f.isNeeded = true ↔ f.optional = false ∧ f.default = none := by
  simp [Field.isNeeded]

/-- A member that needs a value has none but what it was set to. -/
theorem Field.Holds.isSome_lastSet (h : f.Holds sets v) (hneeded : f.isNeeded = true) :
    (lastSet sets f).isSome = true := by
  obtain ⟨hoptional, hdefault⟩ := isNeeded_iff.1 hneeded
  cases h with
  | set hset => simp [hset]
  | default hset hd hv => simp [hd] at hdefault
  | absent hset hpresent hd => simp [hpresent] at hoptional

theorem startSlot_default {d : Json} (hd : f.default = some d) (hv : Value.ofJson d = some v) :
    f.startSlot = .set f.goType
      (if f.optional then .present (v.as f.type.goType) else v.as f.type.goType) := by
  simp [Field.startSlot, Field.seedValue?, Field.fallback?, hd, hv]

theorem startSlot_absent (hoptional : f.optional = true) (hd : f.default = none) :
    f.startSlot = .set f.goType .absent := by
  simp [Field.startSlot, Field.seedValue?, Field.fallback?, Field.initialSlot, hd, hoptional]

theorem startSlot_needed (hneeded : f.isNeeded = true) : f.startSlot = .unset f.goType := by
  obtain ⟨hoptional, hd⟩ := isNeeded_iff.1 hneeded
  simp [Field.startSlot, Field.seedValue?, Field.fallback?, Field.initialSlot, hd, hoptional]

/-- The attribute of a field after setters were called on a new builder. -/
def Field.slotAfter (sets : List (Field × Value)) (f : Field) : Value :=
  ((lastSet sets f).map fun w => .set f.goType (w.as f.goType)).getD f.startSlot

/-- An attribute holds the value of its member, or waits for one that the member needs. -/
theorem slotAfter_cases (sets : List (Field × Value))
    (hdefault : ∀ d, f.default = some d → ∃ v, Value.ofJson d = some v) :
    (∃ v, f.slotAfter sets = .set f.goType v ∧ f.Holds sets v) ∨
      f.isNeeded = true ∧ lastSet sets f = none := by
  cases hset : lastSet sets f with
  | some w => exact Or.inl ⟨w.as f.goType, by simp [Field.slotAfter, hset], .set hset⟩
  | none =>
    have hstart : f.slotAfter sets = f.startSlot := by simp [Field.slotAfter, hset]
    rw [hstart]
    cases hd : f.default with
    | some d =>
      obtain ⟨v, hv⟩ := hdefault d hd
      exact Or.inl ⟨_, startSlot_default hd hv, .default hset hd hv⟩
    | none =>
      cases hoptional : f.optional with
      | true => exact Or.inl ⟨_, startSlot_absent hoptional hd, .absent hset hoptional hd⟩
      | false => exact Or.inr ⟨isNeeded_iff.2 ⟨hoptional, hd⟩, rfl⟩

end slots

section runs

/-- A field was set if the setter of its name was called. -/
theorem isSome_lastSet_iff :
    (lastSet sets f).isSome = true ↔ ∃ s ∈ sets, s.1.name = f.name := by
  induction sets with
  | nil => simp [lastSet]
  | cons s sets ih =>
    obtain ⟨f', w⟩ := s
    by_cases hname : f'.name = f.name <;> simp [lastSet, hname, ih]

theorem lastSet_cons_of_ne (h : f.name ≠ f'.name) :
    lastSet ((f, w) :: sets) f' = lastSet sets f' := by
  rw [lastSet, if_neg h, Option.or_none]

/-- After one setter the later ones decide, and the first where they are silent. -/
theorem lastSet_cons_self : lastSet ((f, w) :: sets) f = some ((lastSet sets f).getD w) := by
  rw [lastSet, if_pos rfl]
  cases lastSet sets f <;> rfl

/-- Setters run to their end, and each attribute is the one that it was set to last. -/
theorem sets_run (hbuilt : c.BuiltBy decls) (hsets : ∀ s ∈ sets, s.1 ∈ c.fields)
    (hp : ∀ f ∈ c.fields, IsSlot f (p f)) :
    ∃ p', Sets rt decls (c.builder p) sets (c.builder p') ∧ ∀ f ∈ c.fields,
      p' f = ((lastSet sets f).map fun w => .set f.goType (w.as f.goType)).getD (p f) := by
  -- From the first setter on, so that what it sets is what the later ones start with.
  induction sets generalizing p with
  | nil => exact ⟨p, .nil _, fun f _ => rfl⟩
  | cons s sets ih =>
    obtain ⟨f, w⟩ := s
    obtain ⟨hf, hsets⟩ := List.forall_mem_cons.1 hsets
    obtain ⟨p', hrest, hp'⟩ := ih hsets (IsSlot.setSlot hbuilt.names hf hp (w.as f.goType))
    have hfirst : Ends rt decls (some (c.builder p)) f.publicName [w]
        ⟨some (c.builder (setSlot p f (.set f.goType (w.as f.goType)))),
          some (c.builder (setSlot p f (.set f.goType (w.as f.goType)))), .empty⟩ :=
      ends_of_callWithin [w] 1 fun depth => callWithin_setter hbuilt depth hf (hp f hf) w
    refine ⟨p', .cons hfirst hrest, fun f' hf' => ?_⟩
    rw [hp' f' hf']
    by_cases hname : f.name = f'.name
    · have hsame : f' = f :=
        List.inj_on_of_nodup_map hbuilt.names hf' hf (congrArg Naming.goPrivate hname.symm)
      subst hsame
      rw [lastSet_cons_self, setSlot_self]
      cases lastSet sets f' <;> rfl
    · have hprivate : f'.privateName ≠ f.privateName := by
        intro heq
        exact hname (congrArg Field.name (List.inj_on_of_nodup_map hbuilt.names hf hf' heq.symm))
      rw [lastSet_cons_of_ne hname, setSlot_ne hprivate]

/-- A builder with all the values that its members need yields a struct of them. -/
theorem ends_toClass_complete (hbuilt : c.BuiltBy decls)
    (hp : ∀ f ∈ c.fields, p f = f.slotAfter sets)
    (hall : ∀ f ∈ c.fields, f.isNeeded = true → (lastSet sets f).isSome = true) :
    ∃ result, Ends rt decls (some (c.builder p)) "ToClass" []
      ⟨some result, some (c.builder p), .empty⟩ ∧ c.Yields rt sets p result := by
  have hvalue : ∀ f : Field, ∃ v, f ∈ c.fields → p f = .set f.goType v ∧ f.Holds sets v := by
    intro f
    by_cases hf : f ∈ c.fields
    · rcases slotAfter_cases sets (hbuilt.defaults f hf) with ⟨v, hslot, hv⟩ | ⟨hneeded, hnone⟩
      · exact ⟨v, fun _ => ⟨(hp f hf).trans hslot, hv⟩⟩
      · have := hall f hf hneeded
        simp [hnone] at this
    -- The struct has no other fields, so any value does.
    · exact ⟨.nil, fun h => absurd h hf⟩
  choose value hvalue using hvalue
  have hslots : ∀ f ∈ c.fields, p f = .set f.goType (value f) := fun f hf => (hvalue f hf).1
  exact ⟨_, ends_of_callWithin [] 2 fun depth => callWithin_toClass hbuilt depth hslots,
    .complete hslots fun f hf => (hvalue f hf).2⟩

/-- A builder whose members need more values yields the error of the first of them. -/
theorem ends_toClass_incomplete (hbuilt : c.BuiltBy decls)
    (hp : ∀ f ∈ c.fields, p f = f.slotAfter sets) {before after : List Field}
    (hfields : c.fields = before ++ f :: after) (hneeded : f.isNeeded = true)
    (hset : lastSet sets f = none)
    (hbefore : ∀ f ∈ before, f.isNeeded = true → (lastSet sets f).isSome = true) :
    Ends rt decls (some (c.builder p)) "ToClass" []
      ⟨some (.err (c.unsetError rt f)), some (c.builder p), .empty⟩ := by
  have hf : f ∈ c.fields := by simp [hfields]
  have hunset : p f = .unset f.goType := by
    rw [hp f hf, Field.slotAfter, hset, Option.map_none, Option.getD_none,
      startSlot_needed hneeded]
  have hslots : ∀ f ∈ before, f.isNeeded = true → ∃ w, p f = .set f.goType w := by
    intro f' hf' hneed
    obtain ⟨w, hw⟩ := Option.isSome_iff_exists.1 (hbefore f' hf' hneed)
    refine ⟨w.as f'.goType, ?_⟩
    rw [hp f' (hfields ▸ List.mem_append_left _ hf'), Field.slotAfter, hw]
    rfl
  exact ends_of_callWithin [] 2 fun depth =>
    callWithin_toClass_unset hbuilt depth hfields hneeded hunset hslots

theorem ends_toClass (hbuilt : c.BuiltBy decls) (hp : ∀ f ∈ c.fields, p f = f.slotAfter sets) :
    ∃ result, Ends rt decls (some (c.builder p)) "ToClass" []
      ⟨some result, some (c.builder p), .empty⟩ ∧ c.Yields rt sets p result := by
  cases hfind : c.fields.find? fun f => f.isNeeded && (lastSet sets f).isNone with
  | none =>
    apply ends_toClass_complete hbuilt hp
    intro f hf hneeded
    have := List.find?_eq_none.1 hfind f hf
    simpa [hneeded, Option.isSome_iff_ne_none] using this
  | some f =>
    obtain ⟨hf, before, after, hfields, hbefore⟩ := List.find?_eq_some_iff_append.1 hfind
    obtain ⟨hneeded, hnone⟩ := Bool.and_eq_true_iff.1 hf
    have hset : lastSet sets f = none := Option.isNone_iff_eq_none.1 hnone
    have hsome : ∀ f ∈ before, f.isNeeded = true → (lastSet sets f).isSome = true := by
      intro f' hf' hneed
      have := hbefore f' hf'
      simpa [hneed, Option.isSome_iff_ne_none] using this
    exact ⟨_, ends_toClass_incomplete hbuilt hp hfields hneeded hset hsome,
      .incomplete hfields hneeded hset hsome⟩

/-- A struct comes out where each member that needs a value was set. -/
theorem Class.Yields.ok_iff {result : Value} (h : c.Yields rt sets p result) :
    (∃ x, result = .ok x) ↔ ∀ f ∈ c.fields, f.optional = false → f.default = none →
      ∃ s ∈ sets, s.1.name = f.name := by
  cases h with
  | complete hslots hvalues =>
    refine iff_of_true ⟨_, rfl⟩ fun f hf hoptional hdefault => ?_
    have hset := (hvalues f hf).isSome_lastSet (isNeeded_iff.2 ⟨hoptional, hdefault⟩)
    exact isSome_lastSet_iff.1 hset
  | @incomplete before f after hfields hneeded hset hbefore =>
    have hf : f ∈ c.fields := by simp [hfields]
    obtain ⟨hoptional, hdefault⟩ := isNeeded_iff.1 hneeded
    refine iff_of_false (fun ⟨x, hx⟩ => nomatch hx) fun hall => ?_
    have := isSome_lastSet_iff.2 (hall f hf hoptional hdefault)
    simp [hset] at this

/-- Whatever setters are called on a new builder, a class comes out of it if and only if each
required member without a default was set; its members are what they were set to last, or their
defaults, or none. Otherwise the error of the first member without a value comes out. -/
theorem toClass_after_sets (rt : Runtime) (h : Class.ofNode? g id = .ok c)
    (hc : classOf classes c.title = some c) (hsets : ∀ s ∈ sets, s.1 ∈ c.fields) :
    ∃ start p result,
      Ends rt (packageDecls classes) none ("New" ++ c.builderName) []
        ⟨some start, none, .empty⟩ ∧
      Sets rt (packageDecls classes) start sets (c.builder p) ∧
      Ends rt (packageDecls classes) (some (c.builder p)) "ToClass" []
        ⟨some result, some (c.builder p), .empty⟩ ∧
      ((∃ x, result = .ok x) ↔ ∀ f ∈ c.fields, f.optional = false → f.default = none →
        ∃ s ∈ sets, s.1.name = f.name) ∧
      c.Yields rt sets p result := by
  have hbuilt : c.BuiltBy (packageDecls classes) := builtBy_packageDecls h hc
  have hnew : Ends rt (packageDecls classes) none ("New" ++ c.builderName) []
      ⟨some (c.builder Field.startSlot), none, .empty⟩ :=
    ends_of_callWithin [] 1 fun depth => callWithin_newBuilder hbuilt depth
  obtain ⟨p, hrun, hp⟩ : ∃ p, Sets rt (packageDecls classes) (c.builder Field.startSlot) sets
      (c.builder p) ∧ ∀ f ∈ c.fields, p f = f.slotAfter sets :=
    sets_run hbuilt hsets fun f _ => isSlot_startSlot f
  obtain ⟨result, hclass, hyields⟩ : ∃ result, Ends rt (packageDecls classes)
      (some (c.builder p)) "ToClass" [] ⟨some result, some (c.builder p), .empty⟩ ∧
      c.Yields rt sets p result := ends_toClass hbuilt hp
  exact ⟨_, p, result, hnew, hrun, hclass, hyields.ok_iff, hyields⟩

/-- Points are set twice and a length is set; the label is left to its default. -/
def curveSets : List (Field × Value) :=
  let points : Field := ⟨"points", .list (.object "Point"), false, none⟩
  [(points, .slice (.named "PointClass") []),
    (⟨"length", .number, true, none⟩, .present (.float64 (.finite (.zero false)))),
    (points, .slice (.named "PointClass") [point 1])]

theorem mem_fields_of_curveSets : ∀ s ∈ curveSets, s.1 ∈ curveClass.fields := by
  simp [curveSets, curveClass]

theorem toClass_after_sets_curve :
    Class.ofNode? curveGraph 5 = .ok curveClass ∧
    classOf curveClasses curveClass.title = some curveClass ∧
    (∀ s ∈ curveSets, s.1 ∈ curveClass.fields) ∧
    ∃ start p result,
      Ends zeroPrinter (packageDecls curveClasses) none ("New" ++ curveClass.builderName) []
        ⟨some start, none, .empty⟩ ∧
      Sets zeroPrinter (packageDecls curveClasses) start curveSets (curveClass.builder p) ∧
      Ends zeroPrinter (packageDecls curveClasses) (some (curveClass.builder p)) "ToClass" []
        ⟨some result, some (curveClass.builder p), .empty⟩ ∧
      ((∃ x, result = .ok x) ↔ ∀ f ∈ curveClass.fields, f.optional = false → f.default = none →
        ∃ s ∈ curveSets, s.1.name = f.name) ∧
      curveClass.Yields zeroPrinter curveSets p result :=
  ⟨ofNode?_curve, classOf_curve, mem_fields_of_curveSets,
    toClass_after_sets zeroPrinter ofNode?_curve classOf_curve mem_fields_of_curveSets⟩

end runs

end SchemaForge.Go
