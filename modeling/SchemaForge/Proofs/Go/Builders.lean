import SchemaForge.Proofs.Go.ClassNames
/-! Builders: what they start with, what setters change, and the class that comes out. -/
namespace SchemaForge.Go

variable {rt : Runtime} {call : Callee} {classes : List Class} {c : Class} {f f' : Field}
  {fields : List Field} {title : String} {g : Graph} {root : NodeId} {v w : Value}
  {p : Field → Value} {scope : Scope} {written : ByteArray} {e : Expr}

section slots

/-- A builder with an attribute for each field. -/
def Class.builder (c : Class) (p : Field → Value) : Value :=
  .struct c.builderName (c.fields.map fun f => (f.privateName, p f))

/-- Gives a field another attribute. -/
def setSlot (p : Field → Value) (f : Field) (w : Value) : Field → Value :=
  fun f' => if f'.privateName = f.privateName then w else p f'

/-- Sets the attributes of those fields that have a value. -/
def fill : List (Field × Option Value) → (Field → Value) → Field → Value
  | [], p => p
  | (f, some w) :: rest, p => fill rest (setSlot p f (.set f.goType w))
  | (_, none) :: rest, p => fill rest p

theorem setSlot_self : setSlot p f w f = w := if_pos rfl

theorem setSlot_ne (h : f'.privateName ≠ f.privateName) : setSlot p f w f' = p f' := if_neg h

theorem fill_of_not_mem {pairs : List (Field × Option Value)}
    (h : ∀ pair ∈ pairs, f.privateName ≠ pair.1.privateName) : fill pairs p f = p f := by
  induction pairs generalizing p with
  | nil => rfl
  | cons pair pairs ih =>
    obtain ⟨hne, hrest⟩ := List.forall_mem_cons.1 h
    obtain ⟨f', _ | w⟩ := pair
    · rw [fill, ih hrest]
    · rw [fill, ih hrest, setSlot_ne hne]

/-- Each field has the attribute that it was given, or the one from before. -/
theorem fill_of_mem {pairs : List (Field × Option Value)} {value : Option Value}
    (hnames : ((pairs.map Prod.fst).map Field.privateName).Nodup) (h : (f, value) ∈ pairs) :
    fill pairs p f = (value.map (Value.set f.goType)).getD (p f) := by
  induction pairs generalizing p with
  | nil => exact absurd h List.not_mem_nil
  | cons pair pairs ih =>
    rw [List.map_cons, List.map_cons, List.nodup_cons] at hnames
    obtain ⟨hfirst, hnames⟩ := hnames
    have hmem {f : Field} {value : Option Value} (h : (f, value) ∈ pairs) :
        f.privateName ∈ (pairs.map Prod.fst).map Field.privateName := by
      have hf : (f, value).1 ∈ pairs.map Prod.fst := List.mem_map_of_mem h
      exact List.mem_map_of_mem hf
    rcases List.mem_cons.1 h with rfl | hlater
    · have hrest : ∀ pair ∈ pairs, f.privateName ≠ pair.1.privateName := by
        intro pair hpair heq
        have := hmem hpair
        rw [← heq] at this
        exact hfirst this
      cases value with
      | none =>
        rw [fill, fill_of_not_mem hrest]
        rfl
      | some w =>
        rw [fill, fill_of_not_mem hrest, setSlot_self]
        rfl
    · have hne : f.privateName ≠ pair.1.privateName := by
        intro heq
        have := hmem hlater
        rw [heq] at this
        exact hfirst this
      obtain ⟨f', _ | w⟩ := pair
      · rw [fill, ih hnames hlater]
      · rw [fill, ih hnames hlater, setSlot_ne hne]

theorem lookup_slot (hnames : (fields.map Field.privateName).Nodup) (hf : f ∈ fields) :
    (fields.map fun f => (f.privateName, p f)).lookup f.privateName = some (p f) := by
  induction fields with
  | nil => exact absurd hf List.not_mem_nil
  | cons first fields ih =>
    rw [List.map_cons, List.nodup_cons] at hnames
    rw [List.map_cons]
    rcases List.mem_cons.1 hf with rfl | hf
    · exact List.lookup_cons_self
    · have hne : f.privateName ≠ first.privateName := by
        intro heq
        have := List.mem_map_of_mem (f := Field.privateName) hf
        rw [heq] at this
        exact hnames.1 this
      rw [lookup_cons_ne hne]
      exact ih hnames.2 hf

theorem putEntry_slot (hnames : (fields.map Field.privateName).Nodup) (hf : f ∈ fields) :
    putEntry (fields.map fun f => (f.privateName, p f)) f.privateName w =
      fields.map fun f' => (f'.privateName, setSlot p f w f') := by
  induction fields with
  | nil => exact absurd hf List.not_mem_nil
  | cons first fields ih =>
    rw [List.map_cons, List.nodup_cons] at hnames
    obtain ⟨hfirst, hnames⟩ := hnames
    rw [List.map_cons, List.map_cons, putEntry]
    rcases List.mem_cons.1 hf with rfl | hf
    · have hrest : ∀ f' ∈ fields, setSlot p f w f' = p f' := by
        intro f' hf'
        apply setSlot_ne
        intro heq
        have := List.mem_map_of_mem (f := Field.privateName) hf'
        rw [heq] at this
        exact hfirst this
      rw [if_pos rfl, setSlot_self]
      congr 1
      exact List.map_congr_left fun f' hf' => by rw [hrest f' hf']
    · have hne : first.privateName ≠ f.privateName := by
        intro heq
        have := List.mem_map_of_mem (f := Field.privateName) hf
        rw [← heq] at this
        exact hfirst this
      rw [if_neg hne, setSlot_ne hne, ih hnames hf]

end slots

section attributes

/-- Sets the attribute of a field, whether it was set before or not. -/
def IsSlot (f : Field) (v : Value) : Prop := v = .unset f.goType ∨ ∃ w, v = .set f.goType w

theorem exec_set (hnames : (c.fields.map Field.privateName).Nodup) (hf : f ∈ c.fields)
    (hslot : IsSlot f (p f)) (hb : scope.lookup "b" = some (c.builder p))
    (he : eval rt call scope e = some w) :
    exec rt call (.run (f.slot.send "Set" [e])) ⟨scope, written⟩ =
      some (⟨scope.assign "b" (c.builder (setSlot p f (.set f.goType (w.as f.goType)))), written⟩,
        none) := by
  have hfield := lookup_slot (p := p) hnames hf
  have htarget : eval rt call scope (.field (.name "b") f.privateName) = some (p f) := by
    simp [eval, hb, Class.builder, hfield]
  have hput := putEntry_slot (p := p) (w := .set f.goType (w.as f.goType)) hnames hf
  rcases hslot with hslot | ⟨old, hslot⟩
  · rw [hslot] at htarget
    simp only [Field.slot, Expr.send, exec, perform, State.withValue, htarget, evalAll, he,
      Option.bind_some, Option.map_some, hb, Class.builder, hput]
  · rw [hslot] at htarget
    simp only [Field.slot, Expr.send, exec, perform, State.withValue, htarget, evalAll, he,
      Option.bind_some, Option.map_some, hb, Class.builder, hput]

/-- The value of a default. -/
def Field.fallback? (f : Field) : Option Value :=
  f.default.bind fun d => (Value.ofJson d).map (Value.as f.type.goType)

/-- What a field is set to at the start. -/
def Field.seedValue? (f : Field) : Option Value :=
  f.fallback?.map fun v => if f.optional then .present v else v

/-- The attribute of a field before any is set. -/
def Field.initialSlot (f : Field) : Value :=
  if f.optional && f.default.isNone then .set f.goType .absent else .unset f.goType

/-- The attribute that a builder starts with. -/
def Field.startSlot (f : Field) : Value :=
  (f.seedValue?.map (Value.set f.goType)).getD f.initialSlot

theorem isSlot_initialSlot (f : Field) : IsSlot f f.initialSlot := by
  unfold Field.initialSlot
  split
  · exact Or.inr ⟨_, rfl⟩
  · exact Or.inl rfl

theorem isSlot_startSlot (f : Field) : IsSlot f f.startSlot := by
  unfold Field.startSlot
  cases f.seedValue? with
  | none => exact isSlot_initialSlot f
  | some v => exact Or.inr ⟨v, rfl⟩

theorem IsSlot.setSlot (hnames : (c.fields.map Field.privateName).Nodup) (hf : f ∈ c.fields)
    (hp : ∀ f ∈ c.fields, IsSlot f (p f)) (w : Value) :
    ∀ f' ∈ c.fields, IsSlot f' (setSlot p f (.set f.goType w) f') := by
  intro f' hf'
  by_cases heq : f'.privateName = f.privateName
  · have : f' = f := List.inj_on_of_nodup_map hnames hf' hf heq
    rw [this, setSlot_self]
    exact Or.inr ⟨w, rfl⟩
  · rw [setSlot_ne heq]
    exact hp f' hf'

theorem eval_initial (f : Field) : eval rt call scope f.initial = some f.initialSlot := by
  unfold Field.initial Field.initialSlot
  by_cases hstart : (f.optional && f.default.isNone) = true
  · obtain ⟨hoptional, hdefault⟩ := Bool.and_eq_true_iff.1 hstart
    simp [eval, evalAll, applied, Field.goType, hoptional, hdefault, GoType.optional, GoType.zero]
  · simp only [hstart, eval, evalAll, Option.bind_some, applied]
    rfl

theorem evalFields_map {value : Field → Expr}
    (h : ∀ f ∈ fields, eval rt call scope (value f) = some (p f)) :
    evalFields rt call scope (fields.map fun f => (f.privateName, value f)) =
      some (fields.map fun f => (f.privateName, p f)) := by
  induction fields with
  | nil => rfl
  | cons f fields ih =>
    obtain ⟨hf, hfields⟩ := List.forall_mem_cons.1 h
    simp only [List.map_cons, evalFields, hf, Option.bind_some, ih hfields, Option.map_some]

/-- What a seed sets a field to. -/
theorem eval_seed (hf : ∀ d, f.default = some d → ∃ v, Value.ofJson d = some v) {e : Expr}
    (he : f.seed? = some e) :
    ∃ w, eval rt call scope e = some w ∧ f.seedValue? = some (w.as f.goType) := by
  unfold Field.seed? at he
  obtain ⟨d, hd, rfl⟩ := Option.map_eq_some_iff.1 he
  obtain ⟨v, hv⟩ := hf d hd
  by_cases hoptional : f.optional = true
  · refine ⟨.present (v.as f.type.goType), ?_, ?_⟩
    · simp [hoptional, Expr.present, eval, evalAll, hv, applied]
    · simp [Field.seedValue?, Field.fallback?, hd, hv, hoptional, Value.as]
  · refine ⟨v, ?_, ?_⟩
    · simp [hoptional, eval, hv]
    · simp [Field.seedValue?, Field.fallback?, hd, hv, hoptional, Field.goType]

theorem seedValue?_eq_none (h : f.seed? = none) : f.seedValue? = none := by
  unfold Field.seed? at h
  rw [Option.map_eq_none_iff] at h
  simp [Field.seedValue?, Field.fallback?, h]

/-- The seeds set their fields. -/
theorem execAll_seeds (hnames : (c.fields.map Field.privateName).Nodup)
    (hsub : ∀ f ∈ fields, f ∈ c.fields)
    (hdefaults : ∀ f ∈ c.fields, ∀ d, f.default = some d → ∃ v, Value.ofJson d = some v)
    (hp : ∀ f ∈ c.fields, IsSlot f (p f)) :
    execAll rt call
        (fields.filterMap fun f => f.seed?.map fun e => .run (f.slot.send "Set" [e]))
        ⟨[("b", c.builder p)], written⟩ =
      some (⟨[("b", c.builder (fill (fields.map fun f => (f, f.seedValue?)) p))], written⟩,
        none) := by
  induction fields generalizing p with
  | nil => simp [execAll, fill]
  | cons f fields ih =>
    obtain ⟨hf, hfields⟩ := List.forall_mem_cons.1 hsub
    cases hseed : f.seed? with
    | none =>
      simp only [List.filterMap_cons, hseed, Option.map_none, List.map_cons,
        seedValue?_eq_none hseed, fill]
      exact ih hfields hp
    | some e =>
      obtain ⟨w, he, hvalue⟩ : ∃ w, eval rt call [("b", c.builder p)] e = some w ∧
          f.seedValue? = some (w.as f.goType) := eval_seed (hdefaults f hf) hseed
      have hset : exec rt call (.run (f.slot.send "Set" [e])) ⟨[("b", c.builder p)], written⟩ =
          some (⟨Scope.assign [("b", c.builder p)] "b"
            (c.builder (setSlot p f (.set f.goType (w.as f.goType)))), written⟩, none) :=
        exec_set hnames hf (hp f hf) rfl he
      simp only [List.filterMap_cons, hseed, Option.map_some, List.map_cons, hvalue, fill]
      rw [execAll_cons hset, assign_cons_self]
      exact ih hfields (IsSlot.setSlot hnames hf hp _)

end attributes

section calls

/-- A condition on the value of an optional that is not there. -/
theorem exec_condDefine_absent {x : String} {body : List Stmt}
    (he : eval rt call scope e = some .absent) :
    exec rt call (.condDefine [x] e ((Expr.name x).send "IsSome" []) body) ⟨scope, written⟩ =
      some (⟨scope, written⟩, none) := by
  have hname : eval rt call ((x, .absent) :: scope) (.name x) = some .absent := by
    rw [eval, List.lookup_cons_self, Option.some_or]
  have htest : State.branch rt call ⟨(x, .absent) :: scope, written⟩
      ((Expr.name x).send "IsSome" []) (execAll rt call body) (fun st => some (st, none)) =
      some (⟨(x, .absent) :: scope, written⟩, none) := by
    simp only [State.branch, State.withValue, eval_isSome_absent hname, Option.bind_some]
  have hnames : evalNames rt call scope [x] e = some [(x, .absent)] := by
    simp only [evalNames, he, Option.map_some]
  simp only [exec, hnames, Option.bind_some]
  exact inBlock_of [(x, .absent)] htest rfl

/-- A condition on the value of an optional that is there, under which a result is returned. -/
theorem exec_condDefine_present {x : String} {result : Expr}
    (he : eval rt call scope e = some (.present v))
    (hresult : eval rt call ((x, .present v) :: scope) result = some w) :
    exec rt call (.condDefine [x] e ((Expr.name x).send "IsSome" []) [.ret result])
        ⟨scope, written⟩ =
      some (⟨scope, written⟩, some w) := by
  have hname : eval rt call ((x, .present v) :: scope) (.name x) = some (.present v) := by
    rw [eval, List.lookup_cons_self, Option.some_or]
  have hbody : execAll rt call [.ret result] ⟨(x, .present v) :: scope, written⟩ =
      some (⟨(x, .present v) :: scope, written⟩, some w) := by
    apply execAll_last
    simp only [exec, State.withValue, hresult, Option.bind_some]
  have htest : State.branch rt call ⟨(x, .present v) :: scope, written⟩
      ((Expr.name x).send "IsSome" []) (execAll rt call [.ret result])
      (fun st => some (st, none)) =
      some (⟨(x, .present v) :: scope, written⟩, some w) := by
    simp only [State.branch, State.withValue, eval_isSome hname, Option.bind_some, hbody]
  have hnames : evalNames rt call scope [x] e = some [(x, .present v)] := by
    simp only [evalNames, he, Option.map_some]
  simp only [exec, hnames, Option.bind_some]
  exact inBlock_of [(x, .present v)] htest rfl

theorem eval_slot (hnames : (c.fields.map Field.privateName).Nodup) (hf : f ∈ c.fields)
    (hb : scope.lookup "b" = some (c.builder p)) : eval rt call scope f.slot = some (p f) := by
  simp only [Field.slot, eval, hb, Option.some_or, Class.builder]
  exact lookup_slot hnames hf

/-- Checks of attributes that are set report nothing. -/
theorem execAll_checks (hnames : (c.fields.map Field.privateName).Nodup)
    (hfields : ∀ f ∈ fields, f ∈ c.fields ∧ ∃ w, p f = .set f.goType w) :
    execAll rt call (fields.map c.check) ⟨[("b", c.builder p)], written⟩ =
      some (⟨[("b", c.builder p)], written⟩, none) := by
  induction fields with
  | nil => rfl
  | cons f fields ih =>
    obtain ⟨⟨hf, w, hw⟩, hfields⟩ := List.forall_mem_cons.1 hfields
    have hslot : eval rt call [("b", c.builder p)] f.slot = some (p f) := eval_slot hnames hf rfl
    have hvalid : eval rt call [("b", c.builder p)] (f.slot.send "IsValid" []) = some .absent := by
      rw [hw] at hslot
      simp [Expr.send, eval, evalAll, hslot, Runtime.method]
    rw [List.map_cons, Class.check, execAll_cons (exec_condDefine_absent hvalid)]
    exact ih hfields

/-- The error that tells of a field that is not set. -/
def Class.unsetError (rt : Runtime) (c : Class) (f : Field) : Value :=
  .error (rt.errorText (c.title ++ "." ++ f.name ++ ": %s") [.string rt.unsetText])

/-- The check of an attribute that is not set reports it. -/
theorem exec_check_unset (hnames : (c.fields.map Field.privateName).Nodup) (hf : f ∈ c.fields)
    (hunset : p f = .unset f.goType) :
    exec rt call (c.check f) ⟨[("b", c.builder p)], written⟩ =
      some (⟨[("b", c.builder p)], written⟩, some (.present (c.unsetError rt f))) := by
  have hslot : eval rt call [("b", c.builder p)] f.slot = some (p f) := eval_slot hnames hf rfl
  have hvalid : eval rt call [("b", c.builder p)] (f.slot.send "IsValid" []) =
      some (.present (.error rt.unsetText)) := by
    rw [hunset] at hslot
    simp [Expr.send, eval, evalAll, hslot, Runtime.method]
  have hcontents : eval rt call
      [("valid", .present (.error rt.unsetText)), ("b", c.builder p)]
      (Class.contents (.name "valid")) = some (.error rt.unsetText) := eval_contents rfl
  apply exec_condDefine_present hvalid
  simp [Expr.present, Expr.send, eval, evalAll, hcontents, Runtime.method, Runtime.imported,
    applied, Value.as, Class.unsetError]

/-- The first needed attribute that is not set is the one that is reported. -/
theorem execAll_checks_unset (hnames : (c.fields.map Field.privateName).Nodup)
    {before after : List Field} (hbefore : ∀ f ∈ before, f ∈ c.fields ∧ ∃ w, p f = .set f.goType w)
    (hf : f ∈ c.fields) (hunset : p f = .unset f.goType) (rest : List Stmt) :
    execAll rt call ((before ++ f :: after).map c.check ++ rest) ⟨[("b", c.builder p)], written⟩ =
      some (⟨[("b", c.builder p)], written⟩, some (.present (c.unsetError rt f))) := by
  rw [List.map_append, List.append_assoc, execAll_append, execAll_checks hnames hbefore,
    Step.next_go, List.map_cons, List.cons_append]
  exact execAll_cons_returned (exec_check_unset hnames hf hunset)

variable {decls : List Decl} (hbuilt : c.BuiltBy decls) (depth : Nat)

include hbuilt

/-- A new builder has the attributes of the start. -/
theorem callWithin_newBuilder :
    callWithin rt decls (depth + 1) none ("New" ++ c.builderName) [] =
      some ⟨some (c.builder Field.startSlot), none, .empty⟩ := by
  have hnames := hbuilt.names
  have hfill : c.builder (fill (c.fields.map fun f => (f, f.seedValue?)) Field.initialSlot) =
      c.builder Field.startSlot := by
    have hpairs : (((c.fields.map fun f => (f, f.seedValue?)).map Prod.fst).map
        Field.privateName).Nodup := by
      rw [List.map_map, List.map_map]
      exact hnames
    unfold Class.builder
    congr 1
    apply List.map_congr_left
    intro f hf
    rw [fill_of_mem hpairs (List.mem_map_of_mem hf)]
    rfl
  have hdefine : exec rt (callWithin rt decls depth)
      (.define ["b"] (.build c.builderName (c.fields.map fun f => (f.privateName, f.initial))))
      ⟨[], .empty⟩ = some (⟨[("b", c.builder Field.initialSlot)], .empty⟩, none) := by
    simp only [exec, evalNames, eval, evalFields_map fun f _ => eval_initial f, Option.map_some]
    rfl
  have hbody : execAll rt (callWithin rt decls depth)
      (.define ["b"] (.build c.builderName (c.fields.map fun f => (f.privateName, f.initial))) ::
        c.fields.filterMap (fun f => f.seed?.map fun e => .run (f.slot.send "Set" [e])) ++
        [.ret (.name "b")]) ⟨[], .empty⟩ =
      some (⟨[("b", c.builder Field.startSlot)], .empty⟩, some (c.builder Field.startSlot)) := by
    rw [List.cons_append, execAll_cons hdefine, execAll_append,
      execAll_seeds hnames (fun f hf => hf) hbuilt.defaults fun f _ => isSlot_initialSlot f, hfill]
    rfl
  exact callWithin_function [] hbuilt.newBuilder hbody

/-- A setter sets its field. -/
theorem callWithin_setter (hf : f ∈ c.fields) (hslot : IsSlot f (p f)) (w : Value) :
    callWithin rt decls (depth + 1) (some (c.builder p)) f.publicName [w] =
      some ⟨some (c.builder (setSlot p f (.set f.goType (w.as f.goType)))),
        some (c.builder (setSlot p f (.set f.goType (w.as f.goType)))), .empty⟩ := by
  have hnames := hbuilt.names
  have hset : exec rt (callWithin rt decls depth)
      (.run (f.slot.send "Set" [.name "v"])) ⟨[("b", c.builder p), ("v", w)], .empty⟩ =
      some (⟨[("b", c.builder (setSlot p f (.set f.goType (w.as f.goType)))), ("v", w)], .empty⟩,
        none) :=
    exec_set hnames hf hslot rfl rfl
  have hbody : execAll rt (callWithin rt decls depth)
      [.run (f.slot.send "Set" [.name "v"]), .ret (.name "b")]
      ⟨[("b", c.builder p), ("v", w)], .empty⟩ =
      some (⟨[("b", c.builder (setSlot p f (.set f.goType (w.as f.goType)))), ("v", w)], .empty⟩,
        some (c.builder (setSlot p f (.set f.goType (w.as f.goType))))) := by
    rw [execAll_cons hset]
    rfl
  exact callWithin_method [w] (hbuilt.setter f hf _) hbody

/-- A builder is valid once all fields are set that need to be. -/
theorem callWithin_isValid (hp : ∀ f ∈ c.fields, f.isNeeded = true → ∃ w, p f = .set f.goType w) :
    callWithin rt decls (depth + 1) (some (c.builder p)) "IsValid" [] =
      some ⟨some .absent, some (c.builder p), .empty⟩ := by
  have hnames := hbuilt.names
  have hneeded : ∀ f ∈ c.fields.filter Field.isNeeded,
      f ∈ c.fields ∧ ∃ w, p f = .set f.goType w := by
    intro f hf
    obtain ⟨hf, hneed⟩ := List.mem_filter.1 hf
    exact ⟨hf, hp f hf hneed⟩
  have hbody : execAll rt (callWithin rt decls depth)
      ((c.fields.filter Field.isNeeded).map c.check ++
        [.ret (.call (.applied .options "None" Class.errorType) [])])
      ⟨[("b", c.builder p)], .empty⟩ =
      some (⟨[("b", c.builder p)], .empty⟩, some .absent) := by
    rw [execAll_append, execAll_checks hnames hneeded]
    rfl
  exact callWithin_method [] (hbuilt.isValid _) hbody

/-- A builder is not valid while a needed field is not set; it reports the first of them. -/
theorem callWithin_isValid_unset {before after : List Field}
    (hfields : c.fields = before ++ f :: after)
    (hneeded : f.isNeeded = true) (hunset : p f = .unset f.goType)
    (hbefore : ∀ f ∈ before, f.isNeeded = true → ∃ w, p f = .set f.goType w) :
    callWithin rt decls (depth + 1) (some (c.builder p)) "IsValid" [] =
      some ⟨some (.present (c.unsetError rt f)), some (c.builder p), .empty⟩ := by
  have hf : f ∈ c.fields := by simp [hfields]
  have hset : ∀ f ∈ before.filter Field.isNeeded, f ∈ c.fields ∧ ∃ w, p f = .set f.goType w := by
    intro f' hf'
    obtain ⟨hf', hneed⟩ := List.mem_filter.1 hf'
    exact ⟨hfields ▸ List.mem_append_left _ hf', hbefore f' hf' hneed⟩
  have hfilter : c.fields.filter Field.isNeeded =
      before.filter Field.isNeeded ++ f :: after.filter Field.isNeeded := by
    rw [hfields, List.filter_append, List.filter_cons_of_pos hneeded]
  have hbody : execAll rt (callWithin rt decls depth)
      ((c.fields.filter Field.isNeeded).map c.check ++
        [.ret (.call (.applied .options "None" Class.errorType) [])])
      ⟨[("b", c.builder p)], .empty⟩ =
      some (⟨[("b", c.builder p)], .empty⟩, some (.present (c.unsetError rt f))) := by
    rw [hfilter]
    exact execAll_checks_unset hbuilt.names hset hf hunset _
  exact callWithin_method [] (hbuilt.isValid _) hbody

/-- A builder yields the error that it reports while it is not valid. -/
theorem callWithin_toClass_unset {before after : List Field}
    (hfields : c.fields = before ++ f :: after) (hneeded : f.isNeeded = true)
    (hunset : p f = .unset f.goType)
    (hbefore : ∀ f ∈ before, f.isNeeded = true → ∃ w, p f = .set f.goType w) :
    callWithin rt decls (depth + 2) (some (c.builder p)) "ToClass" [] =
      some ⟨some (.err (c.unsetError rt f)), some (c.builder p), .empty⟩ := by
  have hb : eval rt (callWithin rt decls (depth + 1)) [("b", c.builder p)] (.name "b") =
      some (c.builder p) := rfl
  have hvalid : eval rt (callWithin rt decls (depth + 1)) [("b", c.builder p)]
      ((Expr.name "b").send "IsValid" []) = some (.present (c.unsetError rt f)) :=
    eval_send hb rfl (callWithin_isValid_unset hbuilt depth hfields hneeded hunset hbefore)
  have hcontents : eval rt (callWithin rt decls (depth + 1))
      [("valid", .present (c.unsetError rt f)), ("b", c.builder p)]
      (Class.contents (.name "valid")) = some (c.unsetError rt f) := eval_contents rfl
  have hfailed : eval rt (callWithin rt decls (depth + 1))
      [("valid", .present (c.unsetError rt f)), ("b", c.builder p)]
      (c.failed (Class.contents (.name "valid"))) = some (.err (c.unsetError rt f)) := by
    simp only [Class.failed, eval, evalAll, hcontents, Option.bind_some, Option.map_some, applied]
  exact callWithin_method [] (hbuilt.toClass _)
    (execAll_cons_returned (exec_condDefine_present hvalid hfailed))

/-- A valid builder yields a struct of what its fields are set to. -/
theorem callWithin_toClass {value : Field → Value}
    (hp : ∀ f ∈ c.fields, p f = .set f.goType (value f)) :
    callWithin rt decls (depth + 2) (some (c.builder p)) "ToClass" [] =
      some ⟨some (.ok (.struct c.implName (c.fields.map fun f => (f.privateName, value f)))),
        some (c.builder p), .empty⟩ := by
  have hnames := hbuilt.names
  have hvalid : eval rt (callWithin rt decls (depth + 1)) [("b", c.builder p)]
      ((Expr.name "b").send "IsValid" []) = some .absent := by
    have hb : eval rt (callWithin rt decls (depth + 1)) [("b", c.builder p)]
        (.name "b") = some (c.builder p) := rfl
    exact eval_send hb rfl
      (callWithin_isValid hbuilt depth fun f hf _ => ⟨value f, hp f hf⟩)
  have hfields : evalFields rt (callWithin rt decls (depth + 1))
      [("b", c.builder p)] (c.fields.map fun f => (f.privateName, f.slot.send "Get" [])) =
      some (c.fields.map fun f => (f.privateName, value f)) := by
    apply evalFields_map
    intro f hf
    have hslot : eval rt (callWithin rt decls (depth + 1)) [("b", c.builder p)]
        f.slot = some (p f) := eval_slot hnames hf rfl
    rw [hp f hf] at hslot
    simp [Expr.send, eval, evalAll, hslot, Runtime.method]
  have hbody : execAll rt (callWithin rt decls (depth + 1))
      [.condDefine ["valid"] ((Expr.name "b").send "IsValid" [])
          ((Expr.name "valid").send "IsSome" []) [.ret (c.failed (Class.contents (.name "valid")))],
        .ret (.call (.applied .options "Ok" c.goType)
          [.build c.implName (c.fields.map fun f => (f.privateName, f.slot.send "Get" []))])]
      ⟨[("b", c.builder p)], .empty⟩ =
      some (⟨[("b", c.builder p)], .empty⟩,
        some (.ok (.struct c.implName (c.fields.map fun f => (f.privateName, value f))))) := by
    rw [execAll_cons (exec_condDefine_absent hvalid)]
    apply execAll_last
    simp only [exec, State.withValue, eval, evalAll, hfields, Option.map_some, Option.bind_some,
      applied]
  exact callWithin_method [] (hbuilt.toClass _) hbody

end calls

end SchemaForge.Go
