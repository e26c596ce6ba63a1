import SchemaForge.Proofs.Go.ReadingMaps
/-! Factories: from the map of an object they make the object again, but for members that were
absent and have a default. -/
namespace SchemaForge.Go

variable {rt : Runtime} {call : Callee} {numbers : Float64 → Prop} {classes : List Class}
  {c : Class} {f : Field} {title : String} {v w x : Value} {vs : List Value} {fields : List Field}
  {scope : Scope} {written : ByteArray} {g : Graph} {root : NodeId} {key : String}
  {entries : List (String × Value)} {p : Field → Value} {depth : Nat}

section fields

theorem lookup_mapEntry_self :
    (mapEntry classes f v).lookup f.name = if v.isAbsent then none else some (mapForm classes v) := by
  unfold mapEntry
  split
  · rfl
  · exact List.lookup_cons_self

theorem lookup_mapEntry_ne (h : key ≠ f.name) : (mapEntry classes f v).lookup key = none := by
  unfold mapEntry
  split
  · rfl
  · rw [lookup_cons_ne h]
    rfl

theorem lookup_mapEntries_none (h : key ∉ fields.map Field.name) {members : List (String × Value)} :
    (mapEntries classes fields members).lookup key = none := by
  induction fields generalizing members with
  | nil => simp [mapEntries]
  | cons f fields ih =>
    rw [List.map_cons, List.mem_cons, not_or] at h
    cases members with
    | nil => simp [mapEntries]
    | cons member members =>
      obtain ⟨name, v⟩ := member
      rw [mapEntries_cons, List.lookup_append, lookup_mapEntry_ne h.1, ih h.2]
      rfl

/-- What a map holds under the name of a field. -/
theorem lookup_mapEntries (hnames : (fields.map Field.name).Nodup)
    (hmem : (f, v) ∈ fields.zip vs) :
    (mapEntries classes fields ((fields.map Field.privateName).zip vs)).lookup f.name =
      if v.isAbsent then none else some (mapForm classes v) := by
  induction fields generalizing vs with
  | nil => exact absurd hmem (by simp)
  | cons first fields ih =>
    cases vs with
    | nil => exact absurd hmem (by simp)
    | cons w vs =>
      rw [List.map_cons, List.nodup_cons] at hnames
      rw [List.map_cons, List.zip_cons_cons, mapEntries_cons, List.lookup_append]
      rcases List.mem_cons.1 hmem with heq | hmem
      · cases heq
        rw [lookup_mapEntry_self, lookup_mapEntries_none hnames.1, Option.or_none]
      · have hne : f.name ≠ first.name := by
          intro heq
          have hf : f.name ∈ fields.map Field.name :=
            List.mem_map_of_mem (List.of_mem_zip hmem).1
          rw [heq] at hf
          exact hnames.1 hf
        rw [lookup_mapEntry_ne hne, Option.none_or]
        exact ih hnames.2 hmem

/-- The names while a factory reads a map. -/
def readScope (c : Class) (p : Field → Value) (entries : List (String × Value)) : Scope :=
  [("b", c.builder p), ("f", .struct c.factoryName []), ("m", .map entries)]

theorem evalNames_entry :
    evalNames rt call (readScope c p entries) ["val", "found"] (.index (.name "m") (.text key)) =
      some (match entries.lookup key with
        | some v => [("val", v), ("found", .bool true)]
        | none => [("val", .nil), ("found", .bool false)]) := by
  have hm : eval rt call (readScope c p entries) (.name "m") = some (.map entries) := by
    rw [eval, readScope, lookup_cons_ne (by decide), lookup_cons_ne (by decide),
      List.lookup_cons_self]
    rfl
  have hkey : eval rt call (readScope c p entries) (.text key) = some (.string key) := by rw [eval]
  cases hfound : entries.lookup key with
  | none => simp only [evalNames, hm, hkey, Option.bind_some, Option.map_some, Value.at?, hfound]
  | some v => simp only [evalNames, hm, hkey, Option.bind_some, Option.map_some, Value.at?, hfound]

/-- A key that is not there changes nothing. -/
theorem exec_readField_absent (hkey : entries.lookup f.name = none) :
    exec rt call (readField c f) ⟨readScope c p entries, written⟩ =
      some (⟨readScope c p entries, written⟩, none) := by
  have hfound : eval rt call
      ([("val", .nil), ("found", .bool false)] ++ readScope c p entries) (.name "found") =
      some (.bool false) := rfl
  rw [readField]
  simp only [exec, evalNames_entry, hkey, Option.bind_some]
  apply inBlock_of [("val", .nil), ("found", .bool false)]
  · simp only [State.branch, State.withValue, hfound, Option.bind_some]
  · rfl

/-- A builder changes under the name that it is called by. -/
theorem exec_setter {outer : Scope} {e : Expr} {result : Option Value}
    (houter : outer.lookup "b" = none)
    (he : eval rt call (outer ++ readScope c p entries) e = some w) {p' : Field → Value}
    (hset : call (some (c.builder p)) f.publicName [w] =
      some ⟨result, some (c.builder p'), .empty⟩) :
    exec rt call (.run ((Expr.name "b").send f.publicName [e]))
        ⟨outer ++ readScope c p entries, written⟩ =
      some (⟨outer ++ readScope c p' entries, written⟩, none) := by
  have hb : (outer ++ readScope c p entries).lookup "b" = some (c.builder p) := by
    rw [List.lookup_append, houter, Option.none_or]
    exact List.lookup_cons_self
  have hname : eval rt call (outer ++ readScope c p entries) (.name "b") = some (c.builder p) := by
    rw [eval, hb, Option.some_or]
  have hassign : Scope.assign (outer ++ readScope c p entries) "b" (c.builder p') =
      outer ++ readScope c p' entries := by
    rw [assign_append houter]
    exact congrArg (outer ++ ·) assign_cons_self
  have hargs : evalAll rt call (outer ++ readScope c p entries) [e] = some [w] := by
    simp [evalAll, he]
  rw [Class.builder] at hname hset
  simp only [exec, Expr.send, perform, State.withValue, hname, hargs, Option.bind_some, hset,
    Option.map_some, hassign, ByteArray.append_empty]

/-- A key that is there sets its field. -/
theorem exec_readField (hv : Slot (Inhabits numbers classes) f v) (hpresent : v.isAbsent = false)
    (hlists : v.listsHoldObjects = true) (hcalls : ReadsUpTo call numbers classes (sizeOf v))
    (hkey : entries.lookup f.name = some (mapForm classes v)) {p' : Field → Value}
    {result : Option Value}
    (hset : call (some (c.builder p)) f.publicName [restored classes v] =
      some ⟨result, some (c.builder p'), .empty⟩) :
    exec rt call (readField c f) ⟨readScope c p entries, written⟩ =
      some (⟨readScope c p' entries, written⟩, none) := by
  let names : Scope := [("val", mapForm classes v), ("found", .bool true)]
  have hfound : eval rt call ([("val", mapForm classes v), ("found", .bool true)] ++
      readScope c p entries) (.name "found") = some (.bool true) := rfl
  have hval : Denotes rt call (names ++ readScope c p entries) 0 (.name "val") (mapForm classes v) :=
    denotes_name (not_isInner (by decide)) List.lookup_cons_self
  obtain ⟨inner, hinner, hrun, hvalue⟩ : Prepares rt call (names ++ readScope c p entries) written 0
      ((readValue c (.name "val") (c.title ++ "." ++ f.name) 0 f.type).1,
        if f.optional then
          .present f.type.goType (readValue c (.name "val") (c.title ++ "." ++ f.name) 0 f.type).2
        else (readValue c (.name "val") (c.title ++ "." ++ f.name) 0 f.type).2)
      (restored classes v) := by
    cases hv with
    | required hv =>
      simp only [Bool.false_eq_true, if_false]
      exact prepares_readValue hv hlists hcalls hval
    | @present name type default w hw =>
      have hsize : sizeOf w ≤ sizeOf (Value.present w) := by simp
      have hform : mapForm classes (.present w) = mapForm classes w := by rw [mapForm]
      rw [hform] at hval
      obtain ⟨inner, hinner, hrun, hvalue⟩ : Prepares rt call (names ++ readScope c p entries)
          written 0 (readValue c (.name "val") (c.title ++ "." ++ name) 0 type)
          (restored classes w) :=
        prepares_readValue hw hlists (hcalls.mono hsize) hval
      refine ⟨inner, hinner, hrun, ?_⟩
      rw [if_pos rfl, restored]
      simp only [Expr.present, eval, evalAll, hvalue, Option.bind_some, Option.map_some, applied,
        as_restored hw]
    | absent => cases hpresent
  have hboth : (inner ++ names).lookup "b" = none := by
    rw [lookup_inner hinner (not_isInner (by decide))]
    rfl
  rw [← List.append_assoc] at hrun hvalue
  rw [readField]
  simp only [exec, evalNames_entry, hkey, Option.bind_some]
  apply inBlock_of (inner ++ names)
  · simp only [State.branch, State.withValue, hfound, Option.bind_some]
    rw [execAll_append, hrun, Step.next_go]
    exact execAll_single (exec_setter hboth hvalue hset)
  · rfl

end fields

section factories

/-- What fields are set to when a map is read, if they are there. -/
def reread (classes : List Class) (v : Value) : Option Value :=
  if v.isAbsent then none else some (restored classes v)

/-- What an attribute has been set to. -/
def Value.setTo : Value → Value
  | .set _ v => v
  | v => v

/-- Where fields are set to what is restored of their members, the object is restored of them. -/
theorem restored_of_set (hc : classOf classes title = some c) (hlength : c.fields.length ≤ vs.length)
    (hset : ∀ f v, (f, v) ∈ c.fields.zip vs → p f = .set f.goType (restoredMember classes f v)) :
    restored classes (c.object vs) =
      .struct c.implName (c.fields.map fun f => (f.privateName, (p f).setTo)) := by
  have hfst : (c.fields.zip vs).map Prod.fst = c.fields := List.map_fst_zip hlength
  rw [restored_object hc]
  refine congrArg (Value.struct c.implName) ?_
  conv_rhs => rw [← hfst, List.map_map]
  apply List.map_congr_left
  rintro ⟨f, v⟩ hmem
  simp only [Function.comp_apply, hset f v hmem, Value.setTo]

theorem as_restored_slot (hv : Slot (Inhabits numbers classes) f v) (t : GoType) :
    (restored classes v).as t = restored classes v := by
  cases hv with
  | required hv => exact as_restored hv t
  | present hv =>
    rw [restored]
    rfl
  | absent => rfl

variable (h : Accepted g root classes) (hc : classOf classes title = some c)

include h hc

/-- Reading all fields sets those that are there. -/
theorem execAll_readFields (hvs : List.Forall₂ (Slot (Inhabits numbers classes)) fields vs)
    (hsub : ∀ f ∈ fields, f ∈ c.fields) (hp : ∀ f ∈ c.fields, IsSlot f (p f))
    (hlists : ∀ v ∈ vs, v.listsHoldObjects = true)
    (hcalls : ∀ v ∈ vs,
      ReadsUpTo (callWithin rt (mappingDecls classes) (depth + 1)) numbers classes (sizeOf v))
    (hkeys : ∀ f v, (f, v) ∈ fields.zip vs →
      entries.lookup f.name = if v.isAbsent then none else some (mapForm classes v)) :
    execAll rt (callWithin rt (mappingDecls classes) (depth + 1)) (fields.map (readField c))
        ⟨readScope c p entries, written⟩ =
      some (⟨readScope c (fill (fields.zip (vs.map (reread classes))) p) entries, written⟩, none) := by
  induction hvs generalizing p with
  | nil => rfl
  | @cons f v fields vs hv hvs ih =>
    obtain ⟨hf, hfields⟩ := List.forall_mem_cons.1 hsub
    obtain ⟨hlist, hlists⟩ := List.forall_mem_cons.1 hlists
    obtain ⟨hcall, hcalls⟩ := List.forall_mem_cons.1 hcalls
    have hkey := hkeys f v List.mem_cons_self
    have hrest := fun f v hmem => hkeys f v (List.mem_cons_of_mem _ hmem)
    rw [List.map_cons, List.map_cons, List.zip_cons_cons]
    cases habsent : v.isAbsent with
    | true =>
      rw [habsent, if_pos rfl] at hkey
      have hreread : reread classes v = none := if_pos habsent
      rw [execAll_cons (exec_readField_absent hkey), hreread, fill]
      exact ih hfields hp hlists hcalls hrest
    | false =>
      rw [habsent] at hkey
      have hset : callWithin rt (mappingDecls classes) (depth + 1) (some (c.builder p)) f.publicName
          [restored classes v] = some ⟨_, _, _⟩ :=
        callWithin_setter (builtBy_mappingDecls h hc) depth hf (hp f hf) (restored classes v)
      rw [as_restored_slot hv] at hset
      have hreread : reread classes v = some (restored classes v) := by simp [reread, habsent]
      rw [execAll_cons (exec_readField hv habsent hlist hcall hkey hset), hreread, fill]
      exact ih hfields (IsSlot.setSlot (h.nodup_privateNames (mem_of_classOf hc)) hf hp _) hlists
        hcalls hrest

/-- A factory makes new builders. -/
theorem callWithin_factoryBuilder (depth : Nat) :
    callWithin rt (mappingDecls classes) (depth + 2) (some (.struct c.factoryName [])) "Builder" [] =
      some ⟨some (c.builder Field.startSlot), some (.struct c.factoryName []), .empty⟩ := by
  have hnew : eval rt (callWithin rt (mappingDecls classes) (depth + 1))
      [("f", .struct c.factoryName [])] (.call (.name ("New" ++ c.builderName)) []) =
      some (c.builder Field.startSlot) := by
    simp [eval, evalAll, builtin_nil, callWithin_newBuilder (builtBy_mappingDecls h hc) depth]
  have hbody : execAll rt (callWithin rt (mappingDecls classes) (depth + 1))
      [.ret (.call (.name ("New" ++ c.builderName)) [])]
      ⟨[("f", .struct c.factoryName [])], .empty⟩ =
      some (⟨[("f", .struct c.factoryName [])], .empty⟩, some (c.builder Field.startSlot)) := by
    apply execAll_last
    simp only [exec, State.withValue, hnew, Option.bind_some]
  exact callWithin_method [] (find?_factoryBuilder hc) hbody

/-- Each field has been set once a map has been read, or has been set from the start. -/
theorem fill_reread (hvs : List.Forall₂ (Slot (Inhabits numbers classes)) c.fields vs)
    (hmem : (f, v) ∈ c.fields.zip vs) :
    fill (c.fields.zip (vs.map (reread classes))) Field.startSlot f =
      .set f.goType (restoredMember classes f v) := by
  have hlength : c.fields.length ≤ (vs.map (reread classes)).length := by
    rw [List.length_map, hvs.length_eq]
  have hnames := h.nodup_privateNames (mem_of_classOf hc)
  rw [← List.map_fst_zip hlength] at hnames
  have hpair : (f, reread classes v) ∈ c.fields.zip (vs.map (reread classes)) := by
    rw [List.zip_map_right]
    exact List.mem_map_of_mem hmem
  rw [fill_of_mem hnames hpair]
  have hslot : Slot (Inhabits numbers classes) f v := by
    rw [List.forall₂_iff_zip] at hvs
    exact hvs.2 hmem
  cases hslot with
  | required hv =>
    have hpresent := isAbsent_of_inhabits hv
    simp [reread, restoredMember, hpresent]
  | present hv => rfl
  | @absent name type default =>
    cases default with
    | none => rfl
    | some d =>
      obtain ⟨fallback, hfallback⟩ :=
        h.ofJson_default (mem_of_classOf hc) (List.of_mem_zip hmem).1 rfl
      simp [reread, restoredMember, Value.isAbsent, Field.startSlot, Field.seedValue?,
        Field.fallback?, hfallback]

/-- A factory makes an object again of its map. -/
theorem callWithin_fromMap (hvs : List.Forall₂ (Slot (Inhabits numbers classes)) c.fields vs)
    (hlists : ∀ v ∈ vs, v.listsHoldObjects = true)
    (hcalls : ∀ v ∈ vs,
      ReadsUpTo (callWithin rt (mappingDecls classes) (depth + 2)) numbers classes (sizeOf v)) :
    callWithin rt (mappingDecls classes) (depth + 3) (some (.struct c.factoryName [])) "FromMap"
        [mapForm classes (c.object vs)] =
      some ⟨some (.ok (restored classes (c.object vs))), some (.struct c.factoryName []), .empty⟩ := by
  let entries := mapEntries classes c.fields ((c.fields.map Field.privateName).zip vs)
  let p := fill (c.fields.zip (vs.map (reread classes))) Field.startSlot
  have hmap : mapForm classes (c.object vs) = .map entries := mapForm_object hc
  have hdefine : exec rt (callWithin rt (mappingDecls classes) (depth + 2))
      (.define ["b"] ((Expr.name "f").send "Builder" []))
      ⟨[("f", .struct c.factoryName []), ("m", .map entries)], .empty⟩ =
      some (⟨readScope c Field.startSlot entries, .empty⟩, none) :=
    exec_define (eval_send eval_declared rfl (callWithin_factoryBuilder h hc depth))
  have hstart : ∀ f ∈ c.fields, IsSlot f f.startSlot := fun f _ => isSlot_startSlot f
  have hread : execAll rt (callWithin rt (mappingDecls classes) (depth + 2))
      (c.fields.map (readField c)) ⟨readScope c Field.startSlot entries, .empty⟩ =
      some (⟨readScope c p entries, .empty⟩, none) :=
    execAll_readFields h hc hvs (fun f hf => hf) hstart hlists hcalls fun f v hmem =>
      lookup_mapEntries (h.nodup_names (mem_of_classOf hc)) hmem
  have hset : ∀ f v, (f, v) ∈ c.fields.zip vs → p f = .set f.goType (restoredMember classes f v) :=
    fun f v hmem => fill_reread h hc hvs hmem
  have hfst : (c.fields.zip vs).map Prod.fst = c.fields := List.map_fst_zip hvs.length_eq.le
  have hall : ∀ f ∈ c.fields, p f = .set f.goType (p f).setTo := by
    intro f hf
    rw [← hfst] at hf
    obtain ⟨⟨f, v⟩, hmem, rfl⟩ := List.mem_map.1 hf
    rw [hset f v hmem, Value.setTo]
  have hclass : eval rt (callWithin rt (mappingDecls classes) (depth + 2))
      (readScope c p entries) ((Expr.name "b").send "ToClass" []) =
      some (.ok (restored classes (c.object vs))) := by
    rw [restored_of_set hc hvs.length_eq.le hset]
    exact eval_send eval_declared rfl (callWithin_toClass (builtBy_mappingDecls h hc) depth hall)
  have hbody : execAll rt (callWithin rt (mappingDecls classes) (depth + 2))
      (.define ["b"] ((Expr.name "f").send "Builder" []) :: c.fields.map (readField c) ++
        [.ret ((Expr.name "b").send "ToClass" [])])
      ⟨[("f", .struct c.factoryName []), ("m", .map entries)], .empty⟩ =
      some (⟨readScope c p entries, .empty⟩, some (.ok (restored classes (c.object vs)))) := by
    rw [List.cons_append, execAll_cons hdefine, execAll_append, hread, Step.next_go]
    apply execAll_last
    simp only [exec, State.withValue, hclass, Option.bind_some]
  rw [hmap]
  exact callWithin_method [.map entries] (find?_fromMap hc) hbody

end factories

section factories

/-- There is nothing in a factory. -/
theorem callWithin_newFactory (hc : classOf classes title = some c) (depth : Nat) :
    callWithin rt (mappingDecls classes) (depth + 1) none ("New" ++ typeName title "Factory") [] =
      some ⟨some (.struct (typeName title "Factory") []), none, .empty⟩ := by
  rw [← factoryName_of_classOf hc]
  have hne : GoType.named c.factoryName ≠ GoType.anyMap := by
    intro heq
    rw [GoType.anyMap, Class.factoryName, typeName_factory] at heq
    have hlast := congrArg (fun s : String => s.toList.getLast?) (GoType.named.inj heq)
    simp at hlast
  have hbody : execAll rt (callWithin rt (mappingDecls classes) depth)
      [.ret (.address (.empty (.named c.factoryName)))] ⟨[], .empty⟩ =
      some (⟨[], .empty⟩, some (.struct c.factoryName [])) := by
    apply execAll_last
    simp [exec, State.withValue, eval, hne]
  exact callWithin_function [] (find?_newFactory hc) hbody

/-- Calls two levels deeper than an object is large read its map. -/
theorem readsUpTo_callWithin (h : Accepted g root classes) (depth : Nat) :
    ReadsUpTo (callWithin rt (mappingDecls classes) (depth + 2)) numbers classes depth := by
  induction depth with
  | zero =>
    intro title w hw _ hsize
    cases hw
    simp [Class.object] at hsize
  | succ depth ih =>
    intro title w hw hlists hsize
    cases hw with
    | @object _ c vs hc hvs =>
      have hmember : ∀ v ∈ vs, ReadsUpTo (callWithin rt (mappingDecls classes) (depth + 2)) numbers
          classes (sizeOf v) := by
        intro v hv
        have := sizeOf_member hv hvs.length_eq
        exact ih.mono (by omega)
      have hmembers := listsHoldObjects_member hlists hvs.length_eq
      refine ⟨callWithin_newFactory hc (depth + 2), ?_⟩
      rw [← factoryName_of_classOf hc]
      exact callWithin_fromMap h hc hvs hmembers hmember

end factories

end SchemaForge.Go
