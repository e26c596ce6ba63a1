import SchemaForge.Proofs.Go.MapForm
/-! Reading maps: factories make the objects again whose maps they are given. -/
namespace SchemaForge.Go

variable {rt : Runtime} {call : Callee} {numbers : Float64 → Prop} {classes : List Class}
  {c : Class} {f : Field} {type : ValueType} {title : String} {v w x : Value}
  {vs us : List Value} {fields : List Field} {scope : Scope} {written : ByteArray} {e : Expr}
  {level : Nat} {g : Graph} {root : NodeId} {entries : List (String × Value)} {key : String}
  {path : String} {p : Field → Value}

section restoring

mutual

/-- Whether all lists in a value hold objects in the end. -/
def Value.listsHoldObjects : Value → Bool
  | .slice items vs => items.leadsToObject && itemsHoldObjects vs
  | .struct _ fields => membersHoldObjects fields
  | .present v => v.listsHoldObjects
  | _ => true

def Value.itemsHoldObjects : List Value → Bool
  | [] => true
  | v :: vs => v.listsHoldObjects && itemsHoldObjects vs

def Value.membersHoldObjects : List (String × Value) → Bool
  | [] => true
  | (_, v) :: fields => v.listsHoldObjects && membersHoldObjects fields

end

variable (classes)

mutual

/-- What comes back of a value: optional members that were absent have their defaults, if there are
any. -/
def restored : Value → Value
  | .slice items vs => .slice items (restoredItems vs)
  | .struct type fields => .struct type (restoredMembers (fieldsOf classes type) fields)
  | .present v => .present (restored v)
  | v => v

def restoredItems : List Value → List Value
  | [] => []
  | v :: vs => restored v :: restoredItems vs

def restoredMembers : List Field → List (String × Value) → List (String × Value)
  | f :: fields, (name, v) :: rest =>
    (name, if v.isAbsent then f.seedValue?.getD .absent else restored v) ::
      restoredMembers fields rest
  | _, _ => []

end

variable {classes}

theorem restoredItems_eq : restoredItems classes vs = vs.map (restored classes) := by
  induction vs with
  | nil => rfl
  | cons v vs ih => rw [restoredItems, ih, List.map_cons]

/-- What comes back of a member. -/
def restoredMember (classes : List Class) (f : Field) (v : Value) : Value :=
  if v.isAbsent then f.seedValue?.getD .absent else restored classes v

theorem restored_object (hc : classOf classes title = some c) :
    restored classes (c.object vs) = .struct c.implName
      ((c.fields.zip vs).map fun (f, v) => (f.privateName, restoredMember classes f v)) := by
  have hmembers (fields : List Field) (vs : List Value) :
      restoredMembers classes fields ((fields.map Field.privateName).zip vs) =
        (fields.zip vs).map fun (f, v) => (f.privateName, restoredMember classes f v) := by
    induction fields generalizing vs with
    | nil => simp [restoredMembers]
    | cons f fields ih =>
      cases vs with
      | nil => simp [restoredMembers]
      | cons v vs =>
        rw [List.map_cons, List.zip_cons_cons, restoredMembers, ih, List.zip_cons_cons,
          List.map_cons]
        rfl
  rw [Class.object, restored, fieldsOf_classOf hc, hmembers]

/-- What comes back has its type already. -/
theorem as_restored (hv : Inhabits numbers classes type v) (t : GoType) :
    (restored classes v).as t = restored classes v := by
  cases hv <;> rfl

theorem itemsHoldObjects_iff :
    Value.itemsHoldObjects vs = true ↔ ∀ v ∈ vs, v.listsHoldObjects = true := by
  induction vs with
  | nil => simp [Value.itemsHoldObjects]
  | cons v vs ih => simp [Value.itemsHoldObjects, ih]

/-- What holds of the lists of an object holds of those of its members. -/
theorem listsHoldObjects_member (h : (c.object vs).listsHoldObjects = true)
    (hlength : c.fields.length = vs.length) : ∀ v ∈ vs, v.listsHoldObjects = true := by
  have hmembers (members : List (String × Value))
      (h : Value.membersHoldObjects members = true) :
      ∀ v ∈ members.map Prod.snd, v.listsHoldObjects = true := by
    induction members with
    | nil => simp
    | cons p members ih =>
      rw [Value.membersHoldObjects, Bool.and_eq_true_iff] at h
      rw [List.map_cons, List.forall_mem_cons]
      exact ⟨h.1, ih h.2⟩
  rw [Class.object, Value.listsHoldObjects] at h
  have hsnd : ((c.fields.map Field.privateName).zip vs).map Prod.snd = vs := by
    rw [List.map_snd_zip]
    simp [hlength]
  rw [← hsnd]
  exact hmembers _ h

end restoring

section reading

/-- Maps of objects that are no larger than a value are read back by a factory. -/
def ReadsUpTo (call : Callee) (numbers : Float64 → Prop) (classes : List Class) (size : Nat) :
    Prop :=
  ∀ title w, Inhabits numbers classes (.object title) w → w.listsHoldObjects = true →
    sizeOf w ≤ size →
    let factory : Value := .struct (typeName title "Factory") []
    call none ("New" ++ typeName title "Factory") [] = some ⟨some factory, none, .empty⟩ ∧
      call (some factory) "FromMap" [mapForm classes w] =
        some ⟨some (.ok (restored classes w)), some factory, .empty⟩

theorem ReadsUpTo.mono {m n : Nat} (h : ReadsUpTo call numbers classes n) (hmn : m ≤ n) :
    ReadsUpTo call numbers classes m :=
  fun title w hw hlists hsize => h title w hw hlists (hsize.trans hmn)

/-- An assertion that holds gives the value a name. -/
theorem execAll_assertType {target expected : String} {t : GoType}
    (htarget : target ≠ "ok") (he : eval rt call scope e = some v) (hv : v.type? = some t) :
    execAll rt call (assertType c target e t path expected) ⟨scope, written⟩ =
      some (⟨(target, v) :: ("ok", .bool true) :: scope, written⟩, none) := by
  have hdefine : exec rt call (.define [target, "ok"] (.assert e t)) ⟨scope, written⟩ =
      some (⟨(target, v) :: ("ok", .bool true) :: scope, written⟩, none) := by
    simp only [exec, evalNames, he, Option.map_some, hv, if_true]
    rfl
  have hok : eval rt call ((target, v) :: ("ok", .bool true) :: scope) (.not (.name "ok")) =
      some (.bool false) := by
    have hlookup : ((target, v) :: ("ok", Value.bool true) :: scope).lookup "ok" =
        some (.bool true) := by
      rw [lookup_cons_ne htarget.symm, List.lookup_cons_self]
    simp [eval, hlookup]
  rw [assertType, execAll_cons hdefine]
  exact execAll_single (exec_cond_false hok)

/-- A number of the first type that a switch knows keeps its value. -/
theorem execAll_convertNumber {target first expected : String} {cases : List String}
    (htarget : target ≠ "x") (he : eval rt call ((target, GoType.zero (.named first)) :: scope) e = some v)
    (hv : v.type? = some (.named first)) :
    execAll rt call (convertNumber c target e (.named first) (first :: cases) path expected)
        ⟨scope, written⟩ = some (⟨(target, v) :: scope, written⟩, none) := by
  let scope' : Scope := (target, GoType.zero (.named first)) :: scope
  have hstore : State.withValue rt call ⟨[("x", v)] ++ scope', written⟩ (.name "x")
      (fun w => store rt call ⟨[("x", v)] ++ scope', written⟩ w (.name target)) =
      some (⟨[("x", v)] ++ (target, v) :: scope, written⟩, none) := by
    have hx : eval rt call ([("x", v)] ++ scope') (.name "x") = some v := by
      rw [eval, List.singleton_append, List.lookup_cons_self]
      rfl
    have hassign : Scope.assign ([("x", v)] ++ scope') target v =
        [("x", v)] ++ (target, v) :: scope := by
      rw [List.singleton_append, assign_cons_ne htarget.symm, assign_cons_self]
      rfl
    simp only [State.withValue, hx, Option.bind_some, store, hassign]
  rw [convertNumber]
  have hdeclare : exec rt call (.declare target (.named first)) ⟨scope, written⟩ =
      some (⟨scope', written⟩, none) := by
    simp only [exec]
    rfl
  rw [execAll_cons hdeclare]
  apply execAll_single
  have hvalue : eval rt call scope' e = some v := he
  simp only [exec, State.withValue, hvalue, Option.bind_some, List.map_cons, List.find?_cons, hv,
    decide_true, if_true]
  exact inBlock_of [("x", v)] hstore rfl

theorem builtin_nil (name : String) : builtin name [] = none := by
  unfold builtin
  split <;> simp_all

/-- The result of a factory that reads a map. -/
theorem eval_fromMap {factory : String} {arg : Expr} {out : Outcome}
    (hnew : call none ("New" ++ factory) [] = some ⟨some (.struct factory []), none, .empty⟩)
    (harg : eval rt call scope arg = some v)
    (hread : call (some (.struct factory [])) "FromMap" [v] = some out) :
    eval rt call scope
      ((Expr.call (.name ("New" ++ factory)) []).send "FromMap" [arg]) = out.result := by
  have hfactory : eval rt call scope (.call (.name ("New" ++ factory)) []) =
      some (.struct factory []) := by
    simp [eval, evalAll, builtin_nil, hnew]
  have hargs : evalAll rt call scope [arg] = some [v] := by
    simp [evalAll, harg]
  exact eval_send hfactory hargs hread

/-- A name that has been declared at the level. -/
theorem eval_declared {x : String} : eval rt call ((x, v) :: scope) (.name x) = some v := by
  rw [eval, List.lookup_cons_self]
  rfl

/-- Code for a type reads back what a value is in a map. -/
theorem prepares_readValue (hv : Inhabits numbers classes type v)
    (hlists : v.listsHoldObjects = true) (hcalls : ReadsUpTo call numbers classes (sizeOf v))
    (he : Denotes rt call scope level e (mapForm classes v)) :
    Prepares rt call scope written level (readValue c e path level type) (restored classes v) := by
  induction type generalizing v scope level e with
  | string =>
    cases hv with
    | string s =>
      have hc := isInner_levelName (show "c".toList = ['c'] from rfl) level
      refine ⟨[(levelName "c" level, .string s), ("ok", .bool true)],
        (allInner_nil.cons (isInner_ok level)).cons hc, ?_, eval_declared⟩
      exact execAll_assertType (levelName_ne_ok rfl level) he.eval rfl
  | boolean =>
    cases hv with
    | boolean b =>
      have hc := isInner_levelName (show "c".toList = ['c'] from rfl) level
      refine ⟨[(levelName "c" level, .bool b), ("ok", .bool true)],
        (allInner_nil.cons (isInner_ok level)).cons hc, ?_, eval_declared⟩
      exact execAll_assertType (levelName_ne_ok rfl level) he.eval rfl
  | integer =>
    cases hv with
    | integer n =>
      have hc := isInner_levelName (show "c".toList = ['c'] from rfl) level
      refine ⟨[(levelName "c" level, .int64 n)], allInner_nil.cons hc, ?_, eval_declared⟩
      exact execAll_convertNumber (ne_levelName (by decide) "c" level).symm
        (he _ (allInner_nil.cons hc)) rfl
  | number =>
    cases hv with
    | number r hr =>
      have hc := isInner_levelName (show "c".toList = ['c'] from rfl) level
      refine ⟨[(levelName "c" level, .float64 r)], allInner_nil.cons hc, ?_, eval_declared⟩
      exact execAll_convertNumber (ne_levelName (by decide) "c" level).symm
        (he _ (allInner_nil.cons hc)) rfl
  | object title =>
    obtain ⟨hnew, hread⟩ := hcalls title v hv hlists (Nat.le_refl _)
    have hmap : (mapForm classes v).type? = some .anyMap := by
      cases hv with
      | object hc hvs =>
        rw [mapForm_object hc]
        rfl
    let m := levelName "m" level
    let o := levelName "o" level
    let asserted : Scope := (m, mapForm classes v) :: ("ok", .bool true) :: scope
    have hassert : execAll rt call (assertType c m e .anyMap path "object") ⟨scope, written⟩ =
        some (⟨asserted, written⟩, none) :=
      execAll_assertType (levelName_ne_ok rfl level) he.eval hmap
    have hdefine : exec rt call (.define [o]
        ((Expr.call (.name ("New" ++ typeName title "Factory")) []).send "FromMap" [.name m]))
        ⟨asserted, written⟩ = some (⟨(o, .ok (restored classes v)) :: asserted, written⟩, none) :=
      exec_define (eval_fromMap hnew eval_declared hread)
    have herr : eval rt call ((o, .ok (restored classes v)) :: asserted)
        ((Expr.name o).send "IsErr" []) = some (.bool false) := by
      simp [Expr.send, Go.eval, evalAll, Runtime.method]
    have hok : eval rt call ((o, .ok (restored classes v)) :: asserted)
        ((Expr.name o).send "Ok" []) = some (restored classes v) := by
      simp [Expr.send, Go.eval, evalAll, Runtime.method]
    refine ⟨[(o, .ok (restored classes v)), (m, mapForm classes v), ("ok", .bool true)],
      ((allInner_nil.cons (isInner_ok level)).cons (isInner_levelName rfl level)).cons
        (isInner_levelName rfl level), ?_, hok⟩
    rw [readValue, execAll_append, hassert, Step.next_go, execAll_cons hdefine]
    exact execAll_single (exec_cond_false herr)
  | list items ih =>
    cases hv with
    | @list _ vs hvs =>
      rw [Value.listsHoldObjects, Bool.and_eq_true_iff] at hlists
      obtain ⟨hobject, hitems⟩ := hlists
      have hform : mapForm classes (.slice items.goType vs) =
          .slice .any (vs.map (mapForm classes)) := by
        rw [mapForm, if_pos hobject, mapItems_eq]
      rw [hform] at he
      let r := levelName "r" level
      let s := levelName "s" level
      let i := levelName "i" level
      let asserted : Scope := (r, .slice .any (vs.map (mapForm classes))) :: ("ok", .bool true) :: scope
      have hassert : execAll rt call (assertType c r e (.slice .any) path "array") ⟨scope, written⟩ =
          some (⟨asserted, written⟩, none) :=
        execAll_assertType (levelName_ne_ok rfl level) he.eval rfl
      have hdefine : exec rt call (.define [s] (.makeSlice (.slice items.goType) (.len (.name r))))
          ⟨asserted, written⟩ = some (⟨(s, .slice items.goType []) :: asserted, written⟩, none) :=
        exec_define (eval_makeSlice eval_declared)
      have hrs : r ≠ s :=
        fun heq => absurd (levelName_inj (c := 'r') (d := 's') rfl rfl heq).1 (by decide)
      have hloop : exec rt call (.loop i (.name r)
          ((readValue c (.index (.name r) (.name i)) path (level + 1) items).1 ++
            [.assign (.name s) (.call (.name "append") [.name s,
              (readValue c (.index (.name r) (.name i)) path (level + 1) items).2])]))
          ⟨(s, .slice items.goType []) :: asserted, written⟩ =
          some (⟨(s, .slice items.goType (vs.map (restored classes))) :: asserted, written⟩, none) := by
        have hslice : eval rt call ((s, .slice items.goType []) :: asserted) (.name r) =
            some (.slice .any (vs.map (mapForm classes))) := by
          rw [Go.eval, lookup_cons_ne hrs, List.lookup_cons_self]
          rfl
        refine exec_appendLoop rfl (by decide) hslice (by simp) ?_
        intro k u done hu
        rw [List.getElem?_map, Option.map_eq_some_iff] at hu
        obtain ⟨w, hw, rfl⟩ := hu
        have hmem : w ∈ vs := List.mem_of_getElem? hw
        have hhold : w.listsHoldObjects = true := itemsHoldObjects_iff.1 hitems w hmem
        have hsi : s ≠ i :=
          fun heq => absurd (levelName_inj (c := 's') (d := 'i') rfl rfl heq).1 (by decide)
        have hri : r ≠ i :=
          fun heq => absurd (levelName_inj (c := 'r') (d := 'i') rfl rfl heq).1 (by decide)
        have hlist : Denotes rt call ((i, .int k) :: (s, .slice items.goType done) :: asserted)
            (level + 1) (.name r) (.slice .any (vs.map (mapForm classes))) := by
          apply denotes_name (not_isInner_levelName rfl (Nat.lt_succ_self level))
          rw [lookup_cons_ne hri, lookup_cons_ne hrs, List.lookup_cons_self]
        have hindex : Denotes rt call ((i, .int k) :: (s, .slice items.goType done) :: asserted)
            (level + 1) (.name i) (.int k) :=
          denotes_name (not_isInner_levelName rfl (Nat.lt_succ_self level)) List.lookup_cons_self
        have hitem : Denotes rt call ((i, .int k) :: (s, .slice items.goType done) :: asserted)
            (level + 1) (.index (.name r) (.name i)) (mapForm classes w) :=
          hlist.index hindex (by rw [List.getElem?_map, hw]; rfl)
        exact ih (hvs w hmem) hhold (hcalls.mono (sizeOf_item hmem).le) hitem
      refine ⟨[(s, .slice items.goType (vs.map (restored classes))),
          (r, .slice .any (vs.map (mapForm classes))), ("ok", .bool true)],
        ((allInner_nil.cons (isInner_ok level)).cons (isInner_levelName rfl level)).cons
          (isInner_levelName rfl level), ?_, ?_⟩
      · rw [readValue, execAll_append, hassert, Step.next_go, execAll_cons hdefine]
        exact execAll_single hloop
      · rw [restored, restoredItems_eq]
        exact eval_declared

end reading

end SchemaForge.Go
