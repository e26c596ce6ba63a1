import SchemaForge.Proofs.Go.Builders
/-! Maps: what a value becomes in a map, and that the code for it makes just that. -/
namespace SchemaForge.Go

variable {rt : Runtime} {call : Callee} {numbers : Float64 → Prop} {classes : List Class}
  {c : Class} {f : Field} {type : ValueType} {title : String} {v w x : Value}
  {vs us : List Value} {fields : List Field} {scope : Scope} {written : ByteArray} {e : Expr}
  {level : Nat} {g : Graph} {root : NodeId} {entries : List (String × Value)} {key : String}

section forms

/-- Whether values of a type are objects, or lists that hold objects in the end. -/
def GoType.leadsToObject : GoType → Bool
  | .slice items => items.leadsToObject
  | .named name => name ≠ "string" ∧ name ≠ "int64" ∧ name ≠ "float64" ∧ name ≠ "bool"
  | _ => false

def Value.isAbsent : Value → Bool
  | .absent => true
  | _ => false

variable (classes)

mutual

/-- What a value is in a map: objects are maps of what is there in them, and lists that hold objects
in the end are lists of anything. -/
def mapForm : Value → Value
  | .slice items vs => if items.leadsToObject then .slice .any (mapItems vs) else .slice items vs
  | .struct type fields => .map (mapEntries (fieldsOf classes type) fields)
  | .present v => mapForm v
  | v => v

def mapItems : List Value → List Value
  | [] => []
  | v :: vs => mapForm v :: mapItems vs

/-- What is there of fields, by their names. -/
def mapEntries : List Field → List (String × Value) → List (String × Value)
  | f :: fields, (_, v) :: rest =>
    (if v.isAbsent then [] else [(f.name, mapForm v)]) ++ mapEntries fields rest
  | _, _ => []

end

variable {classes}

theorem mapItems_eq : mapItems classes vs = vs.map (mapForm classes) := by
  induction vs with
  | nil => rfl
  | cons v vs ih => rw [mapItems, ih, List.map_cons]

/-- Classes are no scalars: their names end differently. -/
theorem leadsToObject_goType (type : ValueType) : type.goType.leadsToObject = type.leadsToObject := by
  induction type with
  | string | integer | number | boolean => rfl
  | list items ih => exact ih
  | object title =>
    have hne : ∀ name : String, name.toList.getLast? ≠ some 's' → typeName title "Class" ≠ name := by
      rintro name hlast rfl
      apply hlast
      rw [typeName_class]
      simp
    simp only [ValueType.goType, GoType.leadsToObject, ValueType.leadsToObject, decide_eq_true_eq]
    exact ⟨hne _ (by decide), hne _ (by decide), hne _ (by decide), hne _ (by decide)⟩

theorem mapForm_object (hc : classOf classes title = some c) :
    mapForm classes (c.object vs) =
      .map (mapEntries classes c.fields ((c.fields.map Field.privateName).zip vs)) := by
  rw [Class.object, mapForm, fieldsOf_classOf hc]

/-- The entry of a field, if its value is there. -/
def mapEntry (classes : List Class) (f : Field) (v : Value) : List (String × Value) :=
  if v.isAbsent then [] else [(f.name, mapForm classes v)]

theorem mapEntries_cons {name : String} {rest : List (String × Value)} :
    mapEntries classes (f :: fields) ((name, v) :: rest) =
      mapEntry classes f v ++ mapEntries classes fields rest := by
  rw [mapEntries, mapEntry]

theorem name_of_mem_mapEntry {p : String × Value} (h : p ∈ mapEntry classes f v) :
    p.1 = f.name := by
  unfold mapEntry at h
  split at h
  · exact absurd h List.not_mem_nil
  · rw [List.mem_singleton.1 h]

/-- Values of a type are there. -/
theorem isAbsent_of_inhabits (hv : Inhabits numbers classes type v) : v.isAbsent = false := by
  cases hv <;> rfl

theorem mapEntry_of_inhabits (hv : Inhabits numbers classes type v) :
    mapEntry classes f v = [(f.name, mapForm classes v)] := by
  rw [mapEntry, isAbsent_of_inhabits hv]
  rfl

end forms

section lists

/-- A loop that appends an item at each index. -/
theorem iterate_append {body : Nat → State → Step} {x : String} {items : GoType} {i : Nat}
    {done : List Value}
    (hbody : ∀ k u done, us[k]? = some u → body (i + k) ⟨(x, .slice items done) :: scope, written⟩ =
      some (⟨(x, .slice items (done ++ [u])) :: scope, written⟩, none)) :
    iterate body i us.length ⟨(x, .slice items done) :: scope, written⟩ =
      some (⟨(x, .slice items (done ++ us)) :: scope, written⟩, none) := by
  induction us generalizing i done with
  | nil => simp [iterate]
  | cons u us ih =>
    have hfirst := hbody 0 u done rfl
    have hrest : iterate body (i + 1) us.length ⟨(x, .slice items (done ++ [u])) :: scope, written⟩ =
        some (⟨(x, .slice items (done ++ [u] ++ us)) :: scope, written⟩, none) := by
      apply ih
      intro k w done hw
      have := hbody (k + 1) w done (by simpa using hw)
      rwa [show i + (k + 1) = i + 1 + k by omega] at this
    rw [Nat.add_zero] at hfirst
    rw [List.length_cons, iterate, hfirst, Step.next_go, hrest, List.append_assoc,
      List.singleton_append]

/-- Statements that declare names of a level or further inside, and what an expression stands for
with them. -/
def Prepares (rt : Runtime) (call : Callee) (scope : Scope) (written : ByteArray) (level : Nat)
    (code : List Stmt × Expr) (v : Value) : Prop :=
  ∃ inner, AllInner level inner ∧
    execAll rt call code.1 ⟨scope, written⟩ = some (⟨inner ++ scope, written⟩, none) ∧
    eval rt call (inner ++ scope) code.2 = some v

theorem prepares_nil (he : eval rt call scope e = some v) :
    Prepares rt call scope written level ([], e) v :=
  ⟨[], allInner_nil, rfl, he⟩

theorem Prepares.eval_of_nil (h : Prepares rt call scope written level ([], e) v) :
    eval rt call scope e = some v := by
  obtain ⟨inner, -, hrun, hvalue⟩ := h
  rw [execAll] at hrun
  have hscope : scope = inner ++ scope := congrArg (State.scope ∘ Prod.fst) (Option.some.inj hrun)
  rwa [← hscope] at hvalue

/-- Building a list item by item. -/
theorem exec_appendLoop {letter : String} {ch : Char} (hletter : letter.toList = [ch])
    (hne : ch ≠ 'i') {slice : Expr} {sliceType items : GoType} {ws : List Value}
    {code : List Stmt × Expr}
    (hslice : eval rt call ((levelName letter level, .slice items []) :: scope) slice =
      some (.slice sliceType ws))
    (hlength : ws.length = us.length)
    (hitem : ∀ (k : Nat) u done, us[k]? = some u →
      Prepares rt call ((levelName "i" level, .int k) ::
        (levelName letter level, .slice items done) :: scope) written (level + 1) code u) :
    exec rt call (.loop (levelName "i" level) slice (code.1 ++
        [.assign (.name (levelName letter level))
          (.call (.name "append") [.name (levelName letter level), code.2])]))
        ⟨(levelName letter level, .slice items []) :: scope, written⟩ =
      some (⟨(levelName letter level, .slice items us) :: scope, written⟩, none) := by
  simp only [exec, State.withValue, hslice, Option.bind_some, hlength]
  generalize hx : levelName letter level = x
  generalize hi : levelName "i" level = i at hitem ⊢
  have hxi : i ≠ x := by
    rintro rfl
    exact hne (levelName_inj hletter (show "i".toList = ['i'] from rfl) (hx.trans hi.symm)).1
  have hxinner : ¬ IsInner (level + 1) x := by
    rw [← hx]
    exact not_isInner_levelName hletter (Nat.lt_succ_self level)
  apply iterate_append
  intro k u done hu
  rw [Nat.zero_add]
  rw [hx] at hitem
  obtain ⟨inner, hinner, hrun, hvalue⟩ := hitem k u done hu
  have hlookup : (inner ++ (i, Value.int k) :: (x, .slice items done) :: scope).lookup x =
      some (.slice items done) := by
    rw [lookup_inner hinner hxinner, lookup_cons_ne hxi.symm, List.lookup_cons_self]
  have happend : eval rt call (inner ++ (i, .int k) :: (x, .slice items done) :: scope)
      (.call (.name "append") [.name x, code.2]) = some (.slice items (done ++ [u])) := by
    simp [eval, evalAll, hlookup, hvalue, builtin]
  have hassign : Scope.assign (inner ++ (i, Value.int k) :: (x, .slice items done) :: scope) x
      (.slice items (done ++ [u])) =
      (inner ++ [(i, Value.int k)]) ++ (x, .slice items (done ++ [u])) :: scope := by
    rw [assign_inner hinner hxinner, assign_cons_ne hxi, assign_cons_self, List.append_assoc,
      List.singleton_append]
  have hbody : execAll rt call (code.1 ++
      [.assign (.name x) (.call (.name "append") [.name x, code.2])])
      ⟨[(i, .int k)] ++ (x, .slice items done) :: scope, written⟩ =
      some (⟨(inner ++ [(i, Value.int k)]) ++ (x, .slice items (done ++ [u])) :: scope, written⟩,
        none) := by
    rw [execAll_append, List.singleton_append, hrun, Step.next_go]
    apply execAll_single
    simp only [exec, State.withValue, happend, Option.bind_some, store, hassign]
  exact inBlock_of (inner ++ [(i, Value.int k)]) hbody rfl

theorem eval_makeSlice {items sliceType : GoType} (he : eval rt call scope e = some (.slice sliceType vs)) :
    eval rt call scope (.makeSlice (.slice items) (.len e)) = some (.slice items []) := by
  rw [eval, eval_len he]
  rfl

end lists

section running

/-- Objects that are no larger than a value become maps. -/
def MapsUpTo (call : Callee) (numbers : Float64 → Prop) (classes : List Class)
    (size : Nat) : Prop :=
  ∀ title w, Inhabits numbers classes (.object title) w → sizeOf w ≤ size →
    call (some w) "AsMap" [] = some ⟨some (mapForm classes w), some w, .empty⟩

theorem MapsUpTo.mono {m n : Nat} (h : MapsUpTo call numbers classes n) (hmn : m ≤ n) :
    MapsUpTo call numbers classes m :=
  fun title w hw hsize => h title w hw (hsize.trans hmn)

/-- Code for a type makes the map form of a value. -/
theorem prepares_mapValue (hv : Inhabits numbers classes type v)
    (hcalls : MapsUpTo call numbers classes (sizeOf v)) (he : Denotes rt call scope level e v) :
    Prepares rt call scope written level (mapValue e level type) (mapForm classes v) := by
  induction type generalizing v scope level e with
  | string | integer | number | boolean =>
    cases hv
    exact prepares_nil he.eval
  | object title =>
    have hcall := hcalls title v hv (Nat.le_refl _)
    cases hv with
    | @object _ c vs hc hvs => exact prepares_nil (eval_send he.eval rfl hcall)
  | list items ih =>
    cases hv with
    | @list _ vs hvs =>
      rw [mapValue, mapForm, leadsToObject_goType]
      cases hobject : items.leadsToObject with
      | false => exact prepares_nil he.eval
      | true =>
        simp only [if_true]
        let m := levelName "m" level
        have hm : AllInner level [(m, Value.slice .any [])] :=
          allInner_nil.cons (isInner_levelName rfl level)
        have hdefine : exec rt call (.define [m] (.makeSlice (.slice .any) (.len e)))
            ⟨scope, written⟩ = some (⟨(m, .slice .any []) :: scope, written⟩, none) :=
          exec_define (eval_makeSlice he.eval)
        have hloop : exec rt call (.loop (levelName "i" level) e
              ((mapValue (.index e (.name (levelName "i" level))) (level + 1) items).1 ++
                [.assign (.name m) (.call (.name "append") [.name m,
                  (mapValue (.index e (.name (levelName "i" level))) (level + 1) items).2])]))
            ⟨(m, .slice .any []) :: scope, written⟩ =
            some (⟨(m, .slice .any (mapItems classes vs)) :: scope, written⟩, none) := by
          refine exec_appendLoop rfl (by decide) (he _ hm) (by simp [mapItems_eq]) ?_
          intro k u done hu
          rw [mapItems_eq, List.getElem?_map, Option.map_eq_some_iff] at hu
          obtain ⟨w, hw, rfl⟩ := hu
          have hmem : w ∈ vs := List.mem_of_getElem? hw
          have hdone : AllInner level [(m, Value.slice .any done)] :=
            allInner_nil.cons (isInner_levelName rfl level)
          exact ih (hvs w hmem) (hcalls.mono (sizeOf_item hmem).le) ((he.beside hdone).item hw)
        refine ⟨[(m, .slice .any (mapItems classes vs))],
          allInner_nil.cons (isInner_levelName rfl level), ?_, ?_⟩
        · rw [execAll_cons hdefine, execAll_single hloop]
          rfl
        · rw [List.singleton_append, eval, List.lookup_cons_self]
          rfl

/-- A new key comes last. -/
theorem putEntry_new (h : ∀ p ∈ entries, p.1 ≠ key) :
    putEntry entries key v = entries ++ [(key, v)] := by
  induction entries with
  | nil => rfl
  | cons p entries ih =>
    obtain ⟨hp, hentries⟩ := List.forall_mem_cons.1 h
    rw [putEntry, if_neg hp, ih hentries, List.cons_append]

/-- The names while an object becomes a map. -/
def mapScope (entries : List (String × Value)) (x : Value) : Scope :=
  [("res", .map entries), ("my", x)]

/-- Puts a value under a new key. -/
theorem exec_put {names : Scope} (hnames : names.lookup "res" = none)
    (hkey : ∀ p ∈ entries, p.1 ≠ key) (he : eval rt call (names ++ mapScope entries x) e = some v) :
    exec rt call (.assign (.index (.name "res") (.text key)) e) ⟨names ++ mapScope entries x, written⟩ =
      some (⟨names ++ mapScope (entries ++ [(key, v)]) x, written⟩, none) := by
  have hres : (names ++ mapScope entries x).lookup "res" = some (.map entries) := by
    rw [List.lookup_append, hnames, Option.none_or]
    exact List.lookup_cons_self
  have hassign : Scope.assign (names ++ mapScope entries x) "res" (.map (entries ++ [(key, v)])) =
      names ++ mapScope (entries ++ [(key, v)]) x := by
    rw [assign_append hnames]
    exact congrArg (names ++ ·) assign_cons_self
  have hkeyed : eval rt call (names ++ mapScope entries x) (.text key) = some (.string key) := by
    rw [eval]
  simp only [exec, State.withValue, he, Option.bind_some, store, hkeyed, hres, putEntry_new hkey,
    hassign]

/-- Puts what has been prepared under a new key. -/
theorem execAll_put {names : Scope} (hnames : names.lookup "res" = none)
    (hkey : ∀ p ∈ entries, p.1 ≠ key) {code : List Stmt × Expr}
    (hcode : Prepares rt call (names ++ mapScope entries x) written 0 code v) :
    ∃ inner, execAll rt call (code.1 ++ [.assign (.index (.name "res") (.text key)) code.2])
      ⟨names ++ mapScope entries x, written⟩ =
      some (⟨inner ++ mapScope (entries ++ [(key, v)]) x, written⟩, none) := by
  obtain ⟨inner, hinner, hrun, hvalue⟩ := hcode
  have hboth : (inner ++ names).lookup "res" = none := by
    rw [lookup_inner hinner (not_isInner (by decide)), hnames]
  rw [← List.append_assoc] at hrun hvalue
  refine ⟨inner ++ names, ?_⟩
  rw [execAll_append, hrun, Step.next_go]
  exact execAll_single (exec_put hboth hkey hvalue)

/-- Code for a field puts its value into the map if it is there. -/
theorem execAll_mapField {type' : String} {members : List (String × Value)}
    (hv : Slot (Inhabits numbers classes) f v)
    (hcalls : MapsUpTo call numbers classes (sizeOf v))
    (hfield : members.lookup f.privateName = some v) (hkey : ∀ p ∈ entries, p.1 ≠ f.name) :
    execAll rt call (mapField f) ⟨mapScope entries (.struct type' members), written⟩ =
      some (⟨mapScope (entries ++ mapEntry classes f v)
        (.struct type' members), written⟩, none) := by
  have hmy : (mapScope entries (.struct type' members)).lookup "my" = some (.struct type' members) := by
    rw [mapScope, lookup_cons_ne (by decide), List.lookup_cons_self]
  have hown : Denotes rt call (mapScope entries (.struct type' members)) 0 (Class.own f) v :=
    (denotes_name (not_isInner (by decide)) hmy).field hfield
  cases hv with
  | @required name type default v hv =>
    let f : Field := ⟨name, type, false, default⟩
    have hcode : Prepares rt call ([] ++ mapScope entries (.struct type' members)) written 0
        (mapValue (Class.own f) 0 type) (mapForm classes v) := prepares_mapValue hv hcalls hown
    have hentry : mapEntry classes f v = [(name, mapForm classes v)] := mapEntry_of_inhabits hv
    rw [hentry, mapField]
    simp only [Bool.false_eq_true, if_false]
    generalize mapValue (Class.own f) 0 type = code at hcode ⊢
    obtain ⟨before, e⟩ := code
    cases before with
    | nil => exact execAll_single (exec_put rfl hkey hcode.eval_of_nil)
    | cons s before =>
      obtain ⟨inner, hrun⟩ := execAll_put rfl hkey hcode
      apply execAll_single
      rw [exec]
      exact inBlock_of inner hrun rfl
  | @present name type default w hw =>
    let f : Field := ⟨name, type, true, default⟩
    let names : Scope := [("v", w)]
    have hname : Denotes rt call (names ++ mapScope entries (.struct type' members)) 0 (.name "v") w :=
      denotes_name (not_isInner (by decide)) List.lookup_cons_self
    have hsize : sizeOf w ≤ sizeOf (Value.present w) := by simp
    have hcode : Prepares rt call (names ++ mapScope entries (.struct type' members)) written 0
        (mapValue (.name "v") 0 type) (mapForm classes w) :=
      prepares_mapValue hw (hcalls.mono hsize) hname
    obtain ⟨inner, hrun⟩ := execAll_put rfl hkey hcode
    have hentry : mapEntry classes f (.present w) = [(name, mapForm classes w)] := by
      rw [mapEntry, mapForm]
      rfl
    rw [hentry, mapField, if_pos rfl]
    apply execAll_single
    simp only [exec, State.branch, State.withValue, eval_isSome hown.eval, Option.bind_some]
    apply inBlock_of inner
    · rw [List.nil_append, List.cons_append, execAll_cons (exec_define_contents hown.eval)]
      exact hrun
    · rfl
  | @absent name type default =>
    let f : Field := ⟨name, type, true, default⟩
    have hentry : mapEntry classes f .absent = [] := rfl
    rw [hentry, List.append_nil, mapField, if_pos rfl]
    apply execAll_single
    simp only [exec, State.branch, State.withValue, eval_isSome_absent hown.eval, Option.bind_some]

theorem execAll_mapFields {type : String} {members : List (String × Value)}
    (hvs : List.Forall₂ (Slot (Inhabits numbers classes)) fields vs)
    (hcalls : ∀ v ∈ vs, MapsUpTo call numbers classes (sizeOf v))
    (hmembers : ∀ f v, (f, v) ∈ fields.zip vs → members.lookup f.privateName = some v)
    (hnames : (fields.map Field.name).Nodup) (hkeys : ∀ p ∈ entries, ∀ f ∈ fields, p.1 ≠ f.name) :
    execAll rt call (fields.flatMap mapField) ⟨mapScope entries (.struct type members), written⟩ =
      some (⟨mapScope (entries ++ mapEntries classes fields ((fields.map Field.privateName).zip vs))
        (.struct type members), written⟩, none) := by
  induction hvs generalizing entries with
  | nil => simp [execAll, mapEntries]
  | @cons f v fields vs hv hvs ih =>
    rw [List.map_cons, List.nodup_cons] at hnames
    have hfirst : execAll rt call (mapField f) ⟨mapScope entries (.struct type members), written⟩ =
        some (⟨mapScope (entries ++ mapEntry classes f v)
          (.struct type members), written⟩, none) :=
      execAll_mapField hv (hcalls v List.mem_cons_self) (hmembers f v List.mem_cons_self)
        fun p hp => hkeys p hp f List.mem_cons_self
    have hnew : ∀ p ∈ entries ++ mapEntry classes f v,
        ∀ f' ∈ fields, p.1 ≠ f'.name := by
      intro p hp f' hf'
      rcases List.mem_append.1 hp with hp | hp
      · exact hkeys p hp f' (List.mem_cons_of_mem _ hf')
      · intro heq
        rw [name_of_mem_mapEntry hp] at heq
        have := List.mem_map_of_mem (f := Field.name) hf'
        rw [← heq] at this
        exact hnames.1 this
    rw [List.flatMap_cons, execAll_append, hfirst, Step.next_go,
      ih (fun w hw => hcalls w (List.mem_cons_of_mem _ hw))
        (fun f v hmem => hmembers f v (List.mem_cons_of_mem _ hmem)) hnames.2 hnew,
      List.map_cons, List.zip_cons_cons, mapEntries_cons, List.append_assoc]

/-- Calls as deep as an object is large make its map. -/
theorem mapsUpTo_callWithin (h : Accepted g root classes) (depth : Nat) :
    MapsUpTo (callWithin rt (mappingDecls classes) depth) numbers classes depth := by
  induction depth with
  | zero =>
    intro title w hw hsize
    cases hw
    simp [Class.object] at hsize
  | succ depth ih =>
    intro title w hw hsize
    cases hw with
    | @object _ c vs hc hvs =>
      have hmember : ∀ v ∈ vs, MapsUpTo (callWithin rt (mappingDecls classes) depth) numbers
          classes (sizeOf v) := by
        intro v hv
        have := sizeOf_member hv hvs.length_eq
        exact ih.mono (by omega)
      have hmembers : ∀ f v, (f, v) ∈ c.fields.zip vs →
          ((c.fields.map Field.privateName).zip vs).lookup f.privateName = some v :=
        fun f v hmem => lookup_object (h.nodup_privateNames (mem_of_classOf hc)) hmem
      have hnames := h.nodup_names (mem_of_classOf hc)
      have hbody : execAll rt (callWithin rt (mappingDecls classes) depth)
          (.define ["res"] (.empty .anyMap) :: c.fields.flatMap mapField ++ [.ret (.name "res")])
          ⟨[("my", c.object vs)], .empty⟩ =
          some (⟨mapScope (mapEntries classes c.fields ((c.fields.map Field.privateName).zip vs))
            (c.object vs), .empty⟩, some (mapForm classes (c.object vs))) := by
        have hdefine : exec rt (callWithin rt (mappingDecls classes) depth)
            (.define ["res"] (.empty .anyMap)) ⟨[("my", c.object vs)], .empty⟩ =
            some (⟨mapScope [] (c.object vs), .empty⟩, none) := rfl
        rw [List.cons_append, execAll_cons hdefine, execAll_append, Class.object,
          execAll_mapFields hvs hmember hmembers hnames (by simp), Step.next_go, List.nil_append,
          ← Class.object, mapForm_object hc]
        rfl
      exact callWithin_method [] (find?_asMap hc vs) hbody

end running

end SchemaForge.Go
