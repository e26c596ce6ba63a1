import SchemaForge.Proofs.Go.Ordering
/-! Comparison: code tells which of two values comes first, and so orders them strictly. -/
namespace SchemaForge.Go

variable {rt : Runtime} {call : Callee} {numbers : Float64 → Prop} {classes : List Class}
  {c : Class} {f : Field} {type : ValueType} {title : String} {v w x y z : Value}
  {vs ws : List Value} {scope : Scope} {st : State} {written : ByteArray} {mine other : Expr}
  {level : Nat} {o o' : Ordering} {g : Graph} {root : NodeId}

section statements

/-- What code returns once it knows which value comes first. -/
def verdict : Ordering → Option Value
  | .lt => some (.bool true)
  | .gt => some (.bool false)
  | .eq => none

/-- Names that keep their meaning unless a scope gives them one. -/
def Plain (scope : Scope) : Prop := scope.lookup "true" = none ∧ scope.lookup "false" = none

theorem Plain.cons {name : String} (h : Plain scope) (htrue : "true" ≠ name)
    (hfalse : "false" ≠ name) : Plain ((name, v) :: scope) :=
  ⟨by rw [lookup_cons_ne htrue, h.1], by rw [lookup_cons_ne hfalse, h.2]⟩

theorem Plain.index (h : Plain scope) (level : Nat) :
    Plain ((levelName "i" level, v) :: scope) :=
  h.cons (ne_levelName (by decide) "i" level) (ne_levelName (by decide) "i" level)

theorem exec_ret_true (h : Plain st.scope) :
    exec rt call (.ret (.name "true")) st = some (st, some (.bool true)) := by
  simp [exec, State.withValue, eval, h.1]

theorem exec_ret_false (h : Plain st.scope) :
    exec rt call (.ret (.name "false")) st = some (st, some (.bool false)) := by
  simp [exec, State.withValue, eval, h.2]

/-- A condition that does not hold. -/
theorem exec_cond_false {test : Expr} {body : List Stmt}
    (ht : eval rt call st.scope test = some (.bool false)) :
    exec rt call (.cond test body) st = some (st, none) := by
  simp [exec, State.branch, State.withValue, ht]

/-- A condition that holds, with a body that leaves all names as they are. -/
theorem exec_cond_true {test : Expr} {body : List Stmt} {result : Option Value}
    (ht : eval rt call st.scope test = some (.bool true))
    (hbody : execAll rt call body st = some (st, result)) :
    exec rt call (.cond test body) st = some (st, result) := by
  simp only [exec, State.branch, State.withValue, ht, Option.bind_some]
  exact inBlock_of [] hbody rfl

theorem execAll_decideBy {before after : Expr} (h : Plain st.scope)
    (hbefore : eval rt call st.scope before = some (.bool (o = .lt)))
    (hafter : eval rt call st.scope after = some (.bool (o = .gt))) :
    execAll rt call (decideBy before after) st = some (st, verdict o) := by
  unfold decideBy
  cases o with
  | lt =>
    exact execAll_cons_returned
      (exec_cond_true hbefore (execAll_cons_returned (exec_ret_true h)))
  | gt =>
    rw [execAll_cons (exec_cond_false hbefore)]
    exact execAll_cons_returned (exec_cond_true hafter (execAll_cons_returned (exec_ret_false h)))
  | eq =>
    rw [execAll_cons (exec_cond_false hbefore)]
    exact execAll_single (exec_cond_false hafter)

/-- Code goes on to what comes next only where nothing has been decided. -/
theorem execAll_then {a b : List Stmt} (ha : execAll rt call a st = some (st, verdict o))
    (hb : o = .eq → execAll rt call b st = some (st, verdict o')) :
    execAll rt call (a ++ b) st = some (st, verdict (o.then o')) := by
  rw [execAll_append, ha]
  cases o with
  | lt => rfl
  | gt => rfl
  | eq => exact hb rfl

/-- A loop over items of two lists. -/
theorem iterate_order {body : Nat → State → Step} {i : Nat}
    (hbody : ∀ k v w, vs[k]? = some v → ws[k]? = some w →
      body (i + k) st = some (st, verdict (order v w)))
    (hlength : vs.length = ws.length) :
    iterate body i vs.length st = some (st, verdict (orderItems vs ws)) := by
  induction vs generalizing ws i with
  | nil =>
    cases ws with
    | nil => rfl
    | cons w ws => cases hlength
  | cons v vs ih =>
    cases ws with
    | nil => cases hlength
    | cons w ws =>
      have hfirst : body i st = some (st, verdict (order v w)) := hbody 0 v w rfl rfl
      have hrest : iterate body (i + 1) vs.length st = some (st, verdict (orderItems vs ws)) := by
        apply ih _ (Nat.succ.inj hlength)
        intro k v w hv hw
        have := hbody (k + 1) v w (by simpa using hv) (by simpa using hw)
        rwa [show i + (k + 1) = i + 1 + k by omega] at this
      rw [List.length_cons, iterate, hfirst, orderItems]
      cases order v w with
      | lt => rfl
      | gt => rfl
      | eq => exact hrest

end statements

section values

theorem eval_len {items : GoType} {e : Expr} (he : eval rt call scope e = some (.slice items vs)) :
    eval rt call scope (Expr.len e) = some (.int vs.length) := by
  simp [Expr.len, eval, evalAll, he, builtin]

/-- A comparison of numbers, texts or lengths. -/
theorem eval_less {e e' : Expr} (he : eval rt call scope e = some v)
    (he' : eval rt call scope e' = some w) :
    eval rt call scope (.binary .less e e') = compareValue? .less v w := by
  simp [eval, he, he']

theorem eval_greater {e e' : Expr} (he : eval rt call scope e = some v)
    (he' : eval rt call scope e' = some w) :
    eval rt call scope (.binary .greater e e') = compareValue? .greater v w := by
  simp [eval, he, he']

theorem eval_send {type m : String} {fields : List (String × Value)} {e : Expr} {args : List Expr}
    {out : Outcome} (he : eval rt call scope e = some (.struct type fields))
    (hargs : evalAll rt call scope args = some vs)
    (hcall : call (some (.struct type fields)) m vs = some out) :
    eval rt call scope (e.send m args) = out.result := by
  simp [Expr.send, eval, he, hargs, hcall]

theorem compareTexts_lt_iff (s t : String) :
    compareTexts s t < 0 ↔ decided (textBytes s) (textBytes t) = .lt := by
  unfold compareTexts decided
  change (if textBytes s < textBytes t then (-1 : Int)
    else if textBytes t < textBytes s then 1 else 0) < 0 ↔ _
  by_cases hst : textBytes s < textBytes t
  · simp [hst]
  · by_cases hts : textBytes t < textBytes s <;> simp [hst, hts]

theorem compareTexts_gt_iff (s t : String) :
    0 < compareTexts s t ↔ decided (textBytes s) (textBytes t) = .gt := by
  unfold compareTexts decided
  change (0 : Int) < (if textBytes s < textBytes t then (-1 : Int)
    else if textBytes t < textBytes s then 1 else 0) ↔ _
  by_cases hst : textBytes s < textBytes t
  · simp [hst]
  · by_cases hts : textBytes t < textBytes s <;> simp [hst, hts]

theorem less_iff {a b : Float64} (ha : a ≠ .nan) (hb : b ≠ .nan) :
    a.less b = decide (a.place < b.place) := by
  simp [Float64.less, ha, hb]

/-- Objects that are no larger than a bound tell which of them comes first. -/
def ComparesUpTo (call : Callee) (numbers : Float64 → Prop) (classes : List Class) (size : Nat) :
    Prop :=
  ∀ title v w, Inhabits numbers classes (.object title) v →
    Inhabits numbers classes (.object title) w → sizeOf v ≤ size → sizeOf w ≤ size →
    call (some v) "Less" [w] = some ⟨some (.bool (order v w = .lt)), some v, .empty⟩

/-- Code for a type decides by the order of two values. -/
theorem execAll_compareValues (hv : Inhabits (· ≠ .nan) classes type v)
    (hw : Inhabits (· ≠ .nan) classes type w) {size : Nat}
    (hcalls : ComparesUpTo call (· ≠ .nan) classes size) (hsize : sizeOf v ≤ size)
    (hsize' : sizeOf w ≤ size) (hplain : Plain scope)
    (hmine : Denotes rt call scope level mine v) (hother : Denotes rt call scope level other w) :
    execAll rt call (compareValues mine other level type) ⟨scope, written⟩ =
      some (⟨scope, written⟩, verdict (order v w)) := by
  induction type generalizing v w scope level mine other with
  | string =>
    cases hv with
    | string s =>
      cases hw with
      | string t =>
        have hcompare : eval rt call scope (.call (.imported .strings "Compare") [mine, other]) =
            some (.int (compareTexts s t)) := by
          simp [eval, evalAll, hmine.eval, hother.eval, Runtime.imported]
        have hzero : eval rt call scope (.number 0) = some (.int 0) := by rw [eval]
        rw [compareValues, order]
        apply execAll_decideBy hplain
        · rw [eval_less hcompare hzero]
          simp only [compareValue?, compareTexts_lt_iff]
        · rw [eval_greater hcompare hzero]
          simp only [compareValue?, compareTexts_gt_iff]
  | integer =>
    cases hv with
    | integer m =>
      cases hw with
      | integer n =>
        rw [compareValues, order]
        apply execAll_decideBy hplain
        · rw [eval_less hmine.eval hother.eval]
          simp only [compareValue?, decided_lt_iff]
        · rw [eval_greater hmine.eval hother.eval]
          simp only [compareValue?, decided_gt_iff]
  | number =>
    cases hv with
    | number a ha =>
      cases hw with
      | number b hb =>
        rw [compareValues, order]
        apply execAll_decideBy hplain
        · rw [eval_less hmine.eval hother.eval]
          simp only [compareValue?, less_iff ha hb, decided_lt_iff]
        · rw [eval_greater hmine.eval hother.eval]
          simp only [compareValue?, less_iff hb ha, decided_gt_iff]
  | boolean =>
    cases hv with
    | boolean a =>
      cases hw with
      | boolean b =>
        rw [compareValues, order]
        apply execAll_decideBy hplain
        · cases a <;> cases b <;> simp [eval, hmine.eval, hother.eval, decided]
        · cases a <;> cases b <;> simp [eval, hmine.eval, hother.eval, decided]
  | list items ih =>
    cases hv with
    | @list _ vs hvs =>
      cases hw with
      | @list _ ws hws =>
        let i := levelName "i" level
        have hbody : ∀ k v w, vs[k]? = some v → ws[k]? = some w →
            inBlock [(i, .int (0 + k : Nat))]
              (execAll rt call (compareValues (.index mine (.name i)) (.index other (.name i))
                (level + 1) items)) ⟨scope, written⟩ =
            some (⟨scope, written⟩, verdict (order v w)) := by
          intro k v w hk hk'
          have hmem : v ∈ vs := List.mem_of_getElem? hk
          have hmem' : w ∈ ws := List.mem_of_getElem? hk'
          have hv : sizeOf v ≤ size := (sizeOf_item hmem).le.trans hsize
          have hw : sizeOf w ≤ size := (sizeOf_item hmem').le.trans hsize'
          have hitem := ih (hvs v hmem) (hws w hmem') hv hw (hplain.index level)
            (hmine.item (i := 0 + k) (by simpa using hk)) (hother.item (by simpa using hk'))
          exact inBlock_of [(i, .int (0 + k : Nat))] hitem rfl
        rw [compareValues, order]
        apply execAll_then
        · apply execAll_decideBy hplain
          · rw [eval_less (eval_len hmine.eval) (eval_len hother.eval)]
            simp [compareValue?, decided_lt_iff]
          · rw [eval_greater (eval_len hmine.eval) (eval_len hother.eval)]
            simp [compareValue?, decided_gt_iff]
        · intro hdecided
          have hlength : vs.length = ws.length := eq_of_decided hdecided
          have hloop : exec rt call (.loop i mine (compareValues (.index mine (.name i))
                (.index other (.name i)) (level + 1) items)) ⟨scope, written⟩ =
              some (⟨scope, written⟩, verdict (orderItems vs ws)) := by
            simp only [exec, State.withValue, hmine.eval, Option.bind_some]
            exact iterate_order hbody hlength
          exact execAll_last hloop
  | object title =>
    have hvw := hcalls title v w hv hw hsize hsize'
    have hwv := hcalls title w v hw hv hsize' hsize
    have hswap := order_swap hv w hw
    cases hv with
    | @object _ c vs hc hvs =>
      cases hw with
      | @object _ c' ws hc' hws =>
        rw [compareValues]
        apply execAll_decideBy hplain
        · rw [eval_send hmine.eval (by simp only [evalAll, hother.eval]; rfl) hvw]
        · rw [eval_send hother.eval (by simp only [evalAll, hmine.eval]; rfl) hwv, hswap]
          cases order (c.object vs) (c'.object ws) <;> rfl

end values

section fields

theorem eval_and {e e' : Expr} {a b : Bool} (he : eval rt call scope e = some (.bool a))
    (he' : eval rt call scope e' = some (.bool b)) :
    eval rt call scope (.binary .and e e') = some (.bool (a && b)) := by
  cases a <;> simp [eval, he, he']

/-- A member that a getter answers with. -/
theorem Denotes.getter {x name type : String} {fields : List (String × Value)} {out : Outcome}
    (hx : ¬ IsInner level x) (hscope : scope.lookup x = some (.struct type fields))
    (hcall : call (some (.struct type fields)) name [] = some out) (hresult : out.result = some v) :
    Denotes rt call scope level (.call (.field (.name x) name) []) v := by
  intro inner hinner
  have hname : Go.eval rt call (inner ++ scope) (.name x) = some (.struct type fields) :=
    denotes_name hx hscope inner hinner
  have hargs : evalAll rt call (inner ++ scope) [] = some [] := rfl
  exact (eval_send hname hargs hcall).trans hresult

/-- Code for a field decides by the order of two values, where those that are there come first. -/
theorem execAll_compareField (hv : Slot (Inhabits (· ≠ .nan) classes) f v)
    (hw : Slot (Inhabits (· ≠ .nan) classes) f w) {size : Nat}
    (hcalls : ComparesUpTo call (· ≠ .nan) classes size) (hsize : sizeOf v ≤ size)
    (hsize' : sizeOf w ≤ size) (hplain : Plain scope)
    (hmine : Denotes rt call scope 0 (Class.own f) v)
    (hy : scope.lookup "other" = some y)
    (hget : ∀ scope, scope.lookup "other" = some y →
      Denotes rt call scope 0 (.call (.field (.name "other") f.publicName) []) w) :
    execAll rt call (compareField f) ⟨scope, written⟩ =
      some (⟨scope, written⟩, verdict (order v w)) := by
  have hother := hget scope hy
  cases hv with
  | @required name type default _ hv =>
    cases hw with
    | required hw =>
      exact execAll_compareValues hv hw hcalls hsize hsize' hplain hmine hother
  | @present name type default v hv =>
    let f : Field := ⟨name, type, true, default⟩
    have hmineSome := eval_isSome hmine.eval
    cases hw with
    | @present _ _ _ w hw =>
      have hotherSome := eval_isSome hother.eval
      have hsize : sizeOf v ≤ size := le_trans (by simp) hsize
      have hsize' : sizeOf w ≤ size := le_trans (by simp) hsize'
      have hplain : Plain (("b", w) :: ("a", v) :: scope) :=
        (hplain.cons (by decide) (by decide)).cons (by decide) (by decide)
      have ha : Denotes rt call (("b", w) :: ("a", v) :: scope) 0 (.name "a") v :=
        denotes_name (not_isInner (by decide)) rfl
      have hb : Denotes rt call (("b", w) :: ("a", v) :: scope) 0 (.name "b") w :=
        denotes_name (not_isInner (by decide)) rfl
      have hcontents : eval rt call (("a", v) :: scope)
          (.call (.field (.name "other") f.publicName) []) = some (.present w) :=
        (hget (("a", v) :: scope) (by rwa [lookup_cons_ne (by decide)])).eval
      have hbody : execAll rt call (.define ["a"] (Class.contents (Class.own f)) ::
            .define ["b"] (Class.contents (.call (.field (.name "other") f.publicName) [])) ::
              compareValues (.name "a") (.name "b") 0 type) ⟨[] ++ scope, written⟩ =
          some (⟨[("b", w), ("a", v)] ++ scope, written⟩, verdict (order v w)) := by
        rw [List.nil_append, execAll_cons (exec_define_contents hmine.eval),
          execAll_cons (exec_define_contents hcontents)]
        exact execAll_compareValues hv hw hcalls hsize hsize' hplain ha hb
      have horder : order (.present v) (.present w) = order v w := by rw [order]
      rw [horder]
      apply execAll_last
      simp only [exec, State.branch, State.withValue, eval_and hmineSome hotherSome,
        Option.bind_some, Bool.and_self]
      exact inBlock_of _ hbody rfl
    | absent =>
      have hotherSome := eval_isSome_absent hother.eval
      have hotherNone := eval_isNone_absent hother.eval
      have hbody : execAll rt call [.ret (.name "true")] ⟨scope, written⟩ =
          some (⟨scope, written⟩, some (.bool true)) := execAll_last (exec_ret_true hplain)
      have horder : order (.present v) .absent = .lt := by rw [order]
      rw [horder]
      apply execAll_last
      simp only [exec, execArms, State.branch, State.withValue, eval_and hmineSome hotherSome,
        eval_and hmineSome hotherNone, Option.bind_some, Bool.and_false, Bool.and_self]
      exact inBlock_of [] hbody rfl
  | @absent name type default =>
    let f : Field := ⟨name, type, true, default⟩
    have hmineSome := eval_isSome_absent hmine.eval
    have hmineNone := eval_isNone_absent hmine.eval
    cases hw with
    | @present _ _ _ w hw =>
      have hotherSome := eval_isSome hother.eval
      have hotherNone := eval_isNone hother.eval
      have hbody : execAll rt call [.ret (.name "false")] ⟨scope, written⟩ =
          some (⟨scope, written⟩, some (.bool false)) := execAll_last (exec_ret_false hplain)
      have horder : order .absent (.present w) = .gt := by rw [order]
      rw [horder]
      apply execAll_last
      simp only [exec, execArms, State.branch, State.withValue, eval_and hmineSome hotherSome,
        eval_and hmineSome hotherNone, eval_and hmineNone hotherSome, Option.bind_some,
        Bool.false_and, Bool.and_self]
      exact inBlock_of [] hbody rfl
    | absent =>
      have hotherSome := eval_isSome_absent hother.eval
      have hotherNone := eval_isNone_absent hother.eval
      apply execAll_single
      simp only [exec, execArms, State.branch, State.withValue, eval_and hmineSome hotherSome,
        eval_and hmineSome hotherNone, eval_and hmineNone hotherSome, Option.bind_some]
      rfl

/-- Code for all fields decides by the first one that differs. -/
theorem execAll_compareFields {fields : List Field}
    (hvs : List.Forall₂ (Slot (Inhabits (· ≠ .nan) classes)) fields vs)
    (hws : List.Forall₂ (Slot (Inhabits (· ≠ .nan) classes)) fields ws) {size : Nat}
    (hcalls : ComparesUpTo call (· ≠ .nan) classes size) (hsize : ∀ v ∈ vs, sizeOf v ≤ size)
    (hsize' : ∀ w ∈ ws, sizeOf w ≤ size) (hplain : Plain scope)
    (hy : scope.lookup "other" = some y)
    (hmine : ∀ f v, (f, v) ∈ fields.zip vs → Denotes rt call scope 0 (Class.own f) v)
    (hget : ∀ f w, (f, w) ∈ fields.zip ws → ∀ scope, scope.lookup "other" = some y →
      Denotes rt call scope 0 (.call (.field (.name "other") f.publicName) []) w)
    {names : List String} (hnames : names.length = fields.length) :
    execAll rt call (fields.flatMap compareField) ⟨scope, written⟩ =
      some (⟨scope, written⟩, verdict (orderMembers (names.zip vs) (names.zip ws))) := by
  induction hvs generalizing ws names with
  | nil => simp [execAll, orderMembers, verdict]
  | @cons f v fields vs hv hvs ih =>
    obtain ⟨w, ws, hw, hws', rfl⟩ := List.forall₂_cons_left_iff.1 hws
    cases names with
    | nil => cases hnames
    | cons name names =>
      rw [List.flatMap_cons, List.zip_cons_cons, List.zip_cons_cons, orderMembers]
      apply execAll_then
      · exact execAll_compareField hv hw hcalls (hsize v List.mem_cons_self)
          (hsize' w List.mem_cons_self) hplain (hmine f v List.mem_cons_self) hy
          (hget f w List.mem_cons_self)
      · intro _
        exact ih hws' (fun v hv => hsize v (List.mem_cons_of_mem _ hv))
          (fun w hw => hsize' w (List.mem_cons_of_mem _ hw))
          (fun f v hmem => hmine f v (List.mem_cons_of_mem _ hmem))
          (fun f w hmem => hget f w (List.mem_cons_of_mem _ hmem)) (Nat.succ.inj hnames)

end fields

section calls

/-- The implementations of `Less` and of the getters that it calls. -/
def lessDecls (classes : List Class) : List Decl :=
  classes.flatMap fun c => c.fields.map c.getterDecl ++ [c.lessDecl]

theorem find?_less (hc : classOf classes title = some c) (vs : List Value) :
    (lessDecls classes).find? (·.answers (some (c.object vs)) "Less" 1) =
      some (.method "my" c.implName c.lessSignature
        (c.fields.flatMap compareField ++ [.ret (.name "false")])) := by
  have hgetters (c' : Class) : (c'.fields.map c'.getterDecl).find?
      (·.answers (some (c.object vs)) "Less" 1) = none := by
    simp [Class.getterDecl, Class.getterSignature, Class.implMethod, Decl.answers]
  apply find?_of_classOf hc
  · rw [List.find?_append, hgetters, Option.none_or]
    simp [Class.lessDecl, Class.implMethod, Decl.answers, Class.object, Class.lessSignature]
  · intro c' hne
    rw [List.find?_append, hgetters, Option.none_or]
    simp [Class.lessDecl, Class.implMethod, Decl.answers, Class.object, Ne.symm hne]

theorem find?_publicName {fields : List Field} (hnames : (fields.map Field.publicName).Nodup)
    (hf : f ∈ fields) : fields.find? (·.publicName == f.publicName) = some f := by
  induction fields with
  | nil => exact absurd hf List.not_mem_nil
  | cons first fields ih =>
    rw [List.map_cons, List.nodup_cons] at hnames
    rcases List.mem_cons.1 hf with rfl | hf
    · simp
    · have hne : first.publicName ≠ f.publicName := by
        intro heq
        exact hnames.1 (heq ▸ List.mem_map_of_mem hf)
      rw [List.find?_cons, beq_false_of_ne hne]
      exact ih hnames.2 hf

theorem find?_getter (h : Accepted g root classes) (hc : classOf classes title = some c)
    (hf : f ∈ c.fields) (vs : List Value) :
    (lessDecls classes).find? (·.answers (some (c.object vs)) f.publicName 0) =
      some (.method "my" c.implName (Class.getterSignature f) [.ret (Class.own f)]) := by
  apply find?_of_classOf hc
  · have hanswers : (fun f' => Decl.answers (some (c.object vs)) f.publicName 0 (c.getterDecl f')) =
        fun f' => f'.publicName == f.publicName := by
      funext f'
      simp [Class.getterDecl, Class.getterSignature, Class.implMethod, Decl.answers, Class.object]
    have hfind := find?_publicName (h.nodup_publicNames (mem_of_classOf hc)) hf
    rw [List.find?_append, List.find?_map, Function.comp_def, hanswers, hfind]
    rfl
  · intro c' hne
    rw [List.find?_eq_none]
    intro d hd
    rcases List.mem_append.1 hd with hd | hd
    · obtain ⟨f', -, rfl⟩ := List.mem_map.1 hd
      simp [Class.getterDecl, Class.implMethod, Decl.answers, Class.object, Ne.symm hne]
    · rw [List.mem_singleton.1 hd]
      simp [Class.lessDecl, Class.implMethod, Decl.answers, Class.object, Ne.symm hne]

/-- Getters answer with the members of an object. -/
theorem callWithin_getter (h : Accepted g root classes) (hc : classOf classes title = some c)
    (hmem : (f, v) ∈ c.fields.zip vs) (depth : Nat) :
    callWithin rt (lessDecls classes) (depth + 1) (some (c.object vs)) f.publicName [] =
      some ⟨some v, some (c.object vs), .empty⟩ := by
  have hfield := lookup_object (h.nodup_privateNames (mem_of_classOf hc)) hmem
  have hown : Denotes rt (callWithin rt (lessDecls classes) depth) [("my", c.object vs)] 0
      (Class.own f) v :=
    (denotes_name (not_isInner (by decide)) rfl).field hfield
  have hbody : execAll rt (callWithin rt (lessDecls classes) depth) [.ret (Class.own f)]
      ⟨[("my", c.object vs)], .empty⟩ = some (⟨[("my", c.object vs)], .empty⟩, some v) := by
    apply execAll_last
    simp only [exec, State.withValue, hown.eval, Option.bind_some]
  exact callWithin_method [] (find?_getter h hc (List.of_mem_zip hmem).1 vs) hbody

/-- Calls as deep as two objects are large tell which of them comes first. -/
theorem comparesUpTo_callWithin (h : Accepted g root classes) (depth : Nat) :
    ComparesUpTo (callWithin rt (lessDecls classes) depth) (· ≠ .nan) classes depth := by
  induction depth with
  | zero =>
    intro title v w hv _ hsize
    cases hv
    simp [Class.object] at hsize
  | succ depth ih =>
    intro title v w hv hw hsize hsize'
    cases hv with
    | @object _ c vs hc hvs =>
      cases hw with
      | @object _ c' ws hc' hws =>
        rw [hc] at hc'
        cases hc'
        have hmembers : ∀ v ∈ vs, sizeOf v ≤ depth := by
          intro v hmem
          have := sizeOf_member hmem hvs.length_eq
          omega
        have hmembers' : ∀ w ∈ ws, sizeOf w ≤ depth := by
          intro w hmem
          have := sizeOf_member hmem hws.length_eq
          omega
        have hmine : ∀ f v, (f, v) ∈ c.fields.zip vs →
            Denotes rt (callWithin rt (lessDecls classes) depth)
              [("my", c.object vs), ("other", c.object ws)] 0 (Class.own f) v := by
          intro f v hmem
          have hfield := lookup_object (h.nodup_privateNames (mem_of_classOf hc)) hmem
          exact (denotes_name (not_isInner (by decide)) rfl).field hfield
        have hget : ∀ f w, (f, w) ∈ c.fields.zip ws → ∀ scope : Scope,
            scope.lookup "other" = some (c.object ws) →
            Denotes rt (callWithin rt (lessDecls classes) depth) scope 0
              (.call (.field (.name "other") f.publicName) []) w := by
          intro f w hmem scope hscope
          obtain ⟨depth, rfl⟩ : ∃ less, depth = less + 1 := by
            refine ⟨depth - 1, ?_⟩
            have := sizeOf_member (List.of_mem_zip hmem).2 hws.length_eq
            have : 0 < sizeOf w := by cases w <;> simp
            omega
          exact Denotes.getter (not_isInner (by decide)) hscope (callWithin_getter h hc hmem depth)
            rfl
        have horder : order (c.object vs) (c.object ws) =
            orderMembers ((c.fields.map Field.privateName).zip vs)
              ((c.fields.map Field.privateName).zip ws) := by
          rw [Class.object, Class.object, order]
        have hplain : Plain [("my", c.object vs), ("other", c.object ws)] := ⟨rfl, rfl⟩
        have hfields : execAll rt (callWithin rt (lessDecls classes) depth)
            (c.fields.flatMap compareField)
            ⟨[("my", c.object vs), ("other", c.object ws)], .empty⟩ =
            some (⟨[("my", c.object vs), ("other", c.object ws)], .empty⟩,
              verdict (order (c.object vs) (c.object ws))) := by
          rw [horder]
          exact execAll_compareFields hvs hws ih hmembers hmembers' hplain rfl hmine hget (by simp)
        have hbody : execAll rt (callWithin rt (lessDecls classes) depth)
            (c.fields.flatMap compareField ++ [.ret (.name "false")])
            ⟨[("my", c.object vs), ("other", c.object ws)], .empty⟩ =
            some (⟨[("my", c.object vs), ("other", c.object ws)], .empty⟩,
              some (.bool (order (c.object vs) (c.object ws) = .lt))) := by
          have hreturn : execAll rt (callWithin rt (lessDecls classes) depth) [.ret (.name "false")]
              ⟨[("my", c.object vs), ("other", c.object ws)], .empty⟩ =
              some (⟨[("my", c.object vs), ("other", c.object ws)], .empty⟩,
                some (.bool false)) := execAll_last (exec_ret_false hplain)
          rw [execAll_append, hfields]
          cases order (c.object vs) (c.object ws) with
          | lt => rfl
          | gt => rfl
          | eq => exact hreturn
        exact callWithin_method [c.object ws] (find?_less hc vs) hbody

theorem order_self (hv : Inhabits numbers classes type v) : order v v = .eq := by
  have := order_swap hv v hv
  cases horder : order v v <;> simp_all

/-- Comparison is a strict total order: code tells of any two values of a class whether the first
is less, and that is so for none with itself, only one way round, and on from one to the next. Where
neither of two is less, they agree on every member. -/
theorem less_strictTotal (rt : Runtime) (h : Accepted g root classes) :
    let values := Inhabits (· ≠ .nan) classes (.object (g.title root))
    ∃ less : Value → Value → Bool,
      (∀ x y, values x → values y → Ends rt (lessDecls classes) (some x) "Less" [y]
        ⟨some (.bool (less x y)), some x, .empty⟩) ∧
      (∀ x, values x → less x x = false) ∧
      (∀ x y z, values x → values y → values z →
        less x y = true → less y z = true → less x z = true) ∧
      (∀ x y, values x → values y → ¬ (less x y = true ∧ less y x = true)) ∧
      ∀ x y, values x → values y → less x y = false → less y x = false → Agrees x y := by
  refine ⟨fun x y => order x y = .lt, ?_, ?_, ?_, ?_, ?_⟩
  · intro x y hx hy
    refine ⟨sizeOf x + sizeOf y, fun more => ?_⟩
    exact comparesUpTo_callWithin h _ _ x y hx hy (by omega) (by omega)
  · intro x hx
    simp [order_self hx]
  · intro x y z hx hy hz hxy hyz
    obtain ⟨-, -, htransits⟩ := transits_order hx y z hy hz
    simp only [decide_eq_true_eq] at hxy hyz ⊢
    rw [htransits (hxy.trans hyz.symm), hxy]
  · intro x y hx hy
    have hswap := order_swap hx y hy
    simp only [decide_eq_true_eq]
    rintro ⟨hxy, hyx⟩
    rw [hxy, hyx] at hswap
    cases hswap
  · intro x y hx hy hxy hyx
    have hswap := order_swap hx y hy
    apply agrees_of_order hx y hy
    cases horder : order x y with
    | lt => simp [horder] at hxy
    | gt => simp [hswap, horder] at hyx
    | eq => rfl

theorem less_strictTotal_curves :
    ∃ less : Value → Value → Bool,
      Ends zeroPrinter (lessDecls curveClasses) (some (curve [point 1, point 2] .absent .absent)) "Less"
        [curve [point 2] (.present (.string "a")) .absent]
        ⟨some (.bool (less (curve [point 1, point 2] .absent .absent)
          (curve [point 2] (.present (.string "a")) .absent))),
          some (curve [point 1, point 2] .absent .absent), .empty⟩ ∧
      less (curve [point 1, point 2] .absent .absent)
        (curve [point 1, point 2] .absent .absent) = false := by
  have hpoints : ∀ v ∈ [point 1, point 2], Inhabits (· ≠ .nan) curveClasses (.object "Point") v := by
    intro v hv
    rcases List.mem_cons.1 hv with rfl | hv
    · exact inhabits_point _ 1
    · rw [List.mem_singleton.1 hv]
      exact inhabits_point _ 2
  have hx := inhabits_curve hpoints .absent .absent
  have hy := inhabits_curve (fun v hv => hpoints v (List.mem_cons_of_mem _ hv))
    (.present (.string "a")) .absent
  obtain ⟨less, hends, hirrefl, -⟩ := less_strictTotal zeroPrinter accepted_curve
  exact ⟨less, hends _ _ hx hy, hirrefl _ hx⟩

end calls

end SchemaForge.Go
