import SchemaForge.Go.Order
import SchemaForge.Proofs.Go.Execution
/-! Rules for running generated code: blocks give back the names that they found, and names of inner
levels hide none of outer ones. -/
namespace SchemaForge.Go

variable {rt : Runtime} {call : Callee} {scope inner scope' : Scope} {st st' : State} {x y : String}
  {v w : Value} {e : Expr} {level : Nat} {s : Step} {f g : State → Step}

section names

theorem levelName_toList (letter : String) (level : Nat) :
    (levelName letter level).toList = letter.toList ++ Decimal.digits level := by
  simp [levelName, Decimal.natText]

theorem levelName_inj {a b : String} {c d : Char} {l m : Nat} (ha : a.toList = [c])
    (hb : b.toList = [d]) (h : levelName a l = levelName b m) : c = d ∧ l = m := by
  have hlist := congrArg String.toList h
  rw [levelName_toList, levelName_toList, ha, hb, List.singleton_append, List.singleton_append]
    at hlist
  obtain ⟨hc, hdigits⟩ := List.cons.inj hlist
  have hvalue := congrArg Decimal.value hdigits
  rw [Decimal.value_digits, Decimal.value_digits] at hvalue
  exact ⟨hc, hvalue⟩

/-- A name that stands for something at a level, or at one further inside. Whether a value had its
type has one name at all levels. -/
def IsInner (level : Nat) (x : String) : Prop :=
  x = "ok" ∨ ∃ letter c l, letter.toList = [c] ∧ level ≤ l ∧ x = levelName letter l

theorem isInner_ok (level : Nat) : IsInner level "ok" := Or.inl rfl

theorem isInner_levelName {letter : String} {c : Char} (h : letter.toList = [c]) (level : Nat) :
    IsInner level (levelName letter level) := Or.inr ⟨letter, c, level, h, Nat.le_refl _, rfl⟩

theorem IsInner.of_succ (h : IsInner (level + 1) x) : IsInner level x := by
  rcases h with rfl | ⟨letter, c, l, hc, hl, rfl⟩
  · exact isInner_ok level
  · exact Or.inr ⟨letter, c, l, hc, Nat.le_of_succ_le hl, rfl⟩

/-- Whether a name is none of a level: it has no digits. -/
def isOuter (x : String) : Bool := x != "ok" && x.toList.all (!·.isDigit)

theorem ne_levelName (h : isOuter x = true) (letter : String) (level : Nat) :
    x ≠ levelName letter level := by
  rintro rfl
  obtain ⟨d, hd⟩ : ∃ d, d ∈ Decimal.digits level := by
    rw [Decimal.digits]
    split
    · exact ⟨_, List.mem_singleton_self _⟩
    · exact ⟨_, List.mem_append_right _ (List.mem_singleton_self _)⟩
  have hall := (Bool.and_eq_true_iff.1 h).2
  rw [levelName_toList, List.all_eq_true] at hall
  have := hall d (List.mem_append_right _ hd)
  simp [Decimal.isDigit_of_mem_digits hd] at this

theorem not_isInner (h : isOuter x = true) : ¬ IsInner level x := by
  rintro (rfl | ⟨letter, c, l, -, -, rfl⟩)
  · exact absurd h (by decide)
  · exact ne_levelName h letter l rfl

theorem levelName_ne_ok {letter : String} {c : Char} (h : letter.toList = [c]) (level : Nat) :
    levelName letter level ≠ "ok" := by
  intro heq
  have hlist := congrArg String.toList heq
  rw [levelName_toList, h, List.singleton_append] at hlist
  have hdigits : Decimal.digits level = ['k'] := (List.cons.inj hlist).2
  have hk : 'k' ∈ Decimal.digits level := hdigits ▸ List.mem_singleton_self _
  exact absurd (Decimal.isDigit_of_mem_digits hk) (by decide)

theorem not_isInner_levelName {letter : String} {c : Char} (h : letter.toList = [c]) {l : Nat}
    (hl : l < level) : ¬ IsInner level (levelName letter l) := by
  rintro (heq | ⟨other, d, m, hd, hm, heq⟩)
  · exact levelName_ne_ok h l heq
  · have := (levelName_inj h hd heq).2
    omega

/-- Names that are declared further inside. -/
def AllInner (level : Nat) (inner : Scope) : Prop := ∀ p ∈ inner, IsInner level p.1

theorem allInner_nil : AllInner level [] := fun _ h => absurd h List.not_mem_nil

theorem AllInner.cons (hx : IsInner level x) (h : AllInner level inner) :
    AllInner level ((x, v) :: inner) := by
  intro p hp
  rcases List.mem_cons.1 hp with rfl | hp
  · exact hx
  · exact h p hp

theorem AllInner.of_succ (h : AllInner (level + 1) inner) : AllInner level inner :=
  fun p hp => (h p hp).of_succ

theorem AllInner.append (h : AllInner level inner) (h' : AllInner level scope) :
    AllInner level (inner ++ scope) := by
  intro p hp
  rcases List.mem_append.1 hp with hp | hp
  · exact h p hp
  · exact h' p hp

/-- Outer names are none that are declared further inside. -/
theorem lookup_allInner (h : AllInner level inner) (hx : ¬ IsInner level x) :
    inner.lookup x = none := by
  rw [List.lookup_eq_none_iff]
  intro p hp
  have hne : x ≠ p.1 := by
    rintro rfl
    exact hx (h p hp)
  simpa using hne

theorem lookup_inner (h : AllInner level inner) (hx : ¬ IsInner level x) :
    (inner ++ scope).lookup x = scope.lookup x := by
  rw [List.lookup_append, lookup_allInner h hx, Option.none_or]

end names

section assign

theorem lookup_cons_ne {α : Type} {entries : List (String × α)} {a : α} (h : y ≠ x) :
    ((x, a) :: entries).lookup y = entries.lookup y := by
  rw [List.lookup_cons, beq_false_of_ne h]

theorem assign_cons_self : Scope.assign ((x, v) :: scope) x w = (x, w) :: scope := by
  simp [Scope.assign]

theorem assign_cons_ne (h : y ≠ x) :
    Scope.assign ((y, v) :: scope) x w = (y, v) :: Scope.assign scope x w := by
  simp [Scope.assign, h]

theorem assign_append (h : inner.lookup x = none) :
    Scope.assign (inner ++ scope) x v = inner ++ Scope.assign scope x v := by
  induction inner with
  | nil => rfl
  | cons p inner ih =>
    obtain ⟨y, w⟩ := p
    by_cases hy : x = y
    · rw [hy, List.lookup_cons_self] at h
      cases h
    · rw [lookup_cons_ne hy] at h
      rw [List.cons_append, assign_cons_ne (Ne.symm hy), ih h, List.cons_append]

theorem assign_inner (h : AllInner level inner) (hx : ¬ IsInner level x) :
    Scope.assign (inner ++ scope) x v = inner ++ Scope.assign scope x v :=
  assign_append (lookup_allInner h hx)

/-- A name that gets the value that it has stays as it is. -/
theorem assign_lookup (h : scope.lookup x = some v) : Scope.assign scope x v = scope := by
  induction scope with
  | nil => rfl
  | cons p scope ih =>
    obtain ⟨y, w⟩ := p
    by_cases hy : y = x
    · subst hy
      rw [List.lookup_cons_self] at h
      rw [assign_cons_self, Option.some.inj h]
    · rw [lookup_cons_ne (Ne.symm hy)] at h
      rw [assign_cons_ne hy, ih h]

end assign

namespace Step

@[simp] theorem next_go : Step.next (some (st, none)) f = f st := rfl

@[simp] theorem next_returned : Step.next (some (st, some v)) f = some (st, some v) := rfl

@[simp] theorem next_none : Step.next none f = none := rfl

theorem next_next : (s.next f).next g = s.next fun st => (f st).next g := by
  rcases s with _ | ⟨st, _ | v⟩ <;> rfl

end Step

theorem execAll_cons {s : Stmt} {ss : List Stmt} (h : exec rt call s st = some (st', none)) :
    execAll rt call (s :: ss) st = execAll rt call ss st' := by
  simp only [execAll, h, Step.next_go]

/-- What comes after a return counts for nothing. -/
theorem execAll_cons_returned {s : Stmt} {ss : List Stmt}
    (h : exec rt call s st = some (st', some v)) :
    execAll rt call (s :: ss) st = some (st', some v) := by
  simp only [execAll, h, Step.next_returned]

example : execAll rt call [.ret (.number 3), .ret (.number 4)] st = some (st, some (.int 3)) := by
  cbv

theorem execAll_single {s : Stmt} (h : exec rt call s st = some (st', none)) :
    execAll rt call [s] st = some (st', none) := by
  rw [execAll_cons h, execAll]

theorem execAll_last {s : Stmt} {result : Option Value}
    (h : exec rt call s st = some (st', result)) : execAll rt call [s] st = some (st', result) := by
  cases result with
  | none => exact execAll_single h
  | some v => exact execAll_cons_returned h

theorem execAll_append (a b : List Stmt) (st : State) :
    execAll rt call (a ++ b) st = (execAll rt call a st).next (execAll rt call b) := by
  induction a generalizing st with
  | nil => rfl
  | cons s a ih =>
    rw [List.cons_append, execAll, execAll, Step.next_next]
    exact congrArg _ (funext ih)

/-- A block that leaves the outer names as they are, but for their values. -/
theorem inBlock_of (inner : Scope) {names : Scope} {written : ByteArray} {result : Option Value}
    (h : f ⟨names ++ st.scope, st.written⟩ = some (⟨inner ++ scope', written⟩, result))
    (hlength : scope'.length = st.scope.length) :
    inBlock names f st = some (⟨scope', written⟩, result) := by
  have hdrop : (inner ++ scope').length - st.scope.length = inner.length := by
    rw [List.length_append]
    omega
  rw [inBlock, h]
  simp only [Option.map_some, hdrop, List.drop_left]

section optional

/-- Whether an optional value is there. -/
theorem eval_isSome (he : eval rt call scope e = some (.present v)) :
    eval rt call scope (e.send "IsSome" []) = some (.bool true) := by
  simp [Expr.send, eval, evalAll, he, Runtime.method]

theorem eval_isNone (he : eval rt call scope e = some (.present v)) :
    eval rt call scope (e.send "IsNone" []) = some (.bool false) := by
  simp [Expr.send, eval, evalAll, he, Runtime.method]

theorem eval_isSome_absent (he : eval rt call scope e = some .absent) :
    eval rt call scope (e.send "IsSome" []) = some (.bool false) := by
  simp [Expr.send, eval, evalAll, he, Runtime.method]

theorem eval_isNone_absent (he : eval rt call scope e = some .absent) :
    eval rt call scope (e.send "IsNone" []) = some (.bool true) := by
  simp [Expr.send, eval, evalAll, he, Runtime.method]

theorem eval_contents (he : eval rt call scope e = some (.present v)) :
    eval rt call scope (Class.contents e) = some v := by
  simp [Class.contents, Expr.send, eval, evalAll, he, Runtime.method]

theorem exec_define {written : ByteArray} (he : eval rt call scope e = some v) :
    exec rt call (.define [x] e) ⟨scope, written⟩ = some (⟨(x, v) :: scope, written⟩, none) := by
  simp [exec, evalNames, he]

/-- Gives the value of an optional a name. -/
theorem exec_define_contents {written : ByteArray} (he : eval rt call scope e = some (.present v)) :
    exec rt call (.define [x] (Class.contents e)) ⟨scope, written⟩ =
      some (⟨(x, v) :: scope, written⟩, none) :=
  exec_define (eval_contents he)

end optional

theorem lookup_of_eval {type : String} {fields : List (String × Value)}
    (h : eval rt call scope (.name x) = some (.struct type fields)) :
    scope.lookup x = some (.struct type fields) := by
  rw [eval] at h
  cases hx : scope.lookup x with
  | some v => rwa [hx, Option.some_or] at h
  | none =>
    rw [hx, Option.none_or] at h
    split at h
    · cases h
    · split at h <;> cases h

/-- Calling a method that leaves its struct as it is. -/
theorem exec_send {type m : String} {fields : List (String × Value)} {args : List Expr}
    {vs : List Value} {o : Outcome} {written : ByteArray}
    (he : eval rt call scope e = some (.struct type fields))
    (hargs : evalAll rt call scope args = some vs)
    (hcall : call (some (.struct type fields)) m vs = some o)
    (hreceiver : o.receiver = some (.struct type fields)) :
    exec rt call (.run (.call (.field e m) args)) ⟨scope, written⟩ =
      some (⟨scope, written ++ o.written⟩, none) := by
  simp only [exec, perform, State.withValue, he, hargs, Option.bind_some, hcall, Option.map_some,
    hreceiver]
  split
  · next x v heq =>
    cases heq
    rw [assign_lookup (lookup_of_eval he)]
  · rfl

/-- An expression has a value, whatever else is declared at its level or further inside. -/
def Denotes (rt : Runtime) (call : Callee) (scope : Scope) (level : Nat) (e : Expr) (v : Value) :
    Prop :=
  ∀ inner, AllInner level inner → eval rt call (inner ++ scope) e = some v

theorem Denotes.eval (h : Denotes rt call scope level e v) : eval rt call scope e = some v :=
  h [] allInner_nil

theorem denotes_name (hx : ¬ IsInner level x) (h : scope.lookup x = some v) :
    Denotes rt call scope level (.name x) v := by
  intro inner hinner
  rw [Go.eval, lookup_inner hinner hx, h]
  rfl

theorem Denotes.field {type : String} {fields : List (String × Value)} {name : String}
    (h : Denotes rt call scope level e (.struct type fields)) (hv : fields.lookup name = some v) :
    Denotes rt call scope level (.field e name) v := by
  intro inner hinner
  simp only [Go.eval, h inner hinner, hv]

/-- More names at the level change nothing. -/
theorem Denotes.beside (h : Denotes rt call scope level e v) (hinner : AllInner level inner) :
    Denotes rt call (inner ++ scope) level e v := by
  intro more hmore
  rw [← List.append_assoc]
  exact h _ (hmore.append hinner)

theorem Denotes.declare (h : Denotes rt call scope level e v) (hinner : AllInner level inner) :
    Denotes rt call (inner ++ scope) (level + 1) e v :=
  fun more hmore => h.beside hinner more hmore.of_succ

/-- The item of a slice at an index. -/
theorem Denotes.index {type : GoType} {vs : List Value} {i : Nat} {index : Expr}
    (h : Denotes rt call scope level e (.slice type vs))
    (hindex : Denotes rt call scope level index (.int i)) (hv : vs[i]? = some v) :
    Denotes rt call scope level (.index e index) v := by
  intro inner hinner
  simp [Go.eval, h inner hinner, hindex inner hinner, Value.at?, hv]

/-- The item of a slice that an index of the level stands for. -/
theorem Denotes.item {type : GoType} {vs : List Value} {i : Nat}
    (h : Denotes rt call scope level e (.slice type vs)) (hv : vs[i]? = some v) :
    Denotes rt call ((levelName "i" level, .int i) :: scope) (level + 1)
      (.index e (.name (levelName "i" level))) v := by
  have hlevel : AllInner level [(levelName "i" level, Value.int i)] :=
    allInner_nil.cons (isInner_levelName rfl level)
  have hindex : Denotes rt call ((levelName "i" level, .int i) :: scope) (level + 1)
      (.name (levelName "i" level)) (.int i) :=
    denotes_name (not_isInner_levelName rfl (Nat.lt_succ_self level)) List.lookup_cons_self
  exact (h.declare hlevel).index hindex hv

section calls

variable {decls : List Decl} {depth : Nat} {name type : String} (args : List Value)
  {signature : Signature} {body : List Stmt} {result : Option Value}

/-- A method runs its body. -/
theorem callWithin_method
    (hfind : decls.find? (·.answers (some v) name args.length) =
      some (.method x type signature body))
    (hbody : execAll rt (callWithin rt decls depth) body
      ⟨(x, v) :: (signature.params.map Prod.fst).zip args, .empty⟩ = some (st, result)) :
    callWithin rt decls (depth + 1) (some v) name args =
      some ⟨result, st.scope.lookup x, st.written⟩ := by
  simp only [callWithin, hfind, Option.bind_some, Decl.apply, hbody, Option.map_some]

theorem callWithin_function
    (hfind : decls.find? (·.answers none name args.length) = some (.function signature body))
    (hbody : execAll rt (callWithin rt decls depth) body
      ⟨(signature.params.map Prod.fst).zip args, .empty⟩ = some (st, result)) :
    callWithin rt decls (depth + 1) none name args = some ⟨result, none, st.written⟩ := by
  simp only [callWithin, hfind, Option.bind_some, Decl.apply, hbody, Option.map_some]

/-- A call that ends with so many calls inside each other, and with any more. -/
theorem ends_of_callWithin {receiver : Option Value} {o : Outcome} (least : Nat)
    (h : ∀ depth, callWithin rt decls (depth + least) receiver name args = some o) :
    Ends rt decls receiver name args o :=
  ⟨least, fun more => Nat.add_comm more least ▸ h more⟩

end calls

end SchemaForge.Go
