import SchemaForge.Go.Hash
import SchemaForge.Proofs.Go.Inhabits
import SchemaForge.Proofs.Literal
/-! Hashing: what code writes for the values of a class. -/
namespace SchemaForge.Go

variable {rt : Runtime} {call : Callee} {numbers : Float64 → Prop} {classes : List Class}
  {c : Class} {f : Field} {type : ValueType} {title : String} {v w x y : Value} {vs : List Value}
  {scope : Scope} {written : ByteArray} {e : Expr} {level : Nat}

section text

variable (rt : Runtime) (classes : List Class)

mutual

/-- What is written for a value. -/
def hashText : Value → List Char
  | .string s => (Json.quote s).toList
  | .int64 n => (Decimal.intText n.toInt).toList
  | .bool b => if b then "true".toList else "false".toList
  | .float64 x => (rt.formatFloat x).toList
  | .slice _ vs => '[' :: itemsText 0 vs ++ [']']
  | .struct type fields => membersText (fieldsOf classes type) fields
  | .present v => hashText v
  | .absent => ['-']
  | _ => []

/-- What is written for items, from an index on. -/
def itemsText (i : Nat) : List Value → List Char
  | [] => []
  | v :: vs => (if 0 < i then [','] else []) ++ hashText v ++ itemsText (i + 1) vs

/-- What is written for fields. -/
def membersText : List Field → List (String × Value) → List Char
  | f :: fields, (_, v) :: rest =>
    (Json.quote f.name ++ ":").toList ++ hashText v ++ ',' :: membersText fields rest
  | _, _ => []

end

end text

section bytes

def bytesOf (cs : List Char) : ByteArray := (String.ofList cs).toByteArray

theorem bytesOf_append (cs ds : List Char) : bytesOf (cs ++ ds) = bytesOf cs ++ bytesOf ds := by
  simp [bytesOf]

theorem bytesOf_inj {cs ds : List Char} (h : bytesOf cs = bytesOf ds) : cs = ds := by
  have htext := congrArg String.toList (String.toByteArray_inj.1 h)
  rwa [String.toList_ofList, String.toList_ofList] at htext

end bytes

section running

/-- Writing a text adds its bytes. -/
theorem exec_writeBytes {s : String} (hw : scope.lookup "w" = some .writer)
    (he : eval rt call scope e = some (.string s)) :
    exec rt call (writeBytes e) ⟨scope, written⟩ = some (⟨scope, written ++ s.toByteArray⟩, none) := by
  have hwriter : eval rt call scope (.name "w") = some .writer := by simp [eval, hw]
  have hbytes : eval rt call scope (.convert (.slice (.named "byte")) e) =
      some (.bytes s.toByteArray) := by simp [eval, he, Runtime.convert]
  simp [writeBytes, Expr.send, exec, perform, State.withValue, hwriter, evalAll, hbytes]

theorem exec_writeText {s : String} (hw : scope.lookup "w" = some .writer) :
    exec rt call (writeBytes (.text s)) ⟨scope, written⟩ =
      some (⟨scope, written ++ s.toByteArray⟩, none) :=
  exec_writeBytes hw (by rw [eval])

theorem exec_writeLiteral {kind text : String} (hw : scope.lookup "w" = some .writer)
    (he : eval rt call scope e = some v)
    (hliteral : rt.imported .attributes kind [v] = some (.literal text)) :
    exec rt call (writeLiteral kind e) ⟨scope, written⟩ =
      some (⟨scope, written ++ text.toByteArray⟩, none) := by
  apply exec_writeBytes hw
  simp [Expr.send, eval, evalAll, he, hliteral, Runtime.method]

/-- Items but for the first have a comma in front. -/
theorem exec_separator {i : String} {k : Nat} (hw : scope.lookup "w" = some .writer)
    (hi : scope.lookup i = some (.int k)) :
    exec rt call (.cond (.binary .greater (.name i) (.number 0)) [writeBytes (.text ",")])
        ⟨scope, written⟩ =
      some (⟨scope, written ++ bytesOf (if 0 < k then [','] else [])⟩, none) := by
  have htest : eval rt call scope (.binary .greater (.name i) (.number 0)) =
      some (.bool (decide (0 < k))) := by
    simp [eval, hi, compareValue?]
  by_cases hk : 0 < k
  · have hcomma : execAll rt call [writeBytes (.text ",")] ⟨[] ++ scope, written⟩ =
        some (⟨[] ++ scope, written ++ ",".toByteArray⟩, none) :=
      execAll_single (exec_writeText hw)
    simp only [exec, State.branch, State.withValue, htest, hk, decide_true, Option.bind_some, if_true]
    exact inBlock_of [] hcomma rfl
  · simp [exec, State.branch, State.withValue, htest, hk, bytesOf]

/-- A loop over items writes them one after another. -/
theorem iterate_items {body : Nat → State → Step} {i : Nat}
    (hbody : ∀ k v written, vs[k]? = some v → body (i + k) ⟨scope, written⟩ =
      some (⟨scope, written ++ bytesOf ((if 0 < i + k then [','] else []) ++ hashText rt classes v)⟩,
        none)) :
    iterate body i vs.length ⟨scope, written⟩ =
      some (⟨scope, written ++ bytesOf (itemsText rt classes i vs)⟩, none) := by
  induction vs generalizing i written with
  | nil => simp [iterate, itemsText, bytesOf]
  | cons v vs ih =>
    have hfirst := hbody 0 v written rfl
    have hrest (written : ByteArray) : iterate body (i + 1) vs.length ⟨scope, written⟩ =
        some (⟨scope, written ++ bytesOf (itemsText rt classes (i + 1) vs)⟩, none) := by
      apply ih
      intro k w written hw
      have := hbody (k + 1) w written (by simpa using hw)
      rwa [show i + (k + 1) = i + 1 + k by omega] at this
    rw [Nat.add_zero] at hfirst
    rw [List.length_cons, iterate, hfirst, Step.next_go, hrest, itemsText,
      bytesOf_append _ (itemsText _ _ _ _), ByteArray.append_assoc]

/-- Objects that are no larger than a value write their hashes. -/
def HashesUpTo (rt : Runtime) (call : Callee) (numbers : Float64 → Prop) (classes : List Class)
    (size : Nat) : Prop :=
  ∀ title w, Inhabits numbers classes (.object title) w → sizeOf w ≤ size →
    call (some w) "Hash" [.writer] = some ⟨none, some w, bytesOf (hashText rt classes w)⟩

theorem HashesUpTo.mono {m n : Nat} (h : HashesUpTo rt call numbers classes n) (hmn : m ≤ n) :
    HashesUpTo rt call numbers classes m :=
  fun title w hw hsize => h title w hw (hsize.trans hmn)

/-- Code for a type writes the text of a value. -/
theorem execAll_hashValue (hv : Inhabits numbers classes type v)
    (hcalls : HashesUpTo rt call numbers classes (sizeOf v))
    (hw : scope.lookup "w" = some .writer) (he : Denotes rt call scope level e v) :
    execAll rt call (hashValue e level type) ⟨scope, written⟩ =
      some (⟨scope, written ++ bytesOf (hashText rt classes v)⟩, none) := by
  induction type generalizing v scope level e written with
  | string =>
    cases hv with
    | string s =>
      have hliteral : rt.imported .attributes "StringLiteral" [.string s] =
          some (.literal (Json.quote s)) := rfl
      rw [hashValue, execAll_single (exec_writeLiteral hw he.eval hliteral)]
      simp [hashText, bytesOf]
  | integer =>
    cases hv with
    | integer n =>
      have hliteral : rt.imported .attributes "IntegerLiteral" [.int64 n] =
          some (.literal (Decimal.intText n.toInt)) := rfl
      rw [hashValue, execAll_single (exec_writeLiteral hw he.eval hliteral)]
      simp [hashText, bytesOf]
  | number =>
    cases hv with
    | number x hx =>
      have hformat : eval rt call scope (.call (.imported .strconv "FormatFloat")
          [e, .letter 'g', .number (-1), .number 64]) = some (.string (rt.formatFloat x)) := by
        simp [eval, evalAll, he.eval, Runtime.imported]
      rw [hashValue, execAll_single (exec_writeBytes hw hformat)]
      simp [hashText, bytesOf]
  | boolean =>
    cases hv with
    | boolean b =>
      have hliteral : rt.imported .attributes "BoolLiteral" [.bool b] =
          some (.literal (if b then "true" else "false")) := rfl
      rw [hashValue, execAll_single (exec_writeLiteral hw he.eval hliteral)]
      cases b <;> simp [hashText, bytesOf]
  | list items ih =>
    cases hv with
    | @list _ vs hvs =>
      let i := levelName "i" level
      have hbody : ∀ k w written, vs[k]? = some w →
          inBlock [(i, .int (0 + k : Nat))]
            (execAll rt call (.cond (.binary .greater (.name i) (.number 0))
              [writeBytes (.text ",")] :: hashValue (.index e (.name i)) (level + 1) items))
            ⟨scope, written⟩ =
          some (⟨scope, written ++
            bytesOf ((if 0 < 0 + k then [','] else []) ++ hashText rt classes w)⟩, none) := by
        intro k w written hk
        have hmem : w ∈ vs := List.mem_of_getElem? hk
        have hwriter : ((i, .int (0 + k : Nat)) :: scope).lookup "w" = some .writer := by
          rw [lookup_cons_ne (ne_levelName (by decide) "i" level), hw]
        have hitem : execAll rt call (hashValue (.index e (.name i)) (level + 1) items)
              ⟨(i, .int (0 + k : Nat)) :: scope, written ++ bytesOf (if 0 < 0 + k then [','] else [])⟩ =
            some (⟨(i, .int (0 + k : Nat)) :: scope,
              written ++ bytesOf (if 0 < 0 + k then [','] else []) ++
                bytesOf (hashText rt classes w)⟩, none) :=
          ih (hvs w hmem) (hcalls.mono (sizeOf_item hmem).le) hwriter
            (he.item (by simpa using hk))
        apply inBlock_of [(i, .int (0 + k : Nat))]
        · rw [List.singleton_append, execAll_cons (exec_separator hwriter List.lookup_cons_self),
            hitem, ByteArray.append_assoc, bytesOf_append]
        · rfl
      have hloop : exec rt call (.loop i e (.cond (.binary .greater (.name i) (.number 0))
              [writeBytes (.text ",")] :: hashValue (.index e (.name i)) (level + 1) items))
            ⟨scope, written ++ "[".toByteArray⟩ =
          some (⟨scope, written ++ "[".toByteArray ++ bytesOf (itemsText rt classes 0 vs)⟩, none) := by
        simp only [exec, State.withValue, he.eval, Option.bind_some]
        exact iterate_items hbody
      rw [hashValue, execAll_cons (exec_writeText hw), execAll_cons hloop,
        execAll_single (exec_writeText hw)]
      have htext : hashText rt classes (.slice items.goType vs) =
          "[".toList ++ itemsText rt classes 0 vs ++ "]".toList := by
        rw [hashText]
        rfl
      rw [htext, bytesOf_append, bytesOf_append, ← ByteArray.append_assoc, ← ByteArray.append_assoc]
      simp [bytesOf]
  | object title =>
    have hcall := hcalls title v hv (Nat.le_refl _)
    cases hv with
    | @object _ c vs hc hvs =>
      have hwriter : evalAll rt call scope [.name "w"] = some [.writer] := by
        simp [evalAll, eval, hw]
      rw [hashValue]
      exact execAll_single (exec_send he.eval hwriter hcall rfl)

/-- Code for a field writes its name and its text. -/
theorem execAll_hashField {names : List (String × Value)}
    (hv : Slot (Inhabits numbers classes) f v)
    (hcalls : HashesUpTo rt call numbers classes (sizeOf v)) {type : String}
    (hw : scope.lookup "w" = some .writer) (hmy : scope.lookup "my" = some (.struct type names))
    (hfield : names.lookup f.privateName = some v) :
    execAll rt call (hashField f) ⟨scope, written⟩ =
      some (⟨scope, written ++
        bytesOf ((Json.quote f.name ++ ":").toList ++ hashText rt classes v ++ [','])⟩, none) := by
  have hown : Denotes rt call scope 0 (Class.own f) v := by
    apply Denotes.field (denotes_name (not_isInner (by decide)) hmy) hfield
  have hvalue : execAll rt call
      (if f.optional then
        [.condElse ((Class.own f).send "IsSome" [])
          (.define ["h"] (Class.contents (Class.own f)) :: hashValue (.name "h") 0 f.type)
          [writeBytes (.text "-")]]
      else hashValue (Class.own f) 0 f.type)
      ⟨scope, written ++ (Json.quote f.name ++ ":").toByteArray⟩ =
      some (⟨scope, written ++ (Json.quote f.name ++ ":").toByteArray ++
        bytesOf (hashText rt classes v)⟩, none) := by
    cases hv with
    | required hv =>
      simp only [Bool.false_eq_true, if_false]
      exact execAll_hashValue hv hcalls hw hown
    | @present name type default w hw' =>
      let f : Field := ⟨name, type, true, default⟩
      have hbody : execAll rt call
          (.define ["h"] (Class.contents (Class.own f)) :: hashValue (.name "h") 0 f.type)
          ⟨[] ++ scope, written ++ (Json.quote f.name ++ ":").toByteArray⟩ =
          some (⟨[("h", w)] ++ scope, written ++ (Json.quote f.name ++ ":").toByteArray ++
            bytesOf (hashText rt classes w)⟩, none) := by
        have hsize : sizeOf w ≤ sizeOf (Value.present w) := by simp
        have hwriter : (("h", w) :: scope).lookup "w" = some .writer := by
          rw [lookup_cons_ne (by decide), hw]
        have hname : Denotes rt call (("h", w) :: scope) 0 (.name "h") w :=
          denotes_name (not_isInner (by decide)) List.lookup_cons_self
        rw [List.nil_append, execAll_cons (exec_define_contents hown.eval)]
        exact execAll_hashValue hw' (hcalls.mono hsize) hwriter hname
      have htext : hashText rt classes (.present w) = hashText rt classes w := by rw [hashText]
      rw [if_pos rfl, htext]
      apply execAll_single
      simp only [exec, State.branch, State.withValue, eval_isSome hown.eval, Option.bind_some]
      exact inBlock_of _ hbody rfl
    | @absent name type default =>
      let f : Field := ⟨name, type, true, default⟩
      have hbody : execAll rt call [writeBytes (.text "-")]
          ⟨[] ++ scope, written ++ (Json.quote f.name ++ ":").toByteArray⟩ =
          some (⟨[] ++ scope, written ++ (Json.quote f.name ++ ":").toByteArray ++
            "-".toByteArray⟩, none) :=
        execAll_single (exec_writeText hw)
      have htext : bytesOf (hashText rt classes .absent) = "-".toByteArray := by rw [hashText]; rfl
      rw [if_pos rfl, htext]
      apply execAll_single
      simp only [exec, State.branch, State.withValue, eval_isSome_absent hown.eval, Option.bind_some]
      exact inBlock_of _ hbody rfl
  rw [hashField, List.cons_append, execAll_cons (exec_writeText hw), execAll_append, hvalue, Step.next_go,
    execAll_single (exec_writeText hw), bytesOf_append, bytesOf_append]
  simp [bytesOf, ByteArray.append_assoc]

/-- Code for all fields writes them one after another. -/
theorem execAll_hashFields {fields : List Field} {names : List (String × Value)} {type : String}
    (hvs : List.Forall₂ (Slot (Inhabits numbers classes)) fields vs)
    (hcalls : ∀ v ∈ vs, HashesUpTo rt call numbers classes (sizeOf v))
    (hw : scope.lookup "w" = some .writer) (hmy : scope.lookup "my" = some (.struct type names))
    (hnames : ∀ f v, (f, v) ∈ fields.zip vs → names.lookup f.privateName = some v) :
    execAll rt call (fields.flatMap hashField) ⟨scope, written⟩ =
      some (⟨scope, written ++ bytesOf
        (membersText rt classes fields ((fields.map Field.privateName).zip vs))⟩, none) := by
  induction hvs generalizing written with
  | nil => simp [execAll, membersText, bytesOf]
  | @cons f v fields vs hv hvs ih =>
    have hfirst (written : ByteArray) : execAll rt call (hashField f) ⟨scope, written⟩ =
        some (⟨scope, written ++
          bytesOf ((Json.quote f.name ++ ":").toList ++ hashText rt classes v ++ [','])⟩, none) :=
      execAll_hashField hv (hcalls v List.mem_cons_self) hw hmy (hnames f v List.mem_cons_self)
    have hrest (written : ByteArray) : execAll rt call (fields.flatMap hashField)
          ⟨scope, written⟩ = some (⟨scope, written ++ bytesOf
            (membersText rt classes fields ((fields.map Field.privateName).zip vs))⟩, none) :=
      ih (fun w hw => hcalls w (List.mem_cons_of_mem _ hw))
        (fun f v hmem => hnames f v (List.mem_cons_of_mem _ hmem))
    rw [List.flatMap_cons, execAll_append, hfirst, Step.next_go, hrest, List.map_cons,
      List.zip_cons_cons, membersText, ByteArray.append_assoc, ← bytesOf_append]
    simp only [List.append_assoc, List.singleton_append]

/-- The implementations of `Hash`. -/
def hashDecls (classes : List Class) : List Decl := classes.flatMap fun c => [c.hashDecl]

theorem find?_hash (hc : classOf classes title = some c) (vs : List Value) :
    (hashDecls classes).find? (·.answers (some (c.object vs)) "Hash" 1) =
      some (.method "my" c.implName Class.hashSignature (c.fields.flatMap hashField)) := by
  apply find?_of_classOf hc
  · simp [Class.hashDecl, Class.implMethod, Decl.answers, Class.object, Class.hashSignature]
  · intro c' hne
    simp [Class.hashDecl, Class.implMethod, Decl.answers, Class.object, Ne.symm hne]

/-- Calls as deep as an object is large write its hash. -/
theorem hashesUpTo_callWithin {g : Graph} {root : NodeId} (h : Accepted g root classes)
    (depth : Nat) : HashesUpTo rt (callWithin rt (hashDecls classes) depth) numbers classes depth := by
  induction depth with
  | zero =>
    intro title w hw hsize
    cases hw
    simp [Class.object] at hsize
  | succ depth ih =>
    intro title w hw hsize
    cases hw with
    | @object _ c vs hc hvs =>
      have hmember : ∀ v ∈ vs, HashesUpTo rt (callWithin rt (hashDecls classes) depth) numbers
          classes (sizeOf v) := by
        intro v hv
        have := sizeOf_member hv hvs.length_eq
        exact ih.mono (by omega)
      have hnames : ∀ f v, (f, v) ∈ c.fields.zip vs →
          ((c.fields.map Field.privateName).zip vs).lookup f.privateName = some v :=
        fun f v hmem => lookup_object (h.nodup_privateNames (mem_of_classOf hc)) hmem
      have htext : hashText rt classes (c.object vs) =
          membersText rt classes c.fields ((c.fields.map Field.privateName).zip vs) := by
        rw [Class.object, hashText, fieldsOf_classOf hc]
      have hbody : execAll rt (callWithin rt (hashDecls classes) depth)
          (c.fields.flatMap hashField) ⟨[("my", c.object vs), ("w", .writer)], .empty⟩ =
          some (⟨[("my", c.object vs), ("w", .writer)],
            bytesOf (hashText rt classes (c.object vs))⟩, none) := by
        rw [execAll_hashFields hvs hmember rfl rfl hnames, htext, ByteArray.empty_append]
      exact callWithin_method [.writer] (find?_hash hc vs) hbody

end running

end SchemaForge.Go
