import SchemaForge.Proofs.Go.Hashing
/-! What is written for a value can be read back, so that hashes tell values apart. -/
namespace SchemaForge.Go

variable {rt : Runtime} {numbers : Float64 → Prop} {classes : List Class} {c : Class} {f : Field}
  {type : ValueType} {title : String} {v w x y : Value} {g : Graph} {root : NodeId}

/-- What is asked of the runtime: it prints numbers of a kind as texts that tell them apart, that
are neither empty nor a lone `-`, and that have no mark of a list in them. -/
structure PrintsApart (rt : Runtime) (numbers : Float64 → Prop) : Prop where
  inj : ∀ x y, numbers x → numbers y → rt.formatFloat x = rt.formatFloat y → x = y
  nonempty : ∀ x, numbers x → rt.formatFloat x ≠ ""
  ne_dash : ∀ x, numbers x → rt.formatFloat x ≠ "-"
  no_comma : ∀ x, numbers x → ',' ∉ (rt.formatFloat x).toList
  no_bracket : ∀ x, numbers x → ']' ∉ (rt.formatFloat x).toList

/-- A mark that ends a number. -/
def isStop (c : Char) : Bool := c == ',' || c == ']'

/-- What may come after a value. -/
def Stops (rest : List Char) : Prop := ∃ c cs, rest = c :: cs ∧ isStop c = true

theorem stops_comma (rest : List Char) : Stops (',' :: rest) := ⟨',', rest, rfl, rfl⟩

/-- Texts without marks end at the first mark. -/
theorem append_inj_of_stops {s t rest rest' : List Char} (hs : ∀ c ∈ s, isStop c = false)
    (ht : ∀ c ∈ t, isStop c = false) (hrest : Stops rest) (hrest' : Stops rest')
    (h : s ++ rest = t ++ rest') : s = t ∧ rest = rest' := by
  obtain ⟨c, cs, rfl, hc⟩ := hrest
  obtain ⟨d, ds, rfl, hd⟩ := hrest'
  induction s generalizing t with
  | nil =>
    cases t with
    | nil => exact ⟨rfl, h⟩
    | cons b t =>
      have := ht b List.mem_cons_self
      have hcb : c = b := (List.cons.inj h).1
      rw [hcb, this] at hc
      cases hc
  | cons a s ih =>
    cases t with
    | nil =>
      have := hs a List.mem_cons_self
      have had : a = d := (List.cons.inj h).1
      rw [← had, this] at hd
      cases hd
    | cons b t =>
      obtain ⟨hab, h⟩ := List.cons.inj h
      obtain ⟨hst, hrest⟩ := ih (fun c hc => hs c (List.mem_cons_of_mem _ hc))
        (fun c hc => ht c (List.mem_cons_of_mem _ hc)) h
      exact ⟨by rw [hab, hst], hrest⟩

/-- A value of a type can be told from what is written for it and what follows. -/
def ReadsBack (rt : Runtime) (numbers : Float64 → Prop) (classes : List Class) (type : ValueType)
    (v : Value) : Prop :=
  ∀ w rest rest', Inhabits numbers classes type w → Stops rest → Stops rest' →
    hashText rt classes v ++ rest = hashText rt classes w ++ rest' → v = w ∧ rest = rest'

/-- How a text starts: with a mark that no number has, or it is that of a number. -/
def Starts (s : List Char) : Prop :=
  (∃ c cs, s = c :: cs ∧ (c = '"' ∨ c = '[')) ∨ (s ≠ [] ∧ s ≠ ['-'] ∧ ∀ c ∈ s, isStop c = false)

theorem Starts.ne_bracket {s : List Char} (h : Starts s) : ∃ c cs, s = c :: cs ∧ c ≠ ']' := by
  rcases h with ⟨c, cs, rfl, hc⟩ | ⟨hne, -, hstop⟩
  · refine ⟨c, cs, rfl, ?_⟩
    rcases hc with rfl | rfl <;> decide
  · obtain ⟨c, cs, rfl⟩ := List.exists_cons_of_ne_nil hne
    refine ⟨c, cs, rfl, ?_⟩
    rintro rfl
    exact absurd (hstop ']' List.mem_cons_self) (by decide)

/-- Nothing starts as the mark of an absent value does. -/
theorem Starts.ne_dash {s rest rest' : List Char} (h : Starts s) (hrest : Stops rest)
    (hrest' : Stops rest') : s ++ rest ≠ ['-'] ++ rest' := by
  intro heq
  rcases h with ⟨c, cs, rfl, hc⟩ | ⟨-, hdash, hstop⟩
  · have hcdash : c = '-' := (List.cons.inj heq).1
    rcases hc with rfl | rfl <;> exact absurd hcdash (by decide)
  · have hlone : ∀ c ∈ ['-'], isStop c = false := by simp [isStop]
    exact hdash (append_inj_of_stops hstop hlone hrest hrest' heq).1

theorem no_stops_intText (i : Int) : ∀ c ∈ (Decimal.intText i).toList, isStop c = false := by
  intro c hc
  rcases Decimal.mem_intText hc with rfl | hdigit
  · rfl
  · by_cases hstop : isStop c = true
    · simp only [isStop, Bool.or_eq_true, beq_iff_eq] at hstop
      rcases hstop with rfl | rfl <;> exact absurd hdigit (by decide)
    · simpa using hstop

theorem no_stops_formatFloat (hrt : PrintsApart rt numbers) {a : Float64} (ha : numbers a) :
    ∀ c ∈ (rt.formatFloat a).toList, isStop c = false := by
  intro c hc
  have hcomma : c ≠ ',' := by
    rintro rfl
    exact hrt.no_comma a ha hc
  have hbracket : c ≠ ']' := by
    rintro rfl
    exact hrt.no_bracket a ha hc
  simp [isStop, hcomma, hbracket]

theorem no_stops_bool (b : Bool) :
    ∀ c ∈ (if b then "true".toList else "false".toList), isStop c = false := by
  cases b <;> simp [isStop]

theorem toList_ne {s : String} {cs : List Char} (h : s ≠ String.ofList cs) : s.toList ≠ cs := by
  intro heq
  rw [← heq, String.ofList_toList] at h
  exact h rfl

theorem starts_quote (s : String) (rest : List Char) : Starts ((Json.quote s).toList ++ rest) := by
  refine Or.inl ⟨'"', (s.toList.flatMap Json.escape ++ ['"']) ++ rest, ?_, Or.inl rfl⟩
  simp [Json.quote, Json.quoteChars]

theorem starts_hashText (hrt : PrintsApart rt numbers) (hv : Inhabits numbers classes type v)
    (hpopulated : Populated classes type) : Starts (hashText rt classes v) := by
  cases hv with
  | string s =>
    have := starts_quote s []
    rwa [List.append_nil] at this
  | integer n =>
    have hdigits := Decimal.digits_ne_nil n.toInt.natAbs
    refine Or.inr ⟨?_, ?_, no_stops_intText n.toInt⟩
    · rw [hashText, Decimal.toList_intText]
      split <;> simp [hdigits]
    · rw [hashText, Decimal.toList_intText]
      split
      · simp [hdigits]
      · intro heq
        have : '-' ∈ Decimal.digits n.toInt.natAbs := heq ▸ List.mem_singleton_self _
        exact absurd (Decimal.isDigit_of_mem_digits this) (by decide)
  | number a ha =>
    rw [hashText]
    exact Or.inr ⟨toList_ne (hrt.nonempty a ha), toList_ne (hrt.ne_dash a ha),
      no_stops_formatFloat hrt ha⟩
  | boolean b =>
    rw [hashText]
    refine Or.inr ⟨?_, ?_, no_stops_bool b⟩ <;> cases b <;> decide
  | list hvs =>
    rw [hashText]
    exact Or.inl ⟨'[', _, rfl, Or.inr rfl⟩
  | @object title c vs hc hvs =>
    obtain ⟨c', hc', hfields⟩ := hpopulated title rfl
    rw [hc] at hc'
    cases hc'
    rw [Class.object, hashText, fieldsOf_classOf hc]
    obtain ⟨f, fields, hcons⟩ := List.exists_cons_of_ne_nil hfields
    rw [hcons] at hvs ⊢
    cases vs with
    | nil => cases hvs
    | cons v vs =>
      rw [List.map_cons, List.zip_cons_cons, membersText, String.toList_append]
      simp only [List.append_assoc]
      exact starts_quote f.name _

theorem stops_items {i : Nat} (hi : 0 < i) (vs : List Value) (rest : List Char) :
    Stops (itemsText rt classes i vs ++ ']' :: rest) := by
  cases vs with
  | nil => exact ⟨']', rest, by rw [itemsText, List.nil_append], rfl⟩
  | cons v vs =>
    rw [itemsText, if_pos hi]
    simp only [List.cons_append]
    exact stops_comma _

/-- There is nothing where the items end. -/
theorem itemsText_cons_ne {i : Nat} {rest rest' : List Char}
    (hv : Starts (hashText rt classes v)) :
    itemsText rt classes i (v :: vs) ++ rest ≠ ']' :: rest' := by
  intro h
  rw [itemsText] at h
  by_cases hi : 0 < i
  · simp [hi] at h
  · obtain ⟨c, cs, hc, hne⟩ := hv.ne_bracket
    rw [if_neg hi, hc] at h
    exact hne (List.cons.inj h).1

/-- Items read back one after another. -/
theorem itemsText_inj {items : ValueType} {vs ws : List Value} {i : Nat} {rest rest' : List Char}
    (hstarts : ∀ v, Inhabits numbers classes items v → Starts (hashText rt classes v))
    (hvs : ∀ v ∈ vs, Inhabits numbers classes items v ∧ ReadsBack rt numbers classes items v)
    (hws : ∀ w ∈ ws, Inhabits numbers classes items w)
    (h : itemsText rt classes i vs ++ ']' :: rest = itemsText rt classes i ws ++ ']' :: rest') :
    vs = ws ∧ rest = rest' := by
  induction vs generalizing ws i with
  | nil =>
    cases ws with
    | nil => exact ⟨rfl, (List.cons.inj h).2⟩
    | cons w ws =>
      have hw := hstarts w (hws w List.mem_cons_self)
      exact absurd h.symm (itemsText_cons_ne hw)
  | cons v vs ih =>
    obtain ⟨⟨hv, hread⟩, hvs⟩ := List.forall_mem_cons.1 hvs
    cases ws with
    | nil => exact absurd h (itemsText_cons_ne (hstarts v hv))
    | cons w ws =>
      obtain ⟨hw, hws⟩ := List.forall_mem_cons.1 hws
      rw [itemsText, itemsText] at h
      simp only [List.append_assoc, List.append_cancel_left_eq] at h
      obtain ⟨hvw, hrest⟩ := hread w _ _ hw (stops_items (Nat.succ_pos i) _ _)
        (stops_items (Nat.succ_pos i) _ _) h
      obtain ⟨hlist, hrest⟩ := ih hvs hws hrest
      exact ⟨by rw [hvw, hlist], hrest⟩

/-- What is written for a field reads back, be its value there or not. -/
theorem slot_inj {rest rest' : List Char} (hrt : PrintsApart rt numbers)
    (hpopulated : Populated classes f.type)
    (hv : Slot (fun t v => Inhabits numbers classes t v ∧ ReadsBack rt numbers classes t v) f v)
    (hw : Slot (Inhabits numbers classes) f w) (hrest : Stops rest) (hrest' : Stops rest')
    (h : hashText rt classes v ++ rest = hashText rt classes w ++ rest') :
    v = w ∧ rest = rest' := by
  cases hv with
  | required hv =>
    cases hw with
    | required hw => exact hv.2 w rest rest' hw hrest hrest' h
  | @present _ _ _ v hv =>
    rw [hashText] at h
    cases hw with
    | @present _ _ _ w hw =>
      rw [hashText] at h
      obtain ⟨rfl, hrest⟩ := hv.2 w rest rest' hw hrest hrest' h
      exact ⟨rfl, hrest⟩
    | absent =>
      rw [hashText] at h
      exact absurd h ((starts_hashText hrt hv.1 hpopulated).ne_dash hrest hrest')
  | absent =>
    rw [hashText] at h
    cases hw with
    | @present _ _ _ w hw =>
      rw [hashText] at h
      exact absurd h.symm ((starts_hashText hrt hw hpopulated).ne_dash hrest' hrest)
    | absent =>
      rw [hashText] at h
      exact ⟨rfl, List.append_cancel_left h⟩

/-- Fields read back one after another, whatever follows. -/
theorem membersText_inj (hrt : PrintsApart rt numbers) {fields : List Field}
    (hpopulated : ∀ f ∈ fields, Populated classes f.type)
    {vs ws : List Value} {rest rest' : List Char}
    (hvs : List.Forall₂
      (Slot fun t v => Inhabits numbers classes t v ∧ ReadsBack rt numbers classes t v) fields vs)
    (hws : List.Forall₂ (Slot (Inhabits numbers classes)) fields ws)
    (h : membersText rt classes fields ((fields.map Field.privateName).zip vs) ++ rest =
      membersText rt classes fields ((fields.map Field.privateName).zip ws) ++ rest') :
    vs = ws ∧ rest = rest' := by
  induction hvs generalizing ws with
  | nil =>
    cases hws
    exact ⟨rfl, h⟩
  | @cons f v fields vs hv hvs ih =>
    obtain ⟨hf, hfields⟩ := List.forall_mem_cons.1 hpopulated
    obtain ⟨w, ws, hw, hws', rfl⟩ := List.forall₂_cons_left_iff.1 hws
    rw [List.map_cons, List.zip_cons_cons, List.zip_cons_cons, membersText, membersText] at h
    simp only [List.append_assoc, List.cons_append, List.append_cancel_left_eq] at h
    obtain ⟨hvw, hrest⟩ := slot_inj hrt hf hv hw (stops_comma _) (stops_comma _) h
    obtain ⟨hlist, hrest⟩ := ih hfields hws' (List.cons.inj hrest).2
    exact ⟨by rw [hvw, hlist], hrest⟩

/-- Objects read back, whatever follows, where their members do. -/
theorem object_inj (h : Accepted g root classes) (hrt : PrintsApart rt numbers)
    (hc : classOf classes title = some c)
    (hvs : List.Forall₂
      (Slot fun t v => Inhabits numbers classes t v ∧
        (Populated classes t → ReadsBack rt numbers classes t v)) c.fields vs)
    (hw : Inhabits numbers classes (.object title) w) {rest rest' : List Char}
    (heq : hashText rt classes (c.object vs) ++ rest = hashText rt classes w ++ rest') :
    c.object vs = w ∧ rest = rest' := by
  cases hw with
  | @object _ c' ws hc' hws =>
    rw [hc] at hc'
    cases hc'
    have hpopulated := h.populated (mem_of_classOf hc)
    have hread : List.Forall₂ (Slot fun t v => Inhabits numbers classes t v ∧
        ReadsBack rt numbers classes t v) c.fields vs := by
      rw [List.forall₂_iff_zip] at hvs ⊢
      refine ⟨hvs.1, fun {f v} hmem => ?_⟩
      have hf : Populated classes f.type := hpopulated f (List.of_mem_zip hmem).1
      cases hvs.2 hmem with
      | required hv => exact .required ⟨hv.1, hv.2 hf⟩
      | present hv => exact .present ⟨hv.1, hv.2 hf⟩
      | absent => exact .absent
    rw [Class.object, Class.object, hashText, hashText, fieldsOf_classOf hc] at heq
    obtain ⟨hlist, hrest⟩ := membersText_inj hrt hpopulated hread hws heq
    exact ⟨by rw [hlist], hrest⟩

theorem readsBack (h : Accepted g root classes) (hrt : PrintsApart rt numbers)
    (hv : Inhabits numbers classes type v) :
    Populated classes type → ReadsBack rt numbers classes type v := by
  refine Inhabits.induct
    (motive := fun t v => Populated classes t → ReadsBack rt numbers classes t v)
    ?string ?integer ?number ?boolean ?list ?object hv
  case string =>
    intro s _ w rest rest' hw hrest hrest' heq
    cases hw with
    | string t =>
      simp only [hashText, Json.quote, String.toList_ofList] at heq
      obtain ⟨hst, hrest⟩ := Json.quoteChars_append_inj heq
      exact ⟨by rw [String.toList_inj.1 hst], hrest⟩
  case integer =>
    intro m _ w rest rest' hw hrest hrest' heq
    cases hw with
    | integer n =>
      rw [hashText, hashText] at heq
      obtain ⟨hmn, hrest⟩ :=
        append_inj_of_stops (no_stops_intText _) (no_stops_intText _) hrest hrest' heq
      exact ⟨by rw [Int64.toInt_inj.1 (Decimal.intText_inj hmn)], hrest⟩
  case number =>
    intro a ha _ w rest rest' hw hrest hrest' heq
    cases hw with
    | number b hb =>
      rw [hashText, hashText] at heq
      obtain ⟨hab, hrest⟩ := append_inj_of_stops (no_stops_formatFloat hrt ha)
        (no_stops_formatFloat hrt hb) hrest hrest' heq
      exact ⟨by rw [hrt.inj a b ha hb (String.toList_inj.1 hab)], hrest⟩
  case boolean =>
    intro a _ w rest rest' hw hrest hrest' heq
    cases hw with
    | boolean b =>
      rw [hashText, hashText] at heq
      obtain ⟨hab, hrest⟩ :=
        append_inj_of_stops (no_stops_bool a) (no_stops_bool b) hrest hrest' heq
      refine ⟨?_, hrest⟩
      cases a <;> cases b <;> first | rfl | exact absurd hab (by decide)
  case list =>
    intro items vs hvs hpopulated w rest rest' hw hrest hrest' heq
    cases hw with
    | @list _ ws hws =>
      rw [hashText, hashText] at heq
      simp only [List.cons_append, List.append_assoc, List.nil_append, List.cons.injEq,
        true_and] at heq
      have hread : ∀ v ∈ vs, Inhabits numbers classes items v ∧
          ReadsBack rt numbers classes items v :=
        fun v hmem => ⟨(hvs v hmem).1, (hvs v hmem).2 hpopulated⟩
      have hstarts : ∀ v, Inhabits numbers classes items v → Starts (hashText rt classes v) :=
        fun v hv => starts_hashText hrt hv hpopulated
      obtain ⟨hlist, hrest⟩ := itemsText_inj hstarts hread hws heq
      exact ⟨by rw [hlist], hrest⟩
  case object =>
    intro title c vs hc hvs _ w rest rest' hw _ _ heq
    exact object_inj h hrt hc hvs hw heq

/-- Hashes tell values apart: code writes the hash of each value of a class, and values that it
writes equal bytes for are equal. -/
theorem hash_separates (h : Accepted g root classes) (hrt : PrintsApart rt numbers)
    (hx : Inhabits numbers classes (.object (g.title root)) x)
    (hy : Inhabits numbers classes (.object (g.title root)) y) :
    ∃ a b : ByteArray,
      Ends rt (hashDecls classes) (some x) "Hash" [.writer] ⟨none, some x, a⟩ ∧
      Ends rt (hashDecls classes) (some y) "Hash" [.writer] ⟨none, some y, b⟩ ∧
      (a = b → x = y) := by
  have hends (v : Value) (hv : Inhabits numbers classes (.object (g.title root)) v) :
      Ends rt (hashDecls classes) (some v) "Hash" [.writer]
        ⟨none, some v, bytesOf (hashText rt classes v)⟩ := by
    refine ⟨sizeOf v, fun more => ?_⟩
    exact hashesUpTo_callWithin h (sizeOf v + more) _ v hv (Nat.le_add_right _ _)
  refine ⟨_, _, hends x hx, hends y hy, ?_⟩
  intro hbytes
  have htext : hashText rt classes x ++ [] = hashText rt classes y ++ [] := by
    rw [bytesOf_inj hbytes]
  cases hx with
  | @object _ c vs hc hvs =>
    have hmembers : List.Forall₂ (Slot fun t v => Inhabits numbers classes t v ∧
        (Populated classes t → ReadsBack rt numbers classes t v)) c.fields vs :=
      hvs.imp fun f v hv => hv.imp fun t v hv => ⟨hv, readsBack h hrt hv⟩
    exact (object_inj h hrt hc hmembers hy htext).1

section curves

/-- The two zeros. -/
def IsZero (x : Float64) : Prop := x = .finite (.zero false) ∨ x = .finite (.zero true)

theorem printsApart_zeroPrinter : PrintsApart zeroPrinter IsZero := by
  have hplus : zeroPrinter.formatFloat (.finite (.zero false)) = "0" := by decide
  have hminus : zeroPrinter.formatFloat (.finite (.zero true)) = "-0" := by decide
  constructor
  · rintro _ _ (rfl | rfl) (rfl | rfl) h
    · rfl
    · simp [hplus, hminus] at h
    · simp [hplus, hminus] at h
    · rfl
  all_goals rintro _ (rfl | rfl)
  all_goals simp [hplus, hminus]

theorem hash_separates_curves :
    ∃ a b : ByteArray,
      Ends zeroPrinter (hashDecls curveClasses)
        (some (curve [point 1] .absent (.present (.float64 (.finite (.zero true)))))) "Hash"
        [.writer] ⟨none, some (curve [point 1] .absent (.present (.float64 (.finite (.zero true))))),
          a⟩ ∧
      Ends zeroPrinter (hashDecls curveClasses)
        (some (curve [point 1] (.present (.string "-")) .absent)) "Hash" [.writer]
        ⟨none, some (curve [point 1] (.present (.string "-")) .absent), b⟩ ∧
      (a = b → curve [point 1] .absent (.present (.float64 (.finite (.zero true)))) =
        curve [point 1] (.present (.string "-")) .absent) := by
  have hpoints : ∀ v ∈ [point 1], Inhabits IsZero curveClasses (.object "Point") v := by
    intro v hv
    rw [List.mem_singleton.1 hv]
    exact inhabits_point IsZero 1
  have hzero : Inhabits IsZero curveClasses .number (.float64 (.finite (.zero true))) :=
    .number _ (Or.inr rfl)
  exact hash_separates accepted_curve printsApart_zeroPrinter
    (inhabits_curve hpoints .absent (.present hzero))
    (inhabits_curve hpoints (.present (.string "-")) .absent)

end curves

end SchemaForge.Go
