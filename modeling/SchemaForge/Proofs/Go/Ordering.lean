import SchemaForge.Proofs.Go.Inhabits
/-! An order of values: by their members and items, one after another. -/
namespace SchemaForge.Go

variable {numbers : Float64 → Prop} {classes : List Class} {f : Field} {type : ValueType}
  {title : String} {u v w : Value} {fields : List Field}

section orderings

/-- How the first of three compares with the last, from how neighbours compare. -/
def Transits (uv vw uw : Ordering) : Prop :=
  (uv = .eq → uw = vw) ∧ (vw = .eq → uw = uv) ∧ (uv = vw → uw = uv)

theorem Transits.then {a b c a' b' c' : Ordering} (h : Transits a b c) (h' : Transits a' b' c') :
    Transits (a.then a') (b.then b') (c.then c') := by
  cases a <;> cases b <;> cases a' <;> cases b' <;> simp_all [Transits]

theorem transits_last {uv o : Ordering} (ho : o ≠ .eq) : Transits uv o o :=
  ⟨fun _ => rfl, fun h => absurd h ho, Eq.symm⟩

variable {α : Type} [LT α] [DecidableLT α]

/-- Which of two comes first. -/
def decided (a b : α) : Ordering := if a < b then .lt else if b < a then .gt else .eq

theorem decided_lt_iff {a b : α} : decided a b = .lt ↔ a < b := by
  unfold decided
  by_cases hab : a < b
  · simp [hab]
  · by_cases hba : b < a <;> simp [hab, hba]

theorem decided_swap [Std.Asymm fun a b : α => a < b] (a b : α) : decided b a = (decided a b).swap := by
  unfold decided
  by_cases hab : a < b
  · simp [hab, Std.Asymm.asymm a b hab]
  · by_cases hba : b < a <;> simp [hab, hba]

theorem decided_gt_iff [Std.Asymm fun a b : α => a < b] {a b : α} : decided a b = .gt ↔ b < a := by
  rw [← decided_lt_iff, decided_swap a b]
  cases decided a b <;> simp

variable [LE α] [Std.IsLinearOrder α] [Std.LawfulOrderLT α]

theorem eq_of_decided {a b : α} (h : decided a b = .eq) : a = b := by
  unfold decided at h
  rcases Std.lt_trichotomy a b with hab | rfl | hba
  · simp [hab] at h
  · rfl
  · simp [hba, Std.Asymm.asymm b a hba] at h

theorem transits_decided (a b c : α) : Transits (decided a b) (decided b c) (decided a c) := by
  refine ⟨?_, ?_, ?_⟩
  · intro h
    rw [eq_of_decided h]
  · intro h
    rw [eq_of_decided h]
  · intro h
    cases hab : decided a b with
    | lt =>
      have hbc := decided_lt_iff.1 (h ▸ hab)
      exact decided_lt_iff.2 (Std.lt_trans (decided_lt_iff.1 hab) hbc)
    | eq =>
      have hbc := eq_of_decided (h ▸ hab)
      rw [← hbc, hab]
    | gt =>
      have hbc := decided_gt_iff.1 (h ▸ hab)
      exact decided_gt_iff.2 (Std.lt_trans hbc (decided_gt_iff.1 hab))

end orderings

section order

/-- The bytes of a text. -/
def textBytes (s : String) : List UInt8 := s.toByteArray.data.toList

theorem textBytes_inj {s t : String} (h : textBytes s = textBytes t) : s = t :=
  String.toByteArray_inj.1 (ByteArray.ext (Array.toList_inj.1 h))

mutual

/-- Which of two values of a type comes first. -/
def order : Value → Value → Ordering
  | .string s, .string t => decided (textBytes s) (textBytes t)
  | .int64 m, .int64 n => decided m n
  | .float64 x, .float64 y => decided x.place y.place
  | .bool a, .bool b => decided a b
  | .slice _ vs, .slice _ ws => (decided vs.length ws.length).then (orderItems vs ws)
  | .struct _ fields, .struct _ others => orderMembers fields others
  | .present v, .present w => order v w
  | .present _, .absent => .lt
  | .absent, .present _ => .gt
  | _, _ => .eq

def orderItems : List Value → List Value → Ordering
  | v :: vs, w :: ws => (order v w).then (orderItems vs ws)
  | [], _ :: _ => .lt
  | _ :: _, [] => .gt
  | [], [] => .eq

def orderMembers : List (String × Value) → List (String × Value) → Ordering
  | (_, v) :: fields, (_, w) :: others => (order v w).then (orderMembers fields others)
  | _, _ => .eq

end

variable {us vs ws : List Value}

theorem orderItems_swap (h : ∀ v ∈ vs, ∀ w ∈ ws, order w v = (order v w).swap) :
    orderItems ws vs = (orderItems vs ws).swap := by
  induction vs generalizing ws with
  | nil => cases ws <;> rfl
  | cons v vs ih =>
    cases ws with
    | nil => rfl
    | cons w ws =>
      have hfirst := h v List.mem_cons_self w List.mem_cons_self
      have hrest : orderItems ws vs = (orderItems vs ws).swap :=
        ih fun v hv w hw => h v (List.mem_cons_of_mem _ hv) w (List.mem_cons_of_mem _ hw)
      rw [orderItems, orderItems, hfirst, hrest, Ordering.swap_then]

theorem orderMembers_swap
    (hvs : List.Forall₂ (Slot fun t v => ∀ w, Inhabits numbers classes t w →
      order w v = (order v w).swap) fields vs)
    (hws : List.Forall₂ (Slot (Inhabits numbers classes)) fields ws) (names : List String) :
    orderMembers (names.zip ws) (names.zip vs) = (orderMembers (names.zip vs) (names.zip ws)).swap := by
  induction hvs generalizing ws names with
  | nil =>
    cases hws
    simp [orderMembers]
  | @cons f v fields vs hv hvs ih =>
    obtain ⟨w, ws, hw, hws', rfl⟩ := List.forall₂_cons_left_iff.1 hws
    cases names with
    | nil => simp [orderMembers]
    | cons name names =>
      have hfirst : order w v = (order v w).swap := by
        cases hv with
        | required hv =>
          cases hw with
          | required hw => exact hv _ hw
        | present hv =>
          cases hw with
          | present hw =>
            rw [order, order]
            exact hv _ hw
          | absent => simp [order]
        | absent => cases hw <;> simp [order]
      rw [List.zip_cons_cons, List.zip_cons_cons, orderMembers, orderMembers, hfirst,
        ih hws' names, Ordering.swap_then]

/-- Of two values of a type, one comes first where the other comes after it. -/
theorem order_swap (hv : Inhabits numbers classes type v) :
    ∀ w, Inhabits numbers classes type w → order w v = (order v w).swap := by
  refine Inhabits.induct
    (motive := fun t v => ∀ w, Inhabits numbers classes t w → order w v = (order v w).swap)
    ?string ?integer ?number ?boolean ?list ?object hv
  case string =>
    intro s w hw
    cases hw with
    | string t =>
      rw [order, order]
      exact decided_swap _ _
  case integer =>
    intro m w hw
    cases hw with
    | integer n =>
      rw [order, order]
      exact decided_swap _ _
  case number =>
    intro x _ w hw
    cases hw with
    | number y _ =>
      rw [order, order]
      exact decided_swap _ _
  case boolean =>
    intro a w hw
    cases hw with
    | boolean b => cases a <;> cases b <;> rfl
  case list =>
    intro items vs hvs w hw
    cases hw with
    | @list _ ws hws =>
      have hitems : orderItems ws vs = (orderItems vs ws).swap :=
        orderItems_swap fun v hv w hw => (hvs v hv).2 w (hws w hw)
      rw [order, order, Ordering.swap_then, hitems, decided_swap vs.length]
  case object =>
    intro title c vs hc hvs w hw
    cases hw with
    | @object _ c' ws hc' hws =>
      rw [hc] at hc'
      cases hc'
      simp only [Class.object, order]
      exact orderMembers_swap (hvs.imp fun f v hv => hv.imp fun t v hv => hv.2) hws _

theorem transits_orderItems (h : ∀ u ∈ us, ∀ v ∈ vs, ∀ w ∈ ws,
    Transits (order u v) (order v w) (order u w)) :
    Transits (orderItems us vs) (orderItems vs ws) (orderItems us ws) := by
  induction us generalizing vs ws with
  | nil => cases vs <;> cases ws <;> simp [orderItems, Transits]
  | cons u us ih =>
    cases vs with
    | nil => cases ws <;> simp [orderItems, Transits]
    | cons v vs =>
      cases ws with
      | nil =>
        rw [orderItems, orderItems]
        exact transits_last (by decide)
      | cons w ws =>
        have hfirst := h u List.mem_cons_self v List.mem_cons_self w List.mem_cons_self
        have hrest : Transits (orderItems us vs) (orderItems vs ws) (orderItems us ws) :=
          ih fun u hu v hv w hw => h u (List.mem_cons_of_mem _ hu) v (List.mem_cons_of_mem _ hv) w
            (List.mem_cons_of_mem _ hw)
        rw [orderItems, orderItems, orderItems]
        exact hfirst.then hrest

theorem transits_slot
    (hu : Slot (fun t u => ∀ v w, Inhabits numbers classes t v → Inhabits numbers classes t w →
      Transits (order u v) (order v w) (order u w)) f u)
    (hv : Slot (Inhabits numbers classes) f v) (hw : Slot (Inhabits numbers classes) f w) :
    Transits (order u v) (order v w) (order u w) := by
  cases hu with
  | required hu =>
    cases hv with
    | required hv =>
      cases hw with
      | required hw => exact hu _ _ hv hw
  | present hu =>
    cases hv with
    | present hv =>
      cases hw with
      | present hw =>
        rw [order, order, order]
        exact hu _ _ hv hw
      | absent =>
        rw [order, order]
        exact transits_last (by decide)
    | absent => cases hw <;> simp [order, Transits]
  | absent => cases hv <;> cases hw <;> simp [order, Transits]

theorem transits_orderMembers
    (hus : List.Forall₂ (Slot fun t u => ∀ v w, Inhabits numbers classes t v →
      Inhabits numbers classes t w → Transits (order u v) (order v w) (order u w)) fields us)
    (hvs : List.Forall₂ (Slot (Inhabits numbers classes)) fields vs)
    (hws : List.Forall₂ (Slot (Inhabits numbers classes)) fields ws) (names : List String) :
    Transits (orderMembers (names.zip us) (names.zip vs)) (orderMembers (names.zip vs) (names.zip ws))
      (orderMembers (names.zip us) (names.zip ws)) := by
  induction hus generalizing vs ws names with
  | nil =>
    cases hvs
    cases hws
    simp [orderMembers, Transits]
  | @cons f u fields us hu hus ih =>
    obtain ⟨v, vs, hv, hvs', rfl⟩ := List.forall₂_cons_left_iff.1 hvs
    obtain ⟨w, ws, hw, hws', rfl⟩ := List.forall₂_cons_left_iff.1 hws
    cases names with
    | nil => simp [orderMembers, Transits]
    | cons name names =>
      rw [List.zip_cons_cons, List.zip_cons_cons, List.zip_cons_cons, orderMembers, orderMembers,
        orderMembers]
      exact (transits_slot hu hv hw).then (ih hvs' hws' names)

/-- What three values of a type have in their order goes from neighbours to the outer two. -/
theorem transits_order (hu : Inhabits numbers classes type u) :
    ∀ v w, Inhabits numbers classes type v → Inhabits numbers classes type w →
      Transits (order u v) (order v w) (order u w) := by
  refine Inhabits.induct
    (motive := fun t u => ∀ v w, Inhabits numbers classes t v → Inhabits numbers classes t w →
      Transits (order u v) (order v w) (order u w))
    ?string ?integer ?number ?boolean ?list ?object hu
  case string =>
    rintro r _ _ ⟨s⟩ ⟨t⟩
    rw [order, order, order]
    exact transits_decided _ _ _
  case integer =>
    rintro l _ _ ⟨m⟩ ⟨n⟩
    rw [order, order, order]
    exact transits_decided _ _ _
  case number =>
    rintro x _ _ _ ⟨y⟩ ⟨z⟩
    rw [order, order, order]
    exact transits_decided _ _ _
  case boolean =>
    rintro a _ _ ⟨b⟩ ⟨c⟩
    rw [order, order, order]
    exact transits_decided _ _ _
  case list =>
    rintro items us hus _ _ ⟨⟩ ⟨⟩
    next vs hvs ws hws =>
    rw [order, order, order]
    apply (transits_decided _ _ _).then
    exact transits_orderItems fun u hu v hv w hw => (hus u hu).2 v w (hvs v hv) (hws w hw)
  case object =>
    intro title c us hc hus v w hv hw
    cases hv with
    | @object _ c' vs hc' hvs =>
      rw [hc] at hc'
      cases hc'
      cases hw with
      | @object _ c' ws hc' hws =>
        rw [hc] at hc'
        cases hc'
        simp only [Class.object, order]
        exact transits_orderMembers (hus.imp fun f u hu => hu.imp fun t u hu => hu.2) hvs hws _

/-- Values that are the same, but for zeros, which may differ in their sign. -/
inductive Agrees : Value → Value → Prop where
  | refl (v : Value) : Agrees v v
  | number {x y : Float64} (h : x.same y = true) : Agrees (.float64 x) (.float64 y)
  | present {v w : Value} (h : Agrees v w) : Agrees (.present v) (.present w)
  | slice {items : GoType} {vs ws : List Value} (h : List.Forall₂ Agrees vs ws) :
      Agrees (.slice items vs) (.slice items ws)
  | struct {type : String} {names : List String} {vs ws : List Value}
      (h : List.Forall₂ Agrees vs ws) :
      Agrees (.struct type (names.zip vs)) (.struct type (names.zip ws))

theorem agrees_of_orderItems (h : ∀ v ∈ vs, ∀ w ∈ ws, order v w = .eq → Agrees v w)
    (heq : orderItems vs ws = .eq) : List.Forall₂ Agrees vs ws := by
  induction vs generalizing ws with
  | nil =>
    cases ws with
    | nil => exact .nil
    | cons w ws => cases heq
  | cons v vs ih =>
    cases ws with
    | nil => cases heq
    | cons w ws =>
      rw [orderItems, Ordering.then_eq_eq] at heq
      refine .cons (h v List.mem_cons_self w List.mem_cons_self heq.1) (ih ?_ heq.2)
      exact fun v hv w hw => h v (List.mem_cons_of_mem _ hv) w (List.mem_cons_of_mem _ hw)

theorem agrees_of_orderMembers
    (hvs : List.Forall₂ (Slot fun t v => ∀ w, Inhabits (· ≠ .nan) classes t w →
      order v w = .eq → Agrees v w) fields vs)
    (hws : List.Forall₂ (Slot (Inhabits (· ≠ .nan) classes)) fields ws) {names : List String}
    (hnames : names.length = vs.length)
    (heq : orderMembers (names.zip vs) (names.zip ws) = .eq) : List.Forall₂ Agrees vs ws := by
  induction hvs generalizing ws names with
  | nil =>
    cases hws
    exact .nil
  | @cons f v fields vs hv hvs ih =>
    obtain ⟨w, ws, hw, hws', rfl⟩ := List.forall₂_cons_left_iff.1 hws
    cases names with
    | nil => cases hnames
    | cons name names =>
      rw [List.zip_cons_cons, List.zip_cons_cons, orderMembers, Ordering.then_eq_eq] at heq
      refine .cons ?_ (ih hws' (Nat.succ.inj hnames) heq.2)
      have hfirst := heq.1
      cases hv with
      | required hv =>
        cases hw with
        | required hw => exact hv _ hw hfirst
      | present hv =>
        cases hw with
        | present hw =>
          rw [order] at hfirst
          exact .present (hv _ hw hfirst)
        | absent => simp [order] at hfirst
      | absent =>
        cases hw with
        | present hw => simp [order] at hfirst
        | absent => exact .refl _

/-- Values of a type of which none comes first agree. -/
theorem agrees_of_order (hv : Inhabits (· ≠ .nan) classes type v) :
    ∀ w, Inhabits (· ≠ .nan) classes type w → order v w = .eq → Agrees v w := by
  refine Inhabits.induct
    (motive := fun t v => ∀ w, Inhabits (· ≠ .nan) classes t w → order v w = .eq → Agrees v w)
    ?string ?integer ?number ?boolean ?list ?object hv
  case string =>
    rintro s _ ⟨t⟩ heq
    rw [order] at heq
    rw [textBytes_inj (eq_of_decided heq)]
    exact .refl _
  case integer =>
    rintro m _ ⟨n⟩ heq
    rw [order] at heq
    rw [eq_of_decided heq]
    exact .refl _
  case number =>
    intro x hx w hw heq
    cases hw with
    | number y hy =>
      rw [order] at heq
      have hplace : x.place = y.place := eq_of_decided heq
      have hsame : x.same y = true := by
        rw [Float64.same, decide_eq_true_eq]
        exact ⟨hx, hy, hplace⟩
      exact .number hsame
  case boolean =>
    rintro a _ ⟨b⟩ heq
    rw [order] at heq
    rw [eq_of_decided heq]
    exact .refl _
  case list =>
    rintro items vs hvs _ ⟨⟩ heq
    next ws hws =>
    rw [order, Ordering.then_eq_eq] at heq
    exact .slice (agrees_of_orderItems (fun v hv w hw => (hvs v hv).2 w (hws w hw)) heq.2)
  case object =>
    intro title c vs hc hvs w hw heq
    cases hw with
    | @object _ c' ws hc' hws =>
      rw [hc] at hc'
      cases hc'
      rw [Class.object, Class.object, order] at heq
      have hlength : (c.fields.map Field.privateName).length = vs.length := by
        rw [List.length_map, hvs.length_eq]
      exact .struct (agrees_of_orderMembers
        (hvs.imp fun f v hv => hv.imp fun t v hv => hv.2) hws hlength heq)

end order

end SchemaForge.Go
