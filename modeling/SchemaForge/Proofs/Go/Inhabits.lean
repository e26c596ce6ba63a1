import SchemaForge.Proofs.Go.Accepted
import SchemaForge.Proofs.Go.Running
/-! The values of the classes of a schema: finite trees, each member at its type. -/
namespace SchemaForge.Go

variable {numbers : Float64 → Prop} {classes : List Class} {c : Class} {f : Field}
  {type : ValueType} {title : String} {v : Value} {vs : List Value}
  {P Q : ValueType → Value → Prop} {fields : List Field} {g : Graph} {root : NodeId}

/-- A struct of a class, with a value for each field. -/
def Class.object (c : Class) (vs : List Value) : Value :=
  .struct c.implName ((c.fields.map Field.privateName).zip vs)

/-- The value of a field, where those of a type have a property. -/
inductive Slot (P : ValueType → Value → Prop) : Field → Value → Prop where
  | required {name : String} {type : ValueType} {default : Option Json} {v : Value}
      (hv : P type v) : Slot P ⟨name, type, false, default⟩ v
  | present {name : String} {type : ValueType} {default : Option Json} {v : Value}
      (hv : P type v) : Slot P ⟨name, type, true, default⟩ (.present v)
  | absent {name : String} {type : ValueType} {default : Option Json} :
      Slot P ⟨name, type, true, default⟩ .absent

/-- The values of a type, with numbers of a kind. -/
inductive Inhabits (numbers : Float64 → Prop) (classes : List Class) : ValueType → Value → Prop where
  | string (s : String) : Inhabits numbers classes .string (.string s)
  | integer (n : Int64) : Inhabits numbers classes .integer (.int64 n)
  | number (x : Float64) (h : numbers x) : Inhabits numbers classes .number (.float64 x)
  | boolean (b : Bool) : Inhabits numbers classes .boolean (.bool b)
  | list {items : ValueType} {vs : List Value} (h : ∀ v ∈ vs, Inhabits numbers classes items v) :
      Inhabits numbers classes (.list items) (.slice items.goType vs)
  | object {title : String} {c : Class} {vs : List Value} (hc : classOf classes title = some c)
      (h : List.Forall₂ (Slot (Inhabits numbers classes)) c.fields vs) :
      Inhabits numbers classes (.object title) (c.object vs)

theorem Slot.imp (h : Slot P f v) (hPQ : ∀ t v, P t v → Q t v) : Slot Q f v := by
  cases h with
  | required hv => exact .required (hPQ _ _ hv)
  | present hv => exact .present (hPQ _ _ hv)
  | absent => exact .absent

/-- What holds of scalars, of lists where it holds of the items, and of objects where it holds of
the members, holds of all values. -/
theorem Inhabits.induct {motive : ValueType → Value → Prop}
    (string : ∀ s, motive .string (.string s))
    (integer : ∀ n, motive .integer (.int64 n))
    (number : ∀ x, numbers x → motive .number (.float64 x))
    (boolean : ∀ b, motive .boolean (.bool b))
    (list : ∀ items vs, (∀ v ∈ vs, Inhabits numbers classes items v ∧ motive items v) →
      motive (.list items) (.slice items.goType vs))
    (object : ∀ title c vs, classOf classes title = some c →
      List.Forall₂ (Slot fun t v => Inhabits numbers classes t v ∧ motive t v) c.fields vs →
      motive (.object title) (c.object vs))
    (h : Inhabits numbers classes type v) : motive type v := by
  have holds := @Inhabits.rec numbers classes (fun t v _ => motive t v)
    (fun fields vs _ =>
      List.Forall₂ (Slot fun t v => Inhabits numbers classes t v ∧ motive t v) fields vs)
    (fun f v _ => Slot (fun t v => Inhabits numbers classes t v ∧ motive t v) f v)
    string integer number boolean
  apply holds
  · exact fun hvs ih => list _ _ fun v hv => ⟨hvs v hv, ih v hv⟩
  · exact fun hc _ ih => object _ _ _ hc ih
  · exact .nil
  · exact fun _ _ hslot hslots => .cons hslot hslots
  · exact fun hv ih => .required ⟨hv, ih⟩
  · exact fun hv ih => .present ⟨hv, ih⟩
  · exact .absent
  · exact h

/-- The objects that lists of a type hold have fields. -/
def Populated (classes : List Class) (type : ValueType) : Prop :=
  ∀ title, type.leaf = .object title → ∃ c, classOf classes title = some c ∧ c.fields ≠ []

theorem Accepted.populated (h : Accepted g root classes) (hc : c ∈ classes) :
    ∀ f ∈ c.fields, Populated classes f.type :=
  fun _ hf _ hleaf => h.classOf_member hc hf hleaf

/-- The value of a field of a struct. -/
theorem lookup_object (hnames : (fields.map Field.privateName).Nodup)
    (hmem : (f, v) ∈ fields.zip vs) :
    ((fields.map Field.privateName).zip vs).lookup f.privateName = some v := by
  induction fields generalizing vs with
  | nil => exact absurd hmem (by simp)
  | cons first fields ih =>
    cases vs with
    | nil => exact absurd hmem (by simp)
    | cons w vs =>
      rw [List.map_cons, List.nodup_cons] at hnames
      obtain ⟨hfirst, hnames⟩ := hnames
      rw [List.map_cons, List.zip_cons_cons]
      rcases List.mem_cons.1 hmem with heq | hmem
      · cases heq
        exact List.lookup_cons_self
      · have hf : f ∈ fields := (List.of_mem_zip hmem).1
        have hne : f.privateName ≠ first.privateName := by
          intro heq
          exact hfirst (heq ▸ List.mem_map_of_mem hf)
        rw [lookup_cons_ne hne]
        exact ih hnames hmem

/-- The fields of a type of structs. -/
def fieldsOf (classes : List Class) (type : String) : List Field :=
  match classes.find? (·.implName == type) with
  | some c => c.fields
  | none => []

theorem fieldsOf_classOf (hc : classOf classes title = some c) :
    fieldsOf classes c.implName = c.fields := by
  have : classes.find? (·.implName == c.implName) = some c := by
    rw [implName_of_classOf hc]
    exact hc
  simp only [fieldsOf, this]

/-- The code of a class is found by its name, before that of any other one. -/
theorem find?_of_classOf {decls : Class → List Decl} {p : Decl → Bool} {d : Decl}
    (hc : classOf classes title = some c) (hself : (decls c).find? p = some d)
    (hother : ∀ c', c'.implName ≠ c.implName → (decls c').find? p = none) :
    (classes.flatMap decls).find? p = some d := by
  have himpl := implName_of_classOf hc
  obtain ⟨-, before, after, rfl, hbefore⟩ := List.find?_eq_some_iff_append.1 hc
  have hnone : before.findSome? (fun c' => (decls c').find? p) = none := by
    rw [List.findSome?_eq_none_iff]
    intro c' hc'
    apply hother
    simpa [himpl] using hbefore c' hc'
  rw [List.find?_flatMap, List.findSome?_append, hnone, List.findSome?_cons, hself]
  rfl

section size

theorem sizeOf_item {items : GoType} (h : v ∈ vs) : sizeOf v < sizeOf (Value.slice items vs) := by
  have := List.sizeOf_lt_of_mem h
  simp only [Value.slice.sizeOf_spec]
  omega

/-- What a struct holds is smaller than the struct. -/
theorem sizeOf_member (h : v ∈ vs) (hlength : c.fields.length = vs.length) :
    sizeOf v < sizeOf (c.object vs) := by
  have hmem : ∃ name, (name, v) ∈ (c.fields.map Field.privateName).zip vs := by
    obtain ⟨i, hi, rfl⟩ := List.mem_iff_getElem.1 h
    have hname : i < (c.fields.map Field.privateName).length := by simpa [hlength] using hi
    have hboth : i < ((c.fields.map Field.privateName).zip vs).length := by
      rw [List.length_zip]
      omega
    exact ⟨(c.fields.map Field.privateName)[i], List.mem_iff_getElem.2 ⟨i, hboth, by simp⟩⟩
  obtain ⟨name, hmem⟩ := hmem
  have := List.sizeOf_lt_of_mem hmem
  have hpair : sizeOf (name, v) = 1 + sizeOf name + sizeOf v := rfl
  simp only [Class.object, Value.struct.sizeOf_spec]
  omega

end size

section curve

def point (x : Int64) : Value := pointClass.object [.int64 x]

/-- A curve of points, with a label and a length. -/
def curve (points : List Value) (label length : Value) : Value :=
  curveClass.object [.slice (.named "PointClass") points, label, length]

theorem classOf_point : classOf curveClasses "Point" = some pointClass := by
  simp only [classOf, curveClasses]
  rfl

theorem classOf_curve : classOf curveClasses "Curve" = some curveClass := by
  simp only [classOf, curveClasses]
  rfl

theorem inhabits_point (numbers : Float64 → Prop) (x : Int64) :
    Inhabits numbers curveClasses (.object "Point") (point x) :=
  .object classOf_point (.cons (.required (.integer x)) .nil)

theorem inhabits_curve {points : List Value} {label length : Value}
    (hpoints : ∀ v ∈ points, Inhabits numbers curveClasses (.object "Point") v)
    (hlabel : Slot (Inhabits numbers curveClasses)
      ⟨"label", .string, true, some (.string "none")⟩ label)
    (hlength : Slot (Inhabits numbers curveClasses) ⟨"length", .number, true, none⟩ length) :
    Inhabits numbers curveClasses (.object (curveGraph.title 5)) (curve points label length) := by
  have hlist : Inhabits numbers curveClasses (.list (.object "Point"))
      (.slice (.named "PointClass") points) := .list hpoints
  exact .object classOf_curve (.cons (.required hlist) (.cons hlabel (.cons hlength .nil)))

/-- A runtime that prints zeros. -/
def zeroPrinter : Runtime where
  formatFloat x := if x = .finite (.zero true) then "-0" else "0"
  errorText format _ := format
  unsetText := ""
  truncate _ := 0

end curve

end SchemaForge.Go
