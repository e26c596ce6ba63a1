import SchemaForge.Proofs.Schema
/-! The faults of documents that refer to no others, found by walking them. -/
namespace SchemaForge

mutual

/-- Whether every object in a value, at whatever place, has a type or else no text as `$ref`. -/
def Json.refFree : Json → Bool
  | .array items => refFreeItems items
  | .object members =>
    let d : Document := ⟨members⟩
    (d.contains "type" || (d.string? "$ref").isNone) && refFreeMembers members
  | _ => true

def Json.refFreeItems : List Json → Bool
  | [] => true
  | item :: rest => item.refFree && refFreeItems rest

def Json.refFreeMembers : Members → Bool
  | [] => true
  | (_, value) :: rest => value.refFree && refFreeMembers rest

end

namespace Document

/-- The kind that a document has by its type. -/
def kind? (d : Document) : Option Kind := (d.string? "type").bind Kind.ofName?

/-- What is wrong with a type that is no kind. -/
def typeFault (d : Document) : Fault :=
  match d.get? "type" with
  | none => .typeMissing
  | some (.string name) => .typeUnknown name
  | some other => .typeNotString other.kind

def requiredFaults (d : Document) : List Fault :=
  match d.get? "required" with
  | none => []
  | some (.array items) =>
    (items.zipIdx.filter fun (item, _) => item.string?.isNone).map fun (item, i) =>
      .requiredNotString i item.kind
  | some other => [.requiredNotArray other.kind]

def propertiesFaults (d : Document) : List Fault :=
  match d.get? "properties" with
  | none | some (.object _) => []
  | some other => [.propertiesNotObject other.kind]

/-- The members that an object declares. -/
def declared (d : Document) : Members := ((d.document? "properties").getD .empty).members

def idFaults (d : Document) : List Fault :=
  if d.declared ≠ [] ∧ (d.string? "$id" = none ∨ d.string? "$id" = some "") then [.idMissing] else []

/-- The fault of a value that is there and cannot be coerced. -/
def coercionFaults {α : Type} (f : Json → Except CoercionFault α) (value : Option Json) :
    List Fault :=
  match value.map f with
  | some (.error e) => [.coercion e]
  | _ => []

/-- The faults of a kind of number: of the format, the default, the minimum and the maximum. -/
def numericFaults {α β : Type} (d : Document) (kind : Kind) (known : String → Bool)
    (default : Json → Except CoercionFault α) (bound : Json → Except CoercionFault β) :
    List Fault :=
  ((d.string? "format").toList.filter fun name => !known name).map (.formatUnknown kind) ++
    coercionFaults default (d.get? "default") ++ coercionFaults bound (d.get? "minimum") ++
    coercionFaults bound (d.get? "maximum")

theorem sizeOf_declared_lt (d : Document) : sizeOf d.declared < sizeOf d := by
  obtain ⟨members⟩ := d
  cases h : (⟨members⟩ : Document).document? "properties" with
  | some e =>
    have hlt := Schema.sizeOf_document?_lt h
    cases e
    simp only [declared, h, Option.getD_some, mk.sizeOf_spec] at hlt ⊢
    omega
  | none =>
    have : 0 < sizeOf members := by
      cases members <;> simp only [List.nil.sizeOf_spec, List.cons.sizeOf_spec] <;> omega
    simp only [declared, h, Option.getD_none, empty, mk.sizeOf_spec, List.nil.sizeOf_spec]
    omega

mutual

/-- The faults of a document, in the order in which a walk of it finds them. -/
def faults (d : Document) : List Fault :=
  match d.kind? with
  | none => [d.typeFault]
  | some .object => d.requiredFaults ++ d.propertiesFaults ++ memberFaults d.declared ++ d.idFaults
  | some .array =>
    match _ : d.document? "items" with
    | some items => items.faults
    | none => [.itemsMissing]
  | some .string => coercionFaults Coercion.stringDefault (d.get? "default")
  | some .boolean => coercionFaults Coercion.booleanDefault (d.get? "default")
  | some .integer =>
    d.numericFaults .integer (fun name => (IntegerFormat.ofName? name).isSome)
      Coercion.integerDefault Coercion.integerBound
  | some .number =>
    d.numericFaults .number (fun name => (NumberFormat.ofName? name).isSome)
      Coercion.numberDefault Coercion.numberBound
termination_by sizeOf d
decreasing_by
  · exact sizeOf_declared_lt d
  · exact Schema.sizeOf_document?_lt ‹_›

/-- The faults of members, each under the name of its member. -/
def memberFaults (members : Members) : List Fault :=
  match members with
  | [] => []
  | (name, .object ms) :: rest => (faults ⟨ms⟩).map (.within name) ++ memberFaults rest
  | (name, value) :: rest => .within name (.memberNotObject value.kind) :: memberFaults rest
termination_by sizeOf members
decreasing_by all_goals simp <;> omega

end

mutual

/-- The documents that the walk comes to, those inside before those around them. -/
def places (d : Document) : List Document :=
  match d.kind? with
  | some .object => placesAmong d.declared ++ [d]
  | some .array =>
    match _ : d.document? "items" with
    | some items => items.places ++ [d]
    | none => [d]
  | _ => [d]
termination_by sizeOf d
decreasing_by
  · exact sizeOf_declared_lt d
  · exact Schema.sizeOf_document?_lt ‹_›

def placesAmong (members : Members) : List Document :=
  match members with
  | [] => []
  | (_, .object ms) :: rest => places ⟨ms⟩ ++ placesAmong rest
  | (_, _) :: rest => placesAmong rest
termination_by sizeOf members
decreasing_by all_goals simp <;> omega

end

/-- The document that the faults are reported of: for an array, that of its items. -/
def blamed (d : Document) : Document :=
  match d.kind? with
  | some .array =>
    match _ : d.document? "items" with
    | some items => items.blamed
    | none => d
  | _ => d
termination_by sizeOf d
decreasing_by exact Schema.sizeOf_document?_lt ‹_›

/-- Whether the walk finds nothing wrong with a document. -/
def sound (d : Document) : Bool := d.faults.isEmpty

end Document

namespace Json

variable {members : Members} {key : String} {value : Json}

theorem refFree_of_lookup (h : refFreeMembers members = true) (hv : members.lookup key = some value) :
    value.refFree = true := by
  induction members with
  | nil => cases hv
  | cons m ms ih =>
    obtain ⟨k, v⟩ := m
    rw [refFreeMembers, Bool.and_eq_true] at h
    rw [List.lookup_cons] at hv
    split at hv
    · cases hv
      exact h.1
    · exact ih h.2 hv

/-- An object inside an object without references has none either. -/
theorem refFree_document? {d e : Document} (h : d.toJson.refFree = true)
    (he : d.document? key = some e) : e.toJson.refFree = true := by
  rw [Document.toJson, refFree, Bool.and_eq_true] at h
  unfold Document.document? at he
  split at he
  · next ms hv =>
    cases he
    exact refFree_of_lookup h.2 hv
  · cases he

theorem refFreeMembers_declared {d : Document} (h : d.toJson.refFree = true) :
    refFreeMembers d.declared = true := by
  unfold Document.declared
  cases hd : d.document? "properties" with
  | none => rfl
  | some e =>
    have he := refFree_document? h hd
    rw [Document.toJson, refFree, Bool.and_eq_true] at he
    exact he.2

theorem site?_of_refFree {d : Document} (h : d.toJson.refFree = true) : Schema.site? d = none := by
  rw [Document.toJson, refFree, Bool.and_eq_true] at h
  have htop : (d.contains "type" || (d.string? "$ref").isNone) = true := h.1
  unfold Schema.site?
  split
  · rfl
  · next htype => simpa [htype] using htop

end Json

namespace Schema

variable {d : Document} {kind : Kind}

theorem ofDocument_of_no_kind (hs : site? d = none) (hk : d.kind? = none) :
    ofDocument d = .faulty (context d) [d.typeFault] := by
  unfold Document.typeFault
  cases ht : d.get? "type" with
  | none => exact ofDocument_untyped hs ht
  | some value =>
    cases value with
    | string name =>
      have hname : Kind.ofName? name = none := by
        simpa [Document.kind?, Document.string?, ht, Json.string?] using hk
      exact ofDocument_unknown hs ht hname
    | _ => exact ofDocument_mistyped hs ht nofun

/-- The name that a document of a kind has as its type. -/
theorem type_of_kind? (hk : d.kind? = some kind) :
    ∃ name, d.get? "type" = some (.string name) ∧ Kind.ofName? name = some kind := by
  obtain ⟨name, hname, hkind⟩ := Option.bind_eq_some_iff.1 hk
  obtain ⟨value, hvalue, hstring⟩ := Option.bind_eq_some_iff.1 hname
  cases value with
  | string s =>
    cases hstring
    exact ⟨_, hvalue, hkind⟩
  | _ => cases hstring

theorem snd_required (d : Document) : (required d).2 = d.requiredFaults := by
  unfold required Document.requiredFaults
  cases d.get? "required" with
  | none => rfl
  | some value =>
    cases value with
    | array items =>
      dsimp only
      induction items.zipIdx with
      | nil => rfl
      | cons item rest ih =>
        obtain ⟨value, i⟩ := item
        cases hs : value.string? <;> simpa [hs] using ih
    | _ => rfl

theorem fst_properties (d : Document) : (properties d).1 = d.declared := by
  unfold properties Document.declared Document.document?
  cases d.get? "properties" with
  | none => rfl
  | some value => cases value <;> rfl

theorem snd_properties (d : Document) : (properties d).2 = d.propertiesFaults := by
  unfold properties Document.propertiesFaults
  cases d.get? "properties" with
  | none => rfl
  | some value => cases value <;> rfl

theorem idFaults_declared (d : Document) : idFaults d d.declared = d.idFaults := by
  unfold idFaults Document.idFaults
  cases d.declared with
  | nil => simp
  | cons m ms => cases d.string? "$id" <;> simp

theorem snd_coerced {α : Type} (f : Json → Except CoercionFault α) (value : Option Json) :
    (coerced f value).2 = Document.coercionFaults f value := by
  cases value with
  | none => rfl
  | some v =>
    unfold coerced Document.coercionFaults
    simp only [Option.map_some]
    cases f v <;> rfl

theorem snd_formatted {α : Type} (kind : Kind) (ofName? : String → Option α)
    (name : Option String) :
    (formatted kind ofName? name).2 =
      (name.toList.filter fun n => !(ofName? n).isSome).map (.formatUnknown kind) := by
  cases name with
  | none => rfl
  | some n =>
    unfold formatted
    cases h : ofName? n <;> simp [h]

/-- Documents of kinds without schemas inside are leaves, unless they have faults. -/
theorem ofDocument_leaf (hs : site? d = none) (hk : d.kind? = some kind) (ho : kind ≠ .object)
    (ha : kind ≠ .array) : ∃ info leaf, ofDocument d = ofFaults d d.faults (.leaf info leaf) := by
  obtain ⟨name, ht, hname⟩ := type_of_kind? hk
  refine ⟨info d, ?_⟩
  rw [ofDocument_kind hs ht hname, Document.faults]
  cases kind with
  | object => exact absurd rfl ho
  | array => exact absurd rfl ha
  | string | boolean =>
    simp only [hk, ← snd_coerced]
    exact ⟨_, rfl⟩
  | integer | number =>
    simp only [hk, Document.numericFaults, ← snd_coerced, ← snd_formatted]
    exact ⟨_, rfl⟩

theorem ofDocument_object (hs : site? d = none) (hk : d.kind? = some .object) :
    ofDocument d =
      .object (context d) (info d) (head d) (d.requiredFaults ++ d.propertiesFaults)
        (ofMembers d.declared) d.idFaults := by
  obtain ⟨name, ht, hname⟩ := type_of_kind? hk
  simp only [ofDocument_kind hs ht hname, snd_required, fst_properties, snd_properties,
    idFaults_declared]

theorem ofDocument_array (hs : site? d = none) (hk : d.kind? = some .array) :
    ofDocument d =
      match d.document? "items" with
      | some items => .array (info d) (ofDocument items)
      | none => .faulty (context d) [.itemsMissing] := by
  obtain ⟨name, ht, hname⟩ := type_of_kind? hk
  exact ofDocument_kind hs ht hname

end Schema

end SchemaForge
