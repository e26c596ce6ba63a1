import SchemaForge.Canonical
import SchemaForge.Coercion
/-!
Schemas as one document says them: typed, but with references still unresolved and with the
faults that the document has.
-/
namespace SchemaForge

inductive Schema where
  /-- A document without type that refers to another. -/
  | reference (site : RefSite)
  /-- A document with faults, and what it calls itself. -/
  | faulty (context : String) (faults : List Fault)
  | leaf (info : Info) (leaf : Leaf)
  | array (info : Info) (items : Schema)
  /-- An object, with the faults that come before those of its members and after them. -/
  | object (context : String) (info : Info) (head : ObjectHead) (before : List Fault)
      (members : List (String × Schema)) (after : List Fault)

namespace Schema

/-- What a document calls itself. -/
def context (d : Document) : String :=
  ((d.string? "title").or ((d.string? "$id").or (d.string? "type"))).getD "schema"

/-- The reference of a document that has one and no type. -/
def site? (d : Document) : Option RefSite :=
  if d.contains "type" then none
  else (d.string? "$ref").map fun reference => ⟨reference, d.string? "description"⟩

def info (d : Document) : Info := ⟨d.string? "description", d.string? "$ref"⟩

/-- The outcome of a coercion that is not asked for if there is no value. -/
def coerced {α : Type} (f : Json → Except CoercionFault α) (value : Option Json) :
    Option α × List Fault :=
  match value with
  | none => (none, [])
  | some v => match f v with
    | .ok a => (some a, [])
    | .error e => (none, [.coercion e])

/-- A format by its name, or the fault that there is none of that name. -/
def formatted {α : Type} (kind : Kind) (ofName? : String → Option α) (name : Option String) :
    Option α × List Fault :=
  match name with
  | none => (none, [])
  | some n => match ofName? n with
    | some f => (some f, [])
    | none => (none, [.formatUnknown kind n])

def ofFaults (d : Document) (faults : List Fault) (schema : Schema) : Schema :=
  if faults.isEmpty then schema else .faulty (context d) faults

def ofString (d : Document) : Schema :=
  let (default, faults) := coerced Coercion.stringDefault (d.get? "default")
  ofFaults d faults <| .leaf (info d) <|
    .string default ((d.string? "format").map StringFormat.ofName)

def ofInteger (d : Document) : Schema :=
  let (format, inFormat) := formatted .integer IntegerFormat.ofName? (d.string? "format")
  let (default, inDefault) := coerced Coercion.integerDefault (d.get? "default")
  let (minimum, inMinimum) := coerced Coercion.integerBound (d.get? "minimum")
  let (maximum, inMaximum) := coerced Coercion.integerBound (d.get? "maximum")
  ofFaults d (inFormat ++ inDefault ++ inMinimum ++ inMaximum) <|
    .leaf (info d) (.integer default format minimum maximum)

def ofNumber (d : Document) : Schema :=
  let (format, inFormat) := formatted .number NumberFormat.ofName? (d.string? "format")
  let (default, inDefault) := coerced Coercion.numberDefault (d.get? "default")
  let (minimum, inMinimum) := coerced Coercion.numberBound (d.get? "minimum")
  let (maximum, inMaximum) := coerced Coercion.numberBound (d.get? "maximum")
  ofFaults d (inFormat ++ inDefault ++ inMinimum ++ inMaximum) <|
    .leaf (info d) (.number default format minimum maximum)

def ofBoolean (d : Document) : Schema :=
  let (default, faults) := coerced Coercion.booleanDefault (d.get? "default")
  ofFaults d faults <| .leaf (info d) (.boolean default)

/-- The names in `required`, and its faults. -/
def required (d : Document) : Option (List String) × List Fault :=
  match d.get? "required" with
  | none => (none, [])
  | some (.array items) =>
    (some (items.filterMap Json.string?),
      items.zipIdx.filterMap fun (item, i) =>
        if item.string?.isSome then none else some (.requiredNotString i item.kind))
  | some other => (none, [.requiredNotArray other.kind])

/-- The members under `properties`, and the fault that it is no object. -/
def properties (d : Document) : Members × List Fault :=
  match d.get? "properties" with
  | none => ([], [])
  | some (.object members) => (members, [])
  | some other => ([], [.propertiesNotObject other.kind])

/-- An object that declares members must have an id. -/
def idFaults (d : Document) (members : Members) : List Fault :=
  if !members.isEmpty && ((d.string? "$id").getD "").isEmpty then [.idMissing] else []

def head (d : Document) : ObjectHead where
  id := d.string? "$id"
  schema := d.string? "$schema"
  title := d.string? "title"
  declaresProperties := d.contains "properties"
  required := (required d).1

theorem sizeOf_lookup_lt {members : Members} {key : String} {v : Json}
    (h : members.lookup key = some v) : sizeOf v < sizeOf members := by
  induction members with
  | nil => simp at h
  | cons m ms ih =>
    obtain ⟨k, w⟩ := m
    rw [List.lookup_cons] at h
    split at h
    · cases h
      simp
      omega
    · have := ih h
      simp
      omega

theorem sizeOf_document?_lt {d e : Document} {key : String} (h : d.document? key = some e) :
    sizeOf e < sizeOf d := by
  unfold Document.document? at h
  split at h
  · next members hm =>
    cases h
    have := sizeOf_lookup_lt hm
    cases d
    simp at this ⊢
    omega
  · simp at h

theorem sizeOf_properties_lt (d : Document) : sizeOf (properties d).1 < sizeOf d := by
  obtain ⟨members⟩ := d
  unfold properties
  have : 0 < sizeOf members := by
    cases members <;> simp only [List.nil.sizeOf_spec, List.cons.sizeOf_spec] <;> omega
  split
  · simp
    omega
  · next ms hm =>
    have := sizeOf_lookup_lt hm
    simp at this ⊢
    omega
  · simp
    omega

mutual

/-- Reads the schema that a document says. -/
def ofDocument (d : Document) : Schema :=
  match site? d with
  | some site => .reference site
  | none =>
    match d.get? "type" with
    | none => .faulty (context d) [.typeMissing]
    | some (.string name) =>
      match Kind.ofName? name with
      | some .object =>
        .object (context d) (info d) (head d) ((required d).2 ++ (properties d).2)
          (ofMembers (properties d).1) (idFaults d (properties d).1)
      | some .array =>
        match _ : d.document? "items" with
        | some items => .array (info d) (ofDocument items)
        | none => .faulty (context d) [.itemsMissing]
      | some .string => ofString d
      | some .integer => ofInteger d
      | some .number => ofNumber d
      | some .boolean => ofBoolean d
      | none => .faulty (context d) [.typeUnknown name]
    | some other => .faulty (context d) [.typeNotString other.kind]
termination_by sizeOf d
decreasing_by
  · exact sizeOf_properties_lt d
  · exact sizeOf_document?_lt ‹_›

/-- Reads the schemas of members. -/
def ofMembers (members : Members) : List (String × Schema) :=
  match members with
  | [] => []
  | (name, .object ms) :: rest => (name, ofDocument ⟨ms⟩) :: ofMembers rest
  | (name, value) :: rest =>
    (name, .faulty name [.memberNotObject value.kind]) :: ofMembers rest
termination_by sizeOf members
decreasing_by all_goals simp <;> omega

end

/-- The reference that a schema was declared with. -/
def declaredSite? : Schema → Option RefSite
  | reference site => some site
  | _ => none

end Schema

end SchemaForge
