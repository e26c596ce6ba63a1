import SchemaForge.Proofs.Json
import SchemaForge.Proofs.Schema
/-! The canonical form of a document: what its kind recognises, in the order of its kind. -/
namespace SchemaForge

namespace Document

/-- The text that a member holds. -/
def text? (d : Document) (key : String) : Option Json := (d.string? key).map .string

/-- The array that a member holds. -/
def array? (d : Document) (key : String) : Option Json :=
  match d.get? key with
  | some (.array items) => some (.array items)
  | _ => none

/-- The value of a member, once it has been coerced. -/
def coerced? {α : Type} (d : Document) (key : String) (f : Json → Except CoercionFault α)
    (write : α → Json) : Option Json :=
  ((d.get? key).bind fun v => (f v).toOption).map write

/-- Members in a fixed order, without those that have no value. -/
def row (fields : List (String × Option Json)) : Members :=
  fields.flatMap fun field => Canonical.given field.1 field.2

/-- What a document of a kind says that the kind recognises, in the order of the kind. -/
def table (d : Document) (properties items : Option Json) : Kind → List (String × Option Json)
  | .object =>
    [("$id", d.text? "$id"), ("$schema", d.text? "$schema"), ("title", d.text? "title"),
      ("type", d.text? "type"), ("description", d.text? "description"),
      ("properties", properties), ("required", d.array? "required"), ("$ref", d.text? "$ref")]
  | .array =>
    [("type", d.text? "type"), ("description", d.text? "description"), ("items", items),
      ("$ref", d.text? "$ref")]
  | .string =>
    [("type", d.text? "type"), ("description", d.text? "description"),
      ("format", d.text? "format"),
      ("default", d.coerced? "default" Coercion.stringDefault .string),
      ("$ref", d.text? "$ref")]
  | .integer =>
    [("type", d.text? "type"), ("description", d.text? "description"),
      ("format", d.text? "format"),
      ("default", d.coerced? "default" Coercion.integerDefault (.number <| .integer ·)),
      ("minimum", d.coerced? "minimum" Coercion.integerBound (.number <| .integer ·)),
      ("maximum", d.coerced? "maximum" Coercion.integerBound (.number <| .integer ·)),
      ("$ref", d.text? "$ref")]
  | .number =>
    [("type", d.text? "type"), ("description", d.text? "description"),
      ("format", d.text? "format"),
      ("default", d.coerced? "default" Coercion.numberDefault .number),
      ("minimum", d.coerced? "minimum" Coercion.numberBound .number),
      ("maximum", d.coerced? "maximum" Coercion.numberBound .number),
      ("$ref", d.text? "$ref")]
  | .boolean =>
    [("type", d.text? "type"), ("description", d.text? "description"),
      ("default", d.coerced? "default" Coercion.booleanDefault .bool),
      ("$ref", d.text? "$ref")]

theorem sizeOf_members_lt {d e : Document} {key : String} (h : d.document? key = some e) :
    sizeOf e.members < sizeOf d := by
  have := Schema.sizeOf_document?_lt h
  obtain ⟨members⟩ := e
  simp at this ⊢
  omega

mutual

/-- What is kept of a document. One without type is a reference. -/
def fields (d : Document) : List (String × Option Json) :=
  let properties : Option Json :=
    match _ : d.document? "properties" with
    | some e => some (.object (canonicalMembers e.members))
    | none => none
  let items : Option Json :=
    match _ : d.document? "items" with
    | some e => some (.object (row (fields e)))
    | none => none
  if d.contains "type" then
    match (d.string? "type").bind Kind.ofName? with
    | some kind => table d properties items kind
    | none => []
  else [("$ref", d.text? "$ref"), ("description", d.text? "description")]
termination_by sizeOf d
decreasing_by
  · exact sizeOf_members_lt ‹_›
  · exact Schema.sizeOf_document?_lt ‹_›

/-- Members with their names, each in its canonical form. -/
def canonicalMembers (members : Members) : Members :=
  match members with
  | [] => []
  | (name, .object ms) :: rest => (name, .object (row (fields ⟨ms⟩))) :: canonicalMembers rest
  | (name, value) :: rest => (name, value) :: canonicalMembers rest
termination_by sizeOf members
decreasing_by all_goals simp <;> omega

end

/-- The canonical form of a document. -/
def canonical (d : Document) : Document := ⟨row (fields d)⟩

theorem lookup_row {fields : List (String × Option Json)} (h : (fields.map Prod.fst).Nodup)
    (key : String) : (row fields).lookup key = (fields.lookup key).join := by
  induction fields with
  | nil => rfl
  | cons field fields ih =>
    obtain ⟨name, value⟩ := field
    obtain ⟨hname, hrest⟩ := List.nodup_cons.1 h
    have hrow : row ((name, value) :: fields) = Canonical.given name value ++ row fields := rfl
    rw [hrow, List.lookup_cons]
    by_cases hkey : key = name
    · subst hkey
      cases value with
      | some v => simp [Canonical.given]
      | none =>
        -- no later member has the name of this one
        have hnone : fields.lookup key = none := by
          apply List.lookup_eq_none_iff.2
          intro field hfield
          have hne : key ≠ field.1 := fun h => hname (List.mem_map.2 ⟨field, hfield, h.symm⟩)
          simpa using hne
        simp [Canonical.given, ih hrest, hnone]
    · have hne : (key == name) = false := by simpa using hkey
      cases value <;> simp [Canonical.given, List.lookup_cons, hne, ih hrest]

theorem nodup_fields (d : Document) : ((fields d).map Prod.fst).Nodup := by
  rw [fields]
  split
  · split
    · next kind _ => cases kind <;> simp [table]
    · simp
  · simp

/-- What a member of a canonical form holds. -/
theorem get?_canonical (d : Document) (key : String) :
    d.canonical.get? key = ((fields d).lookup key).join :=
  lookup_row (nodup_fields d) key

theorem contains_of_get? {d : Document} {key : String} {v : Json} (h : d.get? key = some v) :
    d.contains key = true := by
  simp [contains, h]

theorem string?_of_get? {d : Document} {key : String} {v : Json} (h : d.get? key = some v) :
    d.string? key = v.string? := by
  simp [string?, h]

variable {d : Document} {name : String} {kind : Kind}

theorem fields_kind (ht : d.get? "type" = some (.string name))
    (hk : Kind.ofName? name = some kind) :
    fields d =
      table d ((d.document? "properties").map fun e => .object (canonicalMembers e.members))
        ((d.document? "items").map fun e => e.canonical.toJson) kind := by
  have hkind : (d.string? "type").bind Kind.ofName? = some kind := by
    rw [string?_of_get? ht]
    exact hk
  rw [fields, if_pos (contains_of_get? ht)]
  simp only [hkind]
  congr 1
  · split <;> simp_all only [Option.map_some, Option.map_none]
  · split <;> simp_all only [Option.map_some, Option.map_none, canonical, toJson]

theorem bind_text? (d : Document) (key : String) :
    (d.text? key).bind Json.string? = d.string? key := by
  unfold text?
  cases d.string? key <;> rfl

section typed

variable (ht : d.get? "type" = some (.string name)) (hk : Kind.ofName? name = some kind)

include ht hk

/-- What a member of the canonical form of a document of a known kind holds. -/
theorem get?_typed (key : String) :
    d.canonical.get? key =
      ((table d ((d.document? "properties").map fun e => .object (canonicalMembers e.members))
        ((d.document? "items").map fun e => e.canonical.toJson) kind).lookup key).join := by
  rw [get?_canonical, fields_kind ht hk]

theorem type_canonical : d.canonical.get? "type" = some (.string name) := by
  have htext : d.text? "type" = some (.string name) := by
    simp [text?, string?_of_get? ht, Json.string?]
  rw [get?_typed ht hk, ← htext]
  cases kind <;> simp [table, List.lookup_cons]

theorem site?_typed : Schema.site? d.canonical = none := by
  rw [Schema.site?, if_pos (contains_of_get? (type_canonical ht hk))]

theorem info_canonical : Schema.info d.canonical = Schema.info d := by
  have hdescription : d.canonical.string? "description" = d.string? "description" := by
    rw [string?, get?_typed ht hk, ← bind_text?]
    cases kind <;> simp [table, List.lookup_cons]
  have href : d.canonical.string? "$ref" = d.string? "$ref" := by
    rw [string?, get?_typed ht hk, ← bind_text?]
    cases kind <;> simp [table, List.lookup_cons]
  rw [Schema.info, Schema.info, hdescription, href]

end typed

/-- A document without type is kept as a reference. -/
theorem fields_site {site : RefSite} (hs : Schema.site? d = some site) :
    d.contains "type" = false ∧
      fields d = [("$ref", d.text? "$ref"), ("description", d.text? "description")] := by
  have htype : d.contains "type" = false := by
    unfold Schema.site? at hs
    split at hs
    · cases hs
    · next h => simpa using h
  refine ⟨htype, ?_⟩
  rw [fields, htype]
  rfl

end Document

end SchemaForge
