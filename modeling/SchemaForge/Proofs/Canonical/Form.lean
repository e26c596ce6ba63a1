import SchemaForge.Proofs.Canonical.Fields
/-! Schemas of documents without faults are written as the canonical forms of the documents. -/
namespace SchemaForge

namespace Schema

open Document

mutual

/-- The document that a schema is written as. -/
def form : Schema → Members
  | .reference site =>
    [("$ref", .string site.reference)] ++ Canonical.text "description" site.description
  | .faulty .. => []
  | .leaf info l => Canonical.leaf info l
  | .array info items => Canonical.array info (.object items.form)
  | .object _ info head _ inner _ => Canonical.object info head (forms inner)

def forms : List (String × Schema) → Members
  | [] => []
  | (name, s) :: rest => (name, .object s.form) :: forms rest

end

theorem keys_canonicalMembers (members : Members) :
    (canonicalMembers members).map Prod.fst = members.map Prod.fst := by
  induction members with
  | nil => rw [canonicalMembers]
  | cons m rest ih =>
    obtain ⟨name, v⟩ := m
    cases v <;> simp [canonicalMembers, ih]

/-- Members without a name in common stay as they are. -/
theorem properties_eq_self {members : Members} (h : members.keys.Nodup) :
    Canonical.properties members = members := by
  suffices ∀ placed : Members, (placed ++ members).keys.Nodup →
      members.foldl (fun ms m => Members.insert ms m.1 m.2) placed = placed ++ members from
    this [] h
  induction members with
  | nil => simp
  | cons m rest ih =>
    intro placed hnodup
    have hnew : m.1 ∉ placed.keys := by
      simp only [Members.keys, List.map_append, List.map_cons, List.nodup_append] at hnodup
      intro hmem
      exact hnodup.2.2 _ hmem m.1 List.mem_cons_self rfl
    have hrest : placed ++ m :: rest = (placed ++ [m]) ++ rest := by simp
    rw [List.foldl_cons, Members.insert_of_not_mem hnew, hrest]
    rw [hrest] at hnodup
    exact ih (List.nodup_cons.1 h).2 _ hnodup

end Schema

theorem Kind.name_of_ofName? {name : String} {kind : Kind} (h : ofName? name = some kind) :
    kind.name = name := by
  simpa using List.find?_some h

theorem IntegerFormat.name_of_ofName? {name : String} {format : IntegerFormat}
    (h : ofName? name = some format) : format.name = name := by
  simpa using List.find?_some h

theorem NumberFormat.name_of_ofName? {name : String} {format : NumberFormat}
    (h : ofName? name = some format) : format.name = name := by
  simpa using List.find?_some h

theorem StringFormat.name_ofName (name : String) : (ofName name).name = name := by
  unfold ofName
  split
  · next h => exact h.symm
  · split
    · next h => exact h.symm
    · split
      · next h => exact h.symm
      · rfl

namespace Schema

open Document

variable {d : Document} {name : String}

/-- A format that is known is written as it was read. -/
theorem formatted_name {α : Type} {kind : Kind} {ofName? : String → Option α} {toName : α → String}
    (hname : ∀ {n a}, ofName? n = some a → toName a = n) {format : Option String}
    (h : (formatted kind ofName? format).2 = []) :
    (formatted kind ofName? format).1.map toName = format := by
  unfold formatted at h ⊢
  split
  · rfl
  · next n =>
    dsimp only at h
    split
    · next a ha => simp [hname ha]
    · next hnone => simp [hnone] at h

theorem coerced_map {α : Type} (f : Json → Except CoercionFault α) (write : α → Json)
    (d : Document) (key : String) :
    (coerced f (d.get? key)).1.map write = d.coerced? key f write := by
  unfold coerced coerced?
  cases d.get? key with
  | none => rfl
  | some v => cases hv : f v <;> simp [hv, Except.toOption]

section typed

variable {kind : Kind} (ht : d.get? "type" = some (.string name))
  (hk : Kind.ofName? name = some kind)

include ht hk

theorem type_given : Canonical.type kind = Canonical.given "type" (d.text? "type") := by
  rw [Canonical.type, Kind.name_of_ofName? hk, text?, string?_of_get? ht]
  rfl

end typed

section leaves

variable (ht : d.get? "type" = some (.string name))

include ht

theorem form_ofString (hk : Kind.ofName? name = some .string) (h : (ofString d).Faultless) :
    (ofString d).form = d.canonical.members := by
  have hfaults : (coerced Coercion.stringDefault (d.get? "default")).2 = [] := faultless_ofFaults h
  have hdefault := coerced_map Coercion.stringDefault .string d "default"
  have hformat : ((d.string? "format").map StringFormat.ofName).map StringFormat.name =
      d.string? "format" := by
    cases d.string? "format" <;> simp [StringFormat.name_ofName]
  simp only [ofString, hfaults, ofFaults, List.isEmpty_nil, if_true, form, Canonical.leaf,
    Leaf.kind, type_given ht hk, canonical, fields_kind ht hk, Canonical.text, hdefault, hformat]
  simp [row, table, Canonical.description, Canonical.reference, Canonical.text, info, text?]

theorem form_ofBoolean (hk : Kind.ofName? name = some .boolean) (h : (ofBoolean d).Faultless) :
    (ofBoolean d).form = d.canonical.members := by
  have hfaults : (coerced Coercion.booleanDefault (d.get? "default")).2 = [] := faultless_ofFaults h
  have hdefault := coerced_map Coercion.booleanDefault .bool d "default"
  simp only [ofBoolean, hfaults, ofFaults, List.isEmpty_nil, if_true, form, Canonical.leaf,
    Leaf.kind, type_given ht hk, canonical, fields_kind ht hk, hdefault]
  simp [row, table, Canonical.description, Canonical.reference, Canonical.text, info, text?]

theorem form_ofInteger (hk : Kind.ofName? name = some .integer) (h : (ofInteger d).Faultless) :
    (ofInteger d).form = d.canonical.members := by
  obtain ⟨hformatted, hdefault, hminimum, hmaximum⟩ := faultless_ofInteger h
  have hformat := formatted_name IntegerFormat.name_of_ofName? hformatted
  have hmap : ∀ f key, ((coerced f (d.get? key)).1.map Number.integer).map Json.number =
      d.coerced? key f (.number <| .integer ·) := by
    intro f key
    rw [Option.map_map, ← coerced_map]
    rfl
  simp only [ofInteger, hformatted, hdefault, hminimum, hmaximum, ofFaults, List.append_nil,
    List.isEmpty_nil, if_true, form, Canonical.leaf, Leaf.kind, type_given ht hk, canonical,
    fields_kind ht hk, Canonical.text, Canonical.number, hformat, hmap]
  simp [row, table, Canonical.description, Canonical.reference, Canonical.text, info, text?]

theorem form_ofNumber (hk : Kind.ofName? name = some .number) (h : (ofNumber d).Faultless) :
    (ofNumber d).form = d.canonical.members := by
  obtain ⟨hformatted, hdefault, hminimum, hmaximum⟩ := faultless_ofNumber h
  have hformat := formatted_name NumberFormat.name_of_ofName? hformatted
  simp only [ofNumber, hformatted, hdefault, hminimum, hmaximum, ofFaults, List.append_nil,
    List.isEmpty_nil, if_true, form, Canonical.leaf, Leaf.kind, type_given ht hk, canonical,
    fields_kind ht hk, Canonical.text, Canonical.number, hformat, coerced_map]
  simp [row, table, Canonical.description, Canonical.reference, Canonical.text, info, text?]

end leaves

theorem document?_properties (h : (properties d).2 = []) :
    (if d.contains "properties" then some (Json.object (canonicalMembers (properties d).1))
      else none) =
      (d.document? "properties").map fun e => .object (canonicalMembers e.members) := by
  unfold properties at h ⊢
  split at h
  · next hnone => simp [contains, document?, hnone]
  · next members hmembers => simp [contains, document?, hmembers]
  · cases h

theorem map_string_filterMap {values : List Json} (h : ∀ v ∈ values, ∃ s, v = .string s) :
    (values.filterMap Json.string?).map Json.string = values := by
  induction values with
  | nil => rfl
  | cons v values ih =>
    obtain ⟨s, rfl⟩ := h v List.mem_cons_self
    simp [Json.string?, ih fun v hv => h v (List.mem_cons_of_mem _ hv)]

theorem required_map (h : (required d).2 = []) :
    (required d).1.map (fun names => Json.array (names.map .string)) = d.array? "required" := by
  unfold required at h ⊢
  unfold array?
  split
  · next hnone => simp [hnone]
  · next values hvalues =>
    simp only [hvalues] at h ⊢
    -- without faults all values are texts
    have htexts : ∀ v ∈ values, ∃ s, v = .string s := by
      intro v hv
      obtain ⟨i, hi⟩ := List.mem_iff_getElem?.1 hv
      have hmem : (v, i) ∈ values.zipIdx := List.mem_zipIdx_iff_getElem?.2 hi
      have hfault := List.filterMap_eq_nil_iff.1 h _ hmem
      cases v <;> simp [Json.string?] at hfault ⊢
    simp [map_string_filterMap htexts]
  · next other hobject harray hother => simp [hother] at h

theorem distinct_properties (h : d.Distinct) :
    (properties d).1.keys.Nodup ∧ DistinctMembers (properties d).1 := by
  unfold properties
  split
  · exact ⟨List.nodup_nil, trivial⟩
  · next members hmembers =>
    have hd : (Json.object d.members).Distinct := h
    rw [Json.Distinct] at hd
    have hmembers : (Json.object members).Distinct := distinct_of_lookup hd.2 hmembers
    rwa [Json.Distinct] at hmembers
  · exact ⟨List.nodup_nil, trivial⟩

theorem form_object (ht : d.get? "type" = some (.string name))
    (hk : Kind.ofName? name = some .object) (hd : d.Distinct)
    (hrequired : (required d).2 = []) (hproperties : (properties d).2 = []) :
    Canonical.object (info d) (head d) (canonicalMembers (properties d).1) =
      d.canonical.members := by
  have hnodup : (canonicalMembers (properties d).1).keys.Nodup := by
    rw [Members.keys, keys_canonicalMembers]
    exact (distinct_properties hd).1
  have hmembers : (if d.contains "properties" then
        [("properties", Json.object (canonicalMembers (properties d).1))] else []) =
      Canonical.given "properties"
        ((d.document? "properties").map fun e => .object (canonicalMembers e.members)) := by
    rw [← document?_properties hproperties]
    split <;> rfl
  simp only [Canonical.object, head, properties_eq_self hnodup, hmembers, required_map hrequired,
    type_given ht hk, canonical, fields_kind ht hk]
  simp [row, table, Canonical.description, Canonical.reference, Canonical.text, info, text?]

/-- A document without faults is written as its canonical form. -/
theorem form_ofDocument :
    (∀ d, d.Distinct → (ofDocument d).Faultless → (ofDocument d).form = d.canonical.members) ∧
      ∀ members, DistinctMembers members → FaultlessMembers (ofMembers members) →
        forms (ofMembers members) = canonicalMembers members := by
  apply ofDocument.mutual_induct
    (fun d => d.Distinct → (ofDocument d).Faultless → (ofDocument d).form = d.canonical.members)
    (fun members => DistinctMembers members → FaultlessMembers (ofMembers members) →
      forms (ofMembers members) = canonicalMembers members)
  case case1 =>
    intro d site hs _ _
    obtain ⟨htype, hfields⟩ := fields_site hs
    rw [site?, htype] at hs
    obtain ⟨reference, href, rfl⟩ := Option.map_eq_some_iff.1 hs
    have hsite : site? d = some ⟨reference, d.string? "description"⟩ := by simp [site?, htype, href]
    rw [ofDocument_site hsite, form, canonical, hfields]
    simp [row, text?, href, Canonical.given, Canonical.text]
  case case2 =>
    intro d hs ht _ h
    simp [ofDocument_untyped hs ht, Faultless] at h
  case case3 =>
    intro d hs name ht hk ih hd h
    rw [ofDocument_kind hs ht hk] at h ⊢
    simp only [Faultless, List.append_eq_nil_iff] at h
    obtain ⟨⟨hrequired, hproperties⟩, -, hinner⟩ := h
    rw [form, ih (distinct_properties hd).2 hinner]
    exact form_object ht hk hd hrequired hproperties
  case case4 =>
    intro d hs name ht hk items hitems ih hd h
    rw [ofDocument_kind hs ht hk] at h ⊢
    simp only [hitems, Faultless] at h
    simp only [hitems, form, ih (hd.document? hitems) h, Canonical.array, type_given ht hk,
      canonical, fields_kind ht hk]
    simp [row, table, Canonical.description, Canonical.reference, Canonical.text, info, text?,
      Canonical.given, toJson]
  case case5 =>
    intro d hs name ht hk hitems _ h
    simp [ofDocument_kind hs ht hk, hitems, Faultless] at h
  case case6 =>
    intro d hs name ht hk _ h
    rw [ofDocument_kind hs ht hk] at h ⊢
    exact form_ofString ht hk h
  case case7 =>
    intro d hs name ht hk _ h
    rw [ofDocument_kind hs ht hk] at h ⊢
    exact form_ofInteger ht hk h
  case case8 =>
    intro d hs name ht hk _ h
    rw [ofDocument_kind hs ht hk] at h ⊢
    exact form_ofNumber ht hk h
  case case9 =>
    intro d hs name ht hk _ h
    rw [ofDocument_kind hs ht hk] at h ⊢
    exact form_ofBoolean ht hk h
  case case10 =>
    intro d hs name ht hk _ h
    simp [ofDocument_unknown hs ht hk, Faultless] at h
  case case11 =>
    intro d hs other ho ht _ h
    simp [ofDocument_mistyped hs ht ho, Faultless] at h
  case case12 =>
    intro _ _
    rw [ofMembers, canonicalMembers, forms]
  case case13 =>
    intro name ms rest ih ihr hd h
    rw [ofMembers, FaultlessMembers] at h
    rw [ofMembers, forms, canonicalMembers, ihr hd.2 h.2, ih hd.1 h.1]
    rfl
  case case14 =>
    intro name value rest hvalue ihr _ h
    rw [ofMembers] at h
    · simp [FaultlessMembers, Faultless] at h
    · exact hvalue

end Schema

end SchemaForge
