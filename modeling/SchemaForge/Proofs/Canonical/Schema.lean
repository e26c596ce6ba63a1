import SchemaForge.Proofs.Canonical.Fields
/-! The canonical form of a document says the same schema. -/
namespace SchemaForge

namespace Coercion

theorem clamp_clamp (i : Int) : clamp (clamp i) = clamp i := by
  have : int64Min ≤ int64Max := by decide
  unfold clamp
  omega

theorem integerDefault_written (v : Json) (i : Int) (h : integerDefault v = .ok i) :
    integerDefault (.number (.integer i)) = .ok i := by
  have hi : clamp i = i := by
    unfold integerDefault at h
    split at h
    · cases h
      unfold numberToInt
      split <;> exact clamp_clamp _
    · split at h
      · cases h
        unfold Reading.toInt
        split
        · exact clamp_clamp _
        · split <;> decide
        · decide
      · cases h
    · cases h
      unfold boolNumber
      split <;> decide
    · cases h
  exact congrArg Except.ok hi

theorem integerBound_written (v : Json) (i : Int) (h : integerBound v = .ok i) :
    integerBound (.number (.integer i)) = .ok i := by
  unfold integerBound at h
  split at h
  · next n =>
    apply integerDefault_written (.number n)
    exact h
  · cases h

end Coercion

namespace Schema

open Document

variable {d : Document} {name : String} {kind : Kind} {faults : List Fault} {s : Schema}

/-- A value that has been coerced is not changed by coercing it again. -/
theorem coerced_coerced? {α : Type} {key : String} {f : Json → Except CoercionFault α}
    {write : α → Json} (hf : ∀ v a, f v = .ok a → f (write a) = .ok a)
    (h : (coerced f (d.get? key)).2 = []) :
    coerced f (d.coerced? key f write) = coerced f (d.get? key) := by
  unfold coerced?
  cases hv : d.get? key with
  | none => rfl
  | some v =>
    cases hfv : f v with
    | error e => simp [coerced, hv, hfv] at h
    | ok a => simp [coerced, hfv, hf v a hfv, Except.toOption]

section typed

variable (ht : d.get? "type" = some (.string name))

include ht

/-- The fields of a kind are found in the canonical form. -/
theorem ofString_canonical (hk : Kind.ofName? name = some .string) (h : (ofString d).Faultless) :
    ofString d.canonical = ofString d := by
  have hfaults : (coerced Coercion.stringDefault (d.get? "default")).2 = [] := faultless_ofFaults h
  have hdefault :
      d.canonical.get? "default" = d.coerced? "default" Coercion.stringDefault .string := by
    simp [get?_typed ht hk, table, List.lookup_cons]
  have hformat : d.canonical.string? "format" = d.string? "format" := by
    rw [string?, get?_typed ht hk, ← bind_text?]
    simp [table, List.lookup_cons]
  have hwritten : ∀ v s, Coercion.stringDefault v = .ok s →
      Coercion.stringDefault (.string s) = .ok s := fun _ _ _ => rfl
  have hcoerced := coerced_coerced? hwritten hfaults
  simp only [ofString, hdefault, hformat, hcoerced, info_canonical ht hk]
  simp only [hfaults, ofFaults, List.isEmpty_nil, if_true]

theorem ofBoolean_canonical (hk : Kind.ofName? name = some .boolean)
    (h : (ofBoolean d).Faultless) : ofBoolean d.canonical = ofBoolean d := by
  have hfaults : (coerced Coercion.booleanDefault (d.get? "default")).2 = [] := faultless_ofFaults h
  have hdefault :
      d.canonical.get? "default" = d.coerced? "default" Coercion.booleanDefault .bool := by
    simp [get?_typed ht hk, table, List.lookup_cons]
  have hwritten : ∀ v b, Coercion.booleanDefault v = .ok b →
      Coercion.booleanDefault (.bool b) = .ok b := fun _ _ _ => rfl
  have hcoerced := coerced_coerced? hwritten hfaults
  simp only [ofBoolean, hdefault, hcoerced, info_canonical ht hk]
  simp only [hfaults, ofFaults, List.isEmpty_nil, if_true]

theorem ofInteger_canonical (hk : Kind.ofName? name = some .integer)
    (h : (ofInteger d).Faultless) : ofInteger d.canonical = ofInteger d := by
  obtain ⟨hformatted, hdefault, hminimum, hmaximum⟩ := faultless_ofInteger h
  have hformat : d.canonical.string? "format" = d.string? "format" := by
    rw [string?, get?_typed ht hk, ← bind_text?]
    simp [table, List.lookup_cons]
  have hget : d.canonical.get? "default" =
        d.coerced? "default" Coercion.integerDefault (.number <| .integer ·) ∧
      d.canonical.get? "minimum" =
        d.coerced? "minimum" Coercion.integerBound (.number <| .integer ·) ∧
      d.canonical.get? "maximum" =
        d.coerced? "maximum" Coercion.integerBound (.number <| .integer ·) := by
    simp [get?_typed ht hk, table, List.lookup_cons]
  simp only [ofInteger, hformat, hget, info_canonical ht hk,
    coerced_coerced? Coercion.integerDefault_written hdefault,
    coerced_coerced? Coercion.integerBound_written hminimum,
    coerced_coerced? Coercion.integerBound_written hmaximum]
  simp only [hformatted, hdefault, hminimum, hmaximum, ofFaults, List.append_nil,
    List.isEmpty_nil, if_true]

theorem ofNumber_canonical (hk : Kind.ofName? name = some .number)
    (h : (ofNumber d).Faultless) : ofNumber d.canonical = ofNumber d := by
  obtain ⟨hformatted, hdefault, hminimum, hmaximum⟩ := faultless_ofNumber h
  have hformat : d.canonical.string? "format" = d.string? "format" := by
    rw [string?, get?_typed ht hk, ← bind_text?]
    simp [table, List.lookup_cons]
  have hget : d.canonical.get? "default" = d.coerced? "default" Coercion.numberDefault .number ∧
      d.canonical.get? "minimum" = d.coerced? "minimum" Coercion.numberBound .number ∧
      d.canonical.get? "maximum" = d.coerced? "maximum" Coercion.numberBound .number := by
    simp [get?_typed ht hk, table, List.lookup_cons]
  have hvalue : ∀ v n, Coercion.numberDefault v = .ok n →
      Coercion.numberDefault (.number n) = .ok n := fun _ _ _ => rfl
  have hbound : ∀ v n, Coercion.numberBound v = .ok n →
      Coercion.numberBound (.number n) = .ok n := fun _ _ _ => rfl
  simp only [ofNumber, hformat, hget, info_canonical ht hk,
    coerced_coerced? hvalue hdefault, coerced_coerced? hbound hminimum,
    coerced_coerced? hbound hmaximum]
  simp only [hformatted, hdefault, hminimum, hmaximum, ofFaults, List.append_nil,
    List.isEmpty_nil, if_true]

variable (hk : Kind.ofName? name = some .object)

include hk

theorem texts_canonical : d.canonical.string? "$id" = d.string? "$id" ∧
    d.canonical.string? "$schema" = d.string? "$schema" ∧
    d.canonical.string? "title" = d.string? "title" ∧
    d.canonical.string? "type" = d.string? "type" := by
  simp only [string?, get?_typed ht hk]
  simp [table, List.lookup_cons, bind_text?, string?]

/-- `required` is kept as it is. -/
theorem required_canonical (h : (required d).2 = []) : required d.canonical = required d := by
  have hget : d.canonical.get? "required" = d.get? "required" := by
    have harray : d.canonical.get? "required" = d.array? "required" := by
      simp [get?_typed ht hk, table, List.lookup_cons]
    rw [harray, array?]
    unfold required at h
    split at h
    · next hnone => rw [hnone]
    · next items hitems => rw [hitems]
    · cases h
  rw [required, required, hget]

/-- Members keep their names, their order and their number. -/
theorem properties_canonical (h : (properties d).2 = []) :
    properties d.canonical = (canonicalMembers (properties d).1, []) ∧
      d.canonical.contains "properties" = d.contains "properties" := by
  have hget : d.canonical.get? "properties" =
      (d.document? "properties").map fun e => .object (canonicalMembers e.members) := by
    simp [get?_typed ht hk, table, List.lookup_cons]
  unfold properties at h
  split at h
  · next hnone => simp [properties, contains, hget, document?, hnone, canonicalMembers]
  · next members hmembers => simp [properties, contains, hget, document?, hmembers]
  · cases h

end typed

theorem isEmpty_canonicalMembers (members : Members) :
    (canonicalMembers members).isEmpty = members.isEmpty := by
  cases members with
  | nil => rw [canonicalMembers]
  | cons m rest =>
    obtain ⟨name, v⟩ := m
    cases v <;> simp [canonicalMembers]

theorem site?_canonical {site : RefSite} (hs : site? d = some site) :
    site? d.canonical = some site := by
  obtain ⟨htype, hfields⟩ := fields_site hs
  have hcontains : d.canonical.contains "type" = false := by
    simp [contains, get?_canonical, hfields, List.lookup_cons]
  have hstring : d.canonical.string? "$ref" = d.string? "$ref" ∧
      d.canonical.string? "description" = d.string? "description" := by
    simp only [string?, get?_canonical, hfields]
    simp [List.lookup_cons, bind_text?, string?]
  rw [← hs, site?, site?, hcontains, htype, hstring.1, hstring.2]

/-- The canonical form of a document without faults says the same schema. -/
theorem ofDocument_canonical :
    (∀ d, (ofDocument d).Faultless → ofDocument d.canonical = ofDocument d) ∧
      ∀ members, FaultlessMembers (ofMembers members) →
        ofMembers (canonicalMembers members) = ofMembers members := by
  apply ofDocument.mutual_induct
    (fun d => (ofDocument d).Faultless → ofDocument d.canonical = ofDocument d)
    (fun members => FaultlessMembers (ofMembers members) →
      ofMembers (canonicalMembers members) = ofMembers members)
  case case1 =>
    intro d site hs _
    rw [ofDocument_site hs, ofDocument_site (site?_canonical hs)]
  case case2 =>
    intro d hs ht h
    simp [ofDocument_untyped hs ht, Faultless] at h
  case case3 =>
    intro d hs name ht hk ih h
    rw [ofDocument_kind hs ht hk] at h ⊢
    rw [ofDocument_kind (site?_typed ht hk) (type_canonical ht hk) hk]
    simp only [Faultless, List.append_eq_nil_iff] at h
    obtain ⟨⟨hrequired, hproperties⟩, -, hinner⟩ := h
    obtain ⟨hid, hschema, htitle, htype⟩ := texts_canonical ht hk
    have hcanonical := properties_canonical ht hk hproperties
    simp only [context, head, idFaults, hid, hschema, htitle, htype, info_canonical ht hk,
      required_canonical ht hk hrequired, hcanonical, hproperties, ih hinner,
      isEmpty_canonicalMembers]
  case case4 =>
    intro d hs name ht hk items hitems ih h
    rw [ofDocument_kind hs ht hk] at h ⊢
    rw [ofDocument_kind (site?_typed ht hk) (type_canonical ht hk) hk]
    have hcanonical : d.canonical.document? "items" = some items.canonical := by
      have hget : d.canonical.get? "items" = some items.canonical.toJson := by
        simp [get?_typed ht hk, table, List.lookup_cons, hitems]
      rw [document?, hget, toJson]
    simp only [hitems, Faultless] at h
    simp only [hitems, hcanonical, info_canonical ht hk, ih h]
  case case5 =>
    intro d hs name ht hk hitems h
    simp [ofDocument_kind hs ht hk, hitems, Faultless] at h
  case case6 =>
    intro d hs name ht hk h
    rw [ofDocument_kind hs ht hk] at h ⊢
    rw [ofDocument_kind (site?_typed ht hk) (type_canonical ht hk) hk]
    exact ofString_canonical ht hk h
  case case7 =>
    intro d hs name ht hk h
    rw [ofDocument_kind hs ht hk] at h ⊢
    rw [ofDocument_kind (site?_typed ht hk) (type_canonical ht hk) hk]
    exact ofInteger_canonical ht hk h
  case case8 =>
    intro d hs name ht hk h
    rw [ofDocument_kind hs ht hk] at h ⊢
    rw [ofDocument_kind (site?_typed ht hk) (type_canonical ht hk) hk]
    exact ofNumber_canonical ht hk h
  case case9 =>
    intro d hs name ht hk h
    rw [ofDocument_kind hs ht hk] at h ⊢
    rw [ofDocument_kind (site?_typed ht hk) (type_canonical ht hk) hk]
    exact ofBoolean_canonical ht hk h
  case case10 =>
    intro d hs name ht hk h
    simp [ofDocument_unknown hs ht hk, Faultless] at h
  case case11 =>
    intro d hs other ho ht h
    simp [ofDocument_mistyped hs ht ho, Faultless] at h
  case case12 =>
    intro _
    rw [canonicalMembers]
  case case13 =>
    intro name ms rest ih ihr h
    rw [ofMembers, FaultlessMembers] at h
    rw [canonicalMembers, ofMembers, ofMembers, ihr h.2]
    change (name, ofDocument (canonical ⟨ms⟩)) :: ofMembers rest = _
    rw [ih h.1]
  case case14 =>
    intro name value rest hvalue ihr h
    rw [ofMembers] at h
    · simp [FaultlessMembers, Faultless] at h
    · exact hvalue

end Schema

end SchemaForge
