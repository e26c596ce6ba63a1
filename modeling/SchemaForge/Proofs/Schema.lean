import SchemaForge.Schema
/-! Schemas of documents, kind by kind. Where they are faulty they name their faults. -/
namespace SchemaForge

mutual

/-- Faulty parts of a schema name their faults. -/
def Schema.Candid : Schema → Prop
  | .faulty _ faults => faults ≠ []
  | .array _ items => items.Candid
  | .object _ _ _ _ inner _ => CandidMembers inner
  | .reference _ | .leaf .. => True

def CandidMembers : List (String × Schema) → Prop
  | [] => True
  | (_, s) :: rest => s.Candid ∧ CandidMembers rest

end

mutual

/-- No part of a schema has a fault. -/
def Schema.Faultless : Schema → Prop
  | .faulty .. => False
  | .array _ items => items.Faultless
  | .object _ _ _ before inner after => before = [] ∧ after = [] ∧ FaultlessMembers inner
  | .reference _ | .leaf .. => True

def FaultlessMembers : List (String × Schema) → Prop
  | [] => True
  | (_, s) :: rest => s.Faultless ∧ FaultlessMembers rest

end

namespace Schema

variable {d : Document} {name : String} {kind : Kind} {site : RefSite} {faults : List Fault}
  {s : Schema}

theorem eq_reference (h : s.declaredSite? = some site) : s = .reference site := by
  cases s <;> cases h
  rfl

theorem ofDocument_site (hs : site? d = some site) : ofDocument d = .reference site := by
  rw [ofDocument]
  simp only [hs]

theorem ofDocument_untyped (hs : site? d = none) (ht : d.get? "type" = none) :
    ofDocument d = .faulty (context d) [.typeMissing] := by
  rw [ofDocument]
  simp only [hs, ht]

theorem ofDocument_mistyped {other : Json} (hs : site? d = none)
    (ht : d.get? "type" = some other) (ho : ∀ name, other ≠ .string name) :
    ofDocument d = .faulty (context d) [.typeNotString other.kind] := by
  rw [ofDocument]
  simp only [hs, ht]

theorem ofDocument_unknown (hs : site? d = none) (ht : d.get? "type" = some (.string name))
    (hk : Kind.ofName? name = none) : ofDocument d = .faulty (context d) [.typeUnknown name] := by
  rw [ofDocument]
  simp only [hs, ht, hk]

/-- A document of a known kind is read by the rules of its kind. -/
theorem ofDocument_kind (hs : site? d = none) (ht : d.get? "type" = some (.string name))
    (hk : Kind.ofName? name = some kind) :
    ofDocument d =
      match kind with
      | .object =>
        .object (context d) (info d) (head d) ((required d).2 ++ (properties d).2)
          (ofMembers (properties d).1) (idFaults d (properties d).1)
      | .array =>
        match d.document? "items" with
        | some items => .array (info d) (ofDocument items)
        | none => .faulty (context d) [.itemsMissing]
      | .string => ofString d
      | .integer => ofInteger d
      | .number => ofNumber d
      | .boolean => ofBoolean d := by
  rw [ofDocument]
  simp only [hs, ht, hk]
  cases kind with
  | array =>
    dsimp only
    split <;> simp_all only
  | _ => rfl

theorem declaredSite?_ofFaults (h : s.declaredSite? = none) :
    (ofFaults d faults s).declaredSite? = none := by
  unfold ofFaults
  split
  · exact h
  · rfl

theorem declaredSite?_ofDocument (d : Document) : (ofDocument d).declaredSite? = site? d := by
  cases hs : site? d with
  | some site => rw [ofDocument_site hs, declaredSite?]
  | none =>
    cases ht : d.get? "type" with
    | none => exact congrArg declaredSite? (ofDocument_untyped hs ht)
    | some value =>
      by_cases hv : ∃ name, value = .string name
      · obtain ⟨name, rfl⟩ := hv
        cases hk : Kind.ofName? name with
        | none => exact congrArg declaredSite? (ofDocument_unknown hs ht hk)
        | some kind =>
          rw [ofDocument_kind hs ht hk]
          cases kind with
          | object => rfl
          | array => dsimp only; split <;> rfl
          | _ => exact declaredSite?_ofFaults rfl
      · have hname : ∀ name, value ≠ .string name := fun name h => hv ⟨name, h⟩
        exact congrArg declaredSite? (ofDocument_mistyped hs ht hname)

theorem candid_ofFaults (hs : s.Candid) : (ofFaults d faults s).Candid := by
  unfold ofFaults
  split
  · exact hs
  · next h => simpa [Candid] using h

theorem faultless_ofFaults (h : (ofFaults d faults s).Faultless) : faults = [] := by
  unfold ofFaults at h
  split at h
  · next hempty => simpa using hempty
  · simp [Faultless] at h

theorem faultless_ofInteger (h : (ofInteger d).Faultless) :
    (formatted .integer IntegerFormat.ofName? (d.string? "format")).2 = [] ∧
      (coerced Coercion.integerDefault (d.get? "default")).2 = [] ∧
      (coerced Coercion.integerBound (d.get? "minimum")).2 = [] ∧
      (coerced Coercion.integerBound (d.get? "maximum")).2 = [] := by
  have hfaults := faultless_ofFaults h
  simp only [List.append_eq_nil_iff] at hfaults
  obtain ⟨⟨⟨hformat, hdefault⟩, hminimum⟩, hmaximum⟩ := hfaults
  exact ⟨hformat, hdefault, hminimum, hmaximum⟩

theorem faultless_ofNumber (h : (ofNumber d).Faultless) :
    (formatted .number NumberFormat.ofName? (d.string? "format")).2 = [] ∧
      (coerced Coercion.numberDefault (d.get? "default")).2 = [] ∧
      (coerced Coercion.numberBound (d.get? "minimum")).2 = [] ∧
      (coerced Coercion.numberBound (d.get? "maximum")).2 = [] := by
  have hfaults := faultless_ofFaults h
  simp only [List.append_eq_nil_iff] at hfaults
  obtain ⟨⟨⟨hformat, hdefault⟩, hminimum⟩, hmaximum⟩ := hfaults
  exact ⟨hformat, hdefault, hminimum, hmaximum⟩

/-- What a document says is candid. -/
theorem candid_ofDocument :
    (∀ d, (ofDocument d).Candid) ∧ ∀ members, CandidMembers (ofMembers members) := by
  have hleaf : ∀ {d faults info leaf}, (ofFaults d faults (.leaf info leaf)).Candid :=
    fun {d faults info leaf} => candid_ofFaults (by simp [Candid])
  apply ofDocument.mutual_induct (fun d => (ofDocument d).Candid)
    (fun members => CandidMembers (ofMembers members))
  case case1 => intro d site hs; simp [ofDocument_site hs, Candid]
  case case2 => intro d hs ht; simp [ofDocument_untyped hs ht, Candid]
  case case3 =>
    intro d hs name ht hk ih
    simpa only [ofDocument_kind hs ht hk, Candid] using ih
  case case4 =>
    intro d hs name ht hk items hitems ih
    simpa only [ofDocument_kind hs ht hk, hitems, Candid] using ih
  case case5 =>
    intro d hs name ht hk hitems
    simp [ofDocument_kind hs ht hk, hitems, Candid]
  case case6 | case7 | case8 | case9 =>
    intro d hs name ht hk
    rw [ofDocument_kind hs ht hk]
    exact hleaf
  case case10 => intro d hs name ht hk; simp [ofDocument_unknown hs ht hk, Candid]
  case case11 =>
    intro d hs other ho ht
    simp [ofDocument_mistyped hs ht ho, Candid]
  case case12 => simp only [ofMembers, CandidMembers]
  case case13 =>
    intro name ms rest ih ihr
    simpa only [ofMembers, CandidMembers] using ⟨ih, ihr⟩
  case case14 =>
    intro name value rest hvalue ihr
    rw [ofMembers]
    · simpa [CandidMembers, Candid] using ihr
    · exact hvalue

end Schema

end SchemaForge
