import Mathlib
import SchemaForge.Graph.Document
import SchemaForge.Proofs.Building.Shows
import SchemaForge.Proofs.Canonical.Form
import SchemaForge.Proofs.Canonical.Schema
import SchemaForge.Proofs.Path
/-! Writing a schema after building it, and building it once more from what was written. -/
namespace SchemaForge

open Schema

variable {lib : Library} {w w' : Workspace} {file : Option Path} {shows : NodeId → Property → Prop}
  {s : Schema} {node bound limit : NodeId}

/-- What stands behind a place has no faults if what is shown has none. -/
theorem Edge.faultless (hs : ∀ node p, shows node p → s.Faultless)
    (h : Edge lib w file shows bound s.declaredSite? node) : s.Faultless := by
  cases hsite : s.declaredSite? with
  | some site =>
    rw [eq_reference hsite, Faultless]
    trivial
  | none =>
    rw [hsite] at h
    obtain ⟨-, -, p, -, hshows⟩ := h
    exact hs node p hshows

mutual

/-- A schema with faults is shown nowhere. -/
theorem Shows.faultless : ∀ s {bound p}, Shows lib w file s bound p → s.Faultless
  | .reference site => by
    intro h
    rw [Faultless]
    trivial
  | .faulty context faults => by
    intro h
    rw [Shows] at h
    exact h.elim
  | .leaf info l => by
    intro h
    rw [Faultless]
    trivial
  | .array info items => by
    intro h
    rw [Shows] at h
    obtain ⟨node, -, hedge⟩ := h
    rw [Faultless]
    exact hedge.faultless fun _ _ => Shows.faultless items
  | .object context info head before inner after => by
    intro h
    rw [Shows] at h
    obtain ⟨hbefore, hafter, found, -, hinner⟩ := h
    rw [Faultless]
    exact ⟨hbefore, hafter, hinner.faultless inner⟩

theorem ShowsMembers.faultless {head : ObjectHead} :
    ∀ inner {index bound found}, ShowsMembers lib w file head index inner bound found →
      FaultlessMembers inner
  | [] => by
    intro h
    rw [FaultlessMembers]
    trivial
  | (name, s) :: rest => by
    intro h
    rw [ShowsMembers] at h
    obtain ⟨node, more, -, hedge, hmore⟩ := h
    rw [FaultlessMembers]
    exact ⟨hedge.faultless fun _ _ => Shows.faultless s, hmore.faultless rest⟩

end

/-- A place is written as its reference, or as the schema that stands there. -/
theorem Edge.placed
    (hs : ∀ p, w.graph.property? node = some p → shows node p → node < limit →
      w.graph.membersWithin limit node = s.form)
    (h : Edge lib w file shows bound s.declaredSite? node) (hb : bound ≤ limit) :
    Graph.placed (w.graph.membersWithin limit) node s.declaredSite? = .object s.form := by
  cases hsite : s.declaredSite? with
  | some site =>
    rw [eq_reference hsite, form]
    rfl
  | none =>
    rw [hsite] at h
    obtain ⟨hlt, -, p, hp, hshows⟩ := h
    rw [Graph.placed, hs p hp hshows (Nat.lt_of_lt_of_le hlt hb)]

mutual

/-- A node that shows a schema is written as the schema. All nodes inside have smaller numbers, so
that the depth of the walk is enough. -/
theorem Shows.membersWithin :
    ∀ s {node p limit}, w.graph.property? node = some p → Shows lib w file s node p →
      node < limit → w.graph.membersWithin limit node = s.form
  | .reference site => by
    intro hp h
    rw [Shows] at h
    exact h.elim
  | .faulty context faults => by
    intro hp h
    rw [Shows] at h
    exact h.elim
  | .leaf info l => by
    intro hp h hlt
    rw [Shows] at h
    subst h
    obtain ⟨limit, rfl⟩ := Nat.exists_eq_add_one_of_ne_zero (Nat.ne_zero_of_lt hlt)
    simp only [Graph.membersWithin, hp, form]
  | .array info items => by
    intro hp h hlt
    rw [Shows] at h
    obtain ⟨inner, rfl, hedge⟩ := h
    obtain ⟨limit, rfl⟩ := Nat.exists_eq_add_one_of_ne_zero (Nat.ne_zero_of_lt hlt)
    have hplaced := hedge.placed (fun p => Shows.membersWithin items) (Nat.le_of_lt_succ hlt)
    simp only [Graph.membersWithin, hp, form, hplaced]
  | .object context info head before inner after => by
    intro hp h hlt
    rw [Shows] at h
    obtain ⟨-, -, found, rfl, hinner⟩ := h
    obtain ⟨limit, rfl⟩ := Nat.exists_eq_add_one_of_ne_zero (Nat.ne_zero_of_lt hlt)
    have hforms := hinner.forms inner (Nat.le_of_lt_succ hlt)
    simp only [Graph.membersWithin, hp, form, hforms]

theorem ShowsMembers.forms {head : ObjectHead} :
    ∀ inner {index bound found limit}, ShowsMembers lib w file head index inner bound found →
      bound ≤ limit →
      found.map (fun m => (m.name, Graph.placed (w.graph.membersWithin limit) m.node m.site)) =
        forms inner
  | [] => by
    intro h hb
    rw [ShowsMembers] at h
    subst h
    rw [forms, List.map_nil]
  | (name, s) :: rest => by
    intro h hb
    rw [ShowsMembers] at h
    obtain ⟨inner, more, rfl, hedge, hmore⟩ := h
    have hplaced := hedge.placed (fun p => Shows.membersWithin s) hb
    rw [List.map_cons, forms, hplaced, hmore.forms rest hb]

end

namespace Build

variable {d : Document} {id : NodeId}

/-- What building a typed document leaves behind: its last node shows its schema. -/
theorem shows_document (hl : lib.Regular) (hs : site? d = none)
    (h : document lib file d w = (.ok id, w')) :
    ∃ p, w'.graph.property? id = some p ∧ Shows lib w' file (ofDocument d) id p := by
  have hstep : ∀ {target w id w'}, reference lib [] file target w = (.ok id, w') →
      Step lib [] w w' ∧ Leads lib w' file target id := by
    intro target w id w' h
    have hfollow := follows_reference lib [] file target w
    rw [h] at hfollow
    exact ⟨hfollow.1, hfollow.2 id rfl⟩
  rw [document_apply] at h
  rcases hout : schema (reference lib [] file) add (ofDocument d) w with ⟨e | id', w₁⟩
  · rw [hout] at h
    cases h
  · rw [hout] at h
    cases h
    have hplaced := (placed_schema (.refl lib []) (fun _ _ _ => .trans)
      (fun hw => hw.extends'.retains) step_add (candid_reference hl [] file) hstep).1 add
      (ofDocument d) (candid_ofDocument.1 d) w id w₁ hout
    obtain ⟨-, hedge⟩ := hplaced.edge (fun _ _ _ => .trans) (fun hw => hw.extends'.retains) step_add
    rw [declaredSite?_ofDocument, hs] at hedge
    obtain ⟨hlt, hroot, p, hp, hshows⟩ := hedge
    have hret := (step_settled lib [] w₁ id file).extends'.retains
    exact ⟨p, (hret.property hlt hroot).trans hp, hshows.mono hret (Nat.le_refl id) _⟩

/-- Building a typed document and writing what has been built gives the canonical form of the
document, and building that form instead gives the same node of the same workspace. -/
theorem document_eq_canonical (m : FileMap) (includeDirs : List Path) (file : Option Path)
    (d : Document) (hd : d.Distinct) (ht : d.contains "type" = true) (w w' : Workspace)
    (id : NodeId) (h : document (m.library includeDirs) file d w = (.ok id, w')) :
    w'.graph.document id = d.canonical ∧
      document (m.library includeDirs) file (w'.graph.document id) w = (.ok id, w') := by
  have hs : site? d = none := by rw [site?, if_pos ht]
  obtain ⟨p, hp, hshows⟩ := shows_document (m.regular_library includeDirs) hs h
  have hfaultless := hshows.faultless
  have hdocument : w'.graph.document id = d.canonical := by
    have hform := hshows.membersWithin _ hp (Graph.lt_of_property? hp)
    rw [form_ofDocument.1 d hd hfaultless] at hform
    rw [Graph.document, hform]
  refine ⟨hdocument, ?_⟩
  rw [hdocument, document_apply, ofDocument_canonical.1 d hfaultless, ← document_apply]
  exact h

/-- A document that refers to a file, gives a default loosely and has members in another order. -/
def household : Document where
  members := [
    ("properties", .object [
      ("owner", .object [("title", .string "T"), ("description", .string "who"),
        ("$ref", .string "file:///name.json")]),
      ("flags", .object [
        ("items", .object [("default", .string "yes"), ("type", .string "boolean")]),
        ("type", .string "array"), ("note", .null)])]),
    ("required", .array [.string "owner"]), ("type", .string "object"), ("$id", .string "H")]

def householdFiles : FileMap where
  currentDir := ⟨"/"⟩
  files := [(⟨"/name.json"⟩, "\x7b\"type\":\"string\"\x7d")]

theorem reference_household : ∃ w,
    reference (householdFiles.library []) [] none "file:///name.json" .empty = (.ok 0, w) := by
  have hlocate : (householdFiles.library []).locate none "file:///name.json" =
      .ok ⟨"/name.json"⟩ := by rfl
  have hread : Document.read ⟨"/name.json"⟩ "\x7b\"type\":\"string\"\x7d" =
      .ok ⟨[("type", .string "string")]⟩ := by cbv
  have hschema : ofDocument ⟨[("type", .string "string")]⟩ =
      .leaf ⟨none, none⟩ (.string none none) := by cbv
  have hr := Registry.resolve_new (r := .empty) hlocate rfl rfl hread
  have h : reference (householdFiles.library []) [] none "file:///name.json" .empty = _ :=
    reference_typed hr rfl rfl (by rw [hschema]; rfl)
  dsimp only at h
  rw [hschema] at h
  exact ⟨_, h⟩

theorem document_household : ∃ id w,
    document (householdFiles.library []) none household .empty = (.ok id, w) := by
  have hschema : ofDocument household =
      .object "H" ⟨none, none⟩ ⟨some "H", none, none, true, some ["owner"]⟩ []
        [("owner", .reference ⟨"file:///name.json", some "who"⟩),
          ("flags", .array ⟨none, none⟩ (.leaf ⟨none, none⟩ (.boolean (some true))))] [] := by cbv
  obtain ⟨w, hw⟩ := reference_household
  rw [document_apply, hschema]
  simp only [schema, members_cons, bind_apply, declaredSite?, hw]
  exact ⟨_, _, rfl⟩

theorem document_eq_canonical_household :
    household.Distinct ∧ household.contains "type" = true ∧ ∃ id w,
      document (householdFiles.library []) none household .empty = (.ok id, w) ∧
      w.graph.document id = ⟨[
        ("$id", .string "H"), ("type", .string "object"),
        ("properties", .object [
          ("owner", .object [
            ("$ref", .string "file:///name.json"), ("description", .string "who")]),
          ("flags", .object [("type", .string "array"),
            ("items", .object [("type", .string "boolean"), ("default", .bool true)])])]),
        ("required", .array [.string "owner"])]⟩ ∧
      document (householdFiles.library []) none (w.graph.document id) .empty = (.ok id, w) := by
  have hdistinct : household.Distinct := by
    simp [household, Document.Distinct, Document.toJson, Json.Distinct, DistinctMembers,
      DistinctItems, Members.keys]
  obtain ⟨id, w, h⟩ := document_household
  obtain ⟨hcanonical, hagain⟩ :=
    document_eq_canonical householdFiles [] none household hdistinct rfl .empty w id h
  refine ⟨hdistinct, rfl, id, w, h, ?_, hagain⟩
  rw [hcanonical]
  cbv

end Build

end SchemaForge
