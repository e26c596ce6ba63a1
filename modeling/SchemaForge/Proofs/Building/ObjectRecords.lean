import SchemaForge.Proofs.Building.Attribution
import SchemaForge.Proofs.Building.Records
/-! Records of objects: they are consistent in themselves, and those of the documents that the
objects were built from. -/
namespace SchemaForge

open Schema

variable {lib : Library} {handed : Document → Prop} {docs : List Document} {d : Document}
  {members : Members} {found : List Member}

/-- The members of the `properties` of a distinct document have names of their own. -/
theorem Document.Distinct.declared (h : d.Distinct) :
    (Members.keys d.declared).Nodup ∧ DistinctMembers d.declared := by
  cases he : d.document? "properties" with
  | none => rw [Document.declared, he]; exact ⟨List.nodup_nil, trivial⟩
  | some e =>
    have hd : (Json.object e.members).Distinct := h.document? he
    rw [Json.Distinct] at hd
    rw [Document.declared, he]
    exact hd

theorem distinct_of_mem {name : String} {v : Json} (h : DistinctMembers members)
    (hv : (name, v) ∈ members) : v.Distinct := by
  induction members with
  | nil => cases hv
  | cons m rest ih =>
    obtain ⟨hm, hrest⟩ := h
    rcases List.mem_cons.1 hv with heq | hv
    · cases heq
      exact hm
    · exact ih hrest hv

/-- What building meets is distinct if all that is handed over is. -/
theorem Library.Offers.distinct (h : lib.Offers handed d) (hd : ∀ d, handed d → d.Distinct) :
    d.Distinct := by
  induction h with
  | file hreads =>
    obtain ⟨text, -, hread⟩ := hreads
    exact Document.distinct_of_read hread
  | handed h => exact hd _ h
  | items _ he ih => exact ih.document? he
  | member _ hms ih => exact distinct_of_mem ih.declared.2 hms

namespace Schema

/-- The head of an object requires the texts among the items of `required`. -/
theorem requires_head (d : Document) (name : String) :
    (Schema.head d).requires name = true ↔
      ∃ names, d.get? "required" = some (.array names) ∧ .string name ∈ names := by
  have hrequired : (Schema.head d).requires name = ((required d).1.getD []).contains name := rfl
  rw [hrequired, required]
  cases d.get? "required" with
  | none => simp
  | some value =>
    cases value with
    | array items =>
      simp only [Option.getD_some, List.contains_iff_mem, List.mem_filterMap, Option.some.injEq,
        Json.array.injEq, exists_eq_left']
      constructor
      · rintro ⟨v, hv, hname⟩
        cases v with
        | string text => cases hname; exact hv
        | _ => cases hname
      · exact fun hv => ⟨_, hv, rfl⟩
    | _ => simp

theorem site?_eq_some_iff {site : RefSite} :
    site? d = some site ↔ d.contains "type" = false ∧ d.string? "$ref" = some site.reference ∧
      d.string? "description" = site.description := by
  obtain ⟨reference, description⟩ := site
  rw [site?]
  split
  · next htype => simp [htype]
  · next htype => simp [htype]

/-- An object that declares members has an id. -/
theorem idText_of_idFaults (h : d.idFaults = []) (hd : d.declared ≠ []) :
    (Schema.head d).idText ≠ "" := by
  intro hid
  have hhead : (Schema.head d).idText = (d.string? "$id").getD "" := rfl
  rw [hhead] at hid
  have hmissing : d.string? "$id" = none ∨ d.string? "$id" = some "" := by
    cases hs : d.string? "$id" with
    | none => exact Or.inl rfl
    | some text =>
      rw [hs] at hid
      exact Or.inr (congrArg some hid)
  rw [Document.idFaults, if_pos ⟨hd, hmissing⟩] at h
  cases h

theorem declaresProperties_of_declared (hd : d.declared ≠ []) :
    (Schema.head d).declaresProperties = true := by
  have hhead : (Schema.head d).declaresProperties = (d.get? "properties").isSome := rfl
  rw [hhead]
  cases hp : d.get? "properties" with
  | none => exact absurd (by rw [Document.declared, Document.document?, hp]; rfl) hd
  | some value => rfl

end Schema

/-- The record of an object is consistent in itself. -/
structure Consistent (head : ObjectHead) (members : List Member) : Prop where
  names : (members.map Member.name).Nodup
  index : ∀ (k : Nat) (m : Member), members[k]? = some m → m.index = k
  optional : ∀ m ∈ members, m.optional = true ↔ m.name ∉ head.required.getD []
  id : members ≠ [] → head.idText ≠ ""
  declares : members ≠ [] → head.declaresProperties = true

theorem consistent_nil (head : ObjectHead) : Consistent head [] := by
  refine ⟨List.nodup_nil, ?_, ?_, fun hne => absurd rfl hne, fun hne => absurd rfl hne⟩
  · intro k m hk
    cases hk
  · intro m hm
    exact absurd hm List.not_mem_nil

/-- The record of an object is that of a document: its members are those of the `properties`, in
their order, and all but those in `required` are optional. A member has a reference if its document
has one in place of a type, and otherwise a node of its own with this document. -/
structure RecordOf (docs : List Document) (d : Document) (head : ObjectHead)
    (members : List Member) : Prop where
  head : head = Schema.head d
  names : members.map Member.name = Members.keys d.declared
  optional : ∀ m ∈ members, m.optional = true ↔
    ¬ ∃ names, d.get? "required" = some (.array names) ∧ .string m.name ∈ names
  member : ∀ (k : Nat) (m : Member), members[k]? = some m → ∃ e : Document,
    d.declared[k]? = some (m.name, .object e.members) ∧
    (∀ site, m.site = some site ↔ e.contains "type" = false ∧
      e.string? "$ref" = some site.reference ∧ e.string? "description" = site.description) ∧
    (m.site = none → docs[m.node]? = some e)

/-- An object with all members of its document is consistent. -/
theorem RecordsMembers.consistent (h : RecordsMembers docs (Schema.head d) 0 d.declared found)
    (hid : d.idFaults = []) (hd : d.Distinct) :
    Consistent (Schema.head d) found ∧ RecordOf docs d (Schema.head d) found := by
  obtain ⟨hnames, hget⟩ := h.get
  have hdeclared : found ≠ [] → d.declared ≠ [] := by
    intro hne hnil
    rw [hnil] at hnames
    exact hne (List.map_eq_nil_iff.1 hnames)
  have hoptional : ∀ m ∈ found, m.optional = !(Schema.head d).requires m.name := by
    intro m hm
    obtain ⟨k, hk⟩ := List.mem_iff_getElem?.1 hm
    exact (hget k m hk).2.1
  refine ⟨⟨?_, ?_, ?_, ?_, ?_⟩, rfl, hnames, ?_, ?_⟩
  · exact hnames ▸ hd.declared.1
  · intro k m hk
    exact (hget k m hk).1.trans (Nat.zero_add k)
  · intro m hm
    rw [hoptional m hm, ObjectHead.requires]
    simp
  · exact fun hne => idText_of_idFaults hid (hdeclared hne)
  · exact fun hne => declaresProperties_of_declared (hdeclared hne)
  · intro m hm
    rw [hoptional m hm, ← requires_head]
    simp
  · intro k m hk
    obtain ⟨-, -, ms, hms, hsite, hnode⟩ := hget k m hk
    refine ⟨⟨ms⟩, hms, fun site => ?_, hnode⟩
    rw [hsite, site?_eq_some_iff]

namespace Workspace

open Build

/-- The records of objects are consistent. After a row of calls, whatever their outcomes, each node
has a document: that of its file, if it is the root of one, and in any case one that a file holds,
or that was handed over, or that lies inside such a document. The record of each object is
consistent in itself and that of its document, but for the places that a file has reserved. These
are bare. -/
theorem consistent_after (lib : Library) (hl : lib.Regular) (calls : List Call)
    (hd : ∀ file d, .document file d ∈ calls → d.Distinct) :
    let g := (after lib calls).graph
    ∃ docs : List Document, docs.length = g.size ∧
      (∀ d ∈ docs, lib.Offers (fun d => ∃ file, .document file d ∈ calls) d) ∧
      (∀ id f, g.isFileRoot id = true → g.file? id = some f →
        ∃ d, docs[id]? = some d ∧ lib.Reads f d) ∧
      ∀ id info head members, g.property? id = some ⟨info, .object head members⟩ →
        Consistent head members ∧
        ((⟨info, .object head members⟩ : Property) = .reserved ∧ g.isFileRoot id = true ∨
          ∃ d, docs[id]? = some d ∧ info = Schema.info d ∧ RecordOf docs d head members) := by
  obtain ⟨docs, h⟩ := documented_after hl calls
  refine ⟨docs, h.length, h.offered, fun id f => h.root, fun id info head members hp => ?_⟩
  have hlt : id < docs.length := h.length ▸ Graph.lt_of_property? hp
  have hdoc := List.getElem?_eq_getElem hlt
  have hdistinct : docs[id].Distinct :=
    (h.offered _ (List.getElem_mem hlt)).distinct fun d hmem => hmem.elim fun file => hd file d
  rcases h.records hdoc hp with ⟨hreserved, hroot⟩ | hrecords
  · cases hreserved
    exact ⟨consistent_nil _, Or.inl ⟨rfl, hroot⟩⟩
  · cases hrecords with
    | object _ hid hfound =>
      obtain ⟨hconsistent, hrecord⟩ := hfound.consistent hid hdistinct
      exact ⟨hconsistent, Or.inr ⟨_, hdoc, rfl, hrecord⟩⟩

/-- A gate with a lock, and an owner who has a file. -/
def gateDocument : Document where
  members := [("$id", .string "g"), ("type", .string "object"),
    ("properties", .object [
      ("owner", .object [("$ref", .string "file:///owner"), ("description", .string "who")]),
      ("lock", .object [("type", .string "integer")])]),
    ("required", .array [.string "lock"])]

theorem distinct_gate : gateDocument.Distinct := by
  simp [gateDocument, Document.Distinct, Document.toJson, Json.Distinct, DistinctMembers,
    DistinctItems, Members.keys]

theorem document_gate : ∃ w, document houseLibrary none gateDocument .empty = (.ok 3, w) ∧
    w.graph.property? 3 = some ⟨⟨none, none⟩, .object ⟨some "g", none, none, true, some ["lock"]⟩
      [⟨"owner", 0, true, 0, some ⟨"file:///owner", some "who"⟩⟩, ⟨"lock", 1, false, 2, none⟩]⟩ := by
  have hschema : ofDocument gateDocument =
      .object "g" ⟨none, none⟩ ⟨some "g", none, none, true, some ["lock"]⟩ []
        [("owner", .reference ⟨"file:///owner", some "who"⟩),
          ("lock", .leaf ⟨none, none⟩ (.integer none none none none))] [] := by cbv
  obtain ⟨text, ht, hd⟩ := reads_owner
  have hr := Registry.resolve_new (r := .empty) (locate_owner none) rfl ht hd
  have hout : reference houseLibrary [] none "file:///owner" .empty = _ :=
    reference_typed hr rfl rfl (by rw [schema_owner]; rfl)
  dsimp only at hout
  rw [schema_owner] at hout
  rw [document_apply, hschema]
  simp only [schema, Build.members_cons, bind_apply, hout]
  exact ⟨_, rfl, rfl⟩

theorem consistent_after_gate :
    gateDocument.Distinct ∧ ∃ (docs : List Document) (d : Document) (head : ObjectHead)
      (members : List Member),
      (after houseLibrary [.document none gateDocument]).graph.object? 3 = some (head, members) ∧
      members.map Member.name = ["owner", "lock"] ∧ Consistent head members ∧
      docs[3]? = some d ∧ RecordOf docs d head members := by
  obtain ⟨w, hdocument, hproperty⟩ := document_gate
  have hw : after houseLibrary [.document none gateDocument] = w := congrArg Prod.snd hdocument
  obtain ⟨docs, -, -, -, hrecords⟩ := consistent_after houseLibrary
    (houseFiles.regular_library []) [.document none gateDocument] fun file d hmem => by
      cases List.mem_singleton.1 hmem
      exact distinct_gate
  rw [hw] at hrecords ⊢
  obtain ⟨hconsistent, ⟨hreserved, -⟩ | ⟨d, hd, -, hrecord⟩⟩ := hrecords 3 _ _ _ hproperty
  · cases hreserved
  · refine ⟨distinct_gate, docs, d, _, _, ?_, rfl, hconsistent, hd, hrecord⟩
    rw [Graph.object?, hproperty]

end Workspace

end SchemaForge
