import SchemaForge.Proofs.RegistryHistory
/-!
What the keys of a registry lead to. The first document that is put before the registry under a key
gives the key to its file, whether or not the document becomes that of the file's entry; so a key is
right exactly if that document was the first one of its file.
-/
namespace SchemaForge

/-- A document that is put before a registry. -/
structure Offer where
  file : Path
  reference : String
  document : Document
  /-- Whether the file has no entry yet. -/
  fresh : Bool

/-- Whether a text is the reference or the id of a document. The empty text is neither. -/
def Offer.hasKey (o : Offer) (key : String) : Bool :=
  key != "" && (o.reference == key || o.document.string? "$id" == some key)

/-- The document of an entry as it was put before the registry. -/
def Entry.offer (e : Entry) : Offer := ⟨e.file, e.reference, e.document, true⟩

/-- Whether a text is the reference or the id of the document of an entry. -/
def Entry.hasKey (e : Entry) (key : String) : Bool := e.offer.hasKey key

theorem Entry.Becomes.offer {e e' : Entry} (h : e.Becomes e') : e'.offer = e.offer := by
  rw [Entry.offer, Entry.offer, h.file, h.reference, h.document]

/-- The documents that an operation puts before a registry: the one that a reference leads to, if
it is read and its file is new, and each that is registered. -/
def Operation.offers (lib : Library) (r : Registry) : Operation → List Offer
  | resolve referrer reference =>
    match (r.resolve lib referrer reference).1 with
    | .ok found =>
      if found.cached then [] else [⟨found.file, Text.trim reference, found.document, true⟩]
    | .error _ => []
  | register file reference d => [⟨file, reference, d, (r.entry? file).isNone⟩]
  | _ => []

/-- Whether an operation registers a document, if it does, for a file without an entry. -/
def Operation.RegistersNew (r : Registry) : Operation → Prop
  | register file _ _ => r.entry? file = none
  | _ => True

namespace Registry

variable {r r' : Registry} {lib : Library} {referrer : Option Path} {reference key k : String}
  {file f : Path} {d : Document} {e : Entry} {o : Offer} {log : List Offer}
  {op : Operation} {ops : List Operation}

/-- The documents that a list of operations puts before a registry, in order. -/
def offers (lib : Library) : Registry → List Operation → List Offer
  | _, [] => []
  | r, op :: ops => op.offers lib r ++ offers lib (op.run lib r) ops

/-- Whether a list of operations registers documents for files without an entry only. -/
def RegistersNew (lib : Library) : Registry → List Operation → Prop
  | _, [] => True
  | r, op :: ops => op.RegistersNew r ∧ RegistersNew lib (op.run lib r) ops

theorem lookup_addKey (keys : List (String × Path)) (key k : String) (file : Path) :
    (addKey keys key file).lookup k =
      (keys.lookup k).or (if key ≠ "" ∧ key = k then some file else none) := by
  unfold addKey
  by_cases hempty : key = ""
  · simp [hempty]
  · by_cases hk : key = k
    · subst hk
      cases h : keys.lookup key <;> simp [h, hempty, List.lookup_append]
    · have hne : (k == key) = false := beq_eq_false_iff_ne.2 (Ne.symm hk)
      split <;> simp [hk, hne, List.lookup_append, List.lookup_cons]

/-- A registered document gives its keys to its file, as far as they are free. -/
theorem lookup_register (fresh : Bool) :
    (r.register file reference d).keys.lookup k =
      (r.keys.lookup k).or
        (([⟨file, reference, d, fresh⟩] : List Offer).find? (·.hasKey k) |>.map Offer.file) := by
  have hkeys : (r.register file reference d).keys =
      addKey (addKey r.keys ((d.string? "$id").getD "") file) reference file := rfl
  rw [hkeys, lookup_addKey, lookup_addKey, Option.or_assoc]
  congr 1
  rw [List.find?_singleton, Offer.hasKey]
  cases hid : d.string? "$id" with
  | none => grind
  | some id => grind

/-- What the entries and keys of a registry owe to the documents that were put before it. -/
structure Logged (r : Registry) (log : List Offer) : Prop where
  entries : r.entries.map Entry.offer = log.filter Offer.fresh
  keys : ∀ k, r.keys.lookup k = (log.find? (·.hasKey k)).map Offer.file
  late : ∀ k o, log.find? (·.hasKey k) = some o → o.fresh = false →
    ∃ e ∈ r.entries, e.file.Same o.file ∧ e.hasKey k = false

theorem offers_modifyEntry (r : Registry) (file : Path) {change : Entry → Entry}
    (h : ∀ e : Entry, e.Becomes (change e)) :
    (r.modifyEntry file change).entries.map Entry.offer = r.entries.map Entry.offer := by
  rw [modifyEntry, List.map_map]
  refine List.map_congr_left fun e _ => ?_
  rw [Function.comp_apply]
  split
  · exact (h e).offer
  · rfl

theorem logged_empty : Logged empty [] := ⟨rfl, fun _ => rfl, fun _ _ h => by cases h⟩

/-- What leaves documents and keys alone needs no record. -/
theorem Logged.keep (h : Logged r log)
    (hoffers : r'.entries.map Entry.offer = r.entries.map Entry.offer)
    (hkeys : r'.keys = r.keys) : Logged r' log where
  entries := hoffers.trans h.entries
  keys k := by rw [hkeys, h.keys]
  late k o ho hlate := by
    obtain ⟨e, he, hfile, hkey⟩ := h.late k o ho hlate
    have hmem : e.offer ∈ r'.entries.map Entry.offer := by
      rw [hoffers]
      exact List.mem_map_of_mem he
    obtain ⟨e', he', hoffer⟩ := List.mem_map.1 hmem
    refine ⟨e', he', ?_, ?_⟩
    · rwa [show e'.file = e.file from congrArg Offer.file hoffer]
    · rwa [Entry.hasKey, hoffer]

/-- An entry has no key that no document came with. -/
theorem Logged.hasKey_eq_false (h : Logged r log) (hk : log.find? (·.hasKey k) = none)
    (he : e ∈ r.entries) : e.hasKey k = false := by
  have hmem : e.offer ∈ log.filter Offer.fresh := by
    rw [← h.entries]
    exact List.mem_map_of_mem he
  exact Bool.eq_false_iff.2 (List.find?_eq_none.1 hk _ (List.mem_filter.1 hmem).1)

theorem Logged.register (h : Logged r log) (file : Path) (reference : String) (d : Document) :
    Logged (r.register file reference d)
      (log ++ [⟨file, reference, d, (r.entry? file).isNone⟩]) where
  entries := by
    rw [List.filter_append, ← h.entries]
    cases hentry : r.entry? file with
    | none => simp [entries_register hentry, Entry.offer]
    | some e => simp [Registry.register, hentry]
  keys k := by
    rw [lookup_register (r.entry? file).isNone, h.keys, List.find?_append]
    cases log.find? (·.hasKey k) <;> rfl
  late k o ho hlate := by
    have hkeeps : r.Keeps (r.register file reference d) :=
      (change_register r file reference d).keeps rfl
    obtain ⟨e, he, hfile, hkey⟩ : ∃ e ∈ r.entries, e.file.Same o.file ∧ e.hasKey k = false := by
      rw [List.find?_append] at ho
      cases hlog : log.find? (·.hasKey k) with
      | some o' =>
        rw [hlog, Option.some_or, Option.some.injEq] at ho
        exact ho ▸ h.late k o' hlog (ho ▸ hlate)
      | none =>
        rw [hlog, Option.none_or] at ho
        obtain rfl := List.mem_singleton.1 (List.mem_of_find?_eq_some ho)
        obtain ⟨e, he⟩ : ∃ e, r.entry? file = some e := by
          simpa [Option.isSome_iff_exists] using hlate
        have hmem := mem_of_entry?_eq he
        exact ⟨e, hmem, same_of_entry?_eq he, h.hasKey_eq_false hlog hmem⟩
    obtain ⟨i, hi⟩ := List.getElem?_of_mem he
    obtain ⟨e', he', hbecomes⟩ := hkeeps i e hi
    refine ⟨e', List.mem_of_getElem? he', ?_, ?_⟩
    · rwa [hbecomes.file]
    · rwa [Entry.hasKey, hbecomes.offer]

/-- A reference puts the document that it leads to before the registry, or changes no more than the
number of reads. -/
theorem offers_resolve (lib : Library) (r : Registry) (referrer : Option Path)
    (reference : String) :
    ((Operation.resolve referrer reference).offers lib r = [] ∧
      ∃ reads, (r.resolve lib referrer reference).2 = { r with reads := reads }) ∨
    ∃ file d reads, r.entry? file = none ∧
      (Operation.resolve referrer reference).offers lib r =
        [⟨file, Text.trim reference, d, true⟩] ∧
      (r.resolve lib referrer reference).2 =
        { r with reads := reads }.register file (Text.trim reference) d := by
  unfold Operation.offers
  cases hf : lib.locate referrer reference with
  | error e =>
    have hres : r.resolve lib referrer reference = (.error e, r) := by simp only [resolve, hf]
    simp only [hres, true_and]
    exact Or.inl ⟨r.reads, rfl⟩
  | ok file =>
    cases hentry : r.entry? file with
    | some e =>
      simp only [resolve_known hf hentry]
      exact Or.inl ⟨rfl, r.reads, rfl⟩
    | none =>
      cases htext : lib.read file with
      | error e =>
        have hres : r.resolve lib referrer reference = (.error e, r) := by
          simp only [resolve, hf, fetch, hentry, htext]
        simp only [hres, true_and]
        exact Or.inl ⟨r.reads, rfl⟩
      | ok text =>
        cases hd : Document.read file text with
        | error e =>
          have hres : r.resolve lib referrer reference =
              (.error e, { r with reads := r.reads + 1 }) := by
            simp only [resolve, hf, fetch, hentry, htext, hd]
          simp only [hres, true_and]
          exact Or.inl ⟨r.reads + 1, rfl⟩
        | ok d =>
          simp only [resolve_new hf hentry htext hd]
          exact Or.inr ⟨file, d, r.reads + 1, hentry, rfl, rfl⟩

theorem logged_step (h : Logged r log) (lib : Library) (op : Operation) :
    Logged (op.run lib r) (log ++ op.offers lib r) := by
  cases op with
  | resolve referrer reference =>
    rw [Operation.run]
    obtain ⟨ho, reads, hr⟩ | ⟨file, d, reads, hnone, ho, hr⟩ :=
      offers_resolve lib r referrer reference
    · rw [ho, hr, List.append_nil]
      exact h.keep rfl rfl
    · have hread : Logged { r with reads := reads } log := h.keep rfl rfl
      have hregister := hread.register file (Text.trim reference) d
      have hnone' : Registry.entry? { r with reads := reads } file = none := hnone
      rw [hnone'] at hregister
      rw [ho, hr]
      exact hregister
  | register file reference d => exact h.register file reference d
  | setNode file node =>
    rw [show (Operation.setNode file node).offers lib r = [] from rfl, List.append_nil]
    exact h.keep (offers_modifyEntry r file fun e => ⟨rfl, rfl, rfl, id⟩) rfl
  | markEmitted file =>
    rw [show (Operation.markEmitted file).offers lib r = [] from rfl, List.append_nil]
    simp only [Operation.run, markEmitted]
    split
    · split
      · exact h.keep rfl rfl
      · exact h.keep (offers_modifyEntry r file fun e => ⟨rfl, rfl, rfl, fun _ => rfl⟩) rfl
    · exact h.keep rfl rfl
  | claimUnit name =>
    rw [show (Operation.claimUnit name).offers lib r = [] from rfl, List.append_nil]
    simp only [Operation.run, claimUnit]
    split
    · exact h.keep rfl rfl
    · exact h.keep rfl rfl

theorem logged_after (h : Logged r log) (lib : Library) (ops : List Operation) :
    Logged (r.after lib ops) (log ++ offers lib r ops) := by
  induction ops generalizing r log with
  | nil =>
    rw [offers, List.append_nil]
    exact h
  | cons op ops ih =>
    have hrest := ih (logged_step h lib op)
    rwa [List.append_assoc] at hrest

theorem Logged.entryByKey? (h : Logged r log) (key : String) :
    r.entryByKey? key = (log.find? (·.hasKey key)).bind fun o => r.entry? o.file := by
  rw [Registry.entryByKey?, h.keys, Option.bind_map]
  rfl

/-- The first entry that has a key is the one whose document came first under the key, unless that
document came late. -/
theorem Logged.find?_entries (h : Logged r log) (hone : r.OnePerFile)
    (ho : log.find? (·.hasKey key) = some o) (hfresh : o.fresh = true) :
    r.entries.find? (·.hasKey key) = r.entry? o.file := by
  have hfiltered : (log.filter Offer.fresh).find? (·.hasKey key) = some o := by
    obtain ⟨hkey, before, after, rfl, hbefore⟩ := List.find?_eq_some_iff_append.1 ho
    rw [List.filter_append, List.filter_cons_of_pos hfresh]
    refine List.find?_eq_some_iff_append.2 ⟨hkey, _, _, rfl, fun o' ho' => ?_⟩
    exact hbefore o' (List.mem_filter.1 ho').1
  rw [← h.entries, List.find?_map] at hfiltered
  obtain ⟨e, he, rfl⟩ := Option.map_eq_some_iff.1 hfiltered
  exact he.trans (hone.entry?_iff.2 ⟨List.mem_of_find?_eq_some he, rfl⟩).symm

/-- A document that came late gave its key to an entry without that key. -/
theorem Logged.entry?_late (h : Logged r log) (hone : r.OnePerFile)
    (ho : log.find? (·.hasKey key) = some o) (hlate : o.fresh = false) :
    ∃ e, r.entry? o.file = some e ∧ e.hasKey key = false := by
  obtain ⟨e, he, hfile, hkey⟩ := h.late key o ho hlate
  exact ⟨e, hone.entry?_iff.2 ⟨he, hfile⟩, hkey⟩

/-- A key is right exactly if the first document that came with it came fresh. -/
theorem Logged.key_right_iff (h : Logged r log) (hone : r.OnePerFile) (key : String) :
    r.entryByKey? key = r.entries.find? (·.hasKey key) ↔
      ∀ o, log.find? (·.hasKey key) = some o → o.fresh = true := by
  rw [h.entryByKey?]
  cases ho : log.find? (·.hasKey key) with
  | none =>
    have hnone : r.entries.find? (·.hasKey key) = none :=
      List.find?_eq_none.2 fun e he => Bool.eq_false_iff.1 (h.hasKey_eq_false ho he)
    simp [hnone]
  | some o =>
    cases hfresh : o.fresh with
    | true =>
      refine iff_of_true (h.find?_entries hone ho hfresh).symm fun o' ho' => ?_
      obtain rfl := Option.some.inj ho'
      exact hfresh
    | false =>
      obtain ⟨e, he, hkey⟩ := h.entry?_late hone ho hfresh
      refine iff_of_false (fun heq => ?_) fun hall => ?_
      · rw [Option.bind_some, he] at heq
        have hhas := List.find?_some heq.symm
        exact Bool.eq_false_iff.1 hkey hhas
      · rw [hall o rfl] at hfresh
        cases hfresh

/-- The entry that a key leads to has the key exactly if the key is right. -/
theorem Logged.hasKey_iff (h : Logged r log) (hone : r.OnePerFile)
    (he : r.entryByKey? key = some e) :
    e.hasKey key = true ↔ ∃ o, log.find? (·.hasKey key) = some o ∧ o.fresh = true := by
  rw [h.entryByKey?] at he
  obtain ⟨o, ho, he⟩ := Option.bind_eq_some_iff.1 he
  cases hfresh : o.fresh with
  | true =>
    have hhas := List.find?_some ((h.find?_entries hone ho hfresh).trans he)
    exact iff_of_true hhas ⟨o, ho, hfresh⟩
  | false =>
    obtain ⟨e', he', hkey⟩ := h.entry?_late hone ho hfresh
    obtain rfl := Option.some.inj (he.symm.trans he')
    refine iff_of_false (Bool.eq_false_iff.1 hkey) ?_
    rintro ⟨o', ho', hfresh'⟩
    obtain rfl := Option.some.inj (ho.symm.trans ho')
    rw [hfresh] at hfresh'
    cases hfresh'

/-- Documents are late only if they are registered for a file that has an entry. -/
theorem fresh_of_mem_offers (hop : op.RegistersNew r) (ho : o ∈ op.offers lib r) :
    o.fresh = true := by
  cases op with
  | resolve referrer reference =>
    obtain ⟨hnil, -⟩ | ⟨file, d, reads, -, hone, -⟩ := offers_resolve lib r referrer reference
    · rw [hnil] at ho
      cases ho
    · rw [hone] at ho
      obtain rfl := List.mem_singleton.1 ho
      rfl
  | register file reference d =>
    have hnone : r.entry? file = none := hop
    obtain rfl := List.mem_singleton.1 ho
    rw [hnone]
    rfl
  | setNode file node => cases ho
  | markEmitted file => cases ho
  | claimUnit name => cases ho

theorem fresh_of_registersNew (h : RegistersNew lib r ops) :
    ∀ o ∈ offers lib r ops, o.fresh = true := by
  induction ops generalizing r with
  | nil =>
    intro o ho
    cases ho
  | cons op ops ih =>
    intro o ho
    rcases List.mem_append.1 ho with ho | ho
    · exact fresh_of_mem_offers h.1 ho
    · exact ih h.2 o ho

/-- What the keys of a registry lead to, whatever has been asked of it. The entries are of the
documents that came fresh, in order. A key leads to the entry that is there for the file of the
first document that came with the key. That entry is the first one to have the key, and has it at
all, exactly if that document came fresh; so all keys are right as long as documents are registered
for new files only. -/
theorem keys_after (lib : Library) (ops : List Operation) :
    (empty.after lib ops).entries.map Entry.offer = (offers lib empty ops).filter Offer.fresh ∧
    (∀ key, (empty.after lib ops).entryByKey? key =
      ((offers lib empty ops).find? (·.hasKey key)).bind fun o =>
        Registry.entry? (empty.after lib ops) o.file) ∧
    (∀ key, (empty.after lib ops).entryByKey? key =
        (empty.after lib ops).entries.find? (·.hasKey key) ↔
      ∀ o, (offers lib empty ops).find? (·.hasKey key) = some o → o.fresh = true) ∧
    (∀ key e, (empty.after lib ops).entryByKey? key = some e → (e.hasKey key = true ↔
      ∃ o, (offers lib empty ops).find? (·.hasKey key) = some o ∧ o.fresh = true)) ∧
    (RegistersNew lib empty ops → ∀ key, (empty.after lib ops).entryByKey? key =
      (empty.after lib ops).entries.find? (·.hasKey key)) := by
  have hlog : Logged (empty.after lib ops) (offers lib empty ops) :=
    logged_after logged_empty lib ops
  have hone : (empty.after lib ops).OnePerFile :=
    onePerFile_after lib (r := empty) List.Pairwise.nil ops
  refine ⟨hlog.entries, hlog.entryByKey?, hlog.key_right_iff hone,
    fun key e he => hlog.hasKey_iff hone he, fun hnew key => ?_⟩
  refine (hlog.key_right_iff hone key).2 fun o ho => ?_
  exact fresh_of_registersNew hnew o (List.mem_of_find?_eq_some ho)

/-- Two files, each with the reference of one as the id of the other. -/
def twoFiles : List Operation :=
  [.register ⟨"/a.json"⟩ "file:///a.json" ⟨[("$id", .string "A")]⟩,
    .register ⟨"/b.json"⟩ "A" ⟨[("$id", .string "file:///a.json")]⟩]

theorem keys_after_two : RegistersNew (FileMap.library ⟨⟨"/"⟩, []⟩ []) empty twoFiles ∧
    ∀ key, (empty.after (FileMap.library ⟨⟨"/"⟩, []⟩ []) twoFiles).entryByKey? key =
      (empty.after (FileMap.library ⟨⟨"/"⟩, []⟩ []) twoFiles).entries.find? (·.hasKey key) := by
  have hnew : RegistersNew (FileMap.library ⟨⟨"/"⟩, []⟩ []) empty twoFiles := ⟨rfl, rfl, trivial⟩
  exact ⟨hnew, (keys_after _ twoFiles).2.2.2.2 hnew⟩

/-- A document that is registered for a file that has an entry gives its id to the entry, whose
document has another id. -/
theorem key_of_late_document :
    let r := empty.after (FileMap.library ⟨⟨"/"⟩, []⟩ [])
      [.register ⟨"/a.json"⟩ "file:///a.json" ⟨[("$id", .string "A")]⟩,
        .register ⟨"/a.json"⟩ "file:///a.json" ⟨[("$id", .string "B")]⟩]
    (∃ e, r.entryByKey? "B" = some e ∧ e.reference = "file:///a.json" ∧
      e.document.string? "$id" = some "A") ∧ r.entries.find? (·.hasKey "B") = none :=
  ⟨⟨⟨⟨"/a.json"⟩, "file:///a.json", ⟨[("$id", .string "A")]⟩, none, false⟩, rfl, rfl, rfl⟩, rfl⟩

end Registry

end SchemaForge
