import SchemaForge.Registry
/-! What one step of the registry's bookkeeping changes, entry by entry. -/
namespace SchemaForge

namespace Path

theorem Same.trans {p q r : Path} (h : p.Same q) (h' : q.Same r) : p.Same r := Eq.trans h h'

theorem Same.symm {p q : Path} (h : p.Same q) : q.Same p := Eq.symm h

theorem any_same {f : Path} {chain : List Path} (h : f ∈ chain) : chain.any (·.Same f) = true :=
  List.any_eq_true.2 ⟨f, h, decide_eq_true rfl⟩

theorem same_congr {p q : Path} (h : p.Same q) (r : Path) : r.Same p ↔ r.Same q :=
  ⟨fun hr => hr.trans h, fun hr => hr.trans h.symm⟩

end Path

/-- A text that is no document is no fault in the structure of one. -/
theorem Document.read_error {f : Path} {text : String} {e : Error}
    (h : Document.read f text = .error e) (context : String) (faults : List Fault) :
    e ≠ .structural context faults := by
  unfold Document.read at h
  split at h
  · cases h
  · cases h; simp
  · cases h; simp

namespace Library

variable {lib : Library} {referrer : Option Path} {reference : String} {f g : Path} {d e : Document}

/-- A file that some path leads to, by the name that the library gives it. -/
def Serves (lib : Library) (f : Path) : Prop := ∃ p, lib.identity p = .ok f

/-- The document that a file holds. -/
def Reads (lib : Library) (f : Path) (d : Document) : Prop :=
  ∃ text, lib.read f = .ok text ∧ Document.read f text = .ok d

/-- A library that knows each file by one name, and whose failures are failures to load. -/
structure Regular (lib : Library) : Prop where
  eq_of_same : ∀ {f g}, lib.Serves f → lib.Serves g → f.Same g → f = g
  identity_error : ∀ {p e}, lib.identity p = .error e →
    ∀ context faults, e ≠ .structural context faults
  read_error : ∀ {p e}, lib.read p = .error e → ∀ context faults, e ≠ .structural context faults

theorem Regular.mem_of_any_same (hl : lib.Regular) {chain : List Path}
    (hchain : ∀ g ∈ chain, lib.Serves g) (hf : lib.Serves f)
    (h : chain.any (·.Same f) = true) : f ∈ chain := by
  obtain ⟨g, hg, hsame⟩ := List.any_eq_true.1 h
  rwa [hl.eq_of_same (hchain g hg) hf (of_decide_eq_true hsame)] at hg

theorem Reads.unique (h : lib.Reads f d) (h' : lib.Reads f e) : d = e := by
  obtain ⟨text, ht, hd⟩ := h
  obtain ⟨text', ht', he⟩ := h'
  rw [ht] at ht'
  cases ht'
  rw [hd] at he
  exact Except.ok.inj he

theorem serves_of_locate (h : lib.locate referrer reference = .ok f) : lib.Serves f := by
  unfold locate at h
  split at h
  · simp at h
  · split at h
    · next found _ => exact ⟨found, h⟩
    · simp at h

theorem locate_error (hl : lib.Regular) {e : Error} (h : lib.locate referrer reference = .error e)
    (context : String) (faults : List Fault) : e ≠ .structural context faults := by
  unfold locate referencePath at h
  split at h
  · next he =>
    dsimp only at he
    split at he
    · cases he; cases h; simp
    · split at he
      · simp at he
      · cases he; cases h; simp
  · split at h
    · exact hl.identity_error h context faults
    · cases h; simp

end Library

namespace Registry

variable {r r' : Registry} {lib : Library} {referrer : Option Path} {reference : String}
  {file f : Path} {d : Document} {found : Resolved} {e : Entry}

/-- The document that is known for a file. -/
def document? (r : Registry) (f : Path) : Option Document := (r.entry? f).map Entry.document

theorem entry?_eq (r : Registry) (f : Path) : r.entry? f = r.entries.find? (·.file.Same f) := rfl

theorem mem_of_entry?_eq (h : r.entry? f = some e) : e ∈ r.entries := List.mem_of_find?_eq_some h

theorem same_of_entry?_eq (h : r.entry? f = some e) : e.file.Same f := by
  simpa using List.find?_some h

theorem entry?_congr (r : Registry) (h : file.Same f) : r.entry? file = r.entry? f := by
  simp only [entry?_eq, Path.same_congr h]

theorem node?_congr (r : Registry) (h : file.Same f) : r.node? file = r.node? f := by
  rw [node?, node?, entry?_congr r h]

/-- Every step on an entry keeps the file that it is of. -/
theorem entry?_modifyEntry (r : Registry) (file f : Path) (change : Entry → Entry)
    (hc : ∀ e, (change e).file = e.file) :
    Registry.entry? (r.modifyEntry file change) f =
      (r.entry? f).map fun e => if file.Same f then change e else e := by
  have hfile : ∀ e : Entry, (if e.file.Same file then change e else e).file = e.file := by
    intro e
    split <;> simp [hc]
  simp only [entry?_eq, modifyEntry, List.find?_map, Function.comp_def, hfile]
  cases he : r.entries.find? (·.file.Same f) with
  | none => rfl
  | some e =>
    have hs : e.file.Same f := by simpa using List.find?_some he
    have : e.file.Same file ↔ file.Same f :=
      ⟨fun h => h.symm.trans hs, fun h => hs.trans h.symm⟩
    simp [this]

theorem entry?_setNode (r : Registry) (file f : Path) (node : NodeId) :
    Registry.entry? (r.setNode file node) f =
      (r.entry? f).map fun e => if file.Same f then { e with node := some node } else e :=
  entry?_modifyEntry r file f _ fun _ => rfl

theorem node?_setNode (r : Registry) (file f : Path) (node : NodeId) :
    (r.setNode file node).node? f =
      if file.Same f ∧ (r.entry? f).isSome then some node else r.node? f := by
  simp only [node?, entry?_setNode]
  cases r.entry? f with
  | none => simp
  | some e => by_cases h : file.Same f <;> simp [h]

theorem document?_setNode (r : Registry) (file f : Path) (node : NodeId) :
    (r.setNode file node).document? f = r.document? f := by
  simp only [document?, entry?_setNode]
  cases r.entry? f with
  | none => rfl
  | some e => by_cases h : file.Same f <;> simp [h]

theorem isEmitted_setNode (r : Registry) (file f : Path) (node : NodeId) :
    (r.setNode file node).isEmitted f = r.isEmitted f := by
  simp only [isEmitted, entry?_setNode]
  cases r.entry? f with
  | none => rfl
  | some e => by_cases h : file.Same f <;> simp [h]

theorem mem_entries_setNode {node : NodeId} (h : e ∈ (r.setNode file node).entries) :
    ∃ e₀ ∈ r.entries, e.file = e₀.file ∧ e.document = e₀.document := by
  obtain ⟨e₀, h₀, rfl⟩ := List.mem_map.1 h
  refine ⟨e₀, h₀, ?_⟩
  split <;> exact ⟨rfl, rfl⟩

theorem entries_register (h : r.entry? file = none) :
    (r.register file reference d).entries = r.entries ++ [⟨file, reference, d, none, false⟩] := by
  simp [register, h]

/-- A new entry is found under its own file alone. -/
theorem entry?_register (h : r.entry? file = none) :
    Registry.entry? (r.register file reference d) f =
      (r.entry? f).or (if file.Same f then some ⟨file, reference, d, none, false⟩ else none) := by
  rw [entry?_eq, entries_register h, List.find?_append]
  congr 1
  by_cases hf : file.Same f <;> simp [hf]

theorem node?_register (h : r.entry? file = none) :
    (r.register file reference d).node? f = r.node? f := by
  rw [node?, node?, entry?_register h]
  cases he : r.entry? f with
  | some e => rfl
  | none => by_cases hf : file.Same f <;> simp [hf]

theorem isEmitted_register (h : r.entry? file = none) :
    (r.register file reference d).isEmitted f = r.isEmitted f := by
  rw [isEmitted, isEmitted, entry?_register h]
  cases he : r.entry? f with
  | some e => rfl
  | none => by_cases hf : file.Same f <;> simp [hf]

/-- Following a reference counts a read, and adds an entry without a node for a file that is new
and can be read. -/
theorem resolve_steps (r : Registry) (lib : Library) (referrer : Option Path) (reference : String) :
    ∃ reads, (r.resolve lib referrer reference).2 = { r with reads := reads } ∨
      ∃ file d, lib.Serves file ∧ lib.Reads file d ∧ r.entry? file = none ∧
        (r.resolve lib referrer reference).2 =
          { r with reads := reads }.register file (Text.trim reference) d := by
  unfold resolve
  split
  · exact ⟨r.reads, Or.inl rfl⟩
  · next file hfile =>
    unfold fetch
    split
    · exact ⟨r.reads, Or.inl rfl⟩
    · next hnone =>
      split
      · exact ⟨r.reads, Or.inl rfl⟩
      · next text htext =>
        refine ⟨r.reads + 1, ?_⟩
        dsimp only
        split
        · exact Or.inl rfl
        · next d hd =>
          exact Or.inr ⟨file, d, Library.serves_of_locate hfile, ⟨text, htext, hd⟩, hnone, rfl⟩

theorem node?_resolve : (r.resolve lib referrer reference).2.node? f = r.node? f := by
  obtain ⟨reads, h | ⟨file, d, -, -, hnone, h⟩⟩ := resolve_steps r lib referrer reference
  · rw [h]; rfl
  · rw [h]; exact node?_register (r := { r with reads }) hnone

theorem node?_of_resolve {out : Except Error Resolved} {r' : Registry}
    (h : r.resolve lib referrer reference = (out, r')) (f : Path) : r'.node? f = r.node? f := by
  have hkept := @node?_resolve r lib referrer reference f
  rwa [h] at hkept

theorem isEmitted_resolve : (r.resolve lib referrer reference).2.isEmitted f = r.isEmitted f := by
  obtain ⟨reads, h | ⟨file, d, -, -, hnone, h⟩⟩ := resolve_steps r lib referrer reference
  · rw [h]; rfl
  · rw [h]; exact isEmitted_register (r := { r with reads }) hnone

theorem units_resolve : (r.resolve lib referrer reference).2.units = r.units := by
  obtain ⟨reads, h | ⟨file, d, -, -, hnone, h⟩⟩ := resolve_steps r lib referrer reference
  · rw [h]
  · rw [h]; rfl

theorem document?_resolve (h : r.document? f = some d) :
    (r.resolve lib referrer reference).2.document? f = some d := by
  obtain ⟨reads, h' | ⟨file, d', -, -, hnone, h'⟩⟩ := resolve_steps r lib referrer reference
  · rw [h']; exact h
  · obtain ⟨e, he, rfl⟩ := Option.map_eq_some_iff.1 h
    have hnone' : Registry.entry? { r with reads := reads } file = none := hnone
    have he' : Registry.entry? { r with reads := reads } f = some e := he
    rw [h', document?, entry?_register hnone', he']
    rfl

theorem mem_entries_resolve (h : e ∈ (r.resolve lib referrer reference).2.entries) :
    e ∈ r.entries ∨ lib.Serves e.file ∧ lib.Reads e.file e.document := by
  obtain ⟨reads, h' | ⟨file, d, hserves, hreads, hnone, h'⟩⟩ :=
    resolve_steps r lib referrer reference
  · rw [h'] at h; exact Or.inl h
  · have hnone' : Registry.entry? { r with reads := reads } file = none := hnone
    rw [h', entries_register hnone', List.mem_append] at h
    rcases h with h | h
    · exact Or.inl h
    · cases List.mem_singleton.1 h
      exact Or.inr ⟨hserves, hreads⟩

/-- A reference that can be followed leads to the entry of the file that is located. -/
theorem resolve_ok (h : r.resolve lib referrer reference = (.ok found, r')) :
    lib.locate referrer reference = .ok found.file ∧
      ∃ e, r'.entry? found.file = some e ∧ e.document = found.document ∧ e.node = found.node := by
  unfold resolve at h
  split at h
  · simp at h
  · next file hfile =>
    unfold fetch at h
    split at h
    · next e he =>
      cases h
      exact ⟨hfile, e, he, rfl, rfl⟩
    · next hnone =>
      split at h
      · simp at h
      · dsimp only at h
        split at h
        · simp at h
        · next d hd =>
          cases h
          refine ⟨hfile, ⟨file, Text.trim reference, d, none, false⟩, ?_, rfl, rfl⟩
          have hnone' : Registry.entry? { r with reads := r.reads + 1 } file = none := hnone
          rw [entry?_register hnone', hnone']
          simp [Path.Same]

/-- A reference that cannot be followed is no fault in the structure of a document. -/
theorem resolve_error (hl : lib.Regular) {error : Error}
    (h : r.resolve lib referrer reference = (.error error, r')) (context : String)
    (faults : List Fault) : error ≠ .structural context faults := by
  unfold resolve at h
  split at h
  · next he =>
    cases h
    exact Library.locate_error hl he context faults
  · next file hfile =>
    unfold fetch at h
    split at h
    · simp at h
    · split at h
      · next he =>
        cases h
        exact hl.read_error he context faults
      · dsimp only at h
        split at h
        · next he =>
          cases h
          exact Document.read_error he context faults
        · simp at h

/-- A file that is new is read and gets an entry. -/
theorem resolve_new {text : String} (hf : lib.locate referrer reference = .ok file)
    (he : r.entry? file = none) (ht : lib.read file = .ok text)
    (hd : Document.read file text = .ok d) :
    r.resolve lib referrer reference =
      (.ok ⟨file, d, none, false⟩,
        { r with reads := r.reads + 1 }.register file (Text.trim reference) d) := by
  simp only [resolve, hf, fetch, he, ht, hd]

/-- A known file is not read again. -/
theorem resolve_known {e : Entry} (hf : lib.locate referrer reference = .ok file)
    (he : r.entry? file = some e) :
    r.resolve lib referrer reference = (.ok ⟨file, e.document, e.node, true⟩, r) := by
  simp only [resolve, hf, fetch, he]

theorem entry?_mark (r : Registry) (file f : Path) :
    Registry.entry? (r.modifyEntry file fun e => { e with emitted := true }) f =
      (r.entry? f).map fun e => if file.Same f then { e with emitted := true } else e :=
  entry?_modifyEntry r file f _ fun _ => rfl

/-- A known file is refused only if it is marked. -/
theorem markEmitted_false (he : (r.entry? f).isSome) (h : r.markEmitted f = (false, r')) :
    r' = r ∧ r.isEmitted f = true := by
  obtain ⟨e, he⟩ := Option.isSome_iff_exists.1 he
  simp only [markEmitted, he] at h
  split at h
  · next hmarked =>
    cases h
    exact ⟨rfl, by simp [isEmitted, he, hmarked]⟩
  · cases h

/-- Marking a file marks no other. -/
theorem markEmitted_true (h : r.markEmitted file = (true, r')) :
    r'.units = r.units ∧ (∀ f, (r'.entry? f).isSome = (r.entry? f).isSome) ∧
      ∀ f, ¬ file.Same f → r'.isEmitted f = r.isEmitted f := by
  unfold markEmitted at h
  split at h
  · split at h
    · cases h
    · cases h
      refine ⟨rfl, ?_, ?_⟩
      · intro f
        rw [entry?_mark, Option.isSome_map]
      · intro f hf
        rw [isEmitted, isEmitted, entry?_mark]
        simp [hf]
  · cases h

end Registry

end SchemaForge
