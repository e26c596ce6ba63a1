import Mathlib.Data.List.Pairwise
import SchemaForge.Proofs.Registry
/-!
What a registry remembers over a history of operations. A step leaves the entries alone, enters
one of a file that is new, or amends those of one file; what holds of a history follows from these
three cases.
-/
namespace SchemaForge

/-- What may be asked of a registry. -/
inductive Operation where
  | resolve (referrer : Option Path) (reference : String)
  | register (file : Path) (reference : String) (document : Document)
  | setNode (file : Path) (node : NodeId)
  | markEmitted (file : Path)
  | claimUnit (name : String)

/-- What may come of an entry: its file, its reference and its document are settled, and the mark
of having been written stays. -/
structure Entry.Becomes (e e' : Entry) : Prop where
  file : e'.file = e.file
  reference : e'.reference = e.reference
  document : e'.document = e.document
  emitted : e.emitted = true → e'.emitted = true

namespace Entry.Becomes

variable {e e' e'' : Entry}

theorem refl (e : Entry) : e.Becomes e := ⟨rfl, rfl, rfl, id⟩

theorem trans (h : e.Becomes e') (h' : e'.Becomes e'') : e.Becomes e'' where
  file := h'.file.trans h.file
  reference := h'.reference.trans h.reference
  document := h'.document.trans h.document
  emitted := h'.emitted ∘ h.emitted

end Entry.Becomes

namespace Registry

variable {r r' r'' : Registry} {lib : Library} {referrer : Option Path} {reference : String}
  {file f : Path} {d : Document} {e : Entry} {op : Operation} {ops : List Operation}

/-- The entries of `r` are the first ones of `r'`, each at its place, with what has come of them. -/
def Keeps (r r' : Registry) : Prop :=
  ∀ (i : Nat) e, r.entries[i]? = some e → ∃ e', r'.entries[i]? = some e' ∧ e.Becomes e'

/-- No two entries are of one file. -/
def OnePerFile (r : Registry) : Prop := r.entries.Pairwise fun e e' => ¬ e.file.Same e'.file

/-- What one step does to the entries. -/
inductive Change (r : Registry) : List Entry → Prop
  | keep : Change r r.entries
  | enter (e : Entry) (fresh : r.entry? e.file = none) : Change r (r.entries ++ [e])
  | amend (file : Path) (change : Entry → Entry) (h : ∀ e : Entry, e.Becomes (change e)) :
      Change r (r.modifyEntry file change).entries

theorem entry?_eq_none : r.entry? f = none ↔ ∀ e ∈ r.entries, ¬ e.file.Same f := by
  simp [entry?_eq]

theorem OnePerFile.entry?_iff (h : r.OnePerFile) :
    r.entry? f = some e ↔ e ∈ r.entries ∧ e.file.Same f := by
  refine ⟨fun he => ⟨mem_of_entry?_eq he, same_of_entry?_eq he⟩, fun ⟨hmem, hsame⟩ => ?_⟩
  obtain ⟨e', he'⟩ : ∃ e', r.entry? f = some e' := by
    refine Option.ne_none_iff_exists'.1 fun hnone => ?_
    exact entry?_eq_none.1 hnone e hmem hsame
  have : Std.Symm fun e e' : Entry => ¬ e.file.Same e'.file := ⟨fun _ _ hn hs => hn hs.symm⟩
  by_contra hne
  rw [he', Option.some.injEq] at hne
  exact h.forall (mem_of_entry?_eq he') hmem hne ((same_of_entry?_eq he').trans hsame.symm)

namespace Keeps

theorem refl (r : Registry) : r.Keeps r := fun _ e he => ⟨e, he, .refl e⟩

theorem trans (h : r.Keeps r') (h' : r'.Keeps r'') : r.Keeps r'' := by
  intro i e he
  obtain ⟨e', he', hbecomes⟩ := h i e he
  obtain ⟨e'', he'', hbecomes'⟩ := h' i e' he'
  exact ⟨e'', he'', hbecomes.trans hbecomes'⟩

end Keeps

namespace Change

theorem keeps {entries : List Entry} (h : r.Change entries) (hr : r'.entries = entries) :
    r.Keeps r' := by
  intro i e he
  rw [hr]
  cases h with
  | keep => exact ⟨e, he, .refl e⟩
  | enter e' =>
    have hi : i < r.entries.length := (List.getElem?_eq_some_iff.1 he).1
    exact ⟨e, by rw [List.getElem?_append_left hi, he], .refl e⟩
  | amend file change h =>
    refine ⟨_, by rw [modifyEntry, List.getElem?_map, he, Option.map_some], ?_⟩
    split
    · exact h e
    · exact .refl e

theorem onePerFile {entries : List Entry} (h : r.Change entries) (hr : r'.entries = entries)
    (hone : r.OnePerFile) : r'.OnePerFile := by
  unfold OnePerFile
  rw [hr]
  cases h with
  | keep => exact hone
  | enter e fresh =>
    refine List.pairwise_append.2 ⟨hone, List.pairwise_singleton _ _, fun e' he' e'' he'' => ?_⟩
    rw [List.mem_singleton.1 he'']
    exact entry?_eq_none.1 fresh e' he'
  | amend file change h =>
    have hfile : ∀ e : Entry, (if e.file.Same file then change e else e).file = e.file := by
      intro e
      split
      · exact (h e).file
      · rfl
    exact List.pairwise_map.2 (hone.imp fun {e e'} hn => by rwa [hfile e, hfile e'])

end Change

/-- A file is answered for out of an entry only if it has one. -/
theorem cached_of_resolve {found : Resolved}
    (h : r.resolve lib referrer reference = (.ok found, r')) :
    found.cached = true ↔ (r.entry? found.file).isSome := by
  unfold resolve fetch at h
  split at h
  · cases h
  · split at h
    · next e he =>
      cases h
      simp [he]
    · next hnone =>
      split at h
      · cases h
      · dsimp only at h
        split at h
        · cases h
        · cases h
          simp [hnone]

/-- A reference that cannot be followed leaves all but the number of reads. -/
theorem kept_of_resolve_error {error : Error}
    (h : r.resolve lib referrer reference = (.error error, r')) :
    ∃ reads, r' = { r with reads := reads } := by
  unfold resolve fetch at h
  split at h
  · cases h
    exact ⟨r.reads, rfl⟩
  · split at h
    · cases h
    · split at h
      · cases h
        exact ⟨r.reads, rfl⟩
      · dsimp only at h
        split at h
        · cases h
          exact ⟨r.reads + 1, rfl⟩
        · cases h

theorem change_register (r : Registry) (file : Path) (reference : String) (d : Document) :
    r.Change (r.register file reference d).entries := by
  by_cases h : r.entry? file = none
  · rw [entries_register h]
    exact .enter _ h
  · rw [show (r.register file reference d).entries = r.entries by
      simp [register, Option.isSome_iff_ne_none.2 h]]
    exact .keep

end Registry

namespace Operation

variable {lib : Library} {r : Registry}

def run (lib : Library) (r : Registry) : Operation → Registry
  | resolve referrer reference => (r.resolve lib referrer reference).2
  | register file reference d => r.register file reference d
  | setNode file node => r.setNode file node
  | markEmitted file => (r.markEmitted file).2
  | claimUnit name => (r.claimUnit name).2

/-- How many entries following a reference adds. -/
def entered (lib : Library) (r : Registry) : Operation → Nat
  | resolve referrer reference =>
    (r.resolve lib referrer reference).2.entries.length - r.entries.length
  | _ => 0

/-- Following a reference to a text that is new, can be read and is no document. -/
def misread (lib : Library) (r : Registry) : Operation → Nat
  | resolve referrer reference =>
    match lib.locate referrer reference with
    | .error _ => 0
    | .ok file =>
      match r.entry? file, lib.read file with
      | none, .ok text => if (Document.read file text).isOk then 0 else 1
      | _, _ => 0
  | _ => 0

theorem change_run (lib : Library) (r : Registry) (op : Operation) :
    r.Change (op.run lib r).entries := by
  cases op with
  | resolve referrer reference =>
    obtain ⟨reads, h | ⟨file, d, -, -, -, h⟩⟩ := Registry.resolve_steps r lib referrer reference
    · rw [run, h]
      exact .keep
    · rw [run, h]
      exact Registry.change_register r file (Text.trim reference) d
  | register file reference d => exact Registry.change_register r file reference d
  | setNode file node => exact .amend file _ fun e => ⟨rfl, rfl, rfl, id⟩
  | markEmitted file =>
    simp only [run, Registry.markEmitted]
    split
    · split
      · exact .keep
      · exact .amend file _ fun e => ⟨rfl, rfl, rfl, fun _ => rfl⟩
    · exact .keep
  | claimUnit name =>
    simp only [run, Registry.claimUnit]
    split <;> exact .keep

/-- A read makes an entry or fails to. -/
theorem reads_run (lib : Library) (r : Registry) (op : Operation) :
    (op.run lib r).reads = r.reads + (op.entered lib r + op.misread lib r) := by
  cases op with
  | resolve referrer reference =>
    simp only [run, entered, misread, Registry.resolve]
    cases hf : lib.locate referrer reference with
    | error e => simp
    | ok file =>
      simp only [Registry.fetch]
      cases he : r.entry? file with
      | some e => simp
      | none =>
        cases ht : lib.read file with
        | error e => simp
        | ok text =>
          cases hd : Document.read file text with
          | error e => simp [hd, Except.isOk, Except.toBool]
          | ok d =>
            have hnew : Registry.entry? { r with reads := r.reads + 1 } file = none := he
            simp [hd, Registry.register, hnew, Except.isOk, Except.toBool]
  | register file reference d => rfl
  | setNode file node => rfl
  | markEmitted file =>
    simp only [run, entered, misread, Registry.markEmitted]
    split
    · split <;> rfl
    · rfl
  | claimUnit name =>
    simp only [run, entered, misread, Registry.claimUnit]
    split <;> rfl

end Operation

namespace Registry

variable {r r' : Registry} {lib : Library} {referrer : Option Path} {reference : String}
  {file f : Path} {d : Document} {e : Entry} {op : Operation} {ops : List Operation}

/-- The registry after a list of operations. -/
def after (lib : Library) (r : Registry) (ops : List Operation) : Registry :=
  ops.foldl (Operation.run lib) r

/-- What the operations of a list count, each in the registry that it meets. -/
def tally (lib : Library) (count : Registry → Operation → Nat) :
    Registry → List Operation → Nat
  | _, [] => 0
  | r, op :: ops => count r op + tally lib count (op.run lib r) ops

theorem keeps_after (lib : Library) (r : Registry) (ops : List Operation) :
    r.Keeps (r.after lib ops) := by
  induction ops generalizing r with
  | nil => exact .refl r
  | cons op ops ih => exact ((op.change_run lib r).keeps rfl).trans (ih (op.run lib r))

theorem onePerFile_after (lib : Library) (h : r.OnePerFile) (ops : List Operation) :
    (r.after lib ops).OnePerFile := by
  induction ops generalizing r with
  | nil => exact h
  | cons op ops ih => exact ih ((op.change_run lib r).onePerFile rfl h)

theorem reads_after (lib : Library) (r : Registry) (ops : List Operation) :
    (r.after lib ops).reads =
      r.reads +
        (tally lib (Operation.entered lib) r ops + tally lib (Operation.misread lib) r ops) := by
  induction ops generalizing r with
  | nil => rfl
  | cons op ops ih =>
    have hstep := op.reads_run lib r
    have hrest := ih (op.run lib r)
    simp only [after, List.foldl_cons] at hrest ⊢
    rw [hrest, hstep, tally, tally]
    omega

/-- What a registry remembers is right, whatever has been asked of it. Each file has one entry,
which is the one found by any spelling of the file; entries keep their order, their files,
references and documents, and a mark stays. A known file is answered for out of its entry, whatever
the library would read, and only a known one is. Every read is one of an entry that following a
reference has made, or of a text that is no document. A reference that cannot be followed changes
the number of reads at most. -/
theorem bookkeeping_after (lib : Library) (ops : List Operation) :
    (∀ f e, Registry.entry? (empty.after lib ops) f = some e ↔
      e ∈ (empty.after lib ops).entries ∧ e.file.Same f) ∧
    (empty.after lib ops).OnePerFile ∧
    (∀ more, (empty.after lib ops).Keeps (empty.after lib (ops ++ more))) ∧
    (∀ referrer reference file e, lib.locate referrer reference = .ok file →
      Registry.entry? (empty.after lib ops) file = some e →
      ∀ read, (empty.after lib ops).resolve { lib with read } referrer reference =
        (.ok ⟨file, e.document, e.node, true⟩, empty.after lib ops)) ∧
    (∀ referrer reference found r',
      (empty.after lib ops).resolve lib referrer reference = (.ok found, r') →
      lib.locate referrer reference = .ok found.file ∧
        (found.cached = true ↔
          (Option.isSome <| Registry.entry? (empty.after lib ops) found.file) = true)) ∧
    (empty.after lib ops).reads =
      tally lib (Operation.entered lib) empty ops + tally lib (Operation.misread lib) empty ops ∧
    ∀ referrer reference error r',
      (empty.after lib ops).resolve lib referrer reference = (.error error, r') →
      ∃ reads, r' = { empty.after lib ops with reads := reads } := by
  have hempty : empty.OnePerFile := List.Pairwise.nil
  have hone : (empty.after lib ops).OnePerFile := onePerFile_after lib hempty ops
  refine ⟨fun f e => hone.entry?_iff, hone, fun more => ?_, ?_, ?_, ?_, ?_⟩
  · rw [after, after, List.foldl_append]
    exact keeps_after lib _ more
  · intro referrer reference file e hf he read
    exact resolve_known hf he
  · intro referrer reference found r' h
    exact ⟨(resolve_ok h).1, cached_of_resolve h⟩
  · rw [reads_after]
    exact Nat.zero_add _
  · intro referrer reference error r' h
    exact kept_of_resolve_error h

end Registry

end SchemaForge
