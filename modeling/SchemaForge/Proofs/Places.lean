import SchemaForge.Proofs.Growth
/-! Where nodes stand: at the root of a file, or inside one along references. -/
namespace SchemaForge.Graph

variable {g : Graph} {id other c root : NodeId} {file file' : Path} {k : Nat} {steps steps' : List Nat}

/-- Where a node stands: in which file, and by which references inside it. The last reference comes
first, and each is known by its number. -/
inductive Stands (g : Graph) (file : Path) : List Nat → NodeId → Prop
  | root {id : NodeId} (hroot : g.isFileRoot id = true) (hfile : g.file? id = some file) :
      Stands g file [] id
  | inner {id c : NodeId} {k : Nat} {steps : List Nat} (hid : Stands g file steps id)
      (hc : (g.children id)[k]? = some c) (hinner : g.isFileRoot c = false) :
      Stands g file (k :: steps) c

/-- A graph whose nodes know where they stand. -/
structure Located (g : Graph) : Prop where
  orderly : g.Orderly
  unique : ∀ {a b file}, g.isFileRoot a = true → g.isFileRoot b = true → g.file? a = some file →
    g.file? b = some file → a = b
  told : ∀ {id c}, c ∈ g.children id → g.isFileRoot c = false →
    g.parent? c = some id ∧ g.file? c = g.file? id
  smaller : ∀ {file k steps id c}, g.Stands file (k :: steps) id → c ∈ g.children id →
    g.isFileRoot c = false → c < id

namespace Stands

theorem isFileRoot_eq (h : g.Stands file steps id) : g.isFileRoot id = steps.isEmpty := by
  cases h with
  | root hroot _ => exact hroot
  | inner _ _ hinner => exact hinner

/-- Each file has a root. -/
theorem exists_root (h : g.Stands file steps id) : ∃ root, g.Stands file [] root := by
  induction h with
  | root hroot hfile => exact ⟨_, .root hroot hfile⟩
  | inner _ _ _ ih => exact ih

section located

variable (hg : g.Located)

include hg

theorem file?_eq (h : g.Stands file steps id) : g.file? id = some file := by
  induction h with
  | root _ hfile => exact hfile
  | inner _ hc hinner ih => rw [(hg.told (List.mem_of_getElem? hc) hinner).2, ih]

theorem lt_size (h : g.Stands file steps id) : id < g.size := by
  cases h with
  | root hroot _ => exact lt_of_isFileRoot hroot
  | inner _ hc _ => exact hg.orderly.child_lt (List.mem_of_getElem? hc)

/-- Two nodes do not stand at one place. -/
theorem node_unique (h : g.Stands file steps id) (h' : g.Stands file steps other) : id = other := by
  induction h generalizing other with
  | root hroot hfile =>
    cases h' with
    | root hroot' hfile' => exact hg.unique hroot hroot' hfile hfile'
  | inner _ hc _ ih =>
    cases h' with
    | inner hid' hc' _ =>
      rw [ih hid', hc'] at hc
      exact (Option.some.inj hc).symm

/-- A node does not stand at two places. -/
theorem place_unique (h : g.Stands file steps id) (h' : g.Stands file' steps' id) :
    file = file' ∧ steps = steps' := by
  induction h generalizing steps' with
  | root hroot hfile =>
    cases h' with
    | root _ hfile' =>
      rw [hfile] at hfile'
      exact ⟨Option.some.inj hfile', rfl⟩
    | inner _ _ hinner =>
      rw [hroot] at hinner
      cases hinner
  | inner _ hc hinner ih =>
    cases h' with
    | root hroot _ =>
      rw [hroot] at hinner
      cases hinner
    | inner hid' hc' _ =>
      obtain ⟨rfl, rfl⟩ := hg.orderly.single hinner hc hc'
      obtain ⟨rfl, rfl⟩ := ih hid'
      exact ⟨rfl, rfl⟩

/-- The nodes inside a file leave room for each other: each lies below the one that refers to it,
but for those that the root refers to. -/
theorem room (h : g.Stands file steps id) (hroot : g.Stands file [] root) (hne : id ≠ root) :
    (root < id → id + steps.length ≤ g.size) ∧ (id < root → id + steps.length < g.size) := by
  have hlt := hroot.lt_size hg
  induction h with
  | root hid hfile => exact absurd (node_unique hg (.root hid hfile) hroot) hne
  | @inner parent c k steps hid hc hinner ih =>
    have hc' := List.mem_of_getElem? hc
    have hsize := hg.orderly.child_lt hc'
    cases steps with
    | nil =>
      rw [List.length_singleton]
      -- `omega` counts with numbers, not with nodes
      unfold NodeId at *
      omega
    | cons k' steps =>
      have hsmaller := hg.smaller hid hc' hinner
      have hparent : parent ≠ root := by
        rintro rfl
        cases (hid.place_unique hg hroot).2
      have hroom := ih hparent
      rw [List.length_cons]
      unfold NodeId at *
      omega

/-- No file is deeper than there are nodes. -/
theorem length_lt (h : g.Stands file steps id) : steps.length < g.size := by
  obtain ⟨root, hroot⟩ := h.exists_root
  by_cases hne : id = root
  · obtain ⟨-, rfl⟩ := (hne ▸ h).place_unique hg hroot
    exact Nat.zero_lt_of_lt (hroot.lt_size hg)
  · have hroom := h.room hg hroot hne
    unfold NodeId at *
    omega

end located

end Stands

end SchemaForge.Graph
