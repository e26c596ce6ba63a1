import Mathlib.Data.List.Forall2
import SchemaForge.Generation
import SchemaForge.Proofs.Arrays
import SchemaForge.Proofs.Building.Calls
/-! The objects that claim the names of units: each name is claimed once, and no unit is written but
for a claim. -/
namespace SchemaForge.Generation

variable {style : Style} {language : Language} {g : Graph} {root id other : NodeId}
  {r r' : Registry} {units : List String} {pending : List NodeId} {lib : Library}

/-- The objects that claim a name, given the names that are claimed. An object whose name is
claimed is passed over, with all that it refers to. -/
def claimants (language : Language) (g : Graph) (root : NodeId) (units : List String) :
    List NodeId → List NodeId
  | [] => []
  | id :: pending =>
    if _ : (id < g.size ∧ (g.hasMembers id ∨ id = root)) ∧
        units.contains (fileName language g id) = false then
      id :: claimants language g root (units ++ [fileName language g id])
        ((g.children id).filterMap g.memberObject? ++ pending)
    else claimants language g root units pending
termination_by pending => ((unclaimed language g units).length, pending.length)
decreasing_by
  · next h => exact Prod.Lex.left _ _ (unclaimed_lt h.1.1 h.2)
  · exact Prod.Lex.right _ (Nat.lt_succ_self _)

theorem bind_ok {ε α β : Type} {x : Except ε α} {f : α → Except ε β} {b : β}
    (h : x >>= f = .ok b) : ∃ a, x = .ok a ∧ f a = .ok b := by
  cases x with
  | error e => cases h
  | ok a => exact ⟨a, rfl, h⟩

theorem forall₂_of_mapM {ε α β : Type} {step : α → Except ε β} {as : List α} {bs : List β}
    (h : as.mapM step = .ok bs) : List.Forall₂ (fun a b => step a = .ok b) as bs := by
  induction as generalizing bs with
  | nil =>
    cases h
    exact .nil
  | cons a as ih =>
    rw [List.mapM_cons] at h
    obtain ⟨b, hb, h⟩ := bind_ok h
    obtain ⟨rest, hrest, h⟩ := bind_ok h
    cases h
    exact .cons hb (ih hrest)

theorem forall₂_left {α β : Type} {R : α → β → Prop} {as : List α} {bs : List β} {a : α}
    (h : List.Forall₂ R as bs) (ha : a ∈ as) : ∃ b ∈ bs, R a b := by
  induction h with
  | nil => exact absurd ha List.not_mem_nil
  | cons hab hrest ih =>
    rcases List.mem_cons.1 ha with rfl | ha
    · exact ⟨_, List.mem_cons_self, hab⟩
    · obtain ⟨b, hb, hr⟩ := ih ha
      exact ⟨b, List.mem_cons_of_mem _ hb, hr⟩

/-- Where no two have one name, the name of one of them is that of no other. -/
theorem filter_of_nodup {α : Type} {name : α → String} {as : List α} {a : α}
    (hnodup : (as.map name).Nodup) (ha : a ∈ as) : as.filter (name · == name a) = [a] := by
  induction as with
  | nil => exact absurd ha List.not_mem_nil
  | cons b as ih =>
    obtain ⟨hfree, hnodup⟩ := List.nodup_cons.1 hnodup
    rcases List.mem_cons.1 ha with rfl | ha
    · rw [List.filter_cons_of_pos (by simp), List.filter_eq_nil_iff.2]
      intro b hb heq
      exact hfree (beq_iff_eq.1 heq ▸ List.mem_map_of_mem hb)
    · rw [List.filter_cons_of_neg, ih hnodup ha]
      intro heq
      exact hfree (beq_iff_eq.1 heq ▸ List.mem_map_of_mem ha)

theorem mapError_mapM_cons {ε ε' α β : Type} {f : α → Except ε β} {wrap : ε → ε'} {a : α} {b : β}
    {as : List α} (ha : f a = .ok b) :
    ((a :: as).mapM f).mapError wrap = ((as.mapM f).mapError wrap).map (b :: ·) := by
  rw [List.mapM_cons, ha]
  cases as.mapM f with
  | error e => rfl
  | ok bs => rfl

/-- A unit tells its own name and the objects that its node refers to. -/
theorem told_of_unit? {unit : CodeUnit} (h : unit? style language g id = .ok unit) :
    unit.fileName = fileName language g id ∧
      unit.discovered = (g.children id).filterMap g.memberObject? := by
  cases language with
  | go =>
    rw [unit?, Go.unit?] at h
    obtain ⟨c, -, hunit⟩ := bind_ok h
    rw [← Except.ok.inj hunit]
    exact ⟨rfl, rfl⟩
  | typeScript =>
    rw [unit?, TypeScript.unit?] at h
    obtain ⟨c, -, hunit⟩ := bind_ok h
    rw [← Except.ok.inj hunit]
    exact ⟨rfl, rfl⟩

/-- Each file has one root and an entry, and where it is marked as written, the name of its root is
claimed. -/
structure Kept (language : Language) (g : Graph) (r : Registry) : Prop where
  unique : ∀ {a b f f'}, g.isFileRoot a = true → g.isFileRoot b = true → g.file? a = some f →
    g.file? b = some f' → f.Same f' → a = b
  root : ∀ {id}, g.isFileRoot id = true → ∃ f, g.file? id = some f ∧ (r.entry? f).isSome ∧
    (r.isEmitted f = true → fileName language g id ∈ r.units)

/-- What is not wanted has its name claimed. -/
theorem Kept.not_wanted (h : Kept language g r) (hw : wants g r id = (false, r')) :
    r' = r ∧ fileName language g id ∈ r.units := by
  unfold wants at hw
  split at hw
  · next f hroot hf =>
    obtain ⟨f', hf', he, hclaimed⟩ := h.root hroot
    rw [hf] at hf'
    cases hf'
    obtain ⟨hr, hmarked⟩ := Registry.markEmitted_false he hw
    exact ⟨hr, hclaimed hmarked⟩
  · cases hw

/-- What is wanted has to claim its name, if that is not claimed yet. -/
theorem Kept.wanted (h : Kept language g r) (hw : wants g r id = (true, r')) {units : List String}
    (hunits : ∀ name ∈ r.units, name ∈ units) (hid : fileName language g id ∈ units) :
    Kept language g { r' with units := units } := by
  refine ⟨h.unique, ?_⟩
  intro other hother
  obtain ⟨f', hf', he, hclaimed⟩ := h.root hother
  unfold wants at hw
  split at hw
  · next f hroot hf =>
    obtain ⟨-, hentry, hemitted⟩ := Registry.markEmitted_true hw
    refine ⟨f', hf', ?_, ?_⟩
    · exact (hentry f').trans he
    · intro hmarked
      by_cases hs : f.Same f'
      · rw [← h.unique hroot hother hf hf' hs]
        exact hid
      · have hmarked' : r'.isEmitted f' = true := hmarked
        rw [hemitted f' hs] at hmarked'
        exact hunits _ (hclaimed hmarked')
  · cases hw
    exact ⟨f', hf', he, fun hmarked => hunits _ (hclaimed hmarked)⟩

theorem kept_claimed (h : Kept language g r) (hw : wants g r id = (true, r')) :
    Kept language g { r' with units := r'.units ++ [fileName language g id] } := by
  have hunits := units_of_wants hw
  exact h.wanted hw (fun _ hname => List.mem_append_left _ (hunits ▸ hname)) (by simp)

theorem claimants_claimed (h : fileName language g id ∈ units) :
    claimants language g root units (id :: pending) = claimants language g root units pending := by
  rw [claimants, dif_neg]
  rintro ⟨-, hfree⟩
  simp [h] at hfree

theorem claimants_skipped (h : ¬ (id < g.size ∧ (g.hasMembers id ∨ id = root))) :
    claimants language g root units (id :: pending) = claimants language g root units pending := by
  rw [claimants, dif_neg]
  exact fun hfree => h hfree.1

theorem claimants_free (h : id < g.size ∧ (g.hasMembers id ∨ id = root))
    (hfree : fileName language g id ∉ units) :
    claimants language g root units (id :: pending) =
      id :: claimants language g root (units ++ [fileName language g id])
        ((g.children id).filterMap g.memberObject? ++ pending) := by
  rw [claimants, dif_pos]
  exact ⟨h, by simpa using hfree⟩

/-- The units are those of the objects that claim a name, in their order; the first that cannot be
written ends the run. -/
theorem unitsAlong_claimants (h : Kept language g r) :
    (unitsAlong style language g root r pending).1 =
      ((claimants language g root r.units pending).mapM (unit? style language g)).mapError
        Error.shape := by
  fun_induction unitsAlong style language g root r pending with
  | case1 => rw [claimants]; rfl
  | case2 r id pending hid r' hw ih =>
    obtain ⟨rfl, hclaimed⟩ := h.not_wanted hw
    rw [claimants_claimed hclaimed]
    exact ih h
  | case3 r id pending hid r' hw hclaimed ih =>
    have hunits := units_of_wants hw
    rw [List.contains_iff_mem, hunits] at hclaimed
    have hkept := h.wanted hw (fun _ hname => hunits ▸ hname) (hunits ▸ hclaimed)
    rw [claimants_claimed hclaimed, ← hunits]
    exact ih hkept
  | case4 r id pending hid r' hw hfree r'' fault hunit =>
    rw [units_of_wants hw, List.contains_iff_mem] at hfree
    rw [claimants_free hid hfree, List.mapM_cons, hunit]
    rfl
  | case5 r id pending hid r' hw hfree r'' unit hunit units r₁ hrest ih =>
    have hout : Except.ok units = ((claimants language g root (r'.units ++ [fileName language g id])
        (unit.discovered ++ pending)).mapM (unit? style language g)).mapError Error.shape := by
      rw [← ih (kept_claimed h hw), hrest]
    rw [units_of_wants hw, List.contains_iff_mem] at hfree
    rw [claimants_free hid hfree, mapError_mapM_cons hunit, ← units_of_wants hw,
      ← (told_of_unit? hunit).2, ← hout]
    rfl
  | case6 r id pending hid r' hw hfree r'' unit hunit e r₁ hrest ih =>
    have hout : Except.error e = ((claimants language g root (r'.units ++ [fileName language g id])
        (unit.discovered ++ pending)).mapM (unit? style language g)).mapError Error.shape := by
      rw [← ih (kept_claimed h hw), hrest]
    rw [units_of_wants hw, List.contains_iff_mem] at hfree
    rw [claimants_free hid hfree, mapError_mapM_cons hunit, ← units_of_wants hw,
      ← (told_of_unit? hunit).2, ← hout]
    rfl
  | case7 r id pending hid ih =>
    rw [claimants_skipped hid]
    exact ih h

/-- Builders leave nothing that is marked as written. -/
theorem kept_after (lib : Library) (calls : List Build.Call) (language : Language) :
    Kept language (Workspace.after lib calls).graph (Workspace.after lib calls).registry := by
  have hsound := Workspace.sound_after lib calls
  refine ⟨hsound.root_unique, ?_⟩
  intro id hid
  obtain ⟨f, hf, hn⟩ := hsound.root hid
  refine ⟨f, hf, ?_, ?_⟩
  · obtain ⟨e, he, -⟩ := Option.bind_eq_some_iff.1 hn
    rw [he]
    rfl
  · rw [Workspace.isEmitted_after lib calls f]
    exact fun h => absurd h Bool.false_ne_true

/-- From what builders have made, the objects that claim a name have their units written. -/
theorem units_after_claimants (lib : Library) (calls : List Build.Call) (style : Style)
    (language : Language)
    (hroot : ((Workspace.after lib calls).graph.object? root).isSome = true) :
    (Generation.units style language (Workspace.after lib calls).graph
        (Workspace.after lib calls).registry root).1 =
      ((claimants language (Workspace.after lib calls).graph root [] [root]).mapM
        (unit? style language (Workspace.after lib calls).graph)).mapError Error.shape := by
  rw [Generation.units, if_pos hroot, unitsAlong_claimants (kept_after lib calls language),
    Workspace.units_after]

end SchemaForge.Generation
