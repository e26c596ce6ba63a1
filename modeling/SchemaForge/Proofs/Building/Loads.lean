import SchemaForge.Proofs.Building.Makes
import SchemaForge.Proofs.Places
/-! Files that are loaded one after the other: as long as that works, every root holds what its file
says, and every node knows where it stands. -/
namespace SchemaForge

variable {lib : Library} {w w' : Workspace} {f g : Path} {id c : NodeId} {target : String}
  {targets : List String} {ids : List NodeId} {k : Nat} {steps : List Nat} {s : Schema}

/-- A workspace in which all building has worked. -/
structure Complete (lib : Library) (w : Workspace) : Prop where
  sound : w.Sound lib
  orderly : w.graph.Orderly
  rooted : Rooted lib w
  holds : ∀ {id}, w.graph.isFileRoot id = true → Holds lib w id
  told : w.graph.AllTold

theorem complete_empty (lib : Library) : Complete lib .empty := by
  refine ⟨Workspace.sound_empty lib, .empty, rooted_empty lib, ?_, ?_⟩
  · intro id hid
    exact absurd (Graph.lt_of_isFileRoot hid) (Nat.not_lt_zero id)
  · intro id c hc
    exact absurd (Graph.Orderly.empty.child_lt hc) (Nat.not_lt_zero c)

namespace Build

/-- A load that works keeps a workspace complete. -/
theorem complete_load (hl : lib.Regular) (h : Complete lib w)
    (hload : load lib target w = (.ok id, w')) : Complete lib w' := by
  have hgrows : Grows lib [] False w w' := grows_of_ok (c := .load target) hl hload
  have hsound := hgrows.step.sound h.sound
  rw [load_apply] at hload
  rcases hout : reference lib [] none target w with ⟨e | root, w₁⟩
  · rw [hout] at hload
    cases hload
  · rw [hout] at hload
    cases hload
    have hmakes := makes_reference hl hout
    have hsound₁ := hmakes.step.sound h.sound
    have hgrown := hmakes.grown h.sound h.orderly
    have hleads := (follows_reference lib [] none target w).2
    rw [hout] at hleads
    obtain ⟨f, -, hn⟩ := hleads id rfl
    have hroot := hsound₁.node hn
    have hfile : ∀ {id}, w₁.graph.isFileRoot id = true → (w₁.graph.file? id).isSome = true := by
      intro id hid
      obtain ⟨f, hf, -⟩ := hsound₁.root hid
      exact Option.isSome_of_eq_some hf
    have hlearns := Graph.learns_link ⟨hgrown.orderly.child_lt, hfile⟩
      (Graph.lt_of_isFileRoot hroot)
    refine ⟨hsound, hlearns.orderly hgrown.orderly, ?_, ?_, hgrown.allTold_link h.told hroot hfile⟩
    · exact (hmakes.rooted h.sound h.rooted).mono hlearns.extends' fun _ => rfl
    · intro other hother
      by_cases hnew : w.graph.size ≤ other
      · rcases hgrows.root h.sound hnew hother with hholds | ⟨hfalse, -⟩
        · exact hholds
        · exact hfalse.elim
      · rw [hgrows.step.extends'.graph.fileRoot (Nat.lt_of_not_le hnew)] at hother
        exact hgrows.step.extends'.holds (h.holds hother)

/-- Loads that all work keep a workspace complete. -/
theorem complete_loads (hl : lib.Regular) (h : Complete lib w)
    (hloads : (targets.mapM (load lib) : Build (List NodeId)) w = (.ok ids, w')) :
    Complete lib w' := by
  induction targets generalizing w ids with
  | nil =>
    cases hloads
    exact h
  | cons target targets ih =>
    rw [List.mapM_cons, bind_apply] at hloads
    rcases hload : load lib target w with ⟨e | id, w₁⟩
    · rw [hload] at hloads
      cases hloads
    · rw [hload] at hloads
      dsimp only at hloads
      rw [bind_apply] at hloads
      rcases hrest : (targets.mapM (load lib) : Build (List NodeId)) w₁ with ⟨e | more, w₂⟩
      · rw [hrest] at hloads
        cases hloads
      · rw [hrest] at hloads
        cases hloads
        exact ih (complete_load hl h hload) hrest

end Build

end SchemaForge
