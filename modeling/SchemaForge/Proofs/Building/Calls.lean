import SchemaForge.Proofs.Building.Reference
/-! Builders that are used one after the other on one workspace, with failures in between. -/
namespace SchemaForge

namespace Build

variable {lib : Library} {chain : List Path} {target : String} {file : Option Path} {d : Document}
  {w w' : Workspace} {id : NodeId}

/-- One use of a builder. -/
inductive Call where
  | load (target : String)
  | document (file : Option Path) (d : Document)

def Call.run (lib : Library) : Call → Build NodeId
  | load target => Build.load lib target
  | document file d => Build.document lib file d

/-- The graph of a document once its nodes know where they stand. -/
def settled (g : Graph) (root : NodeId) (file : Option Path) : Graph :=
  (file.elim g fun f => g.modify root (·.withFile f)).link root

theorem load_apply (lib : Library) (target : String) (w : Workspace) :
    load lib target w = match reference lib [] none target w with
      | (.ok id, w') => (.ok id, { w' with graph := w'.graph.link id })
      | (.error e, w') => (.error e, w') := by
  rw [load, bind_apply]
  obtain ⟨e | id, w'⟩ := reference lib [] none target w <;> rfl

theorem document_apply (lib : Library) (file : Option Path) (d : Document) (w : Workspace) :
    document lib file d w =
      match schema (reference lib [] file) add (Schema.ofDocument d) w with
      | (.ok id, w') => (.ok id, { w' with graph := settled w'.graph id file })
      | (.error e, w') => (.error e, w') := by
  rw [document, bind_apply]
  obtain ⟨e | id, w'⟩ := schema (reference lib [] file) add (Schema.ofDocument d) w
  · rfl
  · cases file <;> rfl

theorem size_settled (g : Graph) (root : NodeId) (file : Option Path) :
    (settled g root file).size = g.size := by
  cases file with
  | none => exact Graph.size_link ..
  | some f => exact (Graph.size_link ..).trans (Graph.size_modify ..)

theorem step_settled (lib : Library) (chain : List Path) (w : Workspace) (id : NodeId)
    (file : Option Path) :
    Step lib chain w { w with graph := settled w.graph id file } := by
  cases file with
  | none => exact step_link id w
  | some f => exact (step_tells w id (Graph.tells_withFile f)).trans (step_link id _)

section keeps

variable {R : Workspace → Workspace → Prop} (hr : ∀ w, R w w) (ht : ∀ u v w, R u v → R v w → R u w)
  (hf : ∀ file target, Keeps R (reference lib [] file target)) (ha : ∀ p, Keeps R (add p))
  (hs : ∀ w id file, R w { w with graph := settled w.graph id file })

include hr ht hf ha hs

/-- What following references, adding nodes and telling them where they stand keep, a call keeps. -/
theorem keeps_run (c : Call) : Keeps R (c.run lib) := by
  intro w
  cases c with
  | load target =>
    have h := hf none target w
    rw [Call.run, load_apply]
    generalize reference lib [] none target w = out at h ⊢
    obtain ⟨e | id, w'⟩ := out
    · exact h
    · exact ht _ _ _ h (hs w' id none)
  | document file d =>
    have h := (keeps_schema hr ht (hf file) ha).1 add (Schema.ofDocument d) ha w
    rw [Call.run, document_apply]
    generalize schema (reference lib [] file) add (Schema.ofDocument d) w = out at h ⊢
    obtain ⟨e | id, w'⟩ := out
    · exact h
    · exact ht _ _ _ h (hs w' id file)

end keeps

theorem step_run (lib : Library) (c : Call) : Keeps (Step lib []) (c.run lib) :=
  keeps_run (.refl lib []) (fun _ _ _ => .trans)
    (fun file target w => (follows_reference lib [] file target w).1) step_add
    (step_settled lib []) c

end Build

namespace Workspace

open Build

variable {lib : Library}

/-- The workspace after a row of calls on a new one, whatever their outcomes. -/
def after (lib : Library) (calls : List Call) : Workspace :=
  calls.foldl (fun w c => (c.run lib w).2) .empty

theorem after_load (lib : Library) (target : String) :
    after lib [.load target] = (load lib target .empty).2 := rfl

theorem after_append (lib : Library) (calls more : List Call) :
    after lib (calls ++ more) = more.foldl (fun w c => (c.run lib w).2) (after lib calls) :=
  List.foldl_append

theorem after_concat (lib : Library) (calls : List Call) (c : Call) :
    after lib (calls ++ [c]) = (c.run lib (after lib calls)).2 :=
  after_append lib calls [c]

/-- What every call keeps, a row of calls keeps. -/
theorem step_foldl (lib : Library) (calls : List Call) (w : Workspace) :
    Step lib [] w (calls.foldl (fun w c => (c.run lib w).2) w) := by
  induction calls generalizing w with
  | nil => exact .refl lib [] w
  | cons c calls ih => exact (step_run lib c w).trans (ih _)

theorem step_after (lib : Library) (calls : List Call) : Step lib [] .empty (after lib calls) :=
  step_foldl lib calls .empty

theorem extends_after_append (lib : Library) (calls more : List Call) :
    (after lib calls).Extends [] (after lib (calls ++ more)) := by
  rw [after_append]
  exact (step_foldl lib more _).extends'

theorem sound_after (lib : Library) (calls : List Call) : (after lib calls).Sound lib :=
  (step_after lib calls).sound (sound_empty lib)

theorem units_after (lib : Library) (calls : List Call) : (after lib calls).registry.units = [] :=
  (step_after lib calls).extends'.units

theorem isEmitted_after (lib : Library) (calls : List Call) (f : Path) :
    (after lib calls).registry.isEmitted f = false :=
  (step_after lib calls).extends'.isEmitted f

end Workspace

end SchemaForge
