import Mathlib.Data.List.Induction
import SchemaForge.Proofs.Building.Shows
/-! The roots of files: each holds what its file says, unless a build that failed has left its place
as it was reserved. -/
namespace SchemaForge

/-- A schema that says no more than a reserved place does. -/
def Schema.Bare (s : Schema) : Prop := ∃ context, s = .object context ⟨none, none⟩ .empty [] [] []

/-- The root of a file holds what its file says. -/
def Holds (lib : Library) (w : Workspace) (id : NodeId) : Prop :=
  ∃ f d p, w.graph.file? id = some f ∧ lib.Reads f d ∧ w.graph.property? id = some p ∧
    Shows lib w (some f) (Schema.ofDocument d) w.graph.size p

/-- The root of a file is still as it was reserved, though its file says otherwise. -/
def Placeholder (lib : Library) (w : Workspace) (id : NodeId) : Prop :=
  ∃ f d, w.graph.file? id = some f ∧ lib.Reads f d ∧ w.graph.property? id = some .reserved ∧
    ¬ (Schema.ofDocument d).Bare

variable {lib : Library} {chain : List Path} {w w' w'' : Workspace} {id : NodeId} {f : Path}
  {file : Option Path} {s : Schema} {loose : Prop}

theorem bare_of_shows_reserved {bound : NodeId} (h : Shows lib w file s bound .reserved) :
    s.Bare := by
  cases s with
  | reference site => rw [Shows] at h; exact h.elim
  | faulty context faults => rw [Shows] at h; exact h.elim
  | leaf info l => rw [Shows] at h; cases h
  | array info items =>
    rw [Shows] at h
    obtain ⟨node, hp, -⟩ := h
    cases hp
  | object context info head before inner after =>
    rw [Shows] at h
    obtain ⟨rfl, rfl, found, hp, hinner⟩ := h
    cases hp
    cases inner with
    | nil => exact ⟨context, rfl⟩
    | cons m rest =>
      rw [ShowsMembers] at hinner
      obtain ⟨node, more, hfound, -⟩ := hinner
      cases hfound

theorem Placeholder.not_holds (h : Placeholder lib w id) : ¬ Holds lib w id := by
  obtain ⟨f, d, hf, hd, hp, hbare⟩ := h
  rintro ⟨f', d', p, hf', hd', hp', hshows⟩
  rw [hf] at hf'
  cases hf'
  rw [hp] at hp'
  cases hp'
  rw [hd.unique hd'] at hbare
  exact hbare (bare_of_shows_reserved hshows)

theorem Holds.mono (h : Holds lib w id) (hw : w.Retains w')
    (hf : ∀ {f}, w.graph.file? id = some f → w'.graph.file? id = some f)
    (hp : w'.graph.property? id = w.graph.property? id) : Holds lib w' id := by
  obtain ⟨f, d, p, hfile, hd, hprop, hshows⟩ := h
  exact ⟨f, d, p, hf hfile, hd, hp.trans hprop, hshows.mono hw hw.size_le _⟩

theorem Placeholder.mono (h : Placeholder lib w id)
    (hf : ∀ {f}, w.graph.file? id = some f → w'.graph.file? id = some f)
    (hp : w'.graph.property? id = w.graph.property? id) : Placeholder lib w' id := by
  obtain ⟨f, d, hfile, hd, hprop, hbare⟩ := h
  exact ⟨f, d, hf hfile, hd, hp.trans hprop, hbare⟩

namespace Workspace

theorem Extends.holds (h : w.Extends chain w') (hid : Holds lib w id) : Holds lib w' id := by
  have hmono := hid.mono h.retains h.graph.file
  obtain ⟨-, -, p, -, -, hp, -⟩ := hid
  exact hmono (h.graph.property (Graph.lt_of_property? hp))

theorem Extends.placeholder (h : w.Extends chain w') (hid : Placeholder lib w id) :
    Placeholder lib w' id := by
  have hmono := hid.mono h.graph.file
  obtain ⟨-, -, -, -, hp, -⟩ := hid
  exact hmono (h.graph.property (Graph.lt_of_property? hp))

end Workspace

namespace Build

/-- What every step of building does to the roots of files: new ones hold what their files say,
but for what may be left of builds that failed. -/
structure Grows (lib : Library) (chain : List Path) (loose : Prop) (w w' : Workspace) : Prop where
  step : Step lib chain w w'
  root : w.Sound lib → ∀ {id}, w.graph.size ≤ id → w'.graph.isFileRoot id = true →
    Holds lib w' id ∨ loose ∧ Placeholder lib w' id

/-- Without new nodes there are no new roots. -/
theorem Step.grows (h : Step lib chain w w') (hsize : w'.graph.size ≤ w.graph.size) :
    Grows lib chain loose w w' := by
  refine ⟨h, ?_⟩
  intro _ id hid hroot
  have hlt : id < w'.graph.size := Graph.lt_of_isFileRoot hroot
  omega

theorem Grows.trans (h : Grows lib chain loose w w') (h' : Grows lib chain loose w' w'') :
    Grows lib chain loose w w'' := by
  refine ⟨h.step.trans h'.step, ?_⟩
  intro hs id hid hroot
  by_cases hnew : w'.graph.size ≤ id
  · exact h'.root (h.step.sound hs) hnew hroot
  · have hlt : id < w'.graph.size := Nat.lt_of_not_le hnew
    rw [h'.step.extends'.graph.fileRoot hlt] at hroot
    rcases h.root hs hid hroot with hholds | ⟨hloose, hplace⟩
    · exact Or.inl (h'.step.extends'.holds hholds)
    · exact Or.inr ⟨hloose, h'.step.extends'.placeholder hplace⟩

theorem Grows.of_cons (h : Grows lib (f :: chain) loose w w') : Grows lib chain loose w w' :=
  ⟨h.step.of_cons, h.root⟩

theorem Grows.loosen (h : Grows lib chain False w w') : Grows lib chain loose w w' := by
  refine ⟨h.step, ?_⟩
  intro hs id hid hroot
  rcases h.root hs hid hroot with hholds | ⟨hfalse, -⟩
  · exact Or.inl hholds
  · exact hfalse.elim

theorem Grows.refl (lib : Library) (chain : List Path) (loose : Prop) (w : Workspace) :
    Grows lib chain loose w w :=
  (Step.refl lib chain w).grows (Nat.le_refl _)

theorem grows_add (p : Property) : Keeps (Grows lib chain loose) (add p) := by
  intro w
  refine ⟨step_add p w, ?_⟩
  intro _ id hid hroot
  have hlt : id < (add p w).2.graph.size := Graph.lt_of_isFileRoot hroot
  have hsize : (add p w).2.graph.size = w.graph.size + 1 := Graph.size_add _ _
  have hid : id = w.graph.size := by omega
  subst hid
  have hnot : (add p w).2.graph.isFileRoot w.graph.size = false := Graph.isFileRoot_add _ _
  rw [hnot] at hroot
  cases hroot

theorem grows_resolve {referrer : Option Path} {target : String}
    {out : Except Error Resolved × Registry}
    (hr : w.registry.resolve lib referrer target = out) :
    Grows lib chain loose w { w with registry := out.2 } :=
  hr ▸ (step_resolve lib chain w referrer target).grows (Nat.le_refl _)

/-- The document that a reference leads to is the one in the file. -/
theorem reads_of_resolve (hl : lib.Regular) {referrer : Option Path} {target : String}
    {found : Resolved} {r : Registry}
    (hr : w.registry.resolve lib referrer target = (.ok found, r))
    (hs : ({ w with registry := r } : Workspace).Sound lib) :
    lib.Reads found.file found.document := by
  obtain ⟨hf, e, he, hdocument, -⟩ := Registry.resolve_ok hr
  obtain ⟨hserves, hreads⟩ := hs.entry e (Registry.mem_of_entry?_eq he)
  have hfile : e.file = found.file :=
    hl.eq_of_same hserves (Library.serves_of_locate hf) (Registry.same_of_entry?_eq he)
  rw [hfile, hdocument] at hreads
  exact hreads

theorem lt_size_reserved (f : Path) (w : Workspace) :
    w.graph.size < (reserved f w).graph.size :=
  Nat.lt_of_lt_of_eq (Nat.lt_succ_self _) (Graph.size_add _ _).symm

theorem size_reserved_le (f : Path) (hid : w.graph.size ≤ id) (hne : id ≠ w.graph.size) :
    (reserved f w).graph.size ≤ id := by
  have hsize : (reserved f w).graph.size = w.graph.size + 1 := Graph.size_add _ _
  rw [hsize]
  exact Nat.lt_of_le_of_ne hid (Ne.symm hne)

theorem file?_reserved (hw : (reserved f w).Extends chain w') :
    w'.graph.file? w.graph.size = some f := by
  apply hw.graph.file
  simp [Graph.file?, node?_reserved]

section slot

variable {d : Document} (hfree : Free w chain f) (hd : w.Sound lib → lib.Reads f d)

include hfree hd

/-- A place that a failed build leaves behind is a placeholder. -/
theorem Grows.abandoned (hw : Grows lib (f :: chain) True (reserved f w) w')
    (hbare : ¬ (Schema.ofDocument d).Bare) : Grows lib chain True w w' := by
  refine ⟨(hfree.step_reserved lib).trans hw.step.of_cons, ?_⟩
  intro hs id hid hroot
  have hs' := (hfree.step_reserved lib).sound hs
  by_cases hslot : id = w.graph.size
  · subst hslot
    refine Or.inr ⟨trivial, f, d, file?_reserved hw.step.extends', hd hs, ?_, hbare⟩
    rw [hw.step.extends'.graph.property (lt_size_reserved f w)]
    exact Graph.property?_add _ _
  · exact hw.root hs' (size_reserved_le f hid hslot) hroot

/-- A place that is filled with what its file says is no longer one. -/
theorem Grows.filled (hw : Grows lib (f :: chain) False (reserved f w) w') {p : Property}
    (hp : Shows lib w' (some f) (Schema.ofDocument d) w'.graph.size p) :
    Grows lib chain False w (fill w.graph.size p w').2 := by
  have hextends := hw.step.extends'
  have hlt := lt_size_reserved f w
  have hslot : w'.graph.isFileRoot w.graph.size = true :=
    (hextends.graph.fileRoot hlt).trans (isFileRoot_reserved f w)
  have hret : w'.Retains (fill w.graph.size p w').2 := Workspace.retains_replace hslot p
  refine ⟨((hfree.step_reserved lib).trans hw.step.of_cons).fill (Nat.le_refl _) p, ?_⟩
  intro hs id hid hroot
  have hs' := (hfree.step_reserved lib).sound hs
  by_cases hslot : id = w.graph.size
  · subst hslot
    have hfile := file?_reserved hextends
    refine Or.inl ⟨f, d, p, (Graph.file?_replace ..).trans hfile, hd hs, ?_, ?_⟩
    · exact Graph.property?_replace _ _ (Nat.lt_of_lt_of_le hlt hextends.graph.size_le)
    · exact hp.mono hret hret.size_le _
  · have hid := size_reserved_le f hid hslot
    rcases hw.root hs' hid ((Graph.isFileRoot_replace ..).symm.trans hroot) with hholds | ⟨hf, -⟩
    · refine Or.inl (hholds.mono hret ?_ ?_)
      · exact fun hf => (Graph.file?_replace ..).trans hf
      · exact Graph.property?_replace_ne _ _ (Ne.symm hslot)
    · exact hf.elim

end slot

/-- A schema that says no more than a reserved place does cannot fail. -/
theorem ok_of_bare {follow : String → Build NodeId} {slot : NodeId} (hs : s.Bare) {e : Error} :
    schema follow (fill slot) s w ≠ (.error e, w') := by
  obtain ⟨context, rfl⟩ := hs
  intro h
  cases h

/-- What following references from a file does to roots, whether it works or not. -/
def FollowsGrowing (lib : Library) (chain : List Path) (file : Option Path) : Prop :=
  ∀ target w, Grows lib chain True w (reference lib chain file target w).2 ∧
    ∀ {id}, (reference lib chain file target w).1 = .ok id →
      Grows lib chain False w (reference lib chain file target w).2

theorem FollowsGrowing.placed (h : FollowsGrowing lib chain file) (hl : lib.Regular)
    {place : Property → Build NodeId} {d : Document}
    (hout : schema (reference lib chain file) place (Schema.ofDocument d) w = (.ok id, w')) :
    Placed (Grows lib chain False) lib file (Schema.ofDocument d) place w (id, w') := by
  have hfollow : ∀ {target w id w'}, reference lib chain file target w = (.ok id, w') →
      Grows lib chain False w w' ∧ Leads lib w' file target id := by
    intro target w id w' hout
    have hgrows := @(h target w).2 id
    have hleads := (follows_reference lib chain file target w).2
    rw [hout] at hgrows hleads
    exact ⟨hgrows rfl, hleads id rfl⟩
  exact (placed_schema (.refl lib chain False) (fun _ _ _ => .trans)
    (fun hw => hw.step.extends'.retains) grows_add (candid_reference hl chain file) hfollow).1 place
    (Schema.ofDocument d) (Schema.candid_ofDocument.1 d) w id w' hout

/-- Following references leaves placeholders only where it fails. -/
theorem grows_reference (hl : lib.Regular) (chain : List Path) (referrer : Option Path) :
    FollowsGrowing lib chain referrer := by
  intro target w
  induction chain, referrer, target, w using reference_induction lib with
  | done chain referrer target w out hout _ _ =>
    rw [hout]
    exact ⟨grows_resolve rfl, fun _ => grows_resolve rfl⟩
  | untyped chain referrer target w found r site hr hfree _ hout ih =>
    have hw : ∀ {loose}, Grows lib chain loose w { w with registry := r } := grows_resolve hr
    have hfollow := follows_reference lib (found.file :: chain) (some found.file)
    rw [hout, bind_apply]
    obtain ⟨hstep, hleads⟩ := hfollow site.reference { w with registry := r }
    obtain ⟨hany, hok⟩ := ih site.reference { w with registry := r }
    generalize reference lib (found.file :: chain) (some found.file) site.reference
      { w with registry := r } = out at hstep hleads hany hok ⊢
    obtain ⟨e | node, w'⟩ := out
    · exact ⟨hw.trans hany.of_cons, fun h => by cases h⟩
    · obtain ⟨g, -, hnode⟩ := hleads node rfl
      have hfree' := hfree.of_step hstep
      have hrecord : Step lib chain w' (record found.file node w').2 := hfree'.step_record hnode
      have hdone : Grows lib chain False w (record found.file node w').2 :=
        (hw.trans (hok rfl).of_cons).trans (hrecord.grows (Nat.le_refl _))
      exact ⟨hdone.loosen, fun _ => hdone⟩
  | typed chain referrer target w found r hr hfree hs hout ih =>
    have hw : ∀ {loose}, Grows lib chain loose w { w with registry := r } := grows_resolve hr
    have hreads := reads_of_resolve hl hr
    rw [hout]
    rcases hschema : schema (reference lib (found.file :: chain) (some found.file))
      (fill w.graph.size) (Schema.ofDocument found.document)
      (reserved found.file { w with registry := r }) with ⟨e | id, w'⟩
    · rcases schema_placed (R := Grows lib (found.file :: chain) True) (.refl lib _ True)
        (fun _ _ _ => .trans) (fun target w => (ih target w).1) grows_add (fill w.graph.size) hs
        (reserved found.file { w with registry := r }) with
        ⟨e', w'', hschema', hgrows⟩ | ⟨p, w'', hschema', -⟩
      · rw [hschema] at hschema'
        cases hschema'
        refine ⟨hw.trans (hgrows.abandoned hfree hreads ?_), fun h => by cases h⟩
        exact fun hbare => ok_of_bare hbare hschema
      · rw [hschema] at hschema'
        cases hschema'
    · have hplaced := FollowsGrowing.placed ih hl hschema
      unfold Placed at hplaced
      rw [hs] at hplaced
      obtain ⟨p, w₁, hgrows, hshows, hfill⟩ := hplaced
      have hw' : w' = (fill w.graph.size p w₁).2 := (congrArg Prod.snd hfill).symm
      have hdone := hw.trans (hgrows.filled hfree hreads hshows)
      rw [hw']
      exact ⟨hdone.loosen, fun _ => hdone⟩

theorem grows_settled (w : Workspace) (id : NodeId) (file : Option Path) :
    Grows lib chain loose w { w with graph := settled w.graph id file } :=
  (step_settled lib chain w id file).grows (Nat.le_of_eq (size_settled ..))

/-- Calls leave at most placeholders. -/
theorem grows_run (hl : lib.Regular) (c : Call) : Keeps (Grows lib [] True) (c.run lib) :=
  keeps_run (.refl lib [] True) (fun _ _ _ => .trans)
    (fun file target w => (grows_reference hl [] file target w).1) grows_add grows_settled c

/-- A call that works leaves none. -/
theorem grows_of_ok (hl : lib.Regular) {c : Call} (h : c.run lib w = (.ok id, w')) :
    Grows lib [] False w w' := by
  cases c with
  | load target =>
    have hok := @(grows_reference hl [] none target w).2
    rw [Call.run, load_apply] at h
    generalize reference lib [] none target w = out at hok h
    obtain ⟨e | root, w₁⟩ := out
    · cases h
    · cases h
      exact (hok rfl).trans (grows_settled w₁ id none)
  | document file d =>
    rw [Call.run, document_apply] at h
    rcases hout : schema (reference lib [] file) add (Schema.ofDocument d) w with ⟨e | root, w₁⟩
    · rw [hout] at h
      cases h
    · rw [hout] at h
      cases h
      obtain ⟨hok, -⟩ := ((grows_reference hl [] file).placed hl hout).edge (fun _ _ _ => .trans)
        (fun hw => hw.step.extends'.retains) grows_add
      exact hok.trans (grows_settled w₁ id file)

end Build

open Build

/-- A placeholder that one of the calls has left behind when it failed. -/
def Abandoned (lib : Library) (calls : List Call) (id : NodeId) : Prop :=
  ∃ earlier c later e, calls = earlier ++ c :: later ∧
    (c.run lib (Workspace.after lib earlier)).1 = .error e ∧
    (Workspace.after lib earlier).graph.size ≤ id ∧
    Placeholder lib (Workspace.after lib (earlier ++ [c])) id

variable {calls : List Call}

theorem Abandoned.append (h : Abandoned lib calls id) (more : List Call) :
    Abandoned lib (calls ++ more) id := by
  obtain ⟨earlier, c, later, e, rfl, he, hid, hplace⟩ := h
  exact ⟨earlier, c, later ++ more, e, by simp, he, hid, hplace⟩

/-- Nothing fills a placeholder later. -/
theorem Abandoned.placeholder (h : Abandoned lib calls id) :
    Placeholder lib (Workspace.after lib calls) id := by
  obtain ⟨earlier, c, later, e, rfl, -, -, hplace⟩ := h
  rw [List.append_cons]
  exact (Workspace.extends_after_append lib (earlier ++ [c]) later).placeholder hplace

/-- The root of a file holds what the file says, or was abandoned. -/
theorem holds_or_abandoned (hl : lib.Regular)
    (h : (Workspace.after lib calls).graph.isFileRoot id = true) :
    Holds lib (Workspace.after lib calls) id ∨ Abandoned lib calls id := by
  induction calls using List.reverseRecOn with
  | nil => exact absurd (Graph.lt_of_isFileRoot h) (Nat.not_lt_zero id)
  | append_singleton calls c ih =>
    have hsound := Workspace.sound_after lib calls
    have hextends := Workspace.extends_after_append lib calls [c]
    by_cases hnew : (Workspace.after lib calls).graph.size ≤ id
    · cases hout : (c.run lib (Workspace.after lib calls)).1 with
      | ok n =>
        have hok : Grows lib [] False (Workspace.after lib calls)
            (Workspace.after lib (calls ++ [c])) := by
          rw [Workspace.after_concat]
          exact grows_of_ok hl (Prod.ext hout rfl)
        rcases hok.root hsound hnew h with hholds | ⟨hfalse, -⟩
        · exact Or.inl hholds
        · exact hfalse.elim
      | error e =>
        have hany : Grows lib [] True (Workspace.after lib calls)
            (Workspace.after lib (calls ++ [c])) := by
          rw [Workspace.after_concat]
          exact grows_run hl c _
        rcases hany.root hsound hnew h with hholds | ⟨-, hplace⟩
        · exact Or.inl hholds
        · exact Or.inr ⟨calls, c, [], e, rfl, hout, hnew, hplace⟩
    · rw [hextends.graph.fileRoot (Nat.lt_of_not_le hnew)] at h
      rcases ih h with hholds | habandoned
      · exact Or.inl (hextends.holds hholds)
      · exact Or.inr (habandoned.append [c])

end SchemaForge
