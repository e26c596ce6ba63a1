import Mathlib.Logic.Relation
import SchemaForge.Proofs.Building.Roots
/-! Documents that stand for others, and what a build that failed means for the next one. -/
namespace SchemaForge

namespace Library

variable {lib : Library} {f g h : Path}

/-- A document without type stands for the file that it refers to. -/
def AliasOf (lib : Library) (f g : Path) : Prop :=
  ∃ d site, lib.Reads f d ∧ Schema.ofDocument d = .reference site ∧
    lib.locate (some f) site.reference = .ok g

/-- A file whose document does not stand for another. -/
def Typed (lib : Library) (f : Path) : Prop :=
  ∃ d, lib.Reads f d ∧ (Schema.ofDocument d).declaredSite? = none

/-- A file that stands for a typed one in the end. -/
def Grounded (lib : Library) (f : Path) : Prop :=
  ∃ g, Relation.ReflTransGen lib.AliasOf f g ∧ lib.Typed g

theorem AliasOf.unique (hg : lib.AliasOf f g) (hh : lib.AliasOf f h) : g = h := by
  obtain ⟨d, site, hd, hs, hg⟩ := hg
  obtain ⟨d', site', hd', hs', hh⟩ := hh
  rw [hd.unique hd', hs'] at hs
  cases hs
  rw [hg] at hh
  exact Except.ok.inj hh

theorem Reads.not_typed {d : Document} {site : RefSite} (hd : lib.Reads f d)
    (hs : Schema.ofDocument d = .reference site) : ¬ lib.Typed f := by
  rintro ⟨d', hd', hs'⟩
  rw [← hd.unique hd', hs] at hs'
  cases hs'

theorem AliasOf.not_typed (hg : lib.AliasOf f g) : ¬ lib.Typed f := by
  obtain ⟨d, site, hd, hs, -⟩ := hg
  exact hd.not_typed hs

theorem Grounded.alias (h : lib.Grounded g) (hg : lib.AliasOf f g) : lib.Grounded f := by
  obtain ⟨end', hpath, htyped⟩ := h
  exact ⟨end', .head hg hpath, htyped⟩

theorem serves_of_path (hf : lib.Serves f) (h : Relation.ReflTransGen lib.AliasOf f g) :
    lib.Serves g := by
  induction h with
  | refl => exact hf
  | tail _ hlast _ =>
    obtain ⟨d, site, -, -, hlocate⟩ := hlast
    exact serves_of_locate hlocate

/-- Whoever stands for a typed file in the end does not stand for itself. -/
theorem not_circular (h : Relation.ReflTransGen lib.AliasOf f g) (hg : lib.Typed g) :
    ¬ Relation.TransGen lib.AliasOf f f := by
  induction h using Relation.ReflTransGen.head_induction_on with
  | refl =>
    intro hcircle
    obtain ⟨next, hnext, -⟩ := Relation.TransGen.head'_iff.1 hcircle
    exact hnext.not_typed hg
  | head hfirst _ ih =>
    intro hcircle
    obtain ⟨next, hnext, hback⟩ := Relation.TransGen.head'_iff.1 hcircle
    rw [← hfirst.unique hnext] at hback
    exact ih (Relation.TransGen.tail' hback hfirst)

end Library

variable {lib : Library} {chain : List Path} {w w' w'' : Workspace} {f g : Path} {id : NodeId}
  {referrer : Option Path} {target : String}

/-- Files have nodes only if they stand for typed ones. -/
def Anchored (lib : Library) (w : Workspace) : Prop :=
  ∀ f id, lib.Serves f → w.registry.node? f = some id → lib.Grounded f

namespace Build

/-- What every step of building keeps of the files that have nodes. -/
structure Anchors (lib : Library) (chain : List Path) (w w' : Workspace) : Prop where
  step : Step lib chain w w'
  anchored : w.Sound lib → Anchored lib w → Anchored lib w'

theorem Anchors.trans (h : Anchors lib chain w w') (h' : Anchors lib chain w' w'') :
    Anchors lib chain w w'' :=
  ⟨h.step.trans h'.step, fun hs ha => h'.anchored (h.step.sound hs) (h.anchored hs ha)⟩

/-- Where no file gets a node, all stay anchored. -/
theorem Step.anchors (h : Step lib chain w w')
    (hn : ∀ f, w'.registry.node? f = w.registry.node? f) : Anchors lib chain w w' :=
  ⟨h, fun _ ha f id hf hid => ha f id hf ((hn f).symm.trans hid)⟩

theorem Anchors.refl (lib : Library) (chain : List Path) (w : Workspace) :
    Anchors lib chain w w :=
  (Step.refl lib chain w).anchors fun _ => rfl

theorem anchors_add (p : Property) : Keeps (Anchors lib chain) (add p) :=
  fun w => (step_add p w).anchors fun _ => rfl

/-- A file that is grounded may get a node. -/
theorem anchored_setNode (hl : lib.Regular) (ha : Anchored lib w) (hf : lib.Serves f)
    (hground : lib.Grounded f) (id : NodeId) (graph : Graph) :
    Anchored lib ⟨w.registry.setNode f id, graph⟩ := by
  intro g other hg hn
  change (w.registry.setNode f id).node? g = some other at hn
  rw [Registry.node?_setNode] at hn
  split at hn
  · next hsame =>
    rw [← hl.eq_of_same hf hg hsame.1]
    exact hground
  · exact ha g other hg hn

theorem step_anchors_resolve (lib : Library) (chain : List Path) (w : Workspace)
    (referrer : Option Path) (target : String) :
    Anchors lib chain w { w with registry := (w.registry.resolve lib referrer target).2 } :=
  (step_resolve lib chain w referrer target).anchors fun _ => Registry.node?_resolve

theorem anchors_reference (hl : lib.Regular) (chain : List Path) (referrer : Option Path)
    (target : String) : Keeps (Anchors lib chain) (reference lib chain referrer target) := by
  intro w
  induction chain, referrer, target, w using reference_induction lib with
  | done chain referrer target w out hout _ _ =>
    rw [hout]
    exact step_anchors_resolve lib chain w referrer target
  | untyped chain referrer target w found r site hr hfree hsite hout ih =>
    have hw := step_anchors_resolve lib chain w referrer target
    rw [hr] at hw
    have hreads := reads_of_resolve hl hr
    have hserves := Library.serves_of_locate (Registry.resolve_ok hr).1
    have hfollow := follows_reference lib (found.file :: chain) (some found.file)
    rw [hout, bind_apply]
    obtain ⟨-, hleads⟩ := hfollow site.reference { w with registry := r }
    have hany := ih site.reference { w with registry := r }
    generalize reference lib (found.file :: chain) (some found.file) site.reference
      { w with registry := r } = out at hleads hany ⊢
    obtain ⟨e | node, w'⟩ := out
    · exact hw.trans ⟨hany.step.of_cons, hany.anchored⟩
    · obtain ⟨g, hg, hnode⟩ := hleads node rfl
      have hfree' := hfree.of_step hany.step
      have hrecord : Step lib chain w' (record found.file node w').2 := hfree'.step_record hnode
      refine ⟨(hw.step.trans hany.step.of_cons).trans hrecord, ?_⟩
      intro hs ha
      have hs' := hw.step.sound hs
      have ha' : Anchored lib w' := hany.anchored hs' (hw.anchored hs ha)
      have halias : lib.AliasOf found.file g := ⟨found.document, site, hreads hs', hsite, hg⟩
      have hground : lib.Grounded g := ha' g node (Library.serves_of_locate hg) hnode
      exact anchored_setNode hl ha' hserves (hground.alias halias) node w'.graph
  | typed chain referrer target w found r hr hfree hs hout ih =>
    have hw := step_anchors_resolve lib chain w referrer target
    rw [hr] at hw
    have hreads := reads_of_resolve hl hr
    have hserves := Library.serves_of_locate (Registry.resolve_ok hr).1
    have hreserved : Anchors lib chain { w with registry := r }
        (reserved found.file { w with registry := r }) := by
      refine ⟨hfree.step_reserved lib, ?_⟩
      intro hsound ha
      exact anchored_setNode hl ha hserves ⟨_, .refl, found.document, hreads hsound, hs⟩ _ _
    rw [hout]
    rcases schema_placed (R := Anchors lib (found.file :: chain)) (.refl lib _)
      (fun _ _ _ => .trans) ih (anchors_add) (fill w.graph.size) hs
      (reserved found.file { w with registry := r }) with
      ⟨e, w', hschema, hany⟩ | ⟨p, w', hschema, hany⟩
    · rw [hschema]
      exact (hw.trans hreserved).trans ⟨hany.step.of_cons, hany.anchored⟩
    · rw [hschema]
      have hdone := hreserved.trans ⟨hany.step.of_cons, hany.anchored⟩
      exact hw.trans ⟨hdone.step.fill (Nat.le_refl _) p, hdone.anchored⟩

theorem anchors_settled (w : Workspace) (id : NodeId) (file : Option Path) :
    Anchors lib chain w { w with graph := settled w.graph id file } :=
  (step_settled lib chain w id file).anchors fun _ => rfl

theorem anchors_run (hl : lib.Regular) (c : Call) : Keeps (Anchors lib []) (c.run lib) :=
  keeps_run (.refl lib []) (fun _ _ _ => .trans) (anchors_reference hl []) anchors_add
    anchors_settled c

theorem anchored_after (hl : lib.Regular) (calls : List Call) :
    Anchored lib (Workspace.after lib calls) := by
  induction calls using List.reverseRecOn with
  | nil =>
    intro f id _ hn
    cases hn
  | append_singleton calls c ih =>
    rw [Workspace.after_concat]
    exact (anchors_run hl c _).anchored (Workspace.sound_after lib calls) ih

/-- References work only where they lead to typed files in the end. -/
theorem grounded_of_ok (hl : lib.Regular) (hs : w.Sound lib) (ha : Anchored lib w)
    (hf : lib.locate referrer target = .ok f)
    (h : reference lib [] referrer target w = (.ok id, w')) : lib.Grounded f := by
  have hany := anchors_reference hl [] referrer target w
  have hleads := (follows_reference lib [] referrer target w).2
  rw [h] at hany hleads
  obtain ⟨f', hf', hn⟩ := hleads id rfl
  rw [hf] at hf'
  cases hf'
  exact hany.anchored hs ha f id (Library.serves_of_locate hf) hn

/-- Nobody on the chain is met again on the way from a file. -/
def Avoids (lib : Library) (chain : List Path) (f : Path) : Prop :=
  ∀ c ∈ chain, ∀ g, Relation.ReflTransGen lib.AliasOf f g → ¬ c.Same g

theorem avoids_nil (lib : Library) (f : Path) : Avoids lib [] f :=
  fun _ hc => absurd hc List.not_mem_nil

theorem Avoids.free (h : Avoids lib chain f) : chain.any (·.Same f) = false := by
  rw [List.any_eq_false]
  intro c hc
  simpa using h c hc f .refl

theorem Avoids.cons (h : Avoids lib chain f) (hl : lib.Regular) (hf : lib.Serves f)
    (hg : lib.AliasOf f g) (hcircle : ¬ Relation.TransGen lib.AliasOf f f) :
    Avoids lib (f :: chain) g := by
  intro c hc other hother
  rcases List.mem_cons.1 hc with rfl | hc
  · intro hsame
    have hserves := Library.serves_of_path hf (.head hg hother)
    rw [← hl.eq_of_same hf hserves hsame] at hother
    exact hcircle (Relation.TransGen.head' hg hother)
  · exact h c hc other (.head hg hother)

/-- A file that is there can be followed to. -/
theorem resolve_of_reads (hl : lib.Regular) (hs : w.Sound lib) {d : Document}
    (hf : lib.locate referrer target = .ok f) (hd : lib.Reads f d) :
    ∃ found r, w.registry.resolve lib referrer target = (.ok found, r) ∧ found.file = f ∧
      found.document = d ∧ ({ w with registry := r } : Workspace).Sound lib := by
  obtain ⟨found, r, hr⟩ : ∃ found r, w.registry.resolve lib referrer target = (.ok found, r) := by
    cases he : w.registry.entry? f with
    | some e => exact ⟨_, _, Registry.resolve_known hf he⟩
    | none =>
      obtain ⟨text, ht, hd⟩ := hd
      exact ⟨_, _, Registry.resolve_new hf he ht hd⟩
  have hs' := (step_resolve lib [] w referrer target).sound hs
  rw [hr] at hs'
  have hfile : found.file = f := by
    have hf' := (Registry.resolve_ok hr).1
    rw [hf] at hf'
    exact (Except.ok.inj hf').symm
  have hreads := reads_of_resolve hl hr hs'
  rw [hfile] at hreads
  exact ⟨found, r, hr, hfile, hreads.unique hd, hs'⟩

/-- Where the end of the way has its node, references to its start work. -/
theorem reference_ok (hl : lib.Regular) (hs : w.Sound lib)
    (hpath : Relation.ReflTransGen lib.AliasOf f g) (hg : lib.Typed g)
    (hn : w.registry.node? g = some id) (hf : lib.locate referrer target = .ok f)
    (havoid : Avoids lib chain f) :
    ∃ n w', reference lib chain referrer target w = (.ok n, w') := by
  induction hpath using Relation.ReflTransGen.head_induction_on
    generalizing chain referrer target w with
  | refl => exact ⟨id, w, reference_built hf hn⟩
  | head hfirst hrest ih =>
    have hcircle := Library.not_circular (.head hfirst hrest) hg
    have hcons := havoid.cons hl (Library.serves_of_locate hf) hfirst hcircle
    obtain ⟨d, site, hd, hsite, hnext⟩ := hfirst
    obtain ⟨found, r, hr, hfile, hdocument, hs'⟩ := resolve_of_reads hl hs hf hd
    subst hfile hdocument
    cases hnode : found.node with
    | some node => exact ⟨node, _, reference_known hr hnode⟩
    | none =>
      have hn' : r.node? g = some id := (Registry.node?_of_resolve hr g).trans hn
      obtain ⟨n, w', hout⟩ := ih hs' hn' hnext hcons
      rw [reference_alias hr hnode havoid.free hsite, bind_apply, hout]
      exact ⟨n, _, rfl⟩

/-- A reference that fails has reserved a place for the typed file that it leads to. -/
theorem node_of_error (hl : lib.Regular) (hs : w.Sound lib)
    (hpath : Relation.ReflTransGen lib.AliasOf f g) (hg : lib.Typed g)
    (hf : lib.locate referrer target = .ok f) (havoid : Avoids lib chain f) {e : Error}
    (h : reference lib chain referrer target w = (.error e, w')) :
    ∃ id, w'.registry.node? g = some id := by
  induction hpath using Relation.ReflTransGen.head_induction_on
    generalizing chain referrer target w w' with
  | refl =>
    obtain ⟨d, hd, htyped⟩ := hg
    obtain ⟨found, r, hr, hfile, hdocument, hs'⟩ := resolve_of_reads hl hs hf hd
    subst hfile hdocument
    cases hnode : found.node with
    | some node =>
      rw [reference_known hr hnode] at h
      cases h
    | none =>
      have hfree := free_of_resolve hr hnode havoid.free
      rw [reference_typed hr hnode havoid.free htyped] at h
      rcases schema_placed (R := Step lib (found.file :: chain)) (.refl lib _)
        (fun _ _ _ => .trans) (fun target w => (follows_reference lib _ _ target w).1) step_add
        (fill w.graph.size) htyped (reserved found.file { w with registry := r }) with
        ⟨e', w₁, hschema, hstep⟩ | ⟨p, w₁, hschema, -⟩
      · rw [hschema] at h
        cases h
        exact ⟨_, hstep.extends'.node (hfree.node?_setNode _)⟩
      · rw [hschema] at h
        cases h
  | head hfirst hrest ih =>
    have hcircle := Library.not_circular (.head hfirst hrest) hg
    have hcons := havoid.cons hl (Library.serves_of_locate hf) hfirst hcircle
    obtain ⟨d, site, hd, hsite, hnext⟩ := hfirst
    obtain ⟨found, r, hr, hfile, hdocument, hs'⟩ := resolve_of_reads hl hs hf hd
    subst hfile hdocument
    cases hnode : found.node with
    | some node =>
      rw [reference_known hr hnode] at h
      cases h
    | none =>
      rw [reference_alias hr hnode havoid.free hsite, bind_apply] at h
      rcases hout : reference lib (found.file :: chain) (some found.file) site.reference
        { w with registry := r } with ⟨e' | n, w₁⟩
      · rw [hout] at h
        cases h
        exact ih hs' hnext hcons hout
      · rw [hout] at h
        cases h

end Build

end SchemaForge
