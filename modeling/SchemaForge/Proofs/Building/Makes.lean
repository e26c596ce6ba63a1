import SchemaForge.Proofs.Building.Aliases
import SchemaForge.Proofs.Growth
/-! What building makes where it works: nodes that nobody refers to yet, and through which all that
is new can be reached. -/
namespace SchemaForge

variable {lib : Library} {chain : List Path} {w w' w'' : Workspace} {f g : Path} {id : NodeId}
  {made made' : List NodeId} {s : Schema} {p : Property} {referrer : Option Path} {target : String}

/-- The node of a file is the root of the typed file that it stands for. -/
def Rooted (lib : Library) (w : Workspace) : Prop :=
  ∀ f id, lib.Serves f → w.registry.node? f = some id →
    ∃ g, Relation.ReflTransGen lib.AliasOf f g ∧ lib.Typed g ∧ w.graph.file? id = some g

theorem rooted_empty (lib : Library) : Rooted lib .empty := by
  intro f id _ hn
  cases hn

/-- Where no file gets a node, all stay rooted. -/
theorem Rooted.mono (h : Rooted lib w) (hg : w.graph.Extends w'.graph)
    (hn : ∀ f, w'.registry.node? f = w.registry.node? f) : Rooted lib w' := by
  intro f id hf hid
  rw [hn] at hid
  obtain ⟨g, hpath, htyped, hfile⟩ := h f id hf hid
  exact ⟨g, hpath, htyped, hg.file hfile⟩

/-- A file may get the root of the typed file that it stands for. -/
theorem Rooted.setNode {graph : Graph} (h : Rooted lib w) (hl : lib.Regular) (hf : lib.Serves f)
    (hg : w.graph.Extends graph) (hpath : Relation.ReflTransGen lib.AliasOf f g)
    (htyped : lib.Typed g) (hfile : graph.file? id = some g) :
    Rooted lib ⟨w.registry.setNode f id, graph⟩ := by
  intro f' other hf' hn
  change (w.registry.setNode f id).node? f' = some other at hn
  rw [Registry.node?_setNode] at hn
  split at hn
  · next hsame =>
    cases hn
    rw [← hl.eq_of_same hf hf' hsame.1]
    exact ⟨g, hpath, htyped, hfile⟩
  · obtain ⟨g', hpath', htyped', hfile'⟩ := h f' other hf' hn
    exact ⟨g', hpath', htyped', hg.file hfile'⟩

namespace Build

/-- What a step of building does that works and makes nodes. -/
structure Makes (lib : Library) (chain : List Path) (w w' : Workspace) (made : List NodeId) :
    Prop where
  step : Step lib chain w w'
  grown : w.Sound lib → w.graph.Orderly → w.graph.Grown w'.graph made
  rooted : w.Sound lib → Rooted lib w → Rooted lib w'

theorem Makes.append (h : Makes lib chain w w' made) (h' : Makes lib chain w' w'' made') :
    Makes lib chain w w'' (made ++ made') := by
  refine ⟨h.step.trans h'.step, ?_, fun hs hr => h'.rooted (h.step.sound hs) (h.rooted hs hr)⟩
  intro hs ho
  have hgrown := h.grown hs ho
  exact hgrown.append (h'.grown (h.step.sound hs) hgrown.orderly)

theorem Makes.nil (lib : Library) (chain : List Path) (w : Workspace) :
    Makes lib chain w w [] :=
  ⟨.refl lib chain w, fun _ ho => .of_roots ho fun _ hi => absurd hi List.not_mem_nil,
    fun _ hr => hr⟩

theorem Makes.add (h : Makes lib chain w w' p.children) :
    Makes lib chain w (add p w').2 [w'.graph.size] :=
  ⟨h.step.trans (step_add p w'), fun hs ho => (h.grown hs ho).add rfl,
    fun hs hr => (h.rooted hs hr).mono (Graph.extends_add _ _) fun _ => rfl⟩

/-- What a build that worked has made: the node of a reference, or all that a property refers to,
which is put into its place then. -/
def Put (lib : Library) (chain : List Path) (s : Schema) (place : Property → Build NodeId)
    (w : Workspace) (out : NodeId × Workspace) : Prop :=
  match s.declaredSite? with
  | some _ => Makes lib chain w out.2 [out.1]
  | none => ∃ p w₁, Makes lib chain w w₁ p.children ∧ place p w₁ = (.ok out.1, out.2)

/-- A node that has been added is all that is still to be referred to. -/
theorem Put.makes (h : Put lib chain s Build.add w (id, w')) : Makes lib chain w w' [id] := by
  unfold Put at h
  split at h
  · exact h
  · obtain ⟨p, w₁, hmakes, hadd⟩ := h
    cases hadd
    exact hmakes.add

variable {follow : String → Build NodeId} (hcandid : ∀ target, Candid (follow target))
  (hfollow : ∀ {target w id w'}, follow target w = (.ok id, w') → Makes lib chain w w' [id])

include hcandid hfollow

theorem put_schema :
    (∀ place s, s.Candid → ∀ w id w', schema follow place s w = (.ok id, w') →
      Put lib chain s place w (id, w')) ∧
    ∀ head index inner, CandidMembers inner → ∀ w found w',
      members follow head index inner w = (.ok (found, []), w') →
        Makes lib chain w w' (found.map Member.node) := by
  refine schema.mutual_induct
    (fun place s => s.Candid → ∀ w id w', schema follow place s w = (.ok id, w') →
      Put lib chain s place w (id, w'))
    (fun head index inner => CandidMembers inner → ∀ w found w',
      members follow head index inner w = (.ok (found, []), w') →
        Makes lib chain w w' (found.map Member.node))
    ?reference ?faulty ?leaf ?array ?object ?nil ?cons
  case reference =>
    intro place site _ w id w' h
    rw [schema] at h
    exact hfollow h
  case faulty =>
    intro place context faults _ w id w' h
    cases h
  case leaf =>
    intro place info leaf _ w id w' h
    rw [schema] at h
    exact ⟨⟨info, .leaf leaf⟩, w, Makes.nil lib chain w, h⟩
  case array =>
    intro place info items ih hs w id w' h
    obtain ⟨node, w₁, hout, hplace⟩ := schema_array_ok h
    exact ⟨⟨info, .array node items.declaredSite?⟩, w₁, (ih hs w node w₁ hout).makes, hplace⟩
  case object =>
    intro place context info head before inner after ih hs w id w' h
    obtain ⟨-, -, found, w₁, hout, hplace⟩ := schema_object_ok h
    exact ⟨⟨info, .object head found⟩, w₁, ih hs w found w₁ hout, hplace⟩
  case nil =>
    intro head index _ w found w' h
    cases h
    exact Makes.nil lib chain w
  case cons =>
    intro head index name s rest ih ihr hs w found w' h
    rw [CandidMembers] at hs
    obtain ⟨node, w₁, more, hout, hrest, rfl⟩ := members_cons_ok hcandid hs.1 h
    exact (ih hs.1 w node w₁ hout).makes.append (ihr hs.2 w₁ more w' hrest)

omit hcandid hfollow

/-- Following a reference makes the node that it leads to. -/
theorem makes_reference (hl : lib.Regular)
    (h : reference lib chain referrer target w = (.ok id, w')) : Makes lib chain w w' [id] := by
  induction chain, referrer, target, w using reference_induction lib generalizing id w' with
  | done chain referrer target w out hout _ hleads =>
    rw [hout] at h
    cases h
    have hstep := step_resolve lib chain w referrer target
    refine ⟨hstep, ?_, fun _ hr => hr.mono (.refl _) fun _ => Registry.node?_resolve⟩
    intro hs ho
    obtain ⟨f, -, hn⟩ := hleads id rfl
    refine .of_roots ho fun i hi => ?_
    rw [List.mem_singleton.1 hi]
    exact (hstep.sound hs).node hn
  | untyped chain referrer target w found r site hr hfree hsite hout ih =>
    have hstep := step_resolve lib chain w referrer target
    have hnode := Registry.node?_of_resolve hr
    rw [hr] at hstep
    rw [hout, bind_apply] at h
    rcases hnext : reference lib (found.file :: chain) (some found.file) site.reference
      { w with registry := r } with ⟨e | node, w₁⟩
    · rw [hnext] at h
      cases h
    · rw [hnext] at h
      cases h
      have hmakes := ih site.reference _ hnext
      have hleads := (follows_reference lib (found.file :: chain) (some found.file)
        site.reference { w with registry := r }).2
      rw [hnext] at hleads
      obtain ⟨g, hg, hn⟩ := hleads id rfl
      have hrecord : Step lib chain w₁ (record found.file id w₁).2 :=
        (hfree.of_step hmakes.step).step_record hn
      refine ⟨(hstep.trans hmakes.step.of_cons).trans hrecord,
        fun hs ho => hmakes.grown (hstep.sound hs) ho, ?_⟩
      intro hs hrooted
      have hs' := hstep.sound hs
      have hrooted' : Rooted lib { w with registry := r } := hrooted.mono (.refl _) hnode
      have hrooted₁ := hmakes.rooted hs' hrooted'
      obtain ⟨last, hpath, htyped, hfile⟩ := hrooted₁ g id (Library.serves_of_locate hg) hn
      have halias : lib.AliasOf found.file g :=
        ⟨found.document, site, reads_of_resolve hl hr hs', hsite, hg⟩
      have hserves := Library.serves_of_locate (Registry.resolve_ok hr).1
      exact hrooted₁.setNode hl hserves (.refl _) (.head halias hpath) htyped hfile
  | typed chain referrer target w found r hr hfree hs hout ih =>
    have hstep := step_resolve lib chain w referrer target
    have hnode := Registry.node?_of_resolve hr
    rw [hr] at hstep
    have hreserved := hfree.step_reserved lib
    rw [hout] at h
    have hput := (put_schema (candid_reference hl _ _) (ih _ _)).1 _ _
      (Schema.candid_ofDocument.1 found.document) _ _ _ h
    unfold Put at hput
    rw [hs] at hput
    obtain ⟨p, w₁, hmakes, hfill⟩ := hput
    cases hfill
    refine ⟨hstep.trans ((hreserved.trans hmakes.step.of_cons).fill (Nat.le_refl _) p), ?_, ?_⟩
    · intro hsound ho
      have hs' := hreserved.sound (hstep.sound hsound)
      exact (hmakes.grown hs' (ho.add rfl)).fill rfl rfl rfl
    · intro hsound hrooted
      have hs' := hstep.sound hsound
      have hrooted' : Rooted lib { w with registry := r } := hrooted.mono (.refl _) hnode
      have hserves := Library.serves_of_locate (Registry.resolve_ok hr).1
      have htyped : lib.Typed found.file := ⟨found.document, reads_of_resolve hl hr hs', hs⟩
      have hfile : (reserved found.file { w with registry := r }).graph.file? w.graph.size =
          some found.file := by
        simp [Graph.file?, node?_reserved]
      have hplaced : Rooted lib (reserved found.file { w with registry := r }) :=
        hrooted'.setNode hl hserves (Graph.extends_add _ _) .refl htyped hfile
      have hdone := hmakes.rooted (hreserved.sound hs') hplaced
      intro f other hf hn
      obtain ⟨g, hpath, hg, hfile⟩ := hdone f other hf hn
      exact ⟨g, hpath, hg, (Graph.file?_replace ..).trans hfile⟩

end Build

end SchemaForge
