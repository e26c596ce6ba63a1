import Mathlib.Data.List.Induction
import SchemaForge.Proofs.Building.Calls
import SchemaForge.Proofs.Documents
/-! What building leaves in the graph, whether it works or not: references to the roots of files,
and nodes inside files that are referred to once. -/
namespace SchemaForge

namespace Build

variable {lib : Library} {chain : List Path} {w w' w'' : Workspace} {f : Path} {id : NodeId}
  {made made' : List (NodeId × Option RefSite)} {s : Schema} {p : Property}
  {referrer : Option Path} {target : String}

/-- What a step of building leaves behind, whatever its outcome, with the nodes that are still to be
referred to. -/
structure Leaves (lib : Library) (chain : List Path) (w w' : Workspace)
    (made : List (NodeId × Option RefSite)) : Prop where
  step : Step lib chain w w'
  grafted : w.Sound lib → w.graph.Orderly → w.graph.Grafted w'.graph (made.map Prod.fst)
  tidy : w.Sound lib → w.graph.Tidy → w'.graph.Tidy ∧ w'.graph.Sited made

/-- The nodes that a build has made, none if it failed. -/
def madeBy {α : Type} (made : α → List (NodeId × Option RefSite)) :
    Except Error α → List (NodeId × Option RefSite)
  | .ok a => made a
  | .error _ => []

/-- A step that touches no node makes none but roots of files. -/
theorem Step.leaves (h : Step lib chain w w') (hg : w'.graph = w.graph)
    (hmade : w.Sound lib → ∀ c site, (c, site) ∈ made →
      site.isSome = true ∧ w.graph.isFileRoot c = true) : Leaves lib chain w w' made := by
  refine ⟨h, ?_, ?_⟩
  · intro hs ho
    rw [hg]
    refine .of_roots ho fun c hc => ?_
    obtain ⟨⟨_, site⟩, hedge, rfl⟩ := List.mem_map.1 hc
    exact (hmade hs _ site hedge).2
  · intro hs ht
    rw [hg]
    refine ⟨ht, fun c site hc => ?_⟩
    obtain ⟨hsite, hroot⟩ := hmade hs c site hc
    exact ⟨Graph.lt_of_isFileRoot hroot, by simp only [hsite, hroot]⟩

theorem Step.leaves_nil (h : Step lib chain w w') (hg : w'.graph = w.graph) :
    Leaves lib chain w w' [] :=
  h.leaves hg fun _ _ _ hc => absurd hc List.not_mem_nil

theorem Leaves.refl (lib : Library) (chain : List Path) (w : Workspace) :
    Leaves lib chain w w [] :=
  (Step.refl lib chain w).leaves_nil rfl

theorem Leaves.append (h : Leaves lib chain w w' made) (h' : Leaves lib chain w' w'' made') :
    Leaves lib chain w w'' (made ++ made') := by
  refine ⟨h.step.trans h'.step, ?_, ?_⟩
  · intro hs ho
    have hgrafted := h.grafted hs ho
    rw [List.map_append]
    exact hgrafted.append (h'.grafted (h.step.sound hs) hgrafted.orderly)
  · intro hs ht
    obtain ⟨ht', hmade⟩ := h.tidy hs ht
    obtain ⟨ht'', hmade'⟩ := h'.tidy (h.step.sound hs) ht'
    exact ⟨ht'', (hmade.mono h'.step.extends'.graph).append hmade'⟩

theorem Leaves.forget (h : Leaves lib chain w w' made) : Leaves lib chain w w' [] :=
  ⟨h.step, fun hs ho => (h.grafted hs ho).forget, fun hs ht => ⟨(h.tidy hs ht).1, .nil _⟩⟩

theorem Leaves.of_cons (h : Leaves lib (f :: chain) w w' made) : Leaves lib chain w w' made :=
  ⟨h.step.of_cons, h.grafted, h.tidy⟩

/-- Steps that make nothing come before and after. -/
theorem Leaves.after (h' : Leaves lib chain w' w'' made) (h : Leaves lib chain w w' []) :
    Leaves lib chain w w'' made :=
  h.append h'

theorem Leaves.add (h : Leaves lib chain w w' p.edges) :
    Leaves lib chain w (add p w').2 [(w'.graph.size, none)] := by
  refine ⟨h.step.trans (step_add p w'), ?_, ?_⟩
  · intro hs ho
    exact (h.grafted hs ho).add p.map_fst_edges.symm
  · intro hs ht
    obtain ⟨ht', hmade⟩ := h.tidy hs ht
    refine ⟨ht'.add hmade, fun c site hc => ?_⟩
    cases List.mem_singleton.1 hc
    have hroot : (w'.graph.add (.ofProperty p)).isFileRoot w'.graph.size = false :=
      Graph.isFileRoot_add ..
    refine ⟨?_, ?_⟩
    · exact Nat.lt_of_lt_of_eq (Nat.lt_succ_self _) (Graph.size_add ..).symm
    · exact iff_of_false Bool.false_ne_true (ne_true_of_eq_false hroot)

/-- A place that is reserved makes nothing that is to be referred to. -/
theorem Free.leaves_reserved (h : Free w chain f) (lib : Library) :
    Leaves lib chain w (reserved f w) [] :=
  ⟨h.step_reserved lib, fun _ ho => .reserve ho rfl, fun _ ht => ⟨ht.add (.nil _), .nil _⟩⟩

/-- Filling the place of a file leaves an edge to a root. -/
theorem Leaves.fill (h : Leaves lib (f :: chain) (reserved f w) w' p.edges)
    (hfree : Free w chain f) (site : RefSite) :
    Leaves lib chain w (fill w.graph.size p w').2 [(w.graph.size, some site)] := by
  have hreserved := hfree.leaves_reserved lib
  have hlt : w.graph.size < (reserved f w).graph.size :=
    Nat.lt_of_lt_of_eq (Nat.lt_succ_self _) (Graph.size_add ..).symm
  have hslot : w'.graph.isFileRoot w.graph.size = true :=
    (h.step.extends'.graph.fileRoot hlt).trans (isFileRoot_reserved f w)
  refine ⟨(hreserved.step.trans h.step.of_cons).fill (Nat.le_refl _) p, ?_, ?_⟩
  · intro hs ho
    have hs' := hreserved.step.sound hs
    exact (h.grafted hs' (ho.add rfl)).fill rfl p.map_fst_edges.symm
  · intro hs ht
    have hs' := hreserved.step.sound hs
    obtain ⟨ht', hmade⟩ := h.tidy hs' (hreserved.tidy hs ht).1
    refine ⟨ht'.replace hslot hmade, fun c site' hc => ?_⟩
    cases List.mem_singleton.1 hc
    refine ⟨?_, ?_⟩
    · exact (Graph.size_replace ..).symm ▸ Graph.lt_of_isFileRoot hslot
    · exact iff_of_true rfl ((Graph.isFileRoot_replace ..).trans hslot)

/-- What a build has left of a schema: what following its reference leaves, or all that a property
refers to, which is put into its place then. -/
def Left (lib : Library) (chain : List Path) (s : Schema) (place : Property → Build NodeId)
    (w : Workspace) (out : Except Error NodeId × Workspace) : Prop :=
  match s.declaredSite? with
  | some site => Leaves lib chain w out.2 (madeBy (fun id => [(id, some site)]) out.1)
  | none => (∃ e, out.1 = .error e ∧ Leaves lib chain w out.2 []) ∨
      ∃ p w₁, Leaves lib chain w w₁ p.edges ∧ out = place p w₁

/-- A node that has been added is all that is still to be referred to. -/
theorem Left.leaves {out : Except Error NodeId × Workspace}
    (h : Left lib chain s Build.add w out) :
    Leaves lib chain w out.2 (madeBy (fun id => [(id, s.declaredSite?)]) out.1) := by
  unfold Left at h
  split at h
  · next hsite => rw [hsite]; exact h
  · next hsite =>
    rw [hsite]
    rcases h with ⟨e, he, h⟩ | ⟨p, w₁, h, rfl⟩
    · rw [he]
      exact h
    · exact h.add

variable {follow : String → Build NodeId} (hfollow : ∀ target w site,
  Leaves lib chain w (follow target w).2 (madeBy (fun id => [(id, some site)]) (follow target w).1))

include hfollow

theorem left_schema :
    (∀ place s w, Left lib chain s place w (schema follow place s w)) ∧
    ∀ head index inner w, Leaves lib chain w (members follow head index inner w).2
      (madeBy (fun r => r.1.map fun m => (m.node, m.site))
        (members follow head index inner w).1) := by
  refine schema.mutual_induct
    (fun place s => ∀ w, Left lib chain s place w (schema follow place s w))
    (fun head index inner => ∀ w, Leaves lib chain w (members follow head index inner w).2
      (madeBy (fun r => r.1.map fun m => (m.node, m.site))
        (members follow head index inner w).1))
    ?reference ?faulty ?leaf ?array ?object ?nil ?cons
  case reference =>
    intro place site w
    rw [schema]
    exact hfollow site.reference w site
  case faulty =>
    intro place context faults w
    exact Or.inl ⟨_, rfl, .refl lib chain w⟩
  case leaf =>
    intro place info leaf w
    exact Or.inr ⟨⟨info, .leaf leaf⟩, w, .refl lib chain w, rfl⟩
  case array =>
    intro place info items ih w
    have h := (ih w).leaves
    rw [schema, bind_apply]
    generalize schema follow add items w = out at h ⊢
    obtain ⟨e | node, w'⟩ := out
    · exact Or.inl ⟨e, rfl, h⟩
    · exact Or.inr ⟨⟨info, .array node items.declaredSite?⟩, w', h, rfl⟩
  case object =>
    intro place context info head before inner after ih w
    have h := ih w
    rw [schema, bind_apply]
    generalize members follow head 0 inner w = out at h ⊢
    obtain ⟨e | ⟨found, faults⟩, w'⟩ := out
    · exact Or.inl ⟨e, rfl, h⟩
    · dsimp only
      split
      · exact Or.inr ⟨⟨info, .object head found⟩, w', h, rfl⟩
      · exact Or.inl ⟨_, rfl, h.forget⟩
  case nil =>
    intro head index w
    exact .refl lib chain w
  case cons =>
    intro head index name s rest ih ihr w
    have h := (ih w).leaves
    rw [members_cons]
    generalize schema follow add s w = out at h ⊢
    obtain ⟨e | node, w'⟩ := out
    · cases e with
      | structural context faults =>
        have hrest := ihr w'
        simp only [bind_apply]
        generalize members follow head (index + 1) rest w' = out at hrest ⊢
        obtain ⟨e | r, w''⟩ := out
        · exact hrest.after h
        · exact hrest.after h
      | _ => exact h
    · have hrest := ihr w'
      simp only [bind_apply]
      generalize members follow head (index + 1) rest w' = out at hrest ⊢
      obtain ⟨e | r, w''⟩ := out
      · exact hrest.after h.forget
      · exact h.append hrest

omit hfollow

/-- Following a reference leaves an edge to the root of a file. -/
theorem leaves_reference (lib : Library) (chain : List Path) (referrer : Option Path)
    (target : String) (w : Workspace) (site : RefSite) :
    Leaves lib chain w (reference lib chain referrer target w).2
      (madeBy (fun id => [(id, some site)]) (reference lib chain referrer target w).1) := by
  induction chain, referrer, target, w using reference_induction lib generalizing site with
  | done chain referrer target w out hout _ hok =>
    have hstep := step_resolve lib chain w referrer target
    rw [hout]
    cases out with
    | error e => exact hstep.leaves_nil rfl
    | ok id =>
      obtain ⟨f, -, hn⟩ := hok id rfl
      refine hstep.leaves rfl fun hs c site' hc => ?_
      cases List.mem_singleton.1 hc
      exact ⟨rfl, (hstep.sound hs).node hn⟩
  | untyped chain referrer target w found r site' hr hfree _ hout ih =>
    have hstep := step_resolve lib chain w referrer target
    rw [hr] at hstep
    rw [hout, bind_apply]
    have hnext := ih site'.reference { w with registry := r } site
    obtain ⟨-, hleads⟩ := follows_reference lib (found.file :: chain) (some found.file)
      site'.reference { w with registry := r }
    generalize reference lib (found.file :: chain) (some found.file) site'.reference
      { w with registry := r } = out at hnext hleads ⊢
    obtain ⟨e | node, w'⟩ := out
    · exact hnext.of_cons.after (hstep.leaves_nil rfl)
    · obtain ⟨g, -, hn⟩ := hleads node rfl
      have hrecord : Step lib chain w' (record found.file node w').2 :=
        (hfree.of_step hnext.step).step_record hn
      have hdone := (hnext.of_cons.after (hstep.leaves_nil rfl)).append (hrecord.leaves_nil rfl)
      rwa [List.append_nil] at hdone
  | typed chain referrer target w found r hr hfree hs hout ih =>
    have hstep := step_resolve lib chain w referrer target
    rw [hr] at hstep
    rw [hout]
    have hleft := (left_schema (fun target w => ih target w)).1 (fill w.graph.size)
      (Schema.ofDocument found.document) (reserved found.file { w with registry := r })
    unfold Left at hleft
    rw [hs] at hleft
    generalize schema (reference lib (found.file :: chain) (some found.file)) (fill w.graph.size)
      (Schema.ofDocument found.document) (reserved found.file { w with registry := r }) = out
      at hleft ⊢
    rcases hleft with ⟨e, he, h⟩ | ⟨p, w₁, h, rfl⟩
    · rw [he]
      exact (h.of_cons.after (hfree.leaves_reserved lib)).after (hstep.leaves_nil rfl)
    · exact (h.fill hfree site).after (hstep.leaves_nil rfl)

/-- A call keeps its graph in order. -/
theorem orderly_run (c : Call) (hs : w.Sound lib) (ho : w.graph.Orderly) (ht : w.graph.Tidy) :
    (c.run lib w).2.graph.Orderly ∧ (c.run lib w).2.graph.Tidy := by
  have hsettled : ∀ {w' : Workspace} {made} (id : NodeId) (file : Option Path),
      Leaves lib [] w w' made →
      (settled w'.graph id file).Orderly ∧ (settled w'.graph id file).Tidy := by
    intro w' made id file h
    have hextends := (step_settled lib [] w' id file).extends'.graph
    have hsize := size_settled w'.graph id file
    exact ⟨hextends.orderly hsize (h.grafted hs ho).orderly, hextends.tidy hsize (h.tidy hs ht).1⟩
  cases c with
  | load target =>
    have h := leaves_reference lib [] none target w ⟨target, none⟩
    rw [Call.run, load_apply]
    generalize reference lib [] none target w = out at h ⊢
    obtain ⟨e | id, w'⟩ := out
    · exact ⟨(h.grafted hs ho).orderly, (h.tidy hs ht).1⟩
    · exact hsettled id none h
  | document file d =>
    have h := ((left_schema (leaves_reference lib [] file)).1 add (Schema.ofDocument d) w).leaves
    rw [Call.run, document_apply]
    generalize schema (reference lib [] file) add (Schema.ofDocument d) w = out at h ⊢
    obtain ⟨e | id, w'⟩ := out
    · exact ⟨(h.grafted hs ho).orderly, (h.tidy hs ht).1⟩
    · exact hsettled id file h

end Build

namespace Workspace

open Build

/-- Calls, whatever their outcomes, keep their graph in order. -/
theorem orderly_after (lib : Library) (calls : List Call) :
    (after lib calls).graph.Orderly ∧ (after lib calls).graph.Tidy := by
  induction calls using List.reverseRecOn with
  | nil => exact ⟨.empty, .empty⟩
  | append_singleton calls c ih =>
    rw [after_concat]
    exact orderly_run c (sound_after lib calls) ih.1 ih.2

/-- What every graph has in common that calls have made, whatever their outcomes. References lead to
nodes. They carry a site just where they lead to the root of a file, and every other node is
referred to at most once. No node stands inside itself, so that every way that comes back to where
it began has followed a site, and the document of a node is made, without end to fear, of those of
the nodes right inside it. Files have roots for their nodes. -/
theorem orderly_graph_after (lib : Library) (calls : List Call) :
    let w := after lib calls
    (∀ id, ∀ c ∈ w.graph.children id, c < w.graph.size) ∧
    (∀ id c site, (c, site) ∈ w.graph.edges id →
      (site.isSome = true ↔ w.graph.isFileRoot c = true)) ∧
    (∀ (id id' : NodeId) (k k' : Nat) (c : NodeId), w.graph.isFileRoot c = false →
      (w.graph.children id)[k]? = some c → (w.graph.children id')[k']? = some c →
        id = id' ∧ k = k') ∧
    (∀ id, ¬ Relation.TransGen w.graph.Inside id id) ∧
    (∀ f id, w.registry.node? f = some id → w.graph.isFileRoot id = true) ∧
    (∀ id, Relation.TransGen (fun a b => b ∈ w.graph.children a) id id →
      ∃ a c site, (c, some site) ∈ w.graph.edges a ∧ w.graph.Reaches id a ∧ w.graph.Reaches c id) ∧
    WellFounded w.graph.Inside ∧
    ∀ id, (w.graph.document id).members =
      w.graph.membersFrom (fun c => (w.graph.document c).members) id := by
  obtain ⟨horderly, htidy⟩ := orderly_after lib calls
  refine ⟨fun id c hc => horderly.child_lt hc, fun id c site hc => (htidy.sited id c site hc).2,
    fun id id' k k' c => horderly.single, htidy.not_inside_itself,
    fun f id => (sound_after lib calls).node, fun id => htidy.site_of_cycle,
    htidy.wellFounded_inside, htidy.members_document⟩

end Workspace

end SchemaForge
