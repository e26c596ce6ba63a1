import SchemaForge.Proofs.Building.Steps
/-! What following references does to a workspace: old places keep what they hold, and a node that
is reached is the root of the file that was named. -/
namespace SchemaForge.Build

variable {lib : Library} {chain : List Path} {referrer : Option Path} {target : String}
  {w w' w'' : Workspace} {f : Path} {id : NodeId} {found : Resolved} {r : Registry} {site : RefSite}

/-- What every step of building does, wherever it ends. -/
structure Step (lib : Library) (chain : List Path) (w w' : Workspace) : Prop where
  extends' : w.Extends chain w'
  sound : w.Sound lib → w'.Sound lib

theorem Step.refl (lib : Library) (chain : List Path) (w : Workspace) : Step lib chain w w :=
  ⟨.refl chain w, id⟩

theorem Step.trans (h : Step lib chain w w') (h' : Step lib chain w' w'') :
    Step lib chain w w'' :=
  ⟨h.extends'.trans h'.extends', fun hs => h'.sound (h.sound hs)⟩

theorem Step.of_cons (h : Step lib (f :: chain) w w') : Step lib chain w w' :=
  ⟨h.extends'.of_cons, h.sound⟩

theorem step_add (p : Property) : Keeps (Step lib chain) (add p) := by
  intro w
  have hg : w.graph.Extends (w.graph.add (.ofProperty p)) := Graph.extends_add _ _
  refine ⟨Workspace.extends_graph hg, fun hs => hs.of_graph hg fun {id} hid => ?_⟩
  rw [Graph.isFileRoot_eq, Graph.node?_add] at hid
  rw [Graph.isFileRoot_eq]
  split at hid
  · simp [Node.ofProperty] at hid
  · exact hid

theorem step_tells (w : Workspace) (id : NodeId) {change : Node → Node} (hc : Graph.Tells change) :
    Step lib chain w { w with graph := w.graph.modify id change } := by
  have hg := Graph.extends_modify w.graph id hc
  refine ⟨Workspace.extends_graph hg, fun hs => hs.of_graph hg fun {other} hid => ?_⟩
  have hlt := Graph.lt_of_isFileRoot hid
  rw [Graph.size_modify] at hlt
  rwa [hg.fileRoot hlt] at hid

theorem step_link (root : NodeId) : Keeps (Step lib chain) (link root) := by
  intro w
  have hg := Graph.extends_link w.graph root
  refine ⟨Workspace.extends_graph hg, fun hs => hs.of_graph hg fun {id} hid => ?_⟩
  have hlt : id < w.graph.size := by
    have := Graph.lt_of_isFileRoot hid
    rwa [Graph.size_link] at this
  rwa [hg.fileRoot hlt] at hid

theorem step_resolve (lib : Library) (chain : List Path) (w : Workspace) (referrer : Option Path)
    (target : String) :
    Step lib chain w { w with registry := (w.registry.resolve lib referrer target).2 } := by
  have hnode := @Registry.node?_resolve w.registry lib referrer target
  have hdocument := @Registry.document?_resolve w.registry lib referrer target
  have hunits := @Registry.units_resolve w.registry lib referrer target
  have hemitted := @Registry.isEmitted_resolve w.registry lib referrer target
  have hentries := @Registry.mem_entries_resolve w.registry lib referrer target
  generalize (w.registry.resolve lib referrer target).2 = r at *
  refine ⟨⟨.refl _, fun h => hnode.trans h, hdocument, fun _ _ => hnode, hunits,
    fun _ => hemitted⟩, fun hs => ⟨?_, ?_, fun h => hs.node (hnode.symm.trans h)⟩⟩
  · intro e he
    rcases hentries he with he | he
    · exact hs.entry e he
    · exact he
  · intro id hid
    obtain ⟨f, hf, hn⟩ := hs.root hid
    exact ⟨f, hf, hnode.trans hn⟩

/-- A file that is known and has no node yet, and that nobody on the chain is at work on. -/
structure Free (w : Workspace) (chain : List Path) (f : Path) : Prop where
  known : (w.registry.document? f).isSome
  node : w.registry.node? f = none
  chain : chain.any (·.Same f) = false

theorem Free.entered (h : Free w chain f) : (w.registry.entry? f).isSome := by
  simpa [Registry.document?] using h.known

theorem Free.node?_setNode (h : Free w chain f) (id : NodeId) :
    (w.registry.setNode f id).node? f = some id := by
  rw [Registry.node?_setNode, if_pos ⟨rfl, h.entered⟩]

theorem Free.extends_setNode (h : Free w chain f) (id : NodeId) :
    w.Extends chain { w with registry := w.registry.setNode f id } := by
  have hne : ∀ g id', w.registry.node? g = some id' → ¬ f.Same g := by
    intro g id' hg hs
    rw [← Registry.node?_congr _ hs, h.node] at hg
    cases hg
  refine ⟨.refl _, ?_, ?_, ?_, rfl, fun g => Registry.isEmitted_setNode ..⟩
  · intro g id' hg
    simp only [Registry.node?_setNode, hne g id' hg, false_and, if_false, hg]
  · intro g d hg
    exact (Registry.document?_setNode ..).trans hg
  · intro g hg
    have : ¬ f.Same g := by
      intro hs
      have hfree := h.chain
      simp only [Path.same_congr hs] at hfree
      rw [hg] at hfree
      cases hfree
    simp only [Registry.node?_setNode, this, false_and, if_false]

theorem Free.sound_setNode (h : Free w chain f) (hs : w.Sound lib)
    (hid : w.graph.isFileRoot id = true) :
    ({ w with registry := w.registry.setNode f id } : Workspace).Sound lib := by
  refine ⟨?_, ?_, ?_⟩
  · intro e he
    obtain ⟨e₀, he₀, hfile, hdoc⟩ := Registry.mem_entries_setNode he
    rw [hfile, hdoc]
    exact hs.entry e₀ he₀
  · intro other hother
    obtain ⟨g, hg, hn⟩ := hs.root hother
    exact ⟨g, hg, (h.extends_setNode id).node hn⟩
  · intro g other hg
    rw [Registry.node?_setNode] at hg
    split at hg
    · cases hg
      exact hid
    · exact hs.node hg

/-- The workspace once the place of a file is reserved. -/
def reserved (f : Path) (w : Workspace) : Workspace where
  graph := w.graph.add { Node.ofProperty .reserved with file := some f, fileRoot := true }
  registry := w.registry.setNode f w.graph.size

theorem reserve_apply (f : Path) (w : Workspace) :
    reserve f w = (.ok w.graph.size, reserved f w) := by
  simp [reserve, reserved]

theorem node?_reserved (f : Path) (w : Workspace) (id : NodeId) :
    (reserved f w).graph.node? id =
      if id = w.graph.size then
        some { Node.ofProperty .reserved with file := some f, fileRoot := true }
      else w.graph.node? id :=
  Graph.node?_add ..

theorem isFileRoot_reserved (f : Path) (w : Workspace) :
    (reserved f w).graph.isFileRoot w.graph.size = true := by
  simp [Graph.isFileRoot_eq, node?_reserved]

theorem Free.step_reserved (h : Free w chain f) (lib : Library) :
    Step lib chain w (reserved f w) := by
  have hg := Graph.extends_add w.graph
    { Node.ofProperty .reserved with file := some f, fileRoot := true }
  have hw : Workspace.Extends chain ⟨w.registry, (reserved f w).graph⟩ (reserved f w) :=
    Free.extends_setNode (w := ⟨w.registry, (reserved f w).graph⟩) ⟨h.known, h.node, h.chain⟩ _
  refine ⟨(Workspace.extends_graph hg).trans hw, fun hs => ⟨?_, ?_, ?_⟩⟩
  · intro e he
    obtain ⟨e₀, he₀, hfile, hdoc⟩ := Registry.mem_entries_setNode he
    rw [hfile, hdoc]
    exact hs.entry e₀ he₀
  · intro id hid
    by_cases hnew : id = w.graph.size
    · subst hnew
      exact ⟨f, by simp [Graph.file?, node?_reserved], h.node?_setNode _⟩
    · rw [Graph.isFileRoot_eq, node?_reserved, if_neg hnew, ← Graph.isFileRoot_eq] at hid
      obtain ⟨g, hfile, hn⟩ := hs.root hid
      exact ⟨g, hg.file hfile, hw.node hn⟩
  · intro g id hn
    change (w.registry.setNode f w.graph.size).node? g = some id at hn
    rw [Registry.node?_setNode] at hn
    split at hn
    · cases hn
      exact isFileRoot_reserved f w
    · have hid := hs.node hn
      exact (hg.fileRoot (Graph.lt_of_isFileRoot hid)).trans hid

/-- Filling a place changes neither the roots of files nor which files they stand for. -/
theorem sound_fill (hs : w.Sound lib) (slot : NodeId) (p : Property) :
    (fill slot p w).2.Sound lib := by
  refine ⟨hs.entry, ?_, ?_⟩
  · intro id hid
    obtain ⟨f, hf, hn⟩ := hs.root ((Graph.isFileRoot_replace ..).symm.trans hid)
    exact ⟨f, (Graph.file?_replace ..).trans hf, hn⟩
  · exact fun hn => (Graph.isFileRoot_replace ..).trans (hs.node hn)

/-- Filling a place that is new changes no old one. -/
theorem Step.fill (h : Step lib chain w w') {slot : NodeId} (hslot : w.graph.size ≤ slot)
    (p : Property) : Step lib chain w (fill slot p w').2 :=
  ⟨{ h.extends' with graph := h.extends'.graph.replace hslot p },
    fun hs => sound_fill (h.sound hs) slot p⟩

/-- The nodes of references are those of the files that they name. -/
def Follows (lib : Library) (chain : List Path) (referrer : Option Path)
    (follow : String → Build NodeId) : Prop :=
  ∀ target w, Step lib chain w (follow target w).2 ∧
    ∀ id, (follow target w).1 = .ok id → Leads lib (follow target w).2 referrer target id

theorem Leads.mono (h : Leads lib w referrer target id) (hw : w.Extends chain w') :
    Leads lib w' referrer target id := by
  obtain ⟨f, hf, hn⟩ := h
  exact ⟨f, hf, hw.node hn⟩

section cases

variable (hr : w.registry.resolve lib referrer target = (.ok found, r))

include hr

theorem reference_known {node : NodeId} (hn : found.node = some node) :
    reference lib chain referrer target w = (.ok node, { w with registry := r }) := by
  rw [reference]
  split
  · next h => rw [hr] at h; cases h
  · next h =>
    rw [hr] at h
    cases h
    simp only [hn]

variable (hn : found.node = none)

include hn

theorem reference_circular (hc : chain.any (·.Same found.file) = true) :
    reference lib chain referrer target w =
      (.error (.reference (.circular target)), { w with registry := r }) := by
  rw [reference]
  split
  · next h => rw [hr] at h; cases h
  · next h =>
    rw [hr] at h
    cases h
    simp only [hn, hc, dite_true]

variable (hc : chain.any (·.Same found.file) = false)

include hc

/-- A document without type stands for what it refers to. -/
theorem reference_alias (hs : Schema.ofDocument found.document = .reference site) :
    reference lib chain referrer target w =
      (reference lib (found.file :: chain) (some found.file) site.reference >>=
        record found.file) { w with registry := r } := by
  rw [reference]
  split
  · next h => rw [hr] at h; cases h
  · next h =>
    rw [hr] at h
    cases h
    simp only [hn, hc, Bool.false_eq_true, dite_false, hs]

theorem reference_typed (hs : (Schema.ofDocument found.document).declaredSite? = none) :
    reference lib chain referrer target w =
      schema (reference lib (found.file :: chain) (some found.file)) (fill w.graph.size)
        (Schema.ofDocument found.document) (reserved found.file { w with registry := r }) := by
  rw [reference]
  split
  · next h => rw [hr] at h; cases h
  · next h =>
    rw [hr] at h
    cases h
    simp only [hn, hc, Bool.false_eq_true, dite_false]
    generalize Schema.ofDocument found.document = s at hs ⊢
    cases s with
    | reference site => cases hs
    | _ => simp only [bind_apply, reserve_apply]

end cases

theorem reference_error {e : Error} (hr : w.registry.resolve lib referrer target = (.error e, r)) :
    reference lib chain referrer target w = (.error e, { w with registry := r }) := by
  rw [reference]
  split
  · next h => rw [hr] at h; cases h; rfl
  · next h => rw [hr] at h; cases h

/-- A file that has its node is not built again. -/
theorem reference_built (hf : lib.locate referrer target = .ok f)
    (hn : w.registry.node? f = some id) :
    reference lib chain referrer target w = (.ok id, w) := by
  obtain ⟨e, he, hnode⟩ := Option.bind_eq_some_iff.1 hn
  exact reference_known (Registry.resolve_known hf he) hnode

/-- A file that has just been located, and that nobody on the chain is at work on. -/
theorem free_of_resolve (hr : w.registry.resolve lib referrer target = (.ok found, r))
    (hn : found.node = none) (hc : chain.any (·.Same found.file) = false) :
    Free { w with registry := r } chain found.file := by
  obtain ⟨-, e, he, -, hnode⟩ := Registry.resolve_ok hr
  refine ⟨?_, ?_, hc⟩
  · simp [Registry.document?, he]
  · simp [Registry.node?, he, hnode, hn]

/-- Induction along references: one is done with its file at once, stands for another one, or leads
to a document that has to be built. -/
theorem reference_induction (lib : Library)
    {motive : List Path → Option Path → String → Workspace → Prop}
    (done : ∀ chain referrer target w out,
      reference lib chain referrer target w =
        (out, { w with registry := (w.registry.resolve lib referrer target).2 }) →
      (∀ e, out = .error e →
        (w.registry.resolve lib referrer target).1 = .error e ∨
          e = .reference (.circular target)) →
      (∀ id, out = .ok id →
        Leads lib { w with registry := (w.registry.resolve lib referrer target).2 } referrer
          target id) →
      motive chain referrer target w)
    (untyped : ∀ chain referrer target w found r site,
      w.registry.resolve lib referrer target = (.ok found, r) →
      Free { w with registry := r } chain found.file →
      Schema.ofDocument found.document = .reference site →
      reference lib chain referrer target w =
        (reference lib (found.file :: chain) (some found.file) site.reference >>=
          record found.file) { w with registry := r } →
      (∀ next w, motive (found.file :: chain) (some found.file) next w) →
      motive chain referrer target w)
    (typed : ∀ chain referrer target w found r,
      w.registry.resolve lib referrer target = (.ok found, r) →
      Free { w with registry := r } chain found.file →
      (Schema.ofDocument found.document).declaredSite? = none →
      reference lib chain referrer target w =
        schema (reference lib (found.file :: chain) (some found.file)) (fill w.graph.size)
          (Schema.ofDocument found.document) (reserved found.file { w with registry := r }) →
      (∀ next w, motive (found.file :: chain) (some found.file) next w) →
      motive chain referrer target w)
    (chain : List Path) (referrer : Option Path) (target : String) (w : Workspace) :
    motive chain referrer target w := by
  induction chain, referrer, target, w using reference.induct lib with
  | case1 chain referrer target w e r hr =>
    refine done chain referrer target w (.error e) ?_ ?_ ?_
    · rw [reference_error hr, hr]
    · intro e' h
      cases h
      exact Or.inl (congrArg Prod.fst hr)
    · intro id h
      cases h
  | case2 chain referrer target w found r hr node hn =>
    refine done chain referrer target w (.ok node) ?_ ?_ ?_
    · rw [reference_known hr hn, hr]
    · intro e h
      cases h
    · intro id h
      cases h
      obtain ⟨hf, e, he, -, hnode⟩ := Registry.resolve_ok hr
      rw [hr]
      exact ⟨found.file, hf, by simp [Registry.node?, he, hnode, hn]⟩
  | case3 chain referrer target w found r hr hn hc =>
    refine done chain referrer target w (.error (.reference (.circular target))) ?_ ?_ ?_
    · rw [reference_circular hr hn hc, hr]
    · intro e h
      cases h
      exact Or.inr rfl
    · intro id h
      cases h
  | case4 chain referrer target w found r hr hn hc ih =>
    have hc := eq_false_of_ne_true hc
    have hfree := free_of_resolve hr hn hc
    cases hs : (Schema.ofDocument found.document).declaredSite? with
    | some site =>
      have hsite := Schema.eq_reference hs
      exact untyped chain referrer target w found r site hr hfree hsite
        (reference_alias hr hn hc hsite) ih
    | none =>
      exact typed chain referrer target w found r hr hfree hs (reference_typed hr hn hc hs) ih

/-- A file stays free for whoever put it on the chain. -/
theorem Free.of_step (h : Free w chain f) (hw : Step lib (f :: chain) w w') : Free w' chain f := by
  obtain ⟨d, hd⟩ := Option.isSome_iff_exists.1 h.known
  refine ⟨?_, ?_, h.chain⟩
  · rw [hw.extends'.document hd]
    rfl
  · rw [hw.extends'.chain f (by simp [Path.Same]), h.node]

/-- Once the file that it refers to has its node, a file on the chain may get the same. -/
theorem Free.step_record (h : Free w chain f) {g : Path} (hg : w.registry.node? g = some id) :
    Step lib chain w (record f id w).2 :=
  ⟨h.extends_setNode id, fun hs => h.sound_setNode hs (hs.node hg)⟩

/-- Following references keeps what is known, and leads to the roots of the files that are named. -/
theorem follows_reference (lib : Library) (chain : List Path) (referrer : Option Path) :
    Follows lib chain referrer (reference lib chain referrer) := by
  intro target w
  induction chain, referrer, target, w using reference_induction lib with
  | done chain referrer target w out hout _ hok =>
    rw [hout]
    exact ⟨step_resolve lib chain w referrer target, hok⟩
  | untyped chain referrer target w found r site hr hfree _ hout ih =>
    have hw := step_resolve lib chain w referrer target
    rw [hr] at hw
    obtain ⟨hf, -⟩ := Registry.resolve_ok hr
    rw [hout, bind_apply]
    obtain ⟨hstep, hleads⟩ := ih site.reference { w with registry := r }
    generalize reference lib (found.file :: chain) (some found.file) site.reference
      { w with registry := r } = out at hstep hleads ⊢
    obtain ⟨e | node, w'⟩ := out
    · exact ⟨hw.trans hstep.of_cons, fun id h => by cases h⟩
    · obtain ⟨g, -, hnode⟩ := hleads node rfl
      have hfree' := hfree.of_step hstep
      refine ⟨(hw.trans hstep.of_cons).trans (hfree'.step_record hnode), fun id h => ?_⟩
      cases h
      exact ⟨found.file, hf, hfree'.node?_setNode node⟩
  | typed chain referrer target w found r hr hfree hs hout ih =>
    have hw := step_resolve lib chain w referrer target
    rw [hr] at hw
    obtain ⟨hf, -⟩ := Registry.resolve_ok hr
    have hreserved := hfree.step_reserved lib
    rw [hout]
    rcases schema_placed (R := Step lib (found.file :: chain)) (.refl lib _)
      (fun _ _ _ => .trans) (fun target w => (ih target w).1) step_add (fill w.graph.size) hs
      (reserved found.file { w with registry := r }) with
      ⟨e, w', hout, hstep⟩ | ⟨p, w', hout, hstep⟩
    · rw [hout]
      exact ⟨(hw.trans hreserved).trans hstep.of_cons, fun id h => by cases h⟩
    · rw [hout]
      refine ⟨(hw.trans (hreserved.trans hstep.of_cons)).fill (Nat.le_refl _) p, fun id h => ?_⟩
      cases h
      exact ⟨found.file, hf, hstep.extends'.node (hfree.node?_setNode _)⟩

end SchemaForge.Build
