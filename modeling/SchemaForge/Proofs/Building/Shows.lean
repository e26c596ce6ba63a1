import SchemaForge.Proofs.Building.Calls
/-! Properties that show what their schemas say, and building as the way to get them. -/
namespace SchemaForge

/-- What later states of a workspace keep of the nodes that are no roots of files, and of the files
that have nodes. -/
structure Workspace.Retains (w w' : Workspace) : Prop where
  size_le : w.graph.size ≤ w'.graph.size
  property : ∀ {id}, id < w.graph.size → w.graph.isFileRoot id = false →
    w'.graph.property? id = w.graph.property? id
  fileRoot : ∀ {id}, id < w.graph.size → w'.graph.isFileRoot id = w.graph.isFileRoot id
  node : ∀ {f id}, w.registry.node? f = some id → w'.registry.node? f = some id

/-- What stands behind a place in a schema: the node that a reference leads to, or else a node
below a bound that shows what is said there. -/
def Edge (lib : Library) (w : Workspace) (file : Option Path) (shows : NodeId → Property → Prop)
    (bound : NodeId) (site : Option RefSite) (node : NodeId) : Prop :=
  match site with
  | some site => Build.Leads lib w file site.reference node
  | none => node < bound ∧ w.graph.isFileRoot node = false ∧
      ∃ p, w.graph.property? node = some p ∧ shows node p

section Shows

variable (lib : Library) (w : Workspace) (file : Option Path)

mutual

/-- Whether a property holds what a schema says. References are relative to a file, and all nodes
inside lie below a bound. -/
def Shows : Schema → NodeId → Property → Prop
  | .leaf info leaf, _, p => p = ⟨info, .leaf leaf⟩
  | .array info items, bound, p =>
    ∃ node, p = ⟨info, .array node items.declaredSite?⟩ ∧
      Edge lib w file (Shows items) bound items.declaredSite? node
  | .object _ info head before inner after, bound, p =>
    before = [] ∧ after = [] ∧ ∃ found, p = ⟨info, .object head found⟩ ∧
      ShowsMembers head 0 inner bound found
  | .reference _, _, _ | .faulty .., _, _ => False

/-- Whether members hold what their schemas say, from an index on. -/
def ShowsMembers (head : ObjectHead) : Nat → List (String × Schema) → NodeId → List Member → Prop
  | _, [], _, found => found = []
  | index, (name, s) :: rest, bound, found =>
    ∃ node more, found = ⟨name, index, !head.requires name, node, s.declaredSite?⟩ :: more ∧
      Edge lib w file (Shows s) bound s.declaredSite? node ∧
      ShowsMembers head (index + 1) rest bound more

end

end Shows

variable {lib : Library} {w w' : Workspace} {file : Option Path} {s : Schema} {p : Property}

namespace Workspace

theorem Extends.retains {chain : List Path} (h : w.Extends chain w') : w.Retains w' :=
  ⟨h.graph.size_le, fun hid _ => h.graph.property hid, h.graph.fileRoot, h.node⟩

/-- Filling the place of a file touches no other node. -/
theorem retains_replace {slot : NodeId} (hslot : w.graph.isFileRoot slot = true) (p : Property) :
    w.Retains { w with graph := w.graph.replace slot p } := by
  refine ⟨by simp, ?_, ?_, fun h => h⟩
  · intro id hid hroot
    apply Graph.property?_replace_ne
    rintro rfl
    rw [hslot] at hroot
    cases hroot
  · exact fun _ => Graph.isFileRoot_replace ..

end Workspace

theorem Edge.mono {shows shows' : NodeId → Property → Prop} {bound bound' : NodeId}
    {site : Option RefSite} {node : NodeId} (hw : w.Retains w') (hbound : bound ≤ bound')
    (hshows : ∀ node p, shows node p → shows' node p)
    (h : Edge lib w file shows bound site node) : Edge lib w' file shows' bound' site node := by
  cases site with
  | some site =>
    obtain ⟨f, hf, hn⟩ := h
    exact ⟨f, hf, hw.node hn⟩
  | none =>
    obtain ⟨hlt, hroot, p, hp, hs⟩ := h
    have hid := Graph.lt_of_property? hp
    exact ⟨Nat.lt_of_lt_of_le hlt hbound, (hw.fileRoot hid).trans hroot, p,
      (hw.property hid hroot).trans hp, hshows node p hs⟩

mutual

/-- What is shown stays shown. -/
theorem Shows.mono (hw : w.Retains w') {bound bound' : NodeId} (hb : bound ≤ bound') :
    ∀ s {p}, Shows lib w file s bound p → Shows lib w' file s bound' p
  | .reference site => by
    intro h
    rw [Shows] at h
    exact h.elim
  | .faulty context faults => by
    intro h
    rw [Shows] at h
    exact h.elim
  | .leaf info leaf => by
    intro h
    rw [Shows] at h ⊢
    exact h
  | .array info items => by
    intro h
    rw [Shows] at h ⊢
    obtain ⟨node, hp, hedge⟩ := h
    exact ⟨node, hp, hedge.mono hw hb fun node p => Shows.mono hw (Nat.le_refl node) items⟩
  | .object context info head before inner after => by
    intro h
    rw [Shows] at h ⊢
    obtain ⟨hbefore, hafter, found, hp, hinner⟩ := h
    exact ⟨hbefore, hafter, found, hp, hinner.mono hw hb inner⟩

theorem ShowsMembers.mono (hw : w.Retains w') {head : ObjectHead} {bound bound' : NodeId}
    (hb : bound ≤ bound') :
    ∀ inner {index found}, ShowsMembers lib w file head index inner bound found →
      ShowsMembers lib w' file head index inner bound' found
  | [] => by
    intro h
    rw [ShowsMembers] at h ⊢
    exact h
  | (name, s) :: rest => by
    intro h
    rw [ShowsMembers] at h ⊢
    obtain ⟨node, more, hfound, hedge, hmore⟩ := h
    exact ⟨node, more, hfound, hedge.mono hw hb fun node p => Shows.mono hw (Nat.le_refl node) s,
      hmore.mono hw hb rest⟩

end

namespace Build

/-- A build that fails over the structure of a document names the faults. -/
def Candid {α : Type} (b : Build α) : Prop :=
  ∀ w context faults w', b w = (.error (.structural context faults), w') → faults ≠ []

variable {α β : Type} {follow : String → Build NodeId} {id : NodeId}

theorem Candid.bind {b : Build α} {f : α → Build β} (hb : Candid b) (hf : ∀ a, Candid (f a)) :
    Candid (b >>= f) := by
  intro w context faults w' h
  rw [bind_apply] at h
  rcases hout : b w with ⟨e | a, w₁⟩
  · rw [hout] at h
    cases h
    exact hb w _ _ _ hout
  · rw [hout] at h
    exact hf a w₁ context faults w' h

theorem candid_pure (a : α) : Candid (pure a : Build α) := by
  intro w context faults w' h
  cases h

theorem candid_add (p : Property) : Candid (add p) := by
  intro w context faults w' h
  cases h

theorem candid_fill (slot : NodeId) (p : Property) : Candid (fill slot p) := by
  intro w context faults w' h
  cases h

/-- A candid schema is built candidly if references are followed so. -/
theorem candid_schema (hf : ∀ target, Candid (follow target)) :
    (∀ place s, s.Candid → (∀ p, Candid (place p)) → Candid (schema follow place s)) ∧
      ∀ head index inner, Candid (members follow head index inner) := by
  refine schema.mutual_induct
    (fun place s => s.Candid → (∀ p, Candid (place p)) → Candid (schema follow place s))
    (fun head index inner => Candid (members follow head index inner))
    ?reference ?faulty ?leaf ?array ?object ?nil ?cons
  case reference => exact fun _ site _ _ => hf site.reference
  case faulty =>
    intro place context faults hs _ w _ _ _ h
    cases h
    exact hs
  case leaf => exact fun _ _ _ _ hp => hp _
  case array =>
    intro place info items ih hs hp
    rw [schema]
    exact (ih hs candid_add).bind fun _ => hp _
  case object =>
    intro place context info head before inner after ih _ hp
    rw [schema]
    refine ih.bind ?_
    rintro ⟨found, faults⟩
    dsimp only
    split
    · exact hp _
    · next hne =>
      intro w _ _ _ h
      cases h
      simpa using hne
  case nil => exact fun _ _ => candid_pure _
  case cons =>
    intro head index name s rest _ ihr w context faults w' h
    have hrest : ∀ f : List Member × List Fault → List Member × List Fault,
        Candid (members follow head (index + 1) rest >>= fun r => pure (f r)) :=
      fun f => ihr.bind fun _ => candid_pure _
    rw [members_cons] at h
    rcases hout : schema follow add s w with ⟨e | node, w₁⟩
    · rw [hout] at h
      cases e with
      | structural _ faults => exact hrest _ w₁ _ _ _ h
      | _ => cases h
    · rw [hout] at h
      exact hrest _ w₁ _ _ _ h

/-- References are followed candidly where the library is regular. -/
theorem candid_reference (hl : lib.Regular) (chain : List Path) (referrer : Option Path)
    (target : String) : Candid (reference lib chain referrer target) := by
  intro w
  induction chain, referrer, target, w using reference_induction lib with
  | done chain referrer target w out hout herror _ =>
    intro context faults w' h
    rw [hout] at h
    cases h
    rcases herror _ rfl with hr | hcircular
    · exact absurd rfl (Registry.resolve_error hl (Prod.ext hr rfl) context faults)
    · cases hcircular
  | untyped chain referrer target w found r site _ _ _ hout ih =>
    intro context faults w' h
    rw [hout] at h
    exact Candid.bind (ih site.reference) (fun _ _ _ _ _ h => by cases h) _ context faults w' h
  | typed chain referrer target w found r _ _ _ hout ih =>
    intro context faults w' h
    rw [hout] at h
    exact (candid_schema ih).1 _ _ (Schema.candid_ofDocument.1 found.document) (candid_fill _) _
      context faults w' h

theorem schema_array_ok {place : Property → Build NodeId} {info : Info} {items : Schema}
    (h : schema follow place (.array info items) w = (.ok id, w')) :
    ∃ node w₁, schema follow add items w = (.ok node, w₁) ∧
      place ⟨info, .array node items.declaredSite?⟩ w₁ = (.ok id, w') := by
  rw [schema, bind_apply] at h
  rcases hout : schema follow add items w with ⟨e | node, w₁⟩
  · rw [hout] at h
    cases h
  · rw [hout] at h
    exact ⟨node, w₁, rfl, h⟩

theorem schema_object_ok {place : Property → Build NodeId} {context : String} {info : Info}
    {head : ObjectHead} {before after : List Fault} {inner : List (String × Schema)}
    (h : schema follow place (.object context info head before inner after) w = (.ok id, w')) :
    before = [] ∧ after = [] ∧ ∃ found w₁, members follow head 0 inner w = (.ok (found, []), w₁) ∧
      place ⟨info, .object head found⟩ w₁ = (.ok id, w') := by
  rw [schema, bind_apply] at h
  rcases hout : members follow head 0 inner w with ⟨e | ⟨found, faults⟩, w₁⟩
  · rw [hout] at h
    cases h
  · rw [hout] at h
    dsimp only at h
    split at h
    · next hempty =>
      simp only [List.isEmpty_iff, List.append_eq_nil_iff] at hempty
      obtain ⟨⟨hbefore, rfl⟩, hafter⟩ := hempty
      exact ⟨hbefore, hafter, found, w₁, rfl, h⟩
    · cases h

/-- Members without faults have all been built: one that fails leaves a fault behind. -/
theorem members_cons_ok (hf : ∀ target, Candid (follow target)) {head : ObjectHead} {index : Nat}
    {name : String} {rest : List (String × Schema)} {found : List Member} (hs : s.Candid)
    (h : members follow head index ((name, s) :: rest) w = (.ok (found, []), w')) :
    ∃ node w₁ more, schema follow add s w = (.ok node, w₁) ∧
      members follow head (index + 1) rest w₁ = (.ok (more, []), w') ∧
      found = ⟨name, index, !head.requires name, node, s.declaredSite?⟩ :: more := by
  rw [members_cons] at h
  rcases hout : schema follow add s w with ⟨e | node, w₁⟩
  · rw [hout] at h
    cases e with
    | structural context faults =>
      have hne := (candid_schema hf).1 add s hs candid_add w context faults w₁ hout
      simp only [bind_apply] at h
      rcases hrest : members follow head (index + 1) rest w₁ with ⟨e | r, w₂⟩
      · rw [hrest] at h
        cases h
      · rw [hrest] at h
        have hfaults := congrArg (fun out => out.1.map Prod.snd) h
        simp [pure_apply, Except.map, hne] at hfaults
    | _ => cases h
  · rw [hout] at h
    simp only [bind_apply] at h
    rcases hrest : members follow head (index + 1) rest w₁ with ⟨e | ⟨more, faults⟩, w₂⟩
    · rw [hrest] at h
      cases h
    · rw [hrest] at h
      cases h
      exact ⟨node, w₁, more, rfl, hrest, rfl⟩

/-- What a build that worked leaves of a schema: the node that a reference leads to, or a place
for a property that shows the schema. -/
def Placed (R : Workspace → Workspace → Prop) (lib : Library) (file : Option Path) (s : Schema)
    (place : Property → Build NodeId) (w : Workspace) (out : NodeId × Workspace) : Prop :=
  match s.declaredSite? with
  | some site => R w out.2 ∧ Leads lib out.2 file site.reference out.1
  | none => ∃ p w₁, R w w₁ ∧ Shows lib w₁ file s w₁.graph.size p ∧ place p w₁ = (.ok out.1, out.2)

variable {R : Workspace → Workspace → Prop} (hr : ∀ w, R w w) (ht : ∀ u v w, R u v → R v w → R u w)
  (hretains : ∀ {w w'}, R w w' → w.Retains w') (ha : ∀ p, Keeps R (add p))

include ha hretains ht in
/-- A node that has just been added stands for its schema. -/
theorem Placed.edge (h : Placed R lib file s add w (id, w')) :
    R w w' ∧ Edge lib w' file (Shows lib w' file s) w'.graph.size s.declaredSite? id := by
  unfold Placed at h
  split at h
  · next site hs =>
    rw [hs]
    exact h
  · next hs =>
    obtain ⟨p, w₁, hw, hshows, hadd⟩ := h
    have hw₁ : R w₁ (add p w₁).2 := ha p w₁
    have hid : id = w₁.graph.size := (Except.ok.inj (congrArg Prod.fst hadd)).symm
    have hw' : w' = (add p w₁).2 := (congrArg Prod.snd hadd).symm
    subst hid hw'
    rw [hs]
    refine ⟨ht _ _ _ hw hw₁, ?_, Graph.isFileRoot_add _ _, p, Graph.property?_add _ _,
      hshows.mono (hretains hw₁) (Nat.le_refl _) s⟩
    exact Nat.lt_of_lt_of_eq (Nat.lt_succ_self _) (Graph.size_add _ _).symm

variable (hcandid : ∀ target, Candid (follow target))
  (hfollow : ∀ {target w id w'}, follow target w = (.ok id, w') →
    R w w' ∧ Leads lib w' file target id)

include hr ht hretains ha hcandid hfollow

/-- A schema that has been built is shown. -/
theorem placed_schema :
    (∀ place s, s.Candid → ∀ w id w', schema follow place s w = (.ok id, w') →
      Placed R lib file s place w (id, w')) ∧
    ∀ head index inner, CandidMembers inner → ∀ w found w',
      members follow head index inner w = (.ok (found, []), w') →
        R w w' ∧ ShowsMembers lib w' file head index inner w'.graph.size found := by
  refine schema.mutual_induct
    (fun place s => s.Candid → ∀ w id w', schema follow place s w = (.ok id, w') →
      Placed R lib file s place w (id, w'))
    (fun head index inner => CandidMembers inner → ∀ w found w',
      members follow head index inner w = (.ok (found, []), w') →
        R w w' ∧ ShowsMembers lib w' file head index inner w'.graph.size found)
    ?reference ?faulty ?leaf ?array ?object ?nil ?cons
  case reference =>
    intro place site _ w id w' h
    rw [schema] at h
    exact hfollow h
  case faulty =>
    intro place context faults _ w id w' h
    cases h
  case leaf =>
    intro place info leaf _ w id w' h
    rw [schema] at h
    exact ⟨_, w, hr w, by rw [Shows], h⟩
  case array =>
    intro place info items ih hs w id w' h
    obtain ⟨node, w₁, hout, hplace⟩ := schema_array_ok h
    obtain ⟨hw, hedge⟩ := (ih hs w node w₁ hout).edge ht hretains ha
    refine ⟨_, w₁, hw, ?_, hplace⟩
    rw [Shows]
    exact ⟨node, rfl, hedge⟩
  case object =>
    intro place context info head before inner after ih hs w id w' h
    obtain ⟨hbefore, hafter, found, w₁, hout, hplace⟩ := schema_object_ok h
    obtain ⟨hw, hinner⟩ := ih hs w found w₁ hout
    refine ⟨_, w₁, hw, ?_, hplace⟩
    rw [Shows]
    exact ⟨hbefore, hafter, found, rfl, hinner⟩
  case nil =>
    intro head index _ w found w' h
    cases h
    exact ⟨hr w, by rw [ShowsMembers]⟩
  case cons =>
    intro head index name s rest ih ihr hs w found w' h
    rw [CandidMembers] at hs
    obtain ⟨node, w₁, more, hout, hrest, rfl⟩ := members_cons_ok hcandid hs.1 h
    obtain ⟨hw, hedge⟩ := (ih hs.1 w node w₁ hout).edge ht hretains ha
    obtain ⟨hw', hmore⟩ := ihr hs.2 w₁ more w' hrest
    have hret := hretains hw'
    refine ⟨ht _ _ _ hw hw', ?_⟩
    rw [ShowsMembers]
    exact ⟨node, more, rfl, hedge.mono hret hret.size_le fun node p => Shows.mono hret
      (Nat.le_refl node) s, hmore⟩

end Build

end SchemaForge
