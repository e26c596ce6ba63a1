import SchemaForge.Proofs.Building.Aliases
/-! Which files refer to which, and where the failures of a build stem from if all of them can be
found and read. -/
namespace SchemaForge

namespace Schema

mutual

/-- The references in a schema, in the order in which they are followed. -/
def sites : Schema → List RefSite
  | .reference site => [site]
  | .array _ items => items.sites
  | .object _ _ _ _ inner _ => sitesAmong inner
  | .leaf .. | .faulty .. => []

def sitesAmong : List (String × Schema) → List RefSite
  | [] => []
  | (_, s) :: rest => s.sites ++ sitesAmong rest

end

theorem mem_sites {s : Schema} {site : RefSite} (h : s = .reference site) : site ∈ s.sites := by
  rw [h, sites]
  exact List.mem_singleton_self site

end Schema

namespace Library

variable {lib : Library} {f g start : Path} {chain : List Path}

/-- A file refers to another, somewhere in its schema. -/
def Refers (lib : Library) (f g : Path) : Prop :=
  ∃ d site, lib.Reads f d ∧ site ∈ (Schema.ofDocument d).sites ∧
    lib.locate (some f) site.reference = .ok g

theorem AliasOf.refers (h : lib.AliasOf f g) : lib.Refers f g := by
  obtain ⟨d, site, hd, hs, hg⟩ := h
  exact ⟨d, site, hd, Schema.mem_sites hs, hg⟩

theorem Refers.serves (h : lib.Refers f g) : lib.Serves g := by
  obtain ⟨_, _, _, _, hg⟩ := h
  exact serves_of_locate hg

theorem serves_of_refers (hf : lib.Serves f) (h : Relation.ReflTransGen lib.Refers f g) :
    lib.Serves g := by
  rcases h.cases_tail with rfl | ⟨_, -, hlast⟩
  · exact hf
  · exact hlast.serves

/-- A library whose files all hold documents and refer to each other only. -/
structure Closed (lib : Library) : Prop where
  parses : ∀ f ∈ lib.files, ∃ d, lib.Reads f d
  resolves : ∀ f ∈ lib.files, ∀ d, lib.Reads f d → ∀ site ∈ (Schema.ofDocument d).sites,
    ∃ g, lib.locate (some f) site.reference = .ok g

/-- A file of a closed library that is not typed stands for another. -/
theorem Closed.aliasOf (hc : lib.Closed) (hf : f ∈ lib.files) (h : ¬ lib.Typed f) :
    ∃ g, lib.AliasOf f g := by
  obtain ⟨d, hd⟩ := hc.parses f hf
  cases hsite : (Schema.ofDocument d).declaredSite? with
  | none => exact absurd ⟨d, hd, hsite⟩ h
  | some site =>
    have hsite := Schema.eq_reference hsite
    obtain ⟨g, hg⟩ := hc.resolves f hf d hd site (Schema.mem_sites hsite)
    exact ⟨g, d, site, hd, hsite, hg⟩

/-- A way from one file to another along references; `chain` holds those that it has passed, the
last one first. -/
inductive Leading (lib : Library) (start : Path) : List Path → Path → Prop
  | here : Leading lib start [] start
  | next {chain : List Path} {f g : Path} (h : Leading lib start chain f) (hg : lib.Refers f g) :
    Leading lib start (f :: chain) g

theorem Leading.serves (h : lib.Leading start chain f) (hs : lib.Serves start) : lib.Serves f := by
  cases h with
  | here => exact hs
  | next _ hg => exact hg.serves

theorem Leading.serves_chain (h : lib.Leading start chain f) (hs : lib.Serves start) :
    ∀ g ∈ chain, lib.Serves g := by
  induction h with
  | here => exact fun _ hg => absurd hg List.not_mem_nil
  | next h _ ih => exact List.forall_mem_cons.2 ⟨h.serves hs, ih⟩

/-- From a file a way that passes no file twice leads back to an alias that it has passed. -/
def Circling (lib : Library) (start : Path) : Prop :=
  ∃ chain f g h, lib.Leading start chain f ∧ (f :: chain).Nodup ∧ lib.Refers f g ∧
    g ∈ f :: chain ∧ lib.AliasOf g h

/-- A way that has passed the alias to which it leads closes a circle. -/
theorem Leading.circling (h : lib.Leading start chain f) (hnodup : chain.Nodup) (hf : f ∈ chain)
    (hg : lib.AliasOf f g) : lib.Circling start := by
  cases h with
  | here => exact absurd hf List.not_mem_nil
  | next hway hrefers => exact ⟨_, _, _, g, hway, hnodup, hrefers, hf, hg⟩

/-- A failure that is one of structure, or that of meeting a circle that is there. -/
def Accounts (lib : Library) (start : Path) (e : Error) : Prop :=
  (∃ context faults, e = .structural context faults) ∨
    (∃ target, e = .reference (.circular target)) ∧ lib.Circling start

end Library

namespace Build

variable {lib : Library} {chain : List Path} {referrer : Option Path} {target : String}
  {w w' : Workspace} {f start : Path} {e : Error} {sites sites' : List RefSite}
  {R : Workspace → Workspace → Prop} {follow : String → Build NodeId}

/-- A failure is one of structure, or that of following one of some references on the way. -/
def Stems (R : Workspace → Workspace → Prop) (follow : String → Build NodeId)
    (sites : List RefSite) (w : Workspace) (e : Error) : Prop :=
  (∃ context faults, e = .structural context faults) ∨
    ∃ site ∈ sites, ∃ w', R w w' ∧ (follow site.reference w').1 = .error e

theorem Stems.mono (ht : ∀ u v w, R u v → R v w → R u w) (h : Stems R follow sites w' e)
    (hw : R w w') (hsites : sites ⊆ sites') : Stems R follow sites' w e := by
  rcases h with hstructural | ⟨site, hsite, w₁, hw₁, he⟩
  · exact Or.inl hstructural
  · exact Or.inr ⟨site, hsites hsite, w₁, ht _ _ _ hw hw₁, he⟩

section

variable (hr : ∀ w, R w w) (ht : ∀ u v w, R u v → R v w → R u w)
  (hf : ∀ target, Keeps R (follow target)) (ha : ∀ p, Keeps R (add p))

include hr ht hf ha

/-- A schema whose node can be placed fails for its structure or for one of its references. -/
theorem stems_schema :
    (∀ place s, (∀ p w e, (place p w).1 ≠ .error e) →
      ∀ w e, (schema follow place s w).1 = .error e → Stems R follow s.sites w e) ∧
    ∀ head index inner w e, (members follow head index inner w).1 = .error e →
      Stems R follow (Schema.sitesAmong inner) w e := by
  refine schema.mutual_induct
    (fun place s => (∀ p w e, (place p w).1 ≠ .error e) →
      ∀ w e, (schema follow place s w).1 = .error e → Stems R follow s.sites w e)
    (fun head index inner => ∀ w e, (members follow head index inner w).1 = .error e →
      Stems R follow (Schema.sitesAmong inner) w e)
    ?reference ?faulty ?leaf ?array ?object ?nil ?cons
  case reference =>
    intro place site _ w e he
    rw [schema] at he
    exact Or.inr ⟨site, Schema.mem_sites rfl, w, hr w, he⟩
  case faulty =>
    intro place context faults _ w e he
    cases he
    exact Or.inl ⟨context, faults, rfl⟩
  case leaf =>
    intro place info leaf hplace w e he
    rw [schema] at he
    exact absurd he (hplace _ w e)
  case array =>
    intro place info items ih hplace w e he
    rw [schema] at he
    rw [Schema.sites]
    rcases error_of_bind he with he | ⟨node, w', -, he⟩
    · exact ih add_ok w e he
    · exact absurd he (hplace _ w' e)
  case object =>
    intro place context info head before inner after ih hplace w e he
    rw [schema] at he
    rw [Schema.sites]
    rcases error_of_bind he with he | ⟨⟨found, faults⟩, w', -, he⟩
    · exact ih w e he
    · dsimp only at he
      split at he
      · exact absurd he (hplace _ w' e)
      · cases he
        exact Or.inl ⟨_, _, rfl⟩
  case nil =>
    intro head index w e he
    cases he
  case cons =>
    intro head index name s rest ih ihr w e he
    have h := ih add_ok w
    have hw := (keeps_schema hr ht hf ha).1 add s ha w
    -- what is made of the rest does not matter, only how building it ends
    have hrest : ∀ (f : List Member × List Fault → List Member × List Fault) (w' : Workspace),
        R w w' → ((members follow head (index + 1) rest >>= fun r => pure (f r)) w').1 = .error e →
          Stems R follow (Schema.sitesAmong ((name, s) :: rest)) w e := by
      intro f w' hw he
      rcases error_of_bind he with he | ⟨r, w'', -, he⟩
      · exact (ihr w' e he).mono ht hw (List.subset_append_right _ _)
      · cases he
    rw [members_cons] at he
    generalize schema follow add s w = out at h hw he
    obtain ⟨e' | node, w'⟩ := out
    · cases e' with
      | structural context faults => exact hrest _ w' hw he
      | _ =>
        cases he
        exact (h _ rfl).mono ht (hr w) (List.subset_append_left _ _)
    · exact hrest _ w' hw he

end

/-- A reference that leads to a file finds its document. -/
theorem resolve_closed (hl : lib.Regular) (hc : lib.Closed) (hs : w.Sound lib)
    (hf : lib.locate referrer target = .ok f) :
    ∃ found r, w.registry.resolve lib referrer target = (.ok found, r) ∧ found.file = f ∧
      lib.Reads f found.document ∧ w.registry.node? f = found.node ∧
      ({ w with registry := r } : Workspace).Sound lib := by
  obtain ⟨d, hd⟩ := hc.parses f (Library.mem_files_of_locate hf)
  obtain ⟨found, r, hr, rfl, rfl, hs'⟩ := resolve_of_reads hl hs hf hd
  obtain ⟨-, e, he, -, hnode⟩ := Registry.resolve_ok hr
  refine ⟨found, r, hr, rfl, hd, ?_, hs'⟩
  rw [← Registry.node?_of_resolve hr, Registry.node?, he]
  exact hnode

/-- The typed files on a chain have their nodes. -/
def Begun (lib : Library) (chain : List Path) (w : Workspace) : Prop :=
  ∀ g ∈ chain, lib.Typed g → ∃ id, w.registry.node? g = some id

theorem Begun.mono (h : Begun lib chain w)
    (hw : ∀ g id, w.registry.node? g = some id → w'.registry.node? g = some id) :
    Begun lib chain w' := by
  intro g hg htyped
  obtain ⟨id, hid⟩ := h g hg htyped
  exact ⟨id, hw g id hid⟩

theorem Begun.cons (h : Begun lib chain w)
    (hf : lib.Typed f → ∃ id, w.registry.node? f = some id) : Begun lib (f :: chain) w :=
  List.forall_mem_cons.2 ⟨hf, h⟩

/-- Where all files can be found and read, a build fails for the structure of a schema or at an
alias that it has not done with. -/
theorem accounts_reference (hl : lib.Regular) (hc : lib.Closed) (hstart : lib.Serves start)
    (hf : lib.locate referrer target = .ok f) (hway : lib.Leading start chain f)
    (hnodup : chain.Nodup) (hs : w.Sound lib) (hbegun : Begun lib chain w)
    (he : (reference lib chain referrer target w).1 = .error e) : lib.Accounts start e := by
  induction chain, referrer, target, w using reference.induct lib generalizing f e with
  | case1 chain referrer target w e' r hr =>
    obtain ⟨found, r', hr', -⟩ := resolve_closed hl hc hs hf
    rw [hr] at hr'
    cases hr'
  | case2 chain referrer target w found r hr node hn =>
    rw [reference_known hr hn] at he
    cases he
  | case3 chain referrer target w found r hr hn hmet =>
    rw [reference_circular hr hn hmet] at he
    cases he
    obtain ⟨_, _, hr', rfl, -, hnode, -⟩ := resolve_closed hl hc hs hf
    rw [hr] at hr'
    cases hr'
    have hmem := hl.mem_of_any_same (hway.serves_chain hstart) (hway.serves hstart) hmet
    -- a typed file would have its node, as it is being built
    have huntyped : ¬ lib.Typed found.file := by
      intro htyped
      obtain ⟨id, hid⟩ := hbegun found.file hmem htyped
      rw [hnode, hn] at hid
      cases hid
    obtain ⟨g, hg⟩ := hc.aliasOf (Library.mem_files_of_locate hf) huntyped
    exact Or.inr ⟨⟨target, rfl⟩, hway.circling hnodup hmem hg⟩
  | case4 chain referrer target w found r hr hn hfresh ih =>
    obtain ⟨_, _, hr', rfl, hd, -, hs'⟩ := resolve_closed hl hc hs hf
    rw [hr] at hr'
    cases hr'
    have hfresh := eq_false_of_ne_true hfresh
    have hfree := free_of_resolve hr hn hfresh
    have hnodup' : (found.file :: chain).Nodup :=
      List.nodup_cons.2 ⟨fun hmem => ne_true_of_eq_false hfresh (Path.any_same hmem), hnodup⟩
    have hbegun' : Begun lib chain { w with registry := r } :=
      hbegun.mono fun g id hid => (Registry.node?_of_resolve hr g).trans hid
    have hgo : ∀ site ∈ (Schema.ofDocument found.document).sites, ∀ w' : Workspace,
        w'.Sound lib → Begun lib (found.file :: chain) w' → ∀ e,
          (reference lib (found.file :: chain) (some found.file) site.reference w').1 = .error e →
            lib.Accounts start e := by
      intro site hsite w' hs' hbegun e he
      obtain ⟨g, hg⟩ := hc.resolves found.file (Library.mem_files_of_locate hf) _ hd site hsite
      exact ih site.reference w' hg (hway.next ⟨_, site, hd, hsite, hg⟩) hnodup' hs' hbegun he
    cases hsite : (Schema.ofDocument found.document).declaredSite? with
    | some site =>
      have hsite := Schema.eq_reference hsite
      rw [reference_alias hr hn hfresh hsite] at he
      rcases error_of_bind he with he | ⟨node, w', -, he⟩
      · exact hgo site (Schema.mem_sites hsite) _ hs'
          (hbegun'.cons fun htyped => absurd htyped (hd.not_typed hsite)) e he
      · cases he
    | none =>
      rw [reference_typed hr hn hfresh hsite] at he
      have hreserved := hfree.step_reserved lib
      rcases (stems_schema (.refl lib (found.file :: chain)) (fun _ _ _ => .trans)
        (fun next w => (follows_reference lib _ _ next w).1) step_add).1 (fill w.graph.size)
        (Schema.ofDocument found.document) (fill_ok w.graph.size) _ e he with
        hstructural | ⟨site, hmem, w', hw', he⟩
      · exact Or.inl hstructural
      · have hbegun'' : Begun lib (found.file :: chain)
            (reserved found.file { w with registry := r }) :=
          (hbegun'.mono fun _ _ => hreserved.extends'.node).cons fun _ =>
            ⟨_, hfree.node?_setNode _⟩
        exact hgo site hmem w' (hw'.sound (hreserved.sound hs'))
          (hbegun''.mono fun _ _ => hw'.extends'.node) e he

end Build

end SchemaForge
