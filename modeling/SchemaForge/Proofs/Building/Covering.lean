import SchemaForge.Proofs.Building.Reading
import SchemaForge.Proofs.Building.Referring
/-! What a build that comes through has covered: all that the files lead to that it has met, and
none of the files that it may not meet again. -/
namespace SchemaForge.Build

variable {lib : Library} {chain : List Path} {referrer : Option Path} {target : String}
  {w w' : Workspace} {f a b : Path} {blocked : Path → Prop}
  {follow : String → Build NodeId} {α β : Type}

/-- Documents that are known stay known. -/
def Remembers (w w' : Workspace) : Prop :=
  ∀ f d, w.registry.document? f = some d → w'.registry.document? f = some d

theorem Remembers.trans {u v w : Workspace} (h : Remembers u v) (h' : Remembers v w) :
    Remembers u w :=
  fun f d hd => h' f d (h f d hd)

/-- What leaves the registry as it is keeps all documents. -/
theorem Remembers.of_registry (h : w'.registry = w.registry) : Remembers w w' :=
  fun _ _ hd => h ▸ hd

theorem Step.remembers (h : Step lib chain w w') : Remembers w w' :=
  fun _ _ => h.extends'.document

/-- A build that does not end the whole call keeps to an invariant and comes to a result. -/
def Passes (I : Workspace → Prop) (b : Build α) (Q : Workspace → Prop) : Prop :=
  ∀ w, I w → ¬ Fatal (b w).1 → I (b w).2 ∧ Q (b w).2

theorem Passes.bind {I Q : Workspace → Prop} {b : Build α} {f : α → Build β} (h : Passes I b Q)
    (hf : ∀ a w, I w → Q w → I (f a w).2 ∧ Q (f a w).2) : Passes I (b >>= f) Q := by
  intro w hw hok
  have h := h w hw
  rw [bind_apply] at hok ⊢
  generalize b w = out at h hok ⊢
  obtain ⟨e | a, w'⟩ := out
  · exact h fun hfatal => hok hfatal.of_error
  · obtain ⟨hi, hq⟩ := h (not_fatal_ok a)
    exact hf a w' hi hq

section schema

variable {I : Workspace → Prop} {Q : RefSite → Workspace → Prop} {all : List RefSite}
  (hf : ∀ target, Keeps Remembers (follow target))
  (hfollow : ∀ site ∈ all, Passes I (follow site.reference) (Q site))
  (hadd : ∀ p w, I w → I (add p w).2)
  (hstay : ∀ site w w', Remembers w w' → Q site w → Q site w')

include hf

theorem remembers_schema :
    (∀ place s, (∀ p, Keeps Remembers (place p)) → Keeps Remembers (schema follow place s)) ∧
      ∀ head index inner, Keeps Remembers (members follow head index inner) :=
  keeps_schema (fun _ => .of_registry rfl) (fun _ _ _ => .trans) hf fun _ _ => .of_registry rfl

include hfollow hadd hstay

/-- A schema that comes through has come through all its references. -/
theorem passes_schema :
    (∀ place s, s.sites ⊆ all → (∀ p, Keeps Remembers (place p)) →
      (∀ p w, I w → I (place p w).2) →
        Passes I (schema follow place s) fun w => ∀ site ∈ s.sites, Q site w) ∧
    ∀ head index inner, Schema.sitesAmong inner ⊆ all →
      Passes I (members follow head index inner) fun w =>
        ∀ site ∈ Schema.sitesAmong inner, Q site w := by
  have hkeeps := (remembers_schema hf).2
  refine schema.mutual_induct
    (fun place s => s.sites ⊆ all → (∀ p, Keeps Remembers (place p)) →
      (∀ p w, I w → I (place p w).2) →
        Passes I (schema follow place s) fun w => ∀ site ∈ s.sites, Q site w)
    (fun head index inner => Schema.sitesAmong inner ⊆ all →
      Passes I (members follow head index inner) fun w =>
        ∀ site ∈ Schema.sitesAmong inner, Q site w)
    ?reference ?faulty ?leaf ?array ?object ?nil ?cons
  case reference =>
    intro place site hsites _ _ w hw hok
    rw [Schema.sites, List.cons_subset] at hsites
    rw [schema] at hok ⊢
    obtain ⟨hi, hq⟩ := hfollow site hsites.1 w hw hok
    refine ⟨hi, fun site' hsite' => ?_⟩
    rw [Schema.sites] at hsite'
    cases List.mem_singleton.1 hsite'
    exact hq
  case faulty =>
    intro place context faults _ _ _ w hw _
    exact ⟨hw, fun _ h => by rw [Schema.sites] at h; cases h⟩
  case leaf =>
    intro place info leaf _ _ hplace w hw _
    exact ⟨hplace _ w hw, fun _ h => by rw [Schema.sites] at h; cases h⟩
  case array =>
    intro place info items ih hsites hkeep hplace
    rw [Schema.sites] at hsites ⊢
    rw [schema]
    refine (ih hsites (fun _ _ => .of_registry rfl) hadd).bind fun node w' hi hq => ?_
    exact ⟨hplace _ w' hi, fun site hsite => hstay site w' _ (hkeep _ w') (hq site hsite)⟩
  case object =>
    intro place context info head before inner after ih hsites hkeep hplace
    rw [Schema.sites] at hsites ⊢
    rw [schema]
    refine (ih hsites).bind ?_
    rintro ⟨found, faults⟩ w' hi hq
    dsimp only
    split
    · exact ⟨hplace _ w' hi, fun site hsite => hstay site w' _ (hkeep _ w') (hq site hsite)⟩
    · exact ⟨hi, hq⟩
  case nil =>
    intro head index _ w hw _
    exact ⟨hw, fun _ h => by rw [Schema.sitesAmong] at h; cases h⟩
  case cons =>
    intro head index name s rest ih ihr hsites w hw hok
    rw [Schema.sitesAmong, List.append_subset] at hsites
    have h := ih hsites.1 (fun _ _ => .of_registry rfl) hadd w hw
    -- what has been come through stays so while the rest is built
    have hrest : ∀ (f : List Member × List Fault → List Member × List Fault) (w' : Workspace),
        I w' → (∀ site ∈ s.sites, Q site w') →
        ¬ Fatal ((members follow head (index + 1) rest >>= fun r => pure (f r)) w').1 →
          let w'' := ((members follow head (index + 1) rest >>= fun r => pure (f r)) w').2
          I w'' ∧ ∀ site ∈ Schema.sitesAmong ((name, s) :: rest), Q site w'' := by
      intro f w' hi hq hok
      obtain ⟨hi', hq'⟩ := ((ihr hsites.2).bind fun _ _ hi hq => ⟨hi, hq⟩) w' hi hok
      have hkept := (hkeeps head (index + 1) rest).bind (fun _ _ _ => .trans)
        (fun r => (fun _ => .of_registry rfl : Keeps Remembers (pure (f r)))) w'
      rw [Schema.sitesAmong]
      refine ⟨hi', List.forall_mem_append.2 ⟨fun site hsite => ?_, hq'⟩⟩
      exact hstay site w' _ hkept (hq site hsite)
    rw [members_cons] at hok ⊢
    generalize schema follow add s w = out at h hok ⊢
    obtain ⟨e | node, w'⟩ := out
    · cases e with
      | structural context faults =>
        obtain ⟨hi, hq⟩ := h (not_fatal_structural context faults)
        exact hrest _ w' hi hq hok
      | _ => exact absurd (Fatal.of_ne fun _ _ h => by cases h) hok
    · obtain ⟨hi, hq⟩ := h (not_fatal_ok node)
      exact hrest _ w' hi hq hok

end schema

/-- A file that is known and may be met. -/
structure Met (blocked : Path → Prop) (w : Workspace) (f : Path) : Prop where
  known : (w.registry.document? f).isSome = true
  free : ¬ blocked f

theorem Met.mono (h : Met blocked w f) (hw : Remembers w w') : Met blocked w' f := by
  obtain ⟨d, hd⟩ := Option.isSome_iff_exists.1 h.known
  exact ⟨Option.isSome_of_eq_some (hw f d hd), h.free⟩

/-- All that known files refer to has been met, but for the files that are still being built. -/
def Covered (lib : Library) (blocked : Path → Prop) (chain : List Path) (w : Workspace) : Prop :=
  ∀ g, lib.Serves g → (w.registry.document? g).isSome = true → g ∉ chain →
    ∀ h, lib.Refers g h → Met blocked w h

theorem Covered.of_cons (h : Covered lib blocked (f :: chain) w)
    (hf : ∀ g, lib.Refers f g → Met blocked w g) : Covered lib blocked chain w := by
  intro g hg hknown hfree
  by_cases heq : g = f
  · exact heq ▸ hf
  · exact h g hg hknown (by simp [heq, hfree])

/-- A file is done with once all its references have been followed. -/
theorem Covered.of_sites (h : Covered lib blocked (f :: chain) w) {d : Document}
    (hd : lib.Reads f d) (hsites : ∀ site ∈ (Schema.ofDocument d).sites,
      ∀ g, lib.locate (some f) site.reference = .ok g → Met blocked w g) :
    Covered lib blocked chain w := by
  refine h.of_cons ?_
  rintro g ⟨d', site, hd', hsite, hg⟩
  rw [← hd.unique hd'] at hsite
  exact hsites site hsite g hg

theorem Covered.of_alike (h : Covered lib blocked chain w)
    (hw : w.registry.Alike w'.registry) : Covered lib blocked chain w' := by
  intro g hg hknown hfree other hother
  have hmet := h g hg (hw.document g ▸ hknown) hfree other hother
  exact hmet.mono fun _ _ hd => (hw.document _).trans hd

/-- All that leads on from a file that has been met has been met, if it meets no file that is still
being built. -/
theorem Covered.met (h : Covered lib blocked chain w) (hchain : ∀ g ∈ chain, blocked g)
    (hf : Met blocked w f) (hserves : lib.Serves f) (hpath : Relation.ReflTransGen lib.Refers f a) :
    Met blocked w a := by
  induction hpath with
  | refl => exact hf
  | @tail b c hpath hlast ih =>
    exact h b (Library.serves_of_refers hserves hpath) ih.known
      (fun hmem => ih.free (hchain b hmem)) c hlast

/-- What holds while files are built: the blocked ones are among those, and have no nodes. -/
structure Guarded (lib : Library) (blocked : Path → Prop) (chain : List Path) (w : Workspace) :
    Prop where
  sound : w.Sound lib
  covered : Covered lib blocked chain w
  blocked : ∀ h, blocked h → h ∈ chain ∧ w.registry.node? h = none

/-- A file that has a node may be met. -/
theorem Guarded.met (h : Guarded lib blocked chain w) {id : NodeId}
    (hn : w.registry.node? f = some id) : Met blocked w f := by
  obtain ⟨e, he, -⟩ := Option.bind_eq_some_iff.1 hn
  refine ⟨?_, fun hblocked => ?_⟩
  · rw [Registry.document?, he]
    rfl
  · rw [(h.blocked f hblocked).2] at hn
    cases hn

theorem Guarded.not_blocked (h : Guarded lib blocked chain w)
    (hf : chain.any (·.Same f) = false) : ¬ blocked f :=
  fun hblocked => ne_true_of_eq_false hf (Path.any_same (h.blocked f hblocked).1)

theorem Guarded.blocked_of_step (h : Guarded lib blocked chain w) (hw : Step lib chain w w')
    {g : Path} (hg : blocked g) : g ∈ chain ∧ w'.registry.node? g = none := by
  obtain ⟨hmem, hnone⟩ := h.blocked g hg
  exact ⟨hmem, (hw.extends'.node?_of_mem hmem).trans hnone⟩

theorem Guarded.of_step (h : Guarded lib blocked chain w) (hw : Step lib chain w w')
    (hcovered : Covered lib blocked chain w') : Guarded lib blocked chain w' :=
  ⟨hw.sound h.sound, hcovered, fun _ => h.blocked_of_step hw⟩

/-- Following a reference makes no file known but the one that it leads to. -/
theorem known_of_resolve (hl : lib.Regular) (hc : lib.Closed)
    {found : Resolved} {r : Registry} (hf : lib.locate referrer target = .ok f)
    (hr : w.registry.resolve lib referrer target = (.ok found, r)) {g : Path}
    (hg : lib.Serves g) (hknown : (r.document? g).isSome = true) :
    g = f ∨ (w.registry.document? g).isSome = true := by
  cases he : w.registry.entry? f with
  | some e =>
    rw [Registry.resolve_known hf he] at hr
    cases hr
    exact Or.inr hknown
  | none =>
    obtain ⟨d, text, ht, hd⟩ := hc.parses f (Library.mem_files_of_locate hf)
    rw [Registry.resolve_new hf he ht hd] at hr
    cases hr
    have hnew : Registry.entry? { w.registry with reads := w.registry.reads + 1 } f = none := he
    rw [Registry.document?, Registry.entry?_register hnew] at hknown
    by_cases hsame : f.Same g
    · exact Or.inl (hl.eq_of_same (Library.serves_of_locate hf) hg hsame).symm
    · rw [if_neg hsame, Option.or_none] at hknown
      exact Or.inr hknown

/-- A file that is entered is known from then on, and is being built. -/
theorem Guarded.enter (hw : Guarded lib blocked chain w) (hl : lib.Regular) (hc : lib.Closed)
    {found : Resolved} {r : Registry} (hf : lib.locate referrer target = .ok f)
    (hr : w.registry.resolve lib referrer target = (.ok found, r)) :
    Guarded lib blocked (f :: chain) { w with registry := r } := by
  have hstep := step_resolve lib chain w referrer target
  rw [hr] at hstep
  refine ⟨hstep.sound hw.sound, ?_, fun g hg => ?_⟩
  · intro g hg hknown hmem other hother
    rw [List.mem_cons, not_or] at hmem
    have hknown := (known_of_resolve hl hc hf hr hg hknown).resolve_left hmem.1
    exact (hw.covered g hg hknown hmem.2 other hother).mono hstep.remembers
  · obtain ⟨hmem, hnone⟩ := hw.blocked_of_step hstep hg
    exact ⟨List.mem_cons_of_mem _ hmem, hnone⟩

/-- Reserving the place of a file changes nothing for those that were blocked before. -/
theorem Guarded.reserve (hw : Guarded lib blocked (f :: chain) w) (hfree : Free w chain f)
    (hunblocked : ¬ blocked f) : Guarded lib blocked (f :: chain) (reserved f w) := by
  have hreserved := hfree.step_reserved lib
  refine ⟨hreserved.sound hw.sound, hw.covered.of_alike (w.registry.alike_setNode f _), ?_⟩
  intro g hg
  obtain ⟨hmem, hnone⟩ := hw.blocked g hg
  rcases List.mem_cons.1 hmem with rfl | hmem'
  · exact absurd hg hunblocked
  · exact ⟨hmem, (hreserved.extends'.node?_of_mem hmem').trans hnone⟩

/-- Following a reference either ends the whole call, or covers all that the file leads to. -/
theorem passes_reference (hl : lib.Regular) (hc : lib.Closed)
    (hf : lib.locate referrer target = .ok f) :
    Passes (Guarded lib blocked chain) (reference lib chain referrer target)
      fun w => Met blocked w f := by
  intro w hw hok
  have hstep := (follows_reference lib chain referrer target w).1
  suffices h : Covered lib blocked chain (reference lib chain referrer target w).2 ∧
      Met blocked (reference lib chain referrer target w).2 f from
    ⟨hw.of_step hstep h.1, h.2⟩
  clear hstep
  induction chain, referrer, target, w using reference.induct lib generalizing f with
  | case1 chain referrer target w e r hr =>
    obtain ⟨found, r', hr', -⟩ := resolve_closed hl hc hw.sound hf
    rw [hr] at hr'
    cases hr'
  | case2 chain referrer target w found r hr node hn =>
    obtain ⟨found', r', hr', rfl, -, hnode, -⟩ := resolve_closed hl hc hw.sound hf
    rw [hr] at hr'
    cases hr'
    rw [hn] at hnode
    rw [reference_built hf hnode]
    exact ⟨hw.covered, hw.met hnode⟩
  | case3 chain referrer target w found r hr hn hmet =>
    rw [reference_circular hr hn hmet] at hok
    exact absurd (Fatal.of_ne fun _ _ h => by cases h) hok
  | case4 chain referrer target w found r hr hn hfresh ih =>
    obtain ⟨found', r', hr', rfl, hd, -, hs'⟩ := resolve_closed hl hc hw.sound hf
    rw [hr] at hr'
    cases hr'
    have hfresh := eq_false_of_ne_true hfresh
    have hfree := free_of_resolve hr hn hfresh
    have hunblocked := hw.not_blocked hfresh
    have hstart := hw.enter hl hc hf hr
    have hentered : Met blocked { w with registry := r } found.file := ⟨hfree.known, hunblocked⟩
    have hgo : ∀ site ∈ (Schema.ofDocument found.document).sites, Passes
        (Guarded lib blocked (found.file :: chain))
        (reference lib (found.file :: chain) (some found.file) site.reference)
        fun w => ∀ g, lib.locate (some found.file) site.reference = .ok g → Met blocked w g := by
      intro site hsite w' hw' hok'
      obtain ⟨g, hg⟩ := hc.resolves found.file (Library.mem_files_of_locate hf) _ hd site hsite
      obtain ⟨hcovered, hmet⟩ := ih site.reference w' hg hw' hok'
      have hnext := (follows_reference lib (found.file :: chain) (some found.file)
        site.reference w').1
      refine ⟨hw'.of_step hnext hcovered, fun g' hg' => ?_⟩
      rw [hg] at hg'
      exact Except.ok.inj hg' ▸ hmet
    have hkeeps : ∀ next, Keeps Remembers
        (reference lib (found.file :: chain) (some found.file) next) :=
      fun next w => (follows_reference lib _ _ next w).1.remembers
    cases hsite : (Schema.ofDocument found.document).declaredSite? with
    | some site =>
      have hsite := Schema.eq_reference hsite
      have hsites : (Schema.ofDocument found.document).sites = [site] := by
        rw [hsite, Schema.sites]
      have hkept := hkeeps site.reference { w with registry := r }
      have hnext := hgo site (hsites ▸ List.mem_singleton_self _) { w with registry := r } hstart
      rw [reference_alias hr hn hfresh hsite, bind_apply] at hok ⊢
      generalize reference lib (found.file :: chain) (some found.file) site.reference
        { w with registry := r } = out at hkept hnext hok ⊢
      have hcame : ¬ Fatal out.1 → Covered lib blocked chain out.2 ∧
          Met blocked out.2 found.file := by
        intro hok
        obtain ⟨hguarded, hmet⟩ := hnext hok
        refine ⟨hguarded.covered.of_sites hd fun site' hsite' => ?_, hentered.mono hkept⟩
        rw [hsites] at hsite'
        exact List.mem_singleton.1 hsite' ▸ hmet
      obtain ⟨e | node, w'⟩ := out
      · exact hcame hok
      · obtain ⟨hcovered, hmet⟩ := hcame (not_fatal_ok node)
        have halike := w'.registry.alike_setNode found.file node
        exact ⟨hcovered.of_alike halike, hmet.mono fun _ _ hd => (halike.document _).trans hd⟩
    | none =>
      have hreserve : Guarded lib blocked (found.file :: chain)
          (reserved found.file { w with registry := r }) := hstart.reserve hfree hunblocked
      have hreserved : Remembers { w with registry := r }
          (reserved found.file { w with registry := r }) :=
        fun _ _ hd => (Registry.document?_setNode ..).trans hd
      rw [reference_typed hr hn hfresh hsite] at hok ⊢
      have hkept := (remembers_schema hkeeps).1 (fill w.graph.size)
        (Schema.ofDocument found.document) (fun _ _ => .of_registry rfl)
        (reserved found.file { w with registry := r })
      obtain ⟨hguarded, hall⟩ := (passes_schema hkeeps hgo
        (fun p w hw => hw.of_step (step_add p w) (hw.covered.of_alike (.refl _)))
        (fun site w w' hk h g hg => (h g hg).mono hk)).1 (fill w.graph.size)
        (Schema.ofDocument found.document) (fun _ h => h) (fun _ _ => .of_registry rfl)
        (fun p w hw => ⟨sound_fill hw.sound _ p, hw.covered.of_alike (.refl _), hw.blocked⟩)
        (reserved found.file { w with registry := r }) hreserve hok
      exact ⟨hguarded.covered.of_sites hd hall, hentered.mono (hreserved.trans hkept)⟩

/-- A new workspace, but for files that are being built and have no nodes. -/
structure Fresh (lib : Library) (chain : List Path) (w : Workspace) : Prop where
  sound : w.Sound lib
  serves : ∀ g ∈ chain, lib.Serves g
  known : ∀ g, lib.Serves g → (w.registry.document? g).isSome = true → g ∈ chain
  node : ∀ g, w.registry.node? g = none

theorem fresh_empty (lib : Library) : Fresh lib [] .empty :=
  ⟨Workspace.sound_empty lib, fun _ h => absurd h List.not_mem_nil,
    fun _ _ h => absurd h Bool.false_ne_true, fun _ => rfl⟩

theorem Fresh.guarded (h : Fresh lib chain w) : Guarded lib (· ∈ chain) chain w :=
  ⟨h.sound, fun g hg hknown hmem => absurd (h.known g hg hknown) hmem, fun g hg => ⟨hg, h.node g⟩⟩

theorem Fresh.enter (h : Fresh lib chain w) (hl : lib.Regular) (hc : lib.Closed)
    {found : Resolved} {r : Registry} (hf : lib.locate referrer target = .ok f)
    (hr : w.registry.resolve lib referrer target = (.ok found, r)) :
    Fresh lib (f :: chain) { w with registry := r } := by
  refine ⟨(h.guarded.enter hl hc hf hr).sound, ?_, fun g hg hknown => ?_,
    fun g => (Registry.node?_of_resolve hr g).trans (h.node g)⟩
  · exact List.forall_mem_cons.2 ⟨Library.serves_of_locate hf, h.serves⟩
  · rcases known_of_resolve hl hc hf hr hg hknown with rfl | hknown
    · exact List.mem_cons_self
    · exact List.mem_cons_of_mem _ (h.known g hg hknown)

/-- In a new workspace, an alias is entered and what it stands for is followed. -/
theorem Fresh.reference_alias (h : Fresh lib chain w) (hl : lib.Regular) (hc : lib.Closed)
    (hf : lib.locate referrer target = .ok f) (hg : lib.AliasOf f a) (havoid : Avoids lib chain f) :
    ∃ (r : Registry) (site : RefSite), lib.locate (some f) site.reference = .ok a ∧
      Fresh lib (f :: chain) { w with registry := r } ∧ Free { w with registry := r } chain f ∧
      reference lib chain referrer target w =
        (reference lib (f :: chain) (some f) site.reference >>= record f)
          { w with registry := r } := by
  obtain ⟨d, site, hd, hsite, ha⟩ := hg
  obtain ⟨found, r, hr, rfl, hd', hnode, -⟩ := resolve_closed hl hc h.sound hf
  rw [hd.unique hd'] at hsite
  have hn : found.node = none := hnode.symm.trans (h.node _)
  exact ⟨r, site, ha, h.enter hl hc hf hr, free_of_resolve hr hn havoid.free,
    Build.reference_alias hr hn havoid.free hsite⟩

/-- Where an alias comes through in a new workspace, the typed file that it stands for leads back to
no alias on the way. -/
theorem not_back (hl : lib.Regular) (hc : lib.Closed)
    (hpath : Relation.ReflTransGen lib.AliasOf a b) (hb : lib.Typed b)
    (hf : lib.locate referrer target = .ok a) (hw : Fresh lib chain w) (havoid : Avoids lib chain a)
    (hok : ¬ Fatal (reference lib chain referrer target w).1) {g : Path}
    (hg : g ∈ chain ∨ Relation.ReflTransGen lib.AliasOf a g ∧ g ≠ b) :
    ¬ Relation.ReflTransGen lib.Refers b g := by
  induction hpath using Relation.ReflTransGen.head_induction_on
    generalizing chain referrer target w with
  | refl =>
    intro hback
    obtain ⟨hguarded, hmet⟩ := passes_reference hl hc hf w hw.guarded hok
    rcases hg with hg | ⟨hpath, hne⟩
    · have hmet := hguarded.covered.met (fun _ h => h) hmet (Library.serves_of_locate hf) hback
      exact hmet.free hg
    · rcases hpath.cases_head with heq | ⟨next, hnext, -⟩
      · exact hne heq.symm
      · exact hnext.not_typed hb
  | @head a next hfirst hrest ih =>
    have hcircle := Library.not_circular (.head hfirst hrest) hb
    have hcons := havoid.cons hl (Library.serves_of_locate hf) hfirst hcircle
    obtain ⟨r, site, hnext, hfresh, -, hout⟩ := hw.reference_alias hl hc hf hfirst havoid
    rw [hout, bind_apply] at hok
    refine ih hnext hfresh hcons (fun hfatal => hok ?_) ?_
    · generalize reference lib (a :: chain) (some a) site.reference { w with registry := r } = out
        at hfatal ⊢
      obtain ⟨e | node, w'⟩ := out
      · exact hfatal
      · exact absurd hfatal (not_fatal_ok node)
    · rcases hg with hg | ⟨hpath, hne⟩
      · exact Or.inl (List.mem_cons_of_mem _ hg)
      · rcases hpath.cases_head with rfl | ⟨next', hnext', hpath⟩
        · exact Or.inl List.mem_cons_self
        · exact Or.inr ⟨hfirst.unique hnext' ▸ hpath, hne⟩

end SchemaForge.Build
