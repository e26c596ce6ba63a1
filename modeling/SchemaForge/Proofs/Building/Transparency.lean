import Mathlib
import SchemaForge.Proofs.Building.Covering
import SchemaForge.Proofs.Path
/-! Files that stand for others: when loading one is loading the typed file that it stands for. -/
namespace SchemaForge.Build

variable {lib : Library} {chain chain' : List Path} {referrer referrer' : Option Path}
  {target target' : String} {w v : Workspace} {f a b : Path} {α β : Type}
  {R : Workspace → Workspace → Prop}

/-- Builds that end alike on workspaces that are alike. -/
def Agrees (R : Workspace → Workspace → Prop) (b b' : Build α) : Prop :=
  ∀ w v, R w v → (b' v).1 = (b w).1 ∧ R (b w).2 (b' v).2

theorem Agrees.bind {b b' : Build α} {f f' : α → Build β} (hb : Agrees R b b')
    (hf : ∀ a, Agrees R (f a) (f' a)) : Agrees R (b >>= f) (b' >>= f') := by
  intro w v hw
  obtain ⟨hout, hw'⟩ := hb w v hw
  rw [bind_apply, bind_apply]
  generalize b w = out at hout hw' ⊢
  generalize b' v = out' at hout hw' ⊢
  obtain ⟨e | a, w'⟩ := out
  · obtain ⟨_, v'⟩ := out'
    cases hout
    exact ⟨rfl, hw'⟩
  · obtain ⟨_, v'⟩ := out'
    cases hout
    exact hf a w' v' hw'

theorem Agrees.pure (a : α) : Agrees R (Pure.pure a : Build α) (Pure.pure a) :=
  fun _ _ hw => ⟨rfl, hw⟩

/-- Schemas are built alike where their references are followed alike. -/
theorem agrees_schema {follow follow' : String → Build NodeId}
    (hadd : ∀ p, Agrees R (add p) (add p)) :
    (∀ place s place', (∀ site ∈ s.sites,
      Agrees R (follow site.reference) (follow' site.reference)) →
        (∀ p, Agrees R (place p) (place' p)) →
          Agrees R (schema follow place s) (schema follow' place' s)) ∧
    ∀ head index inner, (∀ site ∈ Schema.sitesAmong inner,
      Agrees R (follow site.reference) (follow' site.reference)) →
        Agrees R (members follow head index inner) (members follow' head index inner) := by
  refine schema.mutual_induct
    (fun place s => ∀ place', (∀ site ∈ s.sites,
      Agrees R (follow site.reference) (follow' site.reference)) →
        (∀ p, Agrees R (place p) (place' p)) →
          Agrees R (schema follow place s) (schema follow' place' s))
    (fun head index inner => (∀ site ∈ Schema.sitesAmong inner,
      Agrees R (follow site.reference) (follow' site.reference)) →
        Agrees R (members follow head index inner) (members follow' head index inner))
    ?reference ?faulty ?leaf ?array ?object ?nil ?cons
  case reference =>
    intro place site place' hsites _
    rw [schema, schema]
    exact hsites site (Schema.mem_sites rfl)
  case faulty => exact fun place context faults place' _ _ w v hw => ⟨rfl, hw⟩
  case leaf => exact fun place info leaf place' _ hplace => hplace _
  case array =>
    intro place info items ih place' hsites hplace
    rw [Schema.sites] at hsites
    rw [schema, schema]
    exact (ih add hsites hadd).bind fun node => hplace _
  case object =>
    intro place context info head before inner after ih place' hsites hplace
    rw [Schema.sites] at hsites
    rw [schema, schema]
    refine (ih hsites).bind ?_
    rintro ⟨found, faults⟩
    dsimp only
    split
    · exact hplace _
    · exact fun w v hw => ⟨rfl, hw⟩
  case nil => exact fun head index _ w v hw => ⟨rfl, hw⟩
  case cons =>
    intro head index name s rest ih ihr hsites w v hw
    rw [Schema.sitesAmong, List.forall_mem_append] at hsites
    obtain ⟨hout, hw'⟩ := ih add hsites.1 hadd w v hw
    have hrest : ∀ f : List Member × List Fault → List Member × List Fault,
        Agrees R (members follow head (index + 1) rest >>= fun r => Pure.pure (f r))
          (members follow' head (index + 1) rest >>= fun r => Pure.pure (f r)) :=
      fun f => (ihr hsites.2).bind fun r => .pure (f r)
    rw [members_cons, members_cons]
    generalize schema follow add s w = out at hout hw' ⊢
    generalize schema follow' add s v = out' at hout hw' ⊢
    obtain ⟨e | node, w'⟩ := out
    · obtain ⟨_, v'⟩ := out'
      cases hout
      cases e with
      | structural context faults => exact hrest _ w' v' hw'
      | _ => exact ⟨rfl, hw'⟩
    · obtain ⟨_, v'⟩ := out'
      cases hout
      exact hrest _ w' v' hw'

/-- Workspaces of one library with one graph, in which the same files have the same nodes; they may
know different files. -/
structure Matched (lib : Library) (w v : Workspace) : Prop where
  sound : w.Sound lib
  sound' : v.Sound lib
  graph : v.graph = w.graph
  node : ∀ f, v.registry.node? f = w.registry.node? f

theorem agrees_add (p : Property) : Agrees (Matched lib) (add p) (add p) := by
  intro w v h
  have hw : Step lib [] w (add p w).2 := step_add p w
  have hv : Step lib [] v (add p v).2 := step_add p v
  exact ⟨congrArg (fun g : Graph => Except.ok g.size) h.graph, hw.sound h.sound, hv.sound h.sound',
    congrArg (fun g : Graph => g.add (.ofProperty p)) h.graph, h.node⟩

theorem agrees_fill (slot : NodeId) (p : Property) :
    Agrees (Matched lib) (fill slot p) (fill slot p) :=
  fun _ _ h => ⟨rfl, sound_fill h.sound slot p, sound_fill h.sound' slot p,
    congrArg (fun g : Graph => g.replace slot p) h.graph, h.node⟩

/-- A file is found alike in workspaces that match. -/
theorem Matched.resolve (h : Matched lib w v) (hl : lib.Regular) (hc : lib.Closed)
    (hf : lib.locate referrer target = .ok f) (hf' : lib.locate referrer' target' = .ok f) :
    ∃ found r found' r', w.registry.resolve lib referrer target = (.ok found, r) ∧
      v.registry.resolve lib referrer' target' = (.ok found', r') ∧
      found.file = f ∧ found'.file = f ∧ found'.document = found.document ∧
      lib.Reads f found.document ∧ found'.node = found.node ∧
      Matched lib { w with registry := r } { v with registry := r' } := by
  obtain ⟨found, r, hr, hfile, hd, hnode, hs⟩ := resolve_closed hl hc h.sound hf
  obtain ⟨found', r', hr', hfile', hd', hnode', hs'⟩ := resolve_closed hl hc h.sound' hf'
  refine ⟨found, r, found', r', hr, hr', hfile, hfile', hd'.unique hd, hd, ?_,
    hs, hs', h.graph, fun g => ?_⟩
  · rw [← hnode, ← hnode', h.node]
  · exact ((Registry.node?_of_resolve hr' g).trans (h.node g)).trans
      (Registry.node?_of_resolve hr g).symm

/-- A file that both know gets the same node in both. -/
theorem node?_setNode_congr {r r' : Registry} (h : ∀ g, r'.node? g = r.node? g)
    (hf : (r.entry? f).isSome = true) (hf' : (r'.entry? f).isSome = true) (id : NodeId) (g : Path) :
    (r'.setNode f id).node? g = (r.setNode f id).node? g := by
  rw [Registry.node?_setNode, Registry.node?_setNode, h g]
  by_cases hsame : f.Same g
  · rw [← Registry.entry?_congr r hsame, ← Registry.entry?_congr r' hsame, hf, hf']
  · simp only [hsame, false_and, if_false]

theorem Matched.reserved (h : Matched lib w v) (hfree : Free w chain f) (hfree' : Free v chain' f) :
    Matched lib (reserved f w) (reserved f v) := by
  refine ⟨(hfree.step_reserved lib).sound h.sound, (hfree'.step_reserved lib).sound h.sound',
    ?_, ?_⟩
  · simp only [Build.reserved, h.graph]
  · intro g
    have hsize : v.graph.size = w.graph.size := congrArg Graph.size h.graph
    simp only [Build.reserved, hsize]
    exact node?_setNode_congr h.node hfree.entered hfree'.entered _ g

/-- References to one file are followed alike in workspaces that match, if the files on either chain
that it leads to are the same. -/
theorem agrees_reference (hl : lib.Regular) (hc : lib.Closed)
    (hf : lib.locate referrer target = .ok f) (hf' : lib.locate referrer' target' = .ok f)
    (hchain : ∀ g, Relation.ReflTransGen lib.Refers f g →
      chain'.any (·.Same g) = chain.any (·.Same g))
    (htarget : chain.any (·.Same f) = true → target' = target) :
    Agrees (Matched lib) (reference lib chain referrer target)
      (reference lib chain' referrer' target') := by
  intro w v h
  suffices hout : (reference lib chain' referrer' target' v).1 =
        (reference lib chain referrer target w).1 ∧
      (reference lib chain' referrer' target' v).2.graph =
        (reference lib chain referrer target w).2.graph ∧
      ∀ g, (reference lib chain' referrer' target' v).2.registry.node? g =
        (reference lib chain referrer target w).2.registry.node? g from
    ⟨hout.1, (follows_reference lib chain referrer target w).1.sound h.sound,
      (follows_reference lib chain' referrer' target' v).1.sound h.sound', hout.2.1, hout.2.2⟩
  induction chain, referrer, target, w using reference.induct lib
    generalizing f chain' referrer' target' v with
  | case1 chain referrer target w e r hr =>
    obtain ⟨found, r₁, found', r', hr₁, -⟩ := h.resolve hl hc hf hf'
    rw [hr] at hr₁
    cases hr₁
  | case2 chain referrer target w found r hr node hn =>
    obtain ⟨_, _, found', r', hr₁, hr', -, -, -, -, hnode, hm⟩ := h.resolve hl hc hf hf'
    rw [hr] at hr₁
    cases hr₁
    rw [reference_known hr hn, reference_known hr' (hnode.trans hn)]
    exact ⟨rfl, hm.graph, hm.node⟩
  | case3 chain referrer target w found r hr hn hmet =>
    obtain ⟨_, _, found', r', hr₁, hr', rfl, hfile, -, -, hnode, hm⟩ := h.resolve hl hc hf hf'
    rw [hr] at hr₁
    cases hr₁
    have hmet' : chain'.any (·.Same found'.file) = true := by rw [hfile, hchain _ .refl, hmet]
    rw [reference_circular hr hn hmet, reference_circular hr' (hnode.trans hn) hmet', htarget hmet]
    exact ⟨rfl, hm.graph, hm.node⟩
  | case4 chain referrer target w found r hr hn hfresh ih =>
    obtain ⟨_, _, found', r', hr₁, hr', rfl, hfile, hdocument, hd, hnode, hm⟩ :=
      h.resolve hl hc hf hf'
    rw [hr] at hr₁
    cases hr₁
    have hn' := hnode.trans hn
    have hfresh := eq_false_of_ne_true hfresh
    have hfresh' : chain'.any (·.Same found'.file) = false := by
      rw [hfile, hchain _ .refl, hfresh]
    have hfree := free_of_resolve hr hn hfresh
    have hfree' := free_of_resolve hr' hn' hfresh'
    have hgo : ∀ site ∈ (Schema.ofDocument found.document).sites, Agrees (Matched lib)
        (reference lib (found.file :: chain) (some found.file) site.reference)
        (reference lib (found.file :: chain') (some found.file) site.reference) := by
      intro site hsite w₁ v₁ h₁
      obtain ⟨g, hg⟩ := hc.resolves found.file (Library.mem_files_of_locate hf) _ hd site hsite
      have hrefers : lib.Refers found.file g := ⟨_, site, hd, hsite, hg⟩
      have hchain' : ∀ x, Relation.ReflTransGen lib.Refers g x →
          (found.file :: chain').any (·.Same x) = (found.file :: chain).any (·.Same x) :=
        fun x hx => by rw [List.any_cons, List.any_cons, hchain x (.head hrefers hx)]
      obtain ⟨hout, hgraph, hnodes⟩ := ih site.reference w₁ hg hg hchain' (fun _ => rfl) v₁ h₁
      exact ⟨hout, (follows_reference ..).1.sound h₁.sound,
        (follows_reference ..).1.sound h₁.sound', hgraph, hnodes⟩
    rw [hfile] at hfree'
    cases hsite : (Schema.ofDocument found.document).declaredSite? with
    | some site =>
      have hsite := Schema.eq_reference hsite
      rw [reference_alias hr hn hfresh hsite,
        reference_alias hr' hn' hfresh' (hdocument ▸ hsite), hfile, bind_apply, bind_apply]
      have hstep := (follows_reference lib (found.file :: chain) (some found.file)
        site.reference { w with registry := r }).1
      have hstep' := (follows_reference lib (found.file :: chain') (some found.file)
        site.reference { v with registry := r' }).1
      obtain ⟨hout, hnext⟩ := hgo site (Schema.mem_sites hsite) _ _ hm
      generalize reference lib (found.file :: chain) (some found.file) site.reference
        { w with registry := r } = out at hstep hout hnext ⊢
      generalize reference lib (found.file :: chain') (some found.file) site.reference
        { v with registry := r' } = out' at hstep' hout hnext ⊢
      obtain ⟨_ | node, w'⟩ := out
      · obtain ⟨_, v'⟩ := out'
        cases hout
        exact ⟨rfl, hnext.graph, hnext.node⟩
      · obtain ⟨_, v'⟩ := out'
        cases hout
        exact ⟨rfl, hnext.graph, node?_setNode_congr hnext.node (hfree.of_step hstep).entered
          (hfree'.of_step hstep').entered node⟩
    | none =>
      rw [reference_typed hr hn hfresh hsite,
        reference_typed hr' hn' hfresh' (hdocument ▸ hsite), hfile, hdocument]
      have hsize : v.graph.size = w.graph.size := congrArg Graph.size h.graph
      obtain ⟨hout, hdone⟩ := (agrees_schema agrees_add).1 (fill w.graph.size)
        (Schema.ofDocument found.document) (fill w.graph.size) hgo
        (fun p => agrees_fill w.graph.size p) _ _ (hm.reserved hfree hfree')
      rw [hsize]
      exact ⟨hout, hdone.graph, hdone.node⟩

/-- An alias is followed as the typed file that it stands for, if that leads back to no alias on the
way. -/
theorem reference_end (hl : lib.Regular) (hc : lib.Closed)
    (hpath : Relation.ReflTransGen lib.AliasOf a b) (hb : lib.Typed b)
    (hf : lib.locate referrer target = .ok a) (hend : lib.locate none target' = .ok b)
    (hw : Fresh lib chain w) (hg : w.graph = .empty) (havoid : Avoids lib chain a)
    (hback : ∀ g, g ∈ chain ∨ Relation.ReflTransGen lib.AliasOf a g ∧ g ≠ b →
      ¬ Relation.ReflTransGen lib.Refers b g) :
    let out := reference lib chain referrer target w
    let out' := reference lib [] none target' .empty
    out.1 = out'.1 ∧ out.2.graph = out'.2.graph ∧
      ∀ id, out.1 = .ok id →
        out.2.registry.node? a = some id ∧ out.2.registry.node? b = some id := by
  induction hpath using Relation.ReflTransGen.head_induction_on
    generalizing chain referrer target w with
  | refl =>
    have hserves := Library.serves_of_locate hf
    have hchain : ∀ g, Relation.ReflTransGen lib.Refers b g →
        ([] : List Path).any (·.Same g) = chain.any (·.Same g) := by
      intro g hpath
      refine (eq_false_of_ne_true fun hmet => ?_).symm
      have hmem := hl.mem_of_any_same hw.serves (Library.serves_of_refers hserves hpath) hmet
      exact hback g (Or.inl hmem) hpath
    have hmatched : Matched lib w .empty :=
      ⟨hw.sound, Workspace.sound_empty lib, hg.symm, fun g => (hw.node g).symm⟩
    obtain ⟨hout, hdone⟩ := agrees_reference hl hc hf hend hchain
      (fun hmet => absurd havoid.free (ne_false_of_eq_true hmet)) w .empty hmatched
    refine ⟨hout.symm, hdone.graph.symm, fun id hid => ?_⟩
    obtain ⟨f, hf', hn⟩ := (follows_reference lib chain referrer target w).2 id hid
    rw [hf] at hf'
    cases hf'
    exact ⟨hn, hn⟩
  | @head a next hfirst hrest ih =>
    have hcircle := Library.not_circular (.head hfirst hrest) hb
    have hcons := havoid.cons hl (Library.serves_of_locate hf) hfirst hcircle
    have hne : a ≠ b := by
      rintro rfl
      exact hfirst.not_typed hb
    obtain ⟨r, site, hnext, hfresh, hfree, hout⟩ := hw.reference_alias hl hc hf hfirst havoid
    have hstep := (follows_reference lib (a :: chain) (some a) site.reference
      { w with registry := r }).1
    obtain ⟨heq, hgraph, hnodes⟩ := ih hnext hfresh hg hcons fun g hmem => by
      rcases hmem with hmem | ⟨hpath, hgb⟩
      · rcases List.mem_cons.1 hmem with rfl | hmem
        · exact hback g (Or.inr ⟨.refl, hne⟩)
        · exact hback g (Or.inl hmem)
      · exact hback g (Or.inr ⟨.head hfirst hpath, hgb⟩)
    dsimp only
    rw [hout, bind_apply, ← heq, ← hgraph]
    generalize reference lib (a :: chain) (some a) site.reference { w with registry := r } = out
      at hstep hnodes ⊢
    obtain ⟨e | node, w'⟩ := out
    · exact ⟨rfl, rfl, fun id hid => by cases hid⟩
    · refine ⟨rfl, rfl, fun id hid => ?_⟩
      cases hid
      have hfree' := hfree.of_step hstep
      exact ⟨hfree'.node?_setNode node,
        (hfree'.extends_setNode node).node (hnodes node rfl).2⟩

section load

variable (hl : lib.Regular) (hc : lib.Closed)

include hl hc

theorem accounts_empty (hf : lib.locate none target = .ok f) {e : Error}
    (he : (reference lib [] none target .empty).1 = .error e) : lib.Accounts f e :=
  accounts_reference hl hc (Library.serves_of_locate hf) hf .here .nil (Workspace.sound_empty lib)
    (fun _ h => absurd h List.not_mem_nil) he

theorem circling_of_load (hf : lib.locate none target = .ok f) {t : String}
    (ht : (load lib target .empty).1 = .error (.reference (.circular t))) : lib.Circling f := by
  have hcause := fun e => @accounts_empty _ _ _ hl hc hf e
  rw [load_apply] at ht
  generalize reference lib [] none target .empty = out at hcause ht
  obtain ⟨e | id, w⟩ := out
  · cases ht
    rcases hcause _ rfl with ⟨_, _, h⟩ | ⟨-, h⟩
    · cases h
    · exact h
  · cases ht

variable (hpath : Relation.ReflTransGen lib.AliasOf a b) (hb : lib.Typed b)
  (hf : lib.locate none target = .ok a)

include hpath hb hf

theorem load_back {g : Path} (hg : Relation.ReflTransGen lib.AliasOf a g) (hne : g ≠ b)
    (hback : Relation.ReflTransGen lib.Refers b g) :
    ∃ t, (load lib target .empty).1 = .error (.reference (.circular t)) := by
  have hcause := fun e => @accounts_empty _ _ _ hl hc hf e
  have hfatal : Fatal (reference lib [] none target .empty).1 := by
    by_contra hok
    exact not_back hl hc hpath hb hf (fresh_empty lib) (avoids_nil lib a) hok (Or.inr ⟨hg, hne⟩)
      hback
  rw [load_apply]
  generalize reference lib [] none target .empty = out at hcause hfatal ⊢
  obtain ⟨e | id, w⟩ := out
  · obtain ⟨_, he, hstructural⟩ := hfatal
    cases he
    rcases hcause e rfl with ⟨context, faults, rfl⟩ | ⟨⟨t, rfl⟩, -⟩
    · exact absurd rfl (hstructural context faults)
    · exact ⟨t, rfl⟩
  · exact absurd hfatal (not_fatal_ok id)

theorem load_end (hend : lib.locate none target' = .ok b)
    (hback : ∀ g, Relation.ReflTransGen lib.AliasOf a g → g ≠ b →
      ¬ Relation.ReflTransGen lib.Refers b g) :
    let out := load lib target .empty
    let out' := load lib target' .empty
    out.1 = out'.1 ∧ out.2.graph = out'.2.graph ∧
      ∀ id, out.1 = .ok id →
        out.2.registry.node? a = some id ∧ out.2.registry.node? b = some id := by
  obtain ⟨heq, hgraph, hnodes⟩ := reference_end hl hc hpath hb hf hend (fresh_empty lib) rfl
    (avoids_nil lib a) fun g hg =>
      hg.elim (fun hmem => absurd hmem List.not_mem_nil) fun h => hback g h.1 h.2
  dsimp only
  rw [load_apply, load_apply]
  generalize reference lib [] none target .empty = out at heq hgraph hnodes ⊢
  generalize reference lib [] none target' .empty = out' at heq hgraph ⊢
  obtain ⟨e | id, w⟩ := out
  · obtain ⟨_, w'⟩ := out'
    cases heq
    exact ⟨rfl, hgraph, fun id hid => by cases hid⟩
  · obtain ⟨_, w'⟩ := out'
    cases heq
    refine ⟨rfl, congrArg (Graph.link · id) hgraph, fun id' hid => ?_⟩
    cases hid
    exact hnodes id rfl

end load

/-- What loading files in new workspaces means for those that stand for others, where all files can
be found and read. A load runs into a circle only if some way from its file leads back to an alias
that it has passed. A file that stands for a typed one cannot be loaded if that leads back to it, or
to another on the way between them. Else loading it ends as loading the typed one does, with the
same graph, and if it works with the same node for both. -/
theorem load_of_alias (m : FileMap) (includeDirs : List Path) (lib : Library)
    (hm : lib = m.library includeDirs) (hc : lib.Closed) :
    (∀ target f t, lib.locate none target = .ok f →
      (load lib target .empty).1 = .error (.reference (.circular t)) → lib.Circling f) ∧
    ∀ target target' a b, lib.locate none target = .ok a → lib.locate none target' = .ok b →
      Relation.ReflTransGen lib.AliasOf a b → lib.Typed b →
      let out := load lib target .empty
      let out' := load lib target' .empty
      let back := ∃ g, Relation.ReflTransGen lib.AliasOf a g ∧ g ≠ b ∧
        Relation.ReflTransGen lib.Refers b g
      (back → ∃ t, out.1 = .error (.reference (.circular t))) ∧
      (¬ back → out.1 = out'.1 ∧ out.2.graph = out'.2.graph ∧
        ∀ id, out.1 = .ok id →
          out.2.registry.node? a = some id ∧ out.2.registry.node? b = some id) := by
  have hl : lib.Regular := hm ▸ m.regular_library includeDirs
  refine ⟨fun target f t hf ht => circling_of_load hl hc hf ht, ?_⟩
  intro target target' a b hf hend hpath hb
  refine ⟨fun ⟨g, hg, hne, hback⟩ => load_back hl hc hpath hb hf hg hne hback, fun hno => ?_⟩
  exact load_end hl hc hpath hb hf hend fun g hg hne hback => hno ⟨g, hg, hne, hback⟩

/-- A file that stands for another, which has a member that refers back to the first. -/
def looped : FileMap where
  currentDir := ⟨"/"⟩
  files :=
    [(⟨"/a.json"⟩, "\x7b\"$ref\":\"file:///b.json\"\x7d"),
     (⟨"/b.json"⟩, "\x7b\"$id\":\"b\",\"type\":\"object\"," ++
       "\"properties\":\x7b\"a\":\x7b\"$ref\":\"file:///a.json\"\x7d\x7d\x7d")]

def loopedAlias : Document := ⟨[("$ref", .string "file:///b.json")]⟩

def loopedObject : Document :=
  ⟨[("$id", .string "b"), ("type", .string "object"),
    ("properties", .object [("a", .object [("$ref", .string "file:///a.json")])])]⟩

theorem locate_looped_alias (referrer : Option Path) :
    (looped.library []).locate referrer "file:///a.json" = .ok ⟨"/a.json"⟩ := rfl

theorem locate_looped_object (referrer : Option Path) :
    (looped.library []).locate referrer "file:///b.json" = .ok ⟨"/b.json"⟩ := rfl

theorem read_looped_alias : ∃ text, (looped.library []).read ⟨"/a.json"⟩ = .ok text ∧
    Document.read ⟨"/a.json"⟩ text = .ok loopedAlias := by
  refine ⟨_, rfl, ?_⟩
  cbv

theorem read_looped_object : (looped.library []).Reads ⟨"/b.json"⟩ loopedObject := by
  refine ⟨_, rfl, ?_⟩
  cbv

theorem schema_looped_alias :
    Schema.ofDocument loopedAlias = .reference ⟨"file:///b.json", none⟩ := by
  cbv

theorem schema_looped_object :
    Schema.ofDocument loopedObject = .object "b" ⟨none, none⟩ (Schema.head loopedObject) []
      [("a", .reference ⟨"file:///a.json", none⟩)] [] := by
  cbv

/-- The object is built once what its member refers to is. -/
theorem build_looped {follow : String → Build NodeId} {place : Property → Build NodeId}
    {w w' : Workspace} {node : NodeId} (h : follow "file:///a.json" w = (.ok node, w')) :
    schema follow place (Schema.ofDocument loopedObject) w =
      place ⟨⟨none, none⟩, .object (Schema.head loopedObject)
        [⟨"a", 0, true, node, some ⟨"file:///a.json", none⟩⟩]⟩ w' := by
  rw [schema_looped_object, schema, bind_apply, members_cons, schema, h]
  rfl

theorem load_looped_object :
    (load (looped.library []) "file:///b.json" .empty).1 = .ok 0 := by
  obtain ⟨text, ht, hd⟩ := read_looped_object
  obtain ⟨text', ht', hd'⟩ := read_looped_alias
  have hr := Registry.resolve_new (r := .empty) (locate_looped_object none) rfl ht hd
  have h : reference (looped.library []) [] none "file:///b.json" .empty = _ :=
    reference_typed hr rfl rfl (by rw [schema_looped_object]; rfl)
  rw [load_apply, h]
  dsimp only
  generalize hw : reserved _ _ = w
  have hn : w.registry.node? ⟨"/b.json"⟩ = some 0 := by rw [← hw]; rfl
  have he : w.registry.entry? ⟨"/a.json"⟩ = none := by rw [← hw]; rfl
  have hr' := Registry.resolve_new (locate_looped_alias (some ⟨"/b.json"⟩)) he ht' hd'
  have h' : reference (looped.library []) [⟨"/b.json"⟩] (some ⟨"/b.json"⟩) "file:///a.json" w = _ :=
    reference_alias hr' rfl rfl schema_looped_alias
  have hn' : (Registry.register { w.registry with reads := w.registry.reads + 1 } ⟨"/a.json"⟩
      (Text.trim "file:///a.json") loopedAlias).node? ⟨"/b.json"⟩ = some 0 :=
    (Registry.node?_register he).trans hn
  rw [bind_apply, reference_built (locate_looped_object _) hn'] at h'
  rw [build_looped h']
  rfl

theorem aliasOf_looped : (looped.library []).AliasOf ⟨"/a.json"⟩ ⟨"/b.json"⟩ := by
  obtain ⟨text, ht, hd⟩ := read_looped_alias
  exact ⟨loopedAlias, _, ⟨text, ht, hd⟩, schema_looped_alias, rfl⟩

theorem typed_looped : (looped.library []).Typed ⟨"/b.json"⟩ :=
  ⟨loopedObject, read_looped_object, by rw [schema_looped_object]; rfl⟩

theorem sites_looped_object :
    (Schema.ofDocument loopedObject).sites = [⟨"file:///a.json", none⟩] := by
  rw [schema_looped_object]
  rfl

theorem refers_looped : (looped.library []).Refers ⟨"/b.json"⟩ ⟨"/a.json"⟩ := by
  refine ⟨loopedObject, ⟨"file:///a.json", none⟩, read_looped_object, ?_, locate_looped_alias _⟩
  rw [sites_looped_object]
  exact List.mem_singleton_self _

theorem closed_looped : (looped.library []).Closed := by
  have hfiles : ∀ f ∈ (looped.library []).files, f = ⟨"/a.json"⟩ ∨ f = ⟨"/b.json"⟩ := by
    intro f hf
    simpa [looped, FileMap.library] using hf
  obtain ⟨text, ht, hread⟩ := read_looped_alias
  constructor
  · intro f hf
    rcases hfiles f hf with rfl | rfl
    · exact ⟨loopedAlias, text, ht, hread⟩
    · exact ⟨loopedObject, read_looped_object⟩
  · intro f hf d hd site hsite
    rcases hfiles f hf with rfl | rfl
    · rw [hd.unique ⟨text, ht, hread⟩, schema_looped_alias, Schema.sites] at hsite
      cases List.mem_singleton.1 hsite
      exact ⟨_, locate_looped_object _⟩
    · rw [hd.unique read_looped_object, sites_looped_object] at hsite
      cases List.mem_singleton.1 hsite
      exact ⟨_, locate_looped_alias _⟩

theorem load_of_alias_looped :
    (looped.library []).Closed ∧ ∃ t,
      (load (looped.library []) "file:///a.json" .empty).1 = .error (.reference (.circular t)) := by
  obtain ⟨-, hloads⟩ := load_of_alias looped [] _ rfl closed_looped
  obtain ⟨hback, -⟩ := hloads "file:///a.json" "file:///b.json" _ _ (locate_looped_alias none)
    (locate_looped_object none) (.single aliasOf_looped) typed_looped
  exact ⟨closed_looped, hback ⟨_, .refl, by decide, .single refers_looped⟩⟩

/-- A file that can be loaded, and one that stands for it and cannot. -/
theorem alias_not_loaded :
    (looped.library []).Closed ∧ (looped.library []).AliasOf ⟨"/a.json"⟩ ⟨"/b.json"⟩ ∧
    (looped.library []).Typed ⟨"/b.json"⟩ ∧
    (load (looped.library []) "file:///b.json" .empty).1 = .ok 0 ∧
    ∃ t, (load (looped.library []) "file:///a.json" .empty).1 = .error (.reference (.circular t)) :=
  ⟨closed_looped, aliasOf_looped, typed_looped, load_looped_object,
    load_back (looped.regular_library []) closed_looped (.single aliasOf_looped) typed_looped
      (locate_looped_alias none) .refl (by decide) (.single refers_looped)⟩

end SchemaForge.Build
