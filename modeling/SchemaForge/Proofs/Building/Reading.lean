import SchemaForge.Proofs.Building.Calls
import SchemaForge.Proofs.Building.Nesting
import SchemaForge.Proofs.Linking
/-! Which files a build reads, in their order: each at most once, and none that is known. -/
namespace SchemaForge

variable {lib : Library} {r : Registry} {referrer : Option Path} {target : String} {f : Path}
  {α β : Type}

/-- An outcome that ends a whole call: a failure other than faults in the structure of a schema. -/
def Fatal (out : Except Error α) : Prop :=
  ∃ e, out = .error e ∧ ∀ context faults, e ≠ .structural context faults

theorem not_fatal_ok (a : α) : ¬ Fatal (.ok a) := fun ⟨_, h, _⟩ => nomatch h

theorem not_fatal_structural (context : String) (faults : List Fault) :
    ¬ Fatal (.error (.structural context faults) : Except Error α) := by
  rintro ⟨e, h, hne⟩
  cases h
  exact hne context faults rfl

theorem Fatal.of_ne {e : Error} (h : ∀ context faults, e ≠ .structural context faults) :
    Fatal (.error e : Except Error α) := ⟨e, rfl, h⟩

theorem Fatal.of_error {e : Error} (h : Fatal (.error e : Except Error α)) :
    Fatal (.error e : Except Error β) := by
  obtain ⟨_, he, hne⟩ := h
  cases he
  exact ⟨e, rfl, hne⟩

namespace Registry

/-- The file that following a reference reads: the one that is located, unless it is known. -/
def readBy (r : Registry) (lib : Library) (referrer : Option Path) (target : String) : List Path :=
  match lib.locate referrer target with
  | .error _ => []
  | .ok f =>
    match r.entry? f, lib.read f with
    | none, .ok _ => [f]
    | _, _ => []

theorem reads_resolve (r : Registry) (lib : Library) (referrer : Option Path) (target : String) :
    let out := r.resolve lib referrer target
    out.2.reads = r.reads + (r.readBy lib referrer target).length ∧
    ∀ f ∈ r.readBy lib referrer target, f ∈ lib.files ∧ r.document? f = none ∧
      ((out.2.document? f).isSome = true ∨ Fatal out.1) := by
  cases hf : lib.locate referrer target with
  | error e =>
    simp only [resolve, readBy, hf]
    exact ⟨rfl, fun _ h => absurd h List.not_mem_nil⟩
  | ok f =>
    cases he : r.entry? f with
    | some e =>
      simp only [resolve, readBy, fetch, hf, he]
      exact ⟨rfl, fun _ h => absurd h List.not_mem_nil⟩
    | none =>
      cases ht : lib.read f with
      | error e =>
        simp only [resolve, readBy, fetch, hf, he, ht]
        exact ⟨rfl, fun _ h => absurd h List.not_mem_nil⟩
      | ok text =>
        have hmem := Library.mem_files_of_locate hf
        have hnone : r.document? f = none := by rw [document?, he]; rfl
        simp only [resolve, readBy, fetch, hf, he, ht, List.mem_singleton, forall_eq]
        cases hd : Document.read f text with
        | error e => exact ⟨rfl, hmem, hnone, Or.inr ⟨e, rfl, Document.read_error hd⟩⟩
        | ok d =>
          have hnew : Registry.entry? { r with reads := r.reads + 1 } f = none := he
          refine ⟨rfl, hmem, hnone, Or.inl ?_⟩
          rw [document?, entry?_register hnew, hnew]
          simp [Path.Same]

/-- Registries that know the same documents, after as many reads. -/
structure Alike (r r' : Registry) : Prop where
  reads : r'.reads = r.reads
  document : ∀ f, r'.document? f = r.document? f

theorem Alike.of_eq {r' : Registry} (h : r' = r) : r.Alike r' := h ▸ ⟨rfl, fun _ => rfl⟩

theorem Alike.refl (r : Registry) : r.Alike r := .of_eq rfl

theorem alike_setNode (r : Registry) (f : Path) (id : NodeId) : r.Alike (r.setNode f id) :=
  ⟨rfl, fun _ => document?_setNode ..⟩

end Registry

namespace Build

variable {w w' : Workspace} {out : Except Error α × Workspace} {log log' : List Path}
  {chain : List Path} {found : Resolved} {site : RefSite}

/-- What a row of files that a build has read is like. All are read for the first time, and will not
be read again: they are known then, unless all has come to an end. -/
structure ReadsOnce (lib : Library) (w : Workspace) (out : Except Error α × Workspace)
    (log : List Path) : Prop where
  count : out.2.registry.reads = w.registry.reads + log.length
  served : ∀ f ∈ log, f ∈ lib.files
  fresh : ∀ f ∈ log, w.registry.document? f = none
  apart : log.Pairwise fun f g => ¬ f.Same g
  kept : ∀ {f d}, w.registry.document? f = some d → out.2.registry.document? f = some d
  known : ∀ f ∈ log, (out.2.registry.document? f).isSome = true ∨ Fatal out.1

/-- Where the registry stays as it is, nothing is read. -/
theorem ReadsOnce.nil (h : out.2.registry = w.registry) : ReadsOnce lib w out [] :=
  ⟨h ▸ rfl, nofun, nofun, .nil, fun hf => h ▸ hf, nofun⟩

/-- What comes next reads nothing of what has been read before. -/
theorem ReadsOnce.append {out' : Except Error β × Workspace} (h : ReadsOnce lib w out log)
    (hok : ¬ Fatal out.1) (h' : ReadsOnce lib out.2 out' log') :
    ReadsOnce lib w out' (log ++ log') := by
  have hknown : ∀ f ∈ log, ∃ d, out.2.registry.document? f = some d :=
    fun f hf => Option.isSome_iff_exists.1 ((h.known f hf).resolve_right hok)
  refine ⟨?_, ?_, ?_, ?_, fun hf => h'.kept (h.kept hf), ?_⟩
  · rw [h'.count, h.count, List.length_append, Nat.add_assoc]
  · intro f hf
    rcases List.mem_append.1 hf with hf | hf
    · exact h.served f hf
    · exact h'.served f hf
  · intro f hf
    rcases List.mem_append.1 hf with hf | hf
    · exact h.fresh f hf
    · -- what was known at first is known in between
      refine Option.eq_none_iff_forall_ne_some.2 fun d hd => ?_
      have hlater := h'.fresh f hf
      rw [h.kept hd] at hlater
      cases hlater
  · refine List.pairwise_append.2 ⟨h.apart, h'.apart, ?_⟩
    intro f hf g hg hs
    obtain ⟨d, hd⟩ := hknown f hf
    have hfresh := h'.fresh g hg
    rw [Registry.document?, ← Registry.entry?_congr _ hs, ← Registry.document?, hd] at hfresh
    cases hfresh
  · intro f hf
    rcases List.mem_append.1 hf with hf | hf
    · obtain ⟨d, hd⟩ := hknown f hf
      exact Or.inl (Option.isSome_of_eq_some (h'.kept hd))
    · exact h'.known f hf

/-- What is done before and afterwards reads nothing if the same files stay known, and it ends
nothing that had not ended. -/
theorem ReadsOnce.of_alike {out' : Except Error β × Workspace} (h : ReadsOnce lib w out log)
    (hstart : w'.registry.Alike w.registry) (hend : out.2.registry.Alike out'.2.registry)
    (hfatal : Fatal out.1 → Fatal out'.1) : ReadsOnce lib w' out' log :=
  ⟨hend.reads.trans (hstart.reads ▸ h.count), h.served,
    fun f hf => (hstart.document f).symm.trans (h.fresh f hf), h.apart,
    fun hf => (hend.document _).trans (h.kept ((hstart.document _).trans hf)),
    fun f hf => (h.known f hf).imp (fun hk => hend.document f ▸ hk) hfatal⟩

/-- What becomes of an outcome reads nothing if it keeps the registry. -/
theorem ReadsOnce.of_registry {out' : Except Error β × Workspace} (h : ReadsOnce lib w out log)
    (hregistry : out'.2.registry = out.2.registry) (hfatal : Fatal out.1 → Fatal out'.1) :
    ReadsOnce lib w out' log :=
  h.of_alike (.refl _) (.of_eq hregistry) hfatal

/-- What is made of a build reads nothing if the same files stay known. -/
theorem ReadsOnce.bind {b : Build α} {f : α → Build β} (h : ReadsOnce lib w (b w) log)
    (hf : ∀ a (w' : Workspace), w'.registry.Alike (f a w').2.registry) :
    ReadsOnce lib w ((b >>= f) w) log := by
  rw [bind_apply]
  generalize b w = out at h ⊢
  obtain ⟨e | a, w'⟩ := out
  · exact h.of_registry rfl Fatal.of_error
  · exact h.of_alike (.refl _) (hf a w') fun hfatal => absurd hfatal (not_fatal_ok a)

theorem readsOnce_resolve (lib : Library) (w : Workspace) (referrer : Option Path)
    (target : String) :
    ReadsOnce lib w ((w.registry.resolve lib referrer target).1,
        { w with registry := (w.registry.resolve lib referrer target).2 })
      (w.registry.readBy lib referrer target) := by
  have hone : (w.registry.readBy lib referrer target).Pairwise fun f g => ¬ f.Same g := by
    unfold Registry.readBy
    split
    · exact .nil
    · split
      · exact List.pairwise_singleton _ _
      · exact .nil
  obtain ⟨hcount, hread⟩ := w.registry.reads_resolve lib referrer target
  have hkept := @Registry.document?_resolve w.registry lib referrer target
  generalize w.registry.resolve lib referrer target = out at hcount hread hkept ⊢
  exact ⟨hcount, fun f hf => (hread f hf).1, fun f hf => (hread f hf).2.1, hone, hkept,
    fun f hf => (hread f hf).2.2⟩

mutual

/-- The files that building a schema reads, where `log` tells those of following a reference. -/
def schemaReads (follow : String → Build NodeId) (log : String → Workspace → List Path) :
    Schema → Workspace → List Path
  | .reference site, w => log site.reference w
  | .faulty .., _ => []
  | .leaf .., _ => []
  | .array _ items, w => schemaReads follow log items w
  | .object _ _ _ _ inner _, w => membersReads follow log inner w

/-- The files that building members reads, one after the other, until one comes to an end. -/
def membersReads (follow : String → Build NodeId) (log : String → Workspace → List Path) :
    List (String × Schema) → Workspace → List Path
  | [], _ => []
  | (_, s) :: rest, w => schemaReads follow log s w ++
    match schema follow add s w with
    | (.ok _, w') => membersReads follow log rest w'
    | (.error (.structural ..), w') => membersReads follow log rest w'
    | (.error _, _) => []

end

/-- The files that following a reference reads. -/
def reads (lib : Library) (chain : List Path) (referrer : Option Path) (target : String)
    (w : Workspace) : List Path :=
  w.registry.readBy lib referrer target ++
    match _ : w.registry.resolve lib referrer target with
    | (.error _, _) => []
    | (.ok found, r) =>
      let w := { w with registry := r }
      match found.node with
      | some _ => []
      | none =>
        if _ : chain.any (·.Same found.file) then []
        else
          let log next := reads lib (found.file :: chain) (some found.file) next
          match Schema.ofDocument found.document with
          | .reference site => log site.reference w
          | s => schemaReads (reference lib (found.file :: chain) (some found.file)) log s
              (reserved found.file w)
termination_by (pending lib chain).length
decreasing_by
  apply pending_cons_lt
  · exact Registry.mem_files_of_resolve (congrArg Prod.fst ‹_›)
  · exact eq_false_of_ne_true ‹_›

section cases

theorem reads_done (h : ∀ found r, w.registry.resolve lib referrer target = (.ok found, r) →
      found.node = none → chain.any (·.Same found.file) = true) :
    reads lib chain referrer target w = w.registry.readBy lib referrer target := by
  rw [reads]
  split
  · exact List.append_nil _
  · next found r hr =>
    dsimp only
    split
    · exact List.append_nil _
    · next hn =>
      rw [dif_pos (h found r hr hn)]
      exact List.append_nil _

variable (hr : w.registry.resolve lib referrer target = (.ok found, r)) (hn : found.node = none)
  (hc : chain.any (·.Same found.file) = false)

include hr hn hc

theorem reads_alias (hs : Schema.ofDocument found.document = .reference site) :
    reads lib chain referrer target w = w.registry.readBy lib referrer target ++
      reads lib (found.file :: chain) (some found.file) site.reference
        { w with registry := r } := by
  rw [reads]
  refine congrArg (_ ++ ·) ?_
  split
  · next h => rw [hr] at h; cases h
  · next h =>
    rw [hr] at h
    cases h
    simp only [hn, hc, Bool.false_eq_true, dite_false, hs]

theorem reads_typed (hs : (Schema.ofDocument found.document).declaredSite? = none) :
    reads lib chain referrer target w = w.registry.readBy lib referrer target ++
      schemaReads (reference lib (found.file :: chain) (some found.file))
        (reads lib (found.file :: chain) (some found.file)) (Schema.ofDocument found.document)
        (reserved found.file { w with registry := r }) := by
  rw [reads]
  refine congrArg (_ ++ ·) ?_
  split
  · next h => rw [hr] at h; cases h
  · next h =>
    rw [hr] at h
    cases h
    simp only [hn, hc, Bool.false_eq_true, dite_false]
    generalize Schema.ofDocument found.document = s at hs ⊢
    cases s with
    | reference site => cases hs
    | _ => rfl

end cases

section

variable {follow : String → Build NodeId} {log : String → Workspace → List Path}
  (hfollow : ∀ target w, ReadsOnce lib w (follow target w) (log target w))

include hfollow

theorem readsOnce_schema :
    (∀ place s, (∀ p w, (place p w).2.registry = w.registry) →
      ∀ w, ReadsOnce lib w (schema follow place s w) (schemaReads follow log s w)) ∧
    ∀ head index inner w,
      ReadsOnce lib w (members follow head index inner w) (membersReads follow log inner w) := by
  refine schema.mutual_induct
    (fun place s => (∀ p w, (place p w).2.registry = w.registry) →
      ∀ w, ReadsOnce lib w (schema follow place s w) (schemaReads follow log s w))
    (fun head index inner => ∀ w,
      ReadsOnce lib w (members follow head index inner w) (membersReads follow log inner w))
    ?reference ?faulty ?leaf ?array ?object ?nil ?cons
  case reference => exact fun place site _ w => hfollow site.reference w
  case faulty => exact fun place context faults _ w => .nil rfl
  case leaf => exact fun place info leaf hplace w => .nil (hplace _ w)
  case array =>
    intro place info items ih hplace w
    rw [schema, schemaReads]
    exact (ih (fun _ _ => rfl) w).bind fun node w' => .of_eq (hplace _ w')
  case object =>
    intro place context info head before inner after ih hplace w
    rw [schema, schemaReads]
    refine (ih w).bind ?_
    rintro ⟨found, faults⟩ w'
    dsimp only
    split
    · exact .of_eq (hplace _ w')
    · exact .refl _
  case nil => exact fun head index w => .nil rfl
  case cons =>
    intro head index name s rest ih ihr w
    have h := ih (fun _ _ => rfl) w
    -- what is made of the rest does not matter, only what building it reads
    have hrest : ∀ (f : List Member × List Fault → List Member × List Fault) (w' : Workspace),
        ReadsOnce lib w' ((members follow head (index + 1) rest >>= fun r => pure (f r)) w')
          (membersReads follow log rest w') :=
      fun f w' => (ihr w').bind fun _ _ => .refl _
    rw [members_cons, membersReads]
    generalize schema follow add s w = out at h ⊢
    obtain ⟨e | node, w'⟩ := out
    · cases e with
      | structural context faults =>
        exact h.append (not_fatal_structural context faults) (hrest _ w')
      | _ =>
        simp only [List.append_nil]
        exact h.of_registry rfl Fatal.of_error
    · exact h.append (not_fatal_ok node) (hrest _ w')

end

theorem readsOnce_reference (lib : Library) (chain : List Path) (referrer : Option Path)
    (target : String) (w : Workspace) :
    ReadsOnce lib w (reference lib chain referrer target w)
      (reads lib chain referrer target w) := by
  induction chain, referrer, target, w using reference.induct lib with
  | case1 chain referrer target w e r hr =>
    have h := readsOnce_resolve lib w referrer target
    rw [hr] at h
    rw [reference_error hr, reads_done fun _ _ h => by rw [hr] at h; cases h]
    exact h.of_registry rfl Fatal.of_error
  | case2 chain referrer target w found r hr node hn =>
    have h := readsOnce_resolve lib w referrer target
    rw [hr] at h
    rw [reference_known hr hn,
      reads_done fun _ _ h hn' => by rw [hr] at h; cases h; simp [hn] at hn']
    exact h.of_registry rfl fun hf => absurd hf (not_fatal_ok found)
  | case3 chain referrer target w found r hr hn hc =>
    have h := readsOnce_resolve lib w referrer target
    rw [hr] at h
    rw [reference_circular hr hn hc, reads_done fun _ _ h _ => by rw [hr] at h; cases h; exact hc]
    exact h.of_registry rfl fun hf => absurd hf (not_fatal_ok found)
  | case4 chain referrer target w found r hr hn hc ih =>
    have hc := eq_false_of_ne_true hc
    have h := readsOnce_resolve lib w referrer target
    rw [hr] at h
    have hgo : ∀ {log} {out : Except Error NodeId × Workspace},
        ReadsOnce lib { w with registry := r } out log →
          ReadsOnce lib w out (w.registry.readBy lib referrer target ++ log) :=
      fun hrest => h.append (not_fatal_ok found) hrest
    cases hs : (Schema.ofDocument found.document).declaredSite? with
    | some site =>
      have hsite := Schema.eq_reference hs
      rw [reference_alias hr hn hc hsite, reads_alias hr hn hc hsite]
      exact hgo ((ih site.reference { w with registry := r }).bind fun node w' =>
        w'.registry.alike_setNode found.file node)
    | none =>
      rw [reference_typed hr hn hc hs, reads_typed hr hn hc hs]
      have hschema := (readsOnce_schema fun target w => ih target w).1 (fill w.graph.size)
        (Schema.ofDocument found.document) (fun _ _ => rfl)
        (reserved found.file { w with registry := r })
      exact hgo (hschema.of_alike (r.alike_setNode found.file _) (.refl _) id)

/-- The files that a call reads. -/
def Call.reads (lib : Library) : Call → Workspace → List Path
  | .load target => Build.reads lib [] none target
  | .document file d =>
    schemaReads (reference lib [] file) (Build.reads lib [] file) (Schema.ofDocument d)

theorem readsOnce_run (lib : Library) (c : Call) (w : Workspace) :
    ReadsOnce lib w (c.run lib w) (c.reads lib w) := by
  cases c with
  | load target =>
    have h := readsOnce_reference lib [] none target w
    rw [Call.run, load_apply, Call.reads]
    generalize reference lib [] none target w = out at h ⊢
    obtain ⟨e | node, w'⟩ := out
    · exact h
    · exact h.of_registry rfl id
  | document file d =>
    have h := (readsOnce_schema (readsOnce_reference lib [] file)).1 add (Schema.ofDocument d)
      (fun _ _ => rfl) w
    rw [Call.run, document_apply, Call.reads]
    generalize schema (reference lib [] file) add (Schema.ofDocument d) w = out at h ⊢
    obtain ⟨e | node, w'⟩ := out
    · exact h
    · exact h.of_registry rfl id

/-- Building ends, whatever refers to what. No row of calls within it goes on without end:
references are followed no deeper than there are files that nobody is at work on, and linking goes
no deeper than there are nodes. And however a call ends, it has read no file twice and none that was
known, and each that it has read is known then, but for one that held no document, which ended the
call. -/
theorem building_ends (lib : Library) :
    WellFounded (Calls lib) ∧
    (∀ cut limit chain referrer target, (pending lib chain).length < limit →
      referenceWithin lib cut limit chain referrer target =
        reference lib chain referrer target) ∧
    (∀ (g : Graph) limit root, g.size < limit →
      (Graph.linkWithin limit root (g, [])).1 = g.link root) ∧
    ∀ (calls : List Call) (c : Call),
      let w := Workspace.after lib calls
      let out := c.run lib w
      let log := c.reads lib w
      out.2.registry.reads = w.registry.reads + log.length ∧
      log.Pairwise (fun f g => ¬ f.Same g) ∧
      ∀ f ∈ log, f ∈ lib.files ∧ w.registry.document? f = none ∧
        ((out.2.registry.document? f).isSome = true ∨ Fatal out.1) := by
  refine ⟨wellFounded_calls lib, fun cut limit chain referrer target h =>
    referenceWithin_eq lib cut h referrer target, fun g limit root h => Graph.link_eq h,
    fun calls c => ?_⟩
  have h := readsOnce_run lib c (Workspace.after lib calls)
  exact ⟨h.count, h.apart, fun f hf => ⟨h.served f hf, h.fresh f hf, h.known f hf⟩⟩

end Build

end SchemaForge
