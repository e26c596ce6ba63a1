import Mathlib.Data.List.Dedup
import SchemaForge.Proofs.Generation.Names
/-! One registry for many runs: marks and claims stay, no name is used twice over all of them, and a
run that has worked has nothing left to do. -/
namespace SchemaForge

namespace Registry

variable {r r' r'' : Registry} {file f : Path} {marked : Bool}

/-- Claims and marks are never taken back, and no file comes or goes. -/
structure Grows (r r' : Registry) : Prop where
  units : r.units <+: r'.units
  emitted : ∀ f, r.isEmitted f = true → r'.isEmitted f = true
  known : ∀ f, (r'.entry? f).isSome = (r.entry? f).isSome

theorem Grows.refl (r : Registry) : r.Grows r := ⟨List.prefix_refl _, fun _ h => h, fun _ => rfl⟩

theorem Grows.trans (h : r.Grows r') (h' : r'.Grows r'') : r.Grows r'' :=
  ⟨h.units.trans h'.units, fun f hf => h'.emitted f (h.emitted f hf),
    fun f => (h'.known f).trans (h.known f)⟩

theorem grows_claim (r : Registry) (name : String) :
    r.Grows { r with units := r.units ++ [name] } :=
  ⟨List.prefix_append _ _, fun _ h => h, fun _ => rfl⟩

theorem grows_mark (h : r.markEmitted file = (marked, r')) : r.Grows r' := by
  unfold markEmitted at h
  split at h
  · split at h
    · cases h
      exact .refl r
    · cases h
      refine ⟨List.prefix_refl _, ?_, ?_⟩
      · intro f hf
        rw [isEmitted, entry?_mark]
        rw [isEmitted] at hf
        cases he : r.entry? f with
        | none => simp [he] at hf
        | some e =>
          have hmarked : e.emitted = true := by simpa [he] using hf
          by_cases hs : file.Same f <;> simp [hs, hmarked]
      · intro f
        rw [entry?_mark, Option.isSome_map]
  · cases h
    exact .refl r

/-- A file that has just been marked is marked. -/
theorem isEmitted_of_mark (h : r.markEmitted f = (true, r')) : r'.isEmitted f = true := by
  unfold markEmitted at h
  split at h
  · next e he =>
    split at h
    · cases h
    · cases h
      rw [isEmitted, entry?_mark, he]
      simp [Path.Same]
  · cases h

/-- A file that is marked or unknown is not marked again. -/
theorem markEmitted_of_isEmitted (h : (r.entry? f).isSome = true → r.isEmitted f = true) :
    r.markEmitted f = (false, r) := by
  unfold markEmitted
  cases he : r.entry? f with
  | none => rfl
  | some e =>
    have hmarked : e.emitted = true := by simpa [isEmitted, he] using h
    simp [hmarked]

end Registry

namespace Generation

variable {style : Style} {language : Language} {g : Graph} {root id : NodeId} {r r' : Registry}
  {pending : List NodeId} {us : List CodeUnit}

/-- The nodes whose units a run tries to write, up to the first that cannot be written. -/
def triedAlong (style : Style) (language : Language) (g : Graph) (root : NodeId) (r : Registry) :
    List NodeId → List NodeId
  | [] => []
  | id :: pending =>
    if _ : id < g.size ∧ (g.hasMembers id ∨ id = root) then
      match _ : wants g r id with
      | (false, r) => triedAlong style language g root r pending
      | (true, r) =>
        if _ : r.units.contains (fileName language g id) then
          triedAlong style language g root r pending
        else
          let r := { r with units := r.units ++ [fileName language g id] }
          match unit? style language g id with
          | .error _ => [id]
          | .ok unit => id :: triedAlong style language g root r (unit.discovered ++ pending)
    else triedAlong style language g root r pending
termination_by pending => ((unclaimed language g r.units).length, pending.length)
decreasing_by
  · rw [units_of_wants ‹_›]
    exact Prod.Lex.right _ (Nat.lt_succ_self _)
  · rw [units_of_wants ‹_›]
    exact Prod.Lex.right _ (Nat.lt_succ_self _)
  · next h r₁ hw hu =>
    rw [← units_of_wants hw]
    exact Prod.Lex.left _ _ (unclaimed_lt h.1 (eq_false_of_ne_true hu))
  · exact Prod.Lex.right _ (Nat.lt_succ_self _)

/-- The nodes whose units are tried for a root. -/
def tried (style : Style) (language : Language) (g : Graph) (r : Registry) (root : NodeId) :
    List NodeId :=
  if (g.object? root).isSome then triedAlong style language g root r [root] else []

theorem grows_wants {wanted : Bool} (h : wants g r id = (wanted, r')) : r.Grows r' := by
  unfold wants at h
  split at h
  · exact Registry.grows_mark h
  · cases h
    exact .refl r

theorem triedAlong_skipped (h : ¬ (id < g.size ∧ (g.hasMembers id ∨ id = root))) :
    triedAlong style language g root r (id :: pending) =
      triedAlong style language g root r pending := by
  rw [triedAlong, dif_neg h]

section wanted

variable (h : id < g.size ∧ (g.hasMembers id ∨ id = root))

include h

theorem triedAlong_unwanted (hw : wants g r id = (false, r')) :
    triedAlong style language g root r (id :: pending) =
      triedAlong style language g root r' pending := by
  rw [triedAlong, dif_pos h]
  split
  · next hw' =>
    rw [hw] at hw'
    cases hw'
    rfl
  · next hw' =>
    rw [hw] at hw'
    cases hw'

variable (hw : wants g r id = (true, r'))

include hw

theorem triedAlong_claimed (hclaimed : r'.units.contains (fileName language g id) = true) :
    triedAlong style language g root r (id :: pending) =
      triedAlong style language g root r' pending := by
  rw [triedAlong, dif_pos h]
  split
  · next hw' =>
    rw [hw] at hw'
    cases hw'
  · next hw' =>
    rw [hw] at hw'
    cases hw'
    rw [dif_pos hclaimed]

/-- An object that claims its name is tried; if its unit can be written, the objects that it refers
to come next. -/
theorem triedAlong_free (hfree : ¬ r'.units.contains (fileName language g id) = true) :
    triedAlong style language g root r (id :: pending) =
      match unit? style language g id with
      | .error _ => [id]
      | .ok unit => id ::
        triedAlong style language g root { r' with units := r'.units ++ [fileName language g id] }
          (unit.discovered ++ pending) := by
  rw [triedAlong, dif_pos h]
  split
  · next hw' =>
    rw [hw] at hw'
    cases hw'
  · next hw' =>
    rw [hw] at hw'
    cases hw'
    rw [dif_neg hfree]

end wanted

/-- What a run leaves in its registry and hands out: the names of what it has tried are claimed, and
where it works, the units are those that it has tried. -/
theorem unitsAlong_tried (style : Style) (language : Language) (g : Graph) (root : NodeId)
    (r : Registry) (pending : List NodeId) :
    r.Grows (unitsAlong style language g root r pending).2 ∧
    (unitsAlong style language g root r pending).2.units =
      r.units ++ (triedAlong style language g root r pending).map (fileName language g) ∧
    ∀ us, (unitsAlong style language g root r pending).1 = .ok us →
      (triedAlong style language g root r pending).mapM (unit? style language g) = .ok us := by
  fun_induction unitsAlong style language g root r pending with
  | case1 r =>
    rw [triedAlong]
    exact ⟨.refl r, by simp, fun us h => by cases h; rfl⟩
  | case2 r id pending hid r' hw ih =>
    obtain ⟨hgrows, hunits, hok⟩ := ih
    rw [triedAlong_unwanted hid hw, ← units_of_wants hw]
    exact ⟨(grows_wants hw).trans hgrows, hunits, hok⟩
  | case3 r id pending hid r' hw hclaimed ih =>
    obtain ⟨hgrows, hunits, hok⟩ := ih
    rw [triedAlong_claimed hid hw hclaimed, ← units_of_wants hw]
    exact ⟨(grows_wants hw).trans hgrows, hunits, hok⟩
  | case4 r id pending hid r' hw hfree r'' fault hunit =>
    rw [triedAlong_free hid hw hfree, hunit, ← units_of_wants hw]
    exact ⟨(grows_wants hw).trans (Registry.grows_claim r' _), rfl, fun us h => by cases h⟩
  | case5 r id pending hid r' hw hfree r'' unit hunit units r₁ hrest ih =>
    obtain ⟨hgrows, hunits, hok⟩ := ih
    rw [hrest] at hgrows hunits hok
    rw [triedAlong_free hid hw hfree, hunit, ← units_of_wants hw]
    refine ⟨((grows_wants hw).trans (Registry.grows_claim r' _)).trans hgrows, ?_, ?_⟩
    · rw [hunits]
      simp [r'']
    · intro us h
      cases h
      rw [List.mapM_cons, hunit, hok units rfl]
      rfl
  | case6 r id pending hid r' hw hfree r'' unit hunit e r₁ hrest ih =>
    obtain ⟨hgrows, hunits, -⟩ := ih
    rw [hrest] at hgrows hunits
    rw [triedAlong_free hid hw hfree, hunit, ← units_of_wants hw]
    refine ⟨((grows_wants hw).trans (Registry.grows_claim r' _)).trans hgrows, ?_, ?_⟩
    · rw [hunits]
      simp [r'']
    · intro us h
      cases h
  | case7 r id pending hid ih =>
    rw [triedAlong_skipped hid]
    exact ih

/-- No name is tried twice, and none that was claimed before. -/
theorem nodup_triedAlong (style : Style) (language : Language) (g : Graph) (root : NodeId)
    (r : Registry) (pending : List NodeId) :
    ((triedAlong style language g root r pending).map (fileName language g)).Nodup ∧
      ∀ id ∈ triedAlong style language g root r pending,
        id < g.size ∧ fileName language g id ∉ r.units := by
  fun_induction triedAlong style language g root r pending with
  | case1 => simp
  | case2 r id pending hid r' hw ih =>
    rw [← units_of_wants hw]
    exact ih
  | case3 r id pending hid r' hw hclaimed ih =>
    rw [← units_of_wants hw]
    exact ih
  | case4 r id pending hid r' hw hfree fault hunit =>
    rw [List.contains_iff_mem] at hfree
    rw [← units_of_wants hw]
    refine ⟨by simp, fun other hother => ?_⟩
    rw [List.mem_singleton.1 hother]
    exact ⟨hid.1, hfree⟩
  | case5 r id pending hid r' hw hfree r'' unit hunit ih =>
    obtain ⟨hnodup, hfresh⟩ := ih
    rw [List.contains_iff_mem] at hfree
    rw [← units_of_wants hw]
    refine ⟨List.nodup_cons.2 ⟨?_, hnodup⟩, ?_⟩
    · intro hmem
      obtain ⟨other, hother, heq⟩ := List.mem_map.1 hmem
      exact (hfresh other hother).2 (by simp [r'', heq])
    · intro other hother
      rcases List.mem_cons.1 hother with rfl | hother
      · exact ⟨hid.1, hfree⟩
      · obtain ⟨hlt, hnew⟩ := hfresh other hother
        exact ⟨hlt, fun hmem => hnew (List.mem_append_left _ hmem)⟩
  | case6 r id pending hid ih => exact ih

/-- What one run does: it claims the names of what it tries, which are new and each tried once, and
hands out the units of all of them or none. -/
theorem units_tried (style : Style) (language : Language) (g : Graph) (r : Registry)
    (root : NodeId) :
    let ids := tried style language g r root
    let out := units style language g r root
    r.Grows out.2 ∧ out.2.units = r.units ++ ids.map (fileName language g) ∧
    (ids.map (fileName language g)).Nodup ∧
    (∀ id ∈ ids, id < g.size ∧ fileName language g id ∉ r.units) ∧
    ∀ us, out.1 = .ok us → ids.mapM (unit? style language g) = .ok us := by
  dsimp only
  rw [tried, units]
  split
  · obtain ⟨hgrows, hunits, hok⟩ := unitsAlong_tried style language g root r [root]
    obtain ⟨hnodup, hfresh⟩ := nodup_triedAlong style language g root r [root]
    exact ⟨hgrows, hunits, hnodup, hfresh, hok⟩
  · exact ⟨.refl r, by simp, List.nodup_nil, fun _ h => absurd h List.not_mem_nil,
      fun us h => by cases h⟩

/-- Each try claims one of the names that nobody has claimed. -/
theorem length_tried_le (style : Style) (language : Language) (g : Graph) (r : Registry)
    (root : NodeId) :
    (tried style language g r root).length ≤
      ((unclaimed language g r.units).map (fileName language g)).dedup.length := by
  obtain ⟨-, -, hnodup, hfresh, -⟩ := units_tried style language g r root
  rw [← List.length_map (fileName language g)]
  apply hnodup.length_le_of_subset
  intro name hname
  obtain ⟨id, hid, rfl⟩ := List.mem_map.1 hname
  obtain ⟨hlt, hnew⟩ := hfresh id hid
  apply List.mem_dedup.2
  apply List.mem_map_of_mem
  simpa [unclaimed] using ⟨hlt, hnew⟩

/-- Whether there is nothing to do for a root: its file is marked or unknown, or if it has none, its
name is claimed. -/
def Idle (language : Language) (g : Graph) (r : Registry) (root : NodeId) : Prop :=
  match g.isFileRoot root, g.file? root with
  | true, some f => (r.entry? f).isSome = true → r.isEmitted f = true
  | _, _ => fileName language g root ∈ r.units

/-- The root of a file marks it; all other objects are wanted. -/
theorem wants_cases (g : Graph) (r : Registry) (id : NodeId) :
    (∃ f, g.isFileRoot id = true ∧ g.file? id = some f ∧ wants g r id = r.markEmitted f) ∨
      (∀ f, g.isFileRoot id = true → g.file? id ≠ some f) ∧ wants g r id = (true, r) := by
  unfold wants
  split
  · next f hroot hf => exact Or.inl ⟨f, hroot, hf, rfl⟩
  · next hno => exact Or.inr ⟨hno, rfl⟩

theorem idle_root {f : Path} (hroot : g.isFileRoot root = true) (hf : g.file? root = some f) :
    Idle language g r root ↔ ((r.entry? f).isSome = true → r.isEmitted f = true) := by
  simp only [Idle, hroot, hf]

theorem idle_other (hno : ∀ f, g.isFileRoot root = true → g.file? root ≠ some f) :
    Idle language g r root ↔ fileName language g root ∈ r.units := by
  unfold Idle
  split
  · next f hroot hf => exact absurd hf (hno f hroot)
  · exact Iff.rfl

/-- Once its root has been looked at and its name is claimed, unless the file of the root was
marked, a run has nothing left to do. -/
theorem idle_wants {wanted : Bool} (hw : wants g r root = (wanted, r')) (hr : r'.Grows r'')
    (hclaimed : wanted = true → fileName language g root ∈ r''.units) :
    Idle language g r'' root := by
  rcases wants_cases g r root with ⟨f, hroot, hf, hmark⟩ | ⟨hno, hwant⟩
  · rw [hmark] at hw
    refine (idle_root hroot hf).2 fun hknown => hr.emitted f ?_
    cases wanted with
    | true => exact Registry.isEmitted_of_mark hw
    | false =>
      have hgrows := (Registry.grows_mark hw).trans hr
      obtain ⟨rfl, hmarked⟩ := Registry.markEmitted_false (hgrows.known f ▸ hknown) hw
      exact hmarked
  · rw [hwant] at hw
    cases hw
    exact (idle_other hno).2 (hclaimed rfl)

theorem unitsAlong_nil : unitsAlong style language g root r [] = (.ok [], r) := by
  rw [unitsAlong]

theorem units_idle (hroot : (g.object? root).isSome = true) (h : Idle language g r root) :
    units style language g r root = (.ok [], r) := by
  have hid : root < g.size ∧ (g.hasMembers root ∨ root = root) :=
    ⟨Graph.lt_of_object? hroot, Or.inr rfl⟩
  have hw : wants g r root = (false, r) ∨
      wants g r root = (true, r) ∧ fileName language g root ∈ r.units := by
    rcases wants_cases g r root with ⟨f, hroot, hf, hmark⟩ | ⟨hno, hwant⟩
    · rw [hmark]
      exact Or.inl (Registry.markEmitted_of_isEmitted ((idle_root hroot hf).1 h))
    · exact Or.inr ⟨hwant, (idle_other hno).1 h⟩
  rw [units, if_pos hroot, unitsAlong, dif_pos hid]
  rcases hw with hw | ⟨hw, hclaimed⟩
  · split
    · next hw' =>
      rw [hw] at hw'
      cases hw'
      exact unitsAlong_nil
    · next hw' =>
      rw [hw] at hw'
      cases hw'
  · split
    · next hw' =>
      rw [hw] at hw'
      cases hw'
    · next hw' =>
      rw [hw] at hw'
      cases hw'
      rw [dif_pos (List.contains_iff_mem.2 hclaimed)]
      exact unitsAlong_nil

/-- A run that has begun leaves nothing to do for its root, even if it fails. -/
theorem idle_units (hroot : (g.object? root).isSome = true) :
    Idle language g (units style language g r root).2 root := by
  have hid : root < g.size ∧ (g.hasMembers root ∨ root = root) :=
    ⟨Graph.lt_of_object? hroot, Or.inr rfl⟩
  rw [units, if_pos hroot, unitsAlong, dif_pos hid]
  split
  · next r' hw =>
    rw [unitsAlong_nil]
    exact idle_wants hw (.refl r') fun h => by cases h
  · next r' hw =>
    split
    · next hclaimed =>
      rw [unitsAlong_nil]
      exact idle_wants hw (.refl r') fun _ => List.contains_iff_mem.1 hclaimed
    · -- the name is claimed here, and whatever follows keeps it
      have hgrows := Registry.grows_claim r' (fileName language g root)
      have hidle : ∀ {r''}, Registry.Grows { r' with
          units := r'.units ++ [fileName language g root] } r'' → Idle language g r'' root :=
        fun h => idle_wants hw (hgrows.trans h) fun _ => h.units.subset (by simp)
      split
      · exact hidle (.refl _)
      · next unit hunit =>
        have hrest := unitsAlong_tried style language g root
          { r' with units := r'.units ++ [fileName language g root] } (unit.discovered ++ [])
        dsimp only
        split
        · next heq =>
          rw [heq] at hrest
          exact hidle hrest.1
        · next heq =>
          rw [heq] at hrest
          exact hidle hrest.1

/-- Whoever asks again at once for what has been written gets nothing, and changes nothing. -/
theorem units_again (h : (units style language g r root).1 = .ok us) :
    units style language g (units style language g r root).2 root =
      (.ok [], (units style language g r root).2) :=
  units_idle (object?_of_units h) (idle_units (object?_of_units h))

/-- One use of a registry that several graphs may share. -/
inductive Use where
  | build (lib : Library) (call : Build.Call) (g : Graph)
  | write (style : Style) (language : Language) (g : Graph) (root : NodeId)

/-- What a use hands out. A run that fails hands out nothing. -/
def Use.run : Use → Registry → List CodeUnit × Registry
  | build lib call g, r => ([], (call.run lib ⟨r, g⟩).2.registry)
  | write style language g root, r =>
    match units style language g r root with
    | (.ok us, r') => (us, r')
    | (.error _, r') => ([], r')

/-- All that is handed out by one use after the other. -/
def runAll : List Use → Registry → List CodeUnit × Registry
  | [], r => ([], r)
  | use :: uses, r =>
    let (us, r) := use.run r
    let (more, r) := runAll uses r
    (us ++ more, r)

/-- What one use does: names and marks stay, and what it hands out has new names, which it claims,
each once. -/
theorem use_run (use : Use) (r : Registry) :
    let out := use.run r
    r.units <+: out.2.units ∧ (∀ f, r.isEmitted f = true → out.2.isEmitted f = true) ∧
    (out.1.map CodeUnit.fileName).Nodup ∧
    ∀ u ∈ out.1, u.fileName ∉ r.units ∧ u.fileName ∈ out.2.units := by
  cases use with
  | build lib call g =>
    have hstep := (Build.step_run lib call ⟨r, g⟩).extends'
    refine ⟨?_, ?_, List.nodup_nil, fun _ h => absurd h List.not_mem_nil⟩
    · exact (List.prefix_refl r.units).trans (hstep.units ▸ List.prefix_refl _)
    · exact fun f hf => (hstep.isEmitted f).trans hf
  | write style language g root =>
    obtain ⟨hgrows, hunits, hnodup, hfresh, hok⟩ := units_tried style language g r root
    rw [Use.run]
    generalize units style language g r root = out at hgrows hunits hok ⊢
    obtain ⟨e | us, r'⟩ := out
    · exact ⟨hgrows.units, hgrows.emitted, List.nodup_nil, fun _ h => absurd h List.not_mem_nil⟩
    · have hnames := fileNames_of_mapM (hok us rfl)
      refine ⟨hgrows.units, hgrows.emitted, hnames ▸ hnodup, fun u hu => ?_⟩
      have hname : u.fileName ∈ (tried style language g r root).map (fileName language g) :=
        hnames ▸ List.mem_map_of_mem hu
      obtain ⟨id, hid, heq⟩ := List.mem_map.1 hname
      exact ⟨heq ▸ (hfresh id hid).2, hunits ▸ List.mem_append_right _ hname⟩

/-- What all uses do together. -/
theorem runAll_claims (uses : List Use) (r : Registry) :
    let out := runAll uses r
    r.units <+: out.2.units ∧ (∀ f, r.isEmitted f = true → out.2.isEmitted f = true) ∧
    (out.1.map CodeUnit.fileName).Nodup ∧
    ∀ u ∈ out.1, u.fileName ∉ r.units ∧ u.fileName ∈ out.2.units := by
  induction uses generalizing r with
  | nil =>
    exact ⟨List.prefix_refl _, fun _ h => h, List.nodup_nil, fun _ h => absurd h List.not_mem_nil⟩
  | cons use uses ih =>
    obtain ⟨hunits, hemitted, hnodup, hclaims⟩ := use_run use r
    obtain ⟨hunits', hemitted', hnodup', hclaims'⟩ := ih (use.run r).2
    rw [runAll]
    refine ⟨hunits.trans hunits', fun f hf => hemitted' f (hemitted f hf), ?_, ?_⟩
    · -- what comes later is not among the names that this use has claimed
      rw [List.map_append]
      refine hnodup.append hnodup' fun name hname hlater => ?_
      obtain ⟨u, hu, rfl⟩ := List.mem_map.1 hname
      obtain ⟨v, hv, heq⟩ := List.mem_map.1 hlater
      exact (hclaims' v hv).1 (heq ▸ (hclaims u hu).2)
    · intro u hu
      rcases List.mem_append.1 hu with hu | hu
      · exact ⟨(hclaims u hu).1, hunits'.subset (hclaims u hu).2⟩
      · exact ⟨fun hmem => (hclaims' u hu).1 (hunits.subset hmem), (hclaims' u hu).2⟩

/-- Runs that share a registry. Each tries as many units as there are free names at most, claims the
name of each that it tries, and hands out the units of them all or fails; asked again at once after
it has worked, it hands out nothing and changes nothing. Over all runs, and all calls of builders
between them, the names of what is handed out are distinct, and claims and marks stay. -/
theorem units_once_over_uses :
    (∀ style language g r root,
      let ids := tried style language g r root
      let out := units style language g r root
      ids.length ≤ ((unclaimed language g r.units).map (fileName language g)).dedup.length ∧
      out.2.units = r.units ++ ids.map (fileName language g) ∧
      ∀ us, out.1 = .ok us →
        ids.mapM (unit? style language g) = .ok us ∧
        units style language g out.2 root = (.ok [], out.2)) ∧
    ∀ uses r,
      let out := runAll uses r
      (out.1.map CodeUnit.fileName).Nodup ∧
      (∀ u ∈ out.1, u.fileName ∉ r.units ∧ u.fileName ∈ out.2.units) ∧
      r.units <+: out.2.units ∧
      ∀ f, r.isEmitted f = true → out.2.isEmitted f = true := by
  refine ⟨fun style language g r root => ?_, fun uses r => ?_⟩
  · obtain ⟨-, hunits, -, -, hok⟩ := units_tried style language g r root
    exact ⟨length_tried_le style language g r root, hunits, fun us h => ⟨hok us h, units_again h⟩⟩
  · obtain ⟨hunits, hemitted, hnodup, hclaims⟩ := runAll_claims uses r
    exact ⟨hnodup, hclaims, hunits, hemitted⟩

end Generation

end SchemaForge
