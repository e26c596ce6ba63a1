import SchemaForge.Proofs.Generation.Sharing
/-!
What becomes of the names that runs claim and of the files that they mark. A name is claimed before
its unit is written and stays claimed when the run fails, which hands out nothing: it is lost, and
the next run for the same root has nothing left to do.
-/
namespace SchemaForge.Generation

variable {style : Style} {language : Language} {g : Graph} {root id : NodeId} {r r' : Registry}
  {pending : List NodeId} {us : List CodeUnit} {f : Path} {name : String} {uses : List Use}

/-- A run works if the units of all that it tries can be written, and fails as the first that
cannot. -/
theorem unitsAlong_outcome (style : Style) (language : Language) (g : Graph) (root : NodeId)
    (r : Registry) (pending : List NodeId) :
    (unitsAlong style language g root r pending).1 =
      ((triedAlong style language g root r pending).mapM (unit? style language g)).mapError
        Error.shape := by
  fun_induction unitsAlong style language g root r pending with
  | case1 => rw [triedAlong]; rfl
  | case2 r id pending hid r' hw ih => rw [triedAlong_unwanted hid hw, ih]
  | case3 r id pending hid r' hw hclaimed ih => rw [triedAlong_claimed hid hw hclaimed, ih]
  | case4 r id pending hid r' hw hfree r'' fault hunit =>
    rw [triedAlong_free hid hw hfree, hunit, List.mapM_cons, hunit]
    rfl
  | case5 r id pending hid r' hw hfree r'' unit hunit out r₁ hrest ih
  | case6 r id pending hid r' hw hfree r'' unit hunit out r₁ hrest ih =>
    rw [hrest] at ih
    rw [triedAlong_free hid hw hfree, hunit, mapError_mapM_cons hunit, ← ih]
    rfl
  | case7 r id pending hid ih => rw [triedAlong_skipped hid, ih]

/-- Whether a node is the root of a file. -/
def RootOf (g : Graph) (f : Path) (id : NodeId) : Prop :=
  g.isFileRoot id = true ∧ ∃ file, g.file? id = some file ∧ file.Same f

/-- A look at an object marks the file of which it is the root, and no other. -/
theorem emitted_wants {wanted : Bool} (hw : wants g r id = (wanted, r'))
    (hf : r'.isEmitted f = true) : r.isEmitted f = true ∨ wanted = true ∧ RootOf g f id := by
  rcases wants_cases g r id with ⟨file, hroot, hfile, hmark⟩ | ⟨-, hwant⟩
  · rw [hmark] at hw
    cases wanted with
    | false =>
      have : r' = r := by
        unfold Registry.markEmitted at hw
        split at hw
        · split at hw <;> cases hw
          rfl
        · cases hw
          rfl
      exact Or.inl (this ▸ hf)
    | true =>
      by_cases hsame : file.Same f
      · exact Or.inr ⟨rfl, hroot, file, hfile, hsame⟩
      · rw [(Registry.markEmitted_true hw).2.2 f hsame] at hf
        exact Or.inl hf
  · rw [hwant] at hw
    cases hw
    exact Or.inl hf

/-- The root of a file whose unit is wanted has its file marked. -/
theorem emitted_of_wanted (hw : wants g r id = (true, r')) (hid : RootOf g f id) :
    r'.isEmitted f = true := by
  obtain ⟨hroot, file, hfile, hsame⟩ := hid
  rcases wants_cases g r id with ⟨file', -, hfile', hmark⟩ | ⟨hno, -⟩
  · rw [hfile, Option.some.injEq] at hfile'
    subst hfile'
    rw [hmark] at hw
    have hmarked := Registry.isEmitted_of_mark hw
    rwa [Registry.isEmitted, Registry.entry?_congr r' hsame] at hmarked
  · exact absurd hfile (hno file hroot)

/-- The files that a run has marked are those of roots whose names are claimed when it ends. -/
theorem root_of_emitted (style : Style) (language : Language) (g : Graph) (root : NodeId)
    (r : Registry) (pending : List NodeId)
    (hf : (unitsAlong style language g root r pending).2.isEmitted f = true) :
    r.isEmitted f = true ∨ ∃ id, RootOf g f id ∧
      fileName language g id ∈ (unitsAlong style language g root r pending).2.units := by
  fun_induction unitsAlong style language g root r pending with
  | case1 => exact Or.inl hf
  | case2 r id pending hid r' hw ih =>
    refine (ih hf).imp_left fun hmarked => ?_
    exact (emitted_wants hw hmarked).elim (fun h => h) fun h => absurd h.1 Bool.false_ne_true
  | case3 r id pending hid r' hw hclaimed ih =>
    rcases ih hf with hmarked | hroot
    · refine (emitted_wants hw hmarked).imp_right fun h => ⟨id, h.2, ?_⟩
      exact (unitsAlong_tried style language g root r' pending).1.units.subset
        (List.contains_iff_mem.1 hclaimed)
    · exact Or.inr hroot
  | case4 r id pending hid r' hw hfree r'' fault hunit =>
    exact (emitted_wants hw hf).imp_right fun h => ⟨id, h.2, by simp [r'']⟩
  | case5 r id pending hid r' hw hfree r'' unit hunit out r₁ hrest ih
  | case6 r id pending hid r' hw hfree r'' unit hunit out r₁ hrest ih =>
    have hgrows := (unitsAlong_tried style language g root r'' (unit.discovered ++ pending)).1
    rw [hrest] at ih hgrows
    rcases ih hf with hmarked | hroot
    · refine (emitted_wants hw hmarked).imp_right fun h => ⟨id, h.2, ?_⟩
      exact hgrows.units.subset (by simp [r''])
    · exact Or.inr hroot
  | case7 r id pending hid ih => exact ih hf

/-- Whatever is tried has its file marked, if it is the root of one. -/
theorem emitted_of_tried (style : Style) (language : Language) (g : Graph) (root : NodeId)
    (r : Registry) (pending : List NodeId)
    (hid : id ∈ triedAlong style language g root r pending) (hf : RootOf g f id) :
    (unitsAlong style language g root r pending).2.isEmitted f = true := by
  fun_induction unitsAlong style language g root r pending with
  | case1 =>
    rw [triedAlong] at hid
    exact absurd hid List.not_mem_nil
  | case2 r next pending hnext r' hw ih =>
    rw [triedAlong_unwanted hnext hw] at hid
    exact ih hid
  | case3 r next pending hnext r' hw hclaimed ih =>
    rw [triedAlong_claimed hnext hw hclaimed] at hid
    exact ih hid
  | case4 r next pending hnext r' hw hfree r'' fault hunit =>
    rw [triedAlong_free hnext hw hfree, hunit] at hid
    rw [List.mem_singleton.1 hid] at hf
    have hmarked : r'.isEmitted f = true := emitted_of_wanted hw hf
    exact hmarked
  | case5 r next pending hnext r' hw hfree r'' unit hunit out r₁ hrest ih
  | case6 r next pending hnext r' hw hfree r'' unit hunit out r₁ hrest ih =>
    have hgrows := (unitsAlong_tried style language g root r'' (unit.discovered ++ pending)).1
    rw [triedAlong_free hnext hw hfree, hunit] at hid
    rw [hrest] at ih hgrows
    rcases List.mem_cons.1 hid with rfl | hid
    · have hmarked : r'.isEmitted f = true := emitted_of_wanted hw hf
      exact hgrows.emitted f hmarked
    · exact ih hid
  | case7 r next pending hnext ih =>
    rw [triedAlong_skipped hnext] at hid
    exact ih hid

theorem units_outcome (hroot : (g.object? root).isSome = true) :
    (units style language g r root).1 =
      ((tried style language g r root).mapM (unit? style language g)).mapError Error.shape := by
  rw [units, tried, if_pos hroot, if_pos hroot]
  exact unitsAlong_outcome style language g root r [root]

/-- A run that fails on the way has tried what cannot be written. -/
theorem tried_of_error {e : Error} (hroot : (g.object? root).isSome = true)
    (h : (units style language g r root).1 = .error e) : tried style language g r root ≠ [] := by
  intro hnil
  rw [units_outcome hroot, hnil] at h
  cases h

/-- Only for an object anything is tried. -/
theorem object?_of_tried (h : id ∈ tried style language g r root) :
    (g.object? root).isSome = true := by
  unfold tried at h
  split at h
  · assumption
  · exact absurd h List.not_mem_nil

/-- A run that has failed on the way hands out nothing when it is repeated, and no fault. -/
theorem units_again_error {e : Error} (h : (units style language g r root).1 = .error e) :
    units style language g (units style language g r root).2 root =
      if (g.object? root).isSome then (.ok [], (units style language g r root).2)
      else (.error e, (units style language g r root).2) := by
  split
  · next hroot => exact units_idle hroot (idle_units hroot)
  · next hroot =>
    rw [units, if_neg hroot] at h
    cases h
    rw [units, units, if_neg hroot]

/-- A use fails on the way, once it has claimed a name. -/
def Use.Breaks (r : Registry) : Use → Prop
  | .build .. => False
  | .write style language g root =>
    (g.object? root).isSome = true ∧ ∃ e, (units style language g r root).1 = .error e

/-- A use claims a name and fails, so that nothing of the name is handed out. -/
def Use.Loses (name : String) (r : Registry) : Use → Prop
  | .build .. => False
  | .write style language g root =>
    (∃ e, (units style language g r root).1 = .error e) ∧
      name ∈ (tried style language g r root).map (fileName language g)

/-- A use marks a file, and what comes of the unit of the root of that: it is handed out; it is
tried, but the use fails; or its name turns out to be claimed by another object. -/
def Use.Marks (f : Path) (r : Registry) : Use → Prop
  | .build .. => False
  | .write style language g root =>
    r.isEmitted f = false ∧ (units style language g r root).2.isEmitted f = true ∧
    ∃ id, RootOf g f id ∧
      ((∃ us, (units style language g r root).1 = .ok us ∧
          ∃ u ∈ us, unit? style language g id = .ok u) ∨
        ((∃ e, (units style language g r root).1 = .error e) ∧
          id ∈ tried style language g r root) ∨
        id ∉ tried style language g r root ∧
          fileName language g id ∈ (units style language g r root).2.units)

/-- One of the uses is as `P` says in the registry that it meets. -/
inductive Occurs (P : Registry → Use → Prop) : Registry → List Use → Prop
  | now {r : Registry} {use : Use} {uses : List Use} (h : P r use) : Occurs P r (use :: uses)
  | later {r : Registry} {use : Use} {uses : List Use} (h : Occurs P (use.run r).2 uses) :
    Occurs P r (use :: uses)

theorem not_occurs_nil {P : Registry → Use → Prop} : ¬ Occurs P r [] := by
  intro h
  cases h

theorem occurs_cons {P : Registry → Use → Prop} {use : Use} :
    Occurs P r (use :: uses) ↔ P r use ∨ Occurs P (use.run r).2 uses := by
  constructor
  · intro h
    cases h with
    | now h => exact Or.inl h
    | later h => exact Or.inr h
  · rintro (h | h)
    · exact .now h
    · exact .later h

section use

variable {use : Use}

/-- The names that a use claims are those of what it hands out, unless it loses them. -/
theorem claimed_of_use (use : Use) (r : Registry) (name : String) :
    name ∈ (use.run r).2.units ↔
      name ∈ r.units ∨ (∃ u ∈ (use.run r).1, u.fileName = name) ∨ use.Loses name r := by
  cases use with
  | build lib call g =>
    have hunits : ((Use.build lib call g).run r).2.units = r.units :=
      (Build.step_run lib call ⟨r, g⟩).extends'.units
    rw [hunits]
    simp [Use.run, Use.Loses]
  | write style language g root =>
    obtain ⟨-, hunits, -, -, hok⟩ := units_tried style language g r root
    rw [Use.run, Use.Loses]
    generalize units style language g r root = out at hunits hok ⊢
    obtain ⟨e | us, r'⟩ := out
    · have hunits : r'.units = r.units ++ _ := hunits
      simp [hunits]
    · have hunits : r'.units = r.units ++ _ := hunits
      rw [← fileNames_of_mapM (hok us rfl)] at hunits
      simp [hunits]

/-- A name that is lost was free, and is claimed from then on. -/
theorem free_of_loses (h : use.Loses name r) :
    name ∉ r.units ∧ (use.run r).1 = [] ∧ name ∈ (use.run r).2.units := by
  have hclaimed := (claimed_of_use use r name).2 (Or.inr (Or.inr h))
  cases use with
  | build lib call g => exact h.elim
  | write style language g root =>
    obtain ⟨⟨e, he⟩, hname⟩ := h
    obtain ⟨-, -, -, hfresh, -⟩ := units_tried style language g r root
    obtain ⟨id, hid, rfl⟩ := List.mem_map.1 hname
    refine ⟨(hfresh id hid).2, ?_, hclaimed⟩
    rw [Use.run]
    split
    · next heq =>
      rw [heq] at he
      cases he
    · rfl

/-- To fail on the way is to lose a name. -/
theorem breaks_iff : use.Breaks r ↔ ∃ name, use.Loses name r := by
  cases use with
  | build lib call g => simp [Use.Breaks, Use.Loses]
  | write style language g root =>
    constructor
    · rintro ⟨hroot, e, he⟩
      obtain ⟨id, hid⟩ := List.exists_mem_of_ne_nil _ (tried_of_error hroot he)
      exact ⟨_, ⟨e, he⟩, List.mem_map_of_mem hid⟩
    · rintro ⟨name, herror, hname⟩
      obtain ⟨id, hid, -⟩ := List.mem_map.1 hname
      exact ⟨object?_of_tried hid, herror⟩

/-- A file that a use leaves marked was marked before, or is marked by it. -/
theorem marked_of_use (h : (use.run r).2.isEmitted f = true) :
    r.isEmitted f = true ∨ use.Marks f r := by
  by_cases hbefore : r.isEmitted f = true
  · exact Or.inl hbefore
  · cases use with
    | build lib call g =>
      exact Or.inl (((Build.step_run lib call ⟨r, g⟩).extends'.isEmitted f).symm.trans h)
    | write style language g root =>
      have hwritten : (units style language g r root).2.isEmitted f = true := by
        rw [Use.run] at h
        split at h
        · next heq => rwa [heq]
        · next heq => rwa [heq]
      have hroot : (g.object? root).isSome = true := by
        by_contra hno
        rw [units, if_neg hno] at hwritten
        exact hbefore hwritten
      refine Or.inr ⟨eq_false_of_ne_true hbefore, hwritten, ?_⟩
      obtain ⟨id, hid, hname⟩ : ∃ id, RootOf g f id ∧
          fileName language g id ∈ (units style language g r root).2.units := by
        rw [units, if_pos hroot] at hwritten ⊢
        exact (root_of_emitted style language g root r [root] hwritten).resolve_left hbefore
      refine ⟨id, hid, ?_⟩
      by_cases htried : id ∈ tried style language g r root
      · rcases hout : (units style language g r root).1 with e | us
        · exact Or.inr (Or.inl ⟨⟨e, rfl⟩, htried⟩)
        · obtain ⟨-, -, -, -, hok⟩ := units_tried style language g r root
          exact Or.inl ⟨us, rfl, forall₂_left (forall₂_of_mapM (hok us hout)) htried⟩
      · exact Or.inr (Or.inr ⟨htried, hname⟩)

end use

theorem runAll_cons (use : Use) (uses : List Use) (r : Registry) :
    runAll (use :: uses) r =
      ((use.run r).1 ++ (runAll uses (use.run r).2).1, (runAll uses (use.run r).2).2) := rfl

/-- Over all uses, the names that are claimed are those of what is handed out, and those that are
lost. -/
theorem claimed_of_uses (uses : List Use) (r : Registry) (name : String) :
    name ∈ (runAll uses r).2.units ↔
      name ∈ r.units ∨ (∃ u ∈ (runAll uses r).1, u.fileName = name) ∨
        Occurs (Use.Loses name) r uses := by
  induction uses generalizing r with
  | nil => simp [runAll, not_occurs_nil]
  | cons use uses ih =>
    simp only [runAll_cons, List.mem_append, or_and_right, exists_or, occurs_cons, ih,
      claimed_of_use]
    exact Iff.of_eq (by ac_rfl)

/-- A name that is lost is that of nothing that is handed out, before or after. -/
theorem not_handed_of_lost (h : Occurs (Use.Loses name) r uses) :
    name ∉ r.units ∧ ∀ u ∈ (runAll uses r).1, u.fileName ≠ name := by
  induction h with
  | @now r use uses h =>
    obtain ⟨hfree, hnothing, hclaimed⟩ := free_of_loses h
    obtain ⟨-, -, -, hlater⟩ := runAll_claims uses (use.run r).2
    refine ⟨hfree, fun u hu heq => ?_⟩
    rw [runAll_cons, hnothing, List.nil_append] at hu
    exact (hlater u hu).1 (heq ▸ hclaimed)
  | @later r use uses _ ih =>
    obtain ⟨hfree, hlater⟩ := ih
    obtain ⟨hunits, -, -, hclaims⟩ := use_run use r
    refine ⟨fun hmem => hfree (hunits.subset hmem), fun u hu heq => ?_⟩
    rw [runAll_cons] at hu
    rcases List.mem_append.1 hu with hu | hu
    · exact hfree (heq ▸ (hclaims u hu).2)
    · exact hlater u hu heq

/-- Over all uses, files are marked by one of them. -/
theorem marked_of_uses (uses : List Use) (r : Registry)
    (h : (runAll uses r).2.isEmitted f = true) :
    r.isEmitted f = true ∨ Occurs (Use.Marks f) r uses := by
  induction uses generalizing r with
  | nil => exact Or.inl h
  | cons use uses ih =>
    rcases ih (use.run r).2 h with hmarked | hlater
    · exact (marked_of_use hmarked).imp_right .now
    · exact Or.inr (.later hlater)

theorem occurs_breaks_iff :
    Occurs Use.Breaks r uses ↔ ∃ name, Occurs (Use.Loses name) r uses := by
  constructor
  · intro h
    induction h with
    | now h => exact (breaks_iff.1 h).imp fun _ => .now
    | later _ ih => exact ih.imp fun _ => .later
  · rintro ⟨name, h⟩
    induction h with
    | now h => exact .now (breaks_iff.2 ⟨name, h⟩)
    | later _ ih => exact .later ih

/-- What a registry tells of the runs that have used it. Each name that is claimed is that of a unit
that was handed out, or else has been lost by a run that failed, never both; so all of them have
been handed out if and only if no run has failed on the way. Each file that is marked was marked by
a run that handed out the unit of its root, or that failed, or that found the name claimed. A run
that has failed fails again if it is repeated only if its root is no object: otherwise it has lost
the names that it had claimed, and the next one hands out nothing and tells of no fault. -/
theorem claims_accounted (uses : List Use) :
    (∀ name, name ∈ (runAll uses .empty).2.units ↔
      (∃ u ∈ (runAll uses .empty).1, u.fileName = name) ∨
        Occurs (Use.Loses name) .empty uses) ∧
    (∀ name, Occurs (Use.Loses name) .empty uses →
      ∀ u ∈ (runAll uses .empty).1, u.fileName ≠ name) ∧
    ((∀ name ∈ (runAll uses .empty).2.units, ∃ u ∈ (runAll uses .empty).1, u.fileName = name) ↔
      ¬ Occurs Use.Breaks .empty uses) ∧
    (∀ f, (runAll uses .empty).2.isEmitted f = true → Occurs (Use.Marks f) .empty uses) ∧
    ∀ style language g r root e, (units style language g r root).1 = .error e →
      units style language g (units style language g r root).2 root =
        if (g.object? root).isSome then (.ok [], (units style language g r root).2)
        else (.error e, (units style language g r root).2) := by
  have hclaimed : ∀ name, name ∈ (runAll uses .empty).2.units ↔
      (∃ u ∈ (runAll uses .empty).1, u.fileName = name) ∨
        Occurs (Use.Loses name) .empty uses := by
    intro name
    rw [claimed_of_uses]
    exact or_iff_right List.not_mem_nil
  refine ⟨hclaimed, fun name h => (not_handed_of_lost h).2, ?_, fun f h => ?_,
    fun style language g r root e h => units_again_error h⟩
  · rw [occurs_breaks_iff]
    constructor
    · rintro hall ⟨name, hlost⟩
      obtain ⟨u, hu, heq⟩ := hall name ((hclaimed name).2 (Or.inr hlost))
      exact (not_handed_of_lost hlost).2 u hu heq
    · intro hnone name hname
      exact ((hclaimed name).1 hname).resolve_right fun hlost => hnone ⟨name, hlost⟩
  · exact (marked_of_uses uses .empty h).resolve_left Bool.false_ne_true

/-- A file with an object whose member has no name in code. -/
def unnamed : FileMap where
  currentDir := ⟨"/"⟩
  files := [(⟨"/a.json"⟩, "\x7b\"$id\":\"bad\",\"title\":\"Bad\",\"type\":\"object\"," ++
    "\"properties\":\x7b\"-\":\x7b\"type\":\"string\"\x7d\x7d\x7d")]

def unnamedDocument : Document where
  members := [("$id", .string "bad"), ("title", .string "Bad"), ("type", .string "object"),
    ("properties", .object [("-", .object [("type", .string "string")])])]

theorem reads_unnamed : (unnamed.library []).Reads ⟨"/a.json"⟩ unnamedDocument :=
  ⟨_, rfl, by cbv⟩

theorem locate_unnamed : (unnamed.library []).locate none "file:///a.json" = .ok ⟨"/a.json"⟩ := rfl

theorem schema_unnamed : Schema.ofDocument unnamedDocument =
    .object "Bad" ⟨none, none⟩ ⟨some "bad", none, some "Bad", true, none⟩ []
      [("-", .leaf ⟨none, none⟩ (.string none none))] [] := by cbv

/-- The object of the file, and its member. -/
def unnamedGraph : Graph where
  nodes := #[
    ⟨⟨⟨none, none⟩, .object ⟨some "bad", none, some "Bad", true, none⟩ [⟨"-", 0, true, 1, none⟩]⟩,
      none, some ⟨"/a.json"⟩, true⟩,
    ⟨⟨⟨none, none⟩, .leaf (.string none none)⟩, some 0, some ⟨"/a.json"⟩, false⟩]

theorem load_unnamed : ∃ r, Build.load (unnamed.library []) "file:///a.json" .empty =
      (.ok 0, ⟨r, unnamedGraph⟩) ∧
    (∃ e, r.entries = [e] ∧ e.emitted = false ∧ e.file = ⟨"/a.json"⟩) ∧ r.units = [] := by
  obtain ⟨text, ht, hd⟩ := reads_unnamed
  have hr := Registry.resolve_new (r := .empty) locate_unnamed rfl ht hd
  have hout : Build.reference (unnamed.library []) [] none "file:///a.json" .empty = _ :=
    Build.reference_typed hr rfl rfl (by rw [schema_unnamed]; rfl)
  dsimp only at hout
  rw [schema_unnamed] at hout
  rw [Build.load_apply, hout]
  exact ⟨_, rfl, ⟨_, rfl, rfl, rfl⟩, rfl⟩

theorem unit?_unnamed (style : Style) :
    unit? style .go unnamedGraph 0 = .error (.unnamedMember "Bad" "-") := by
  have hclass : Go.Class.ofNode? unnamedGraph 0 = .error (.unnamedMember "Bad" "-") := by cbv
  rw [unit?, Go.unit?, hclass]
  rfl

theorem fileName_unnamed : fileName .go unnamedGraph 0 = "bad.go" := by cbv

/-- The unit of the file is never written, but its name is claimed, its file is marked, and the
second run, which hands out nothing, tells of no fault. -/
theorem nothing_after_fault :
    ∃ w, Build.load (unnamed.library []) "file:///a.json" .empty = (.ok 0, w) ∧
    let out := units ⟨.standard, ""⟩ .go w.graph w.registry 0
    out.1 = .error (.shape (.unnamedMember "Bad" "-")) ∧
    out.2.isEmitted ⟨"/a.json"⟩ = true ∧ out.2.units = ["bad.go"] ∧
    units ⟨.standard, ""⟩ .go w.graph out.2 0 = (.ok [], out.2) := by
  obtain ⟨r, hload, hfiles, hfree⟩ := load_unnamed
  refine ⟨_, hload, ?_⟩
  dsimp only
  have hroot : (unnamedGraph.object? 0).isSome = true := rfl
  have hfile : RootOf unnamedGraph ⟨"/a.json"⟩ 0 := ⟨rfl, _, rfl, rfl⟩
  obtain ⟨e, hentries, hemitted, hname⟩ := hfiles
  obtain ⟨r', hw⟩ : ∃ r', wants unnamedGraph r 0 = (true, r') := by
    have hentry : r.entry? ⟨"/a.json"⟩ = some e := by
      rw [Registry.entry?_eq, hentries]
      simp [Path.Same, hname]
    have hmark : wants unnamedGraph r 0 = r.markEmitted ⟨"/a.json"⟩ := rfl
    rw [hmark, Registry.markEmitted, hentry]
    simp [hemitted]
  have htried : triedAlong ⟨.standard, ""⟩ .go unnamedGraph 0 r [0] = [0] := by
    rw [triedAlong_free ⟨by decide, Or.inr rfl⟩ hw (by simp [units_of_wants hw, hfree]),
      unit?_unnamed]
  have hall : tried ⟨.standard, ""⟩ .go unnamedGraph r 0 = [0] := by
    rw [tried, if_pos hroot, htried]
  obtain ⟨-, hunits, -, -, -⟩ := units_tried ⟨.standard, ""⟩ .go unnamedGraph r 0
  refine ⟨?_, ?_, ?_, units_idle hroot (idle_units hroot)⟩
  · rw [units_outcome hroot, hall, List.mapM_cons, unit?_unnamed]
    rfl
  · rw [units, if_pos hroot]
    exact emitted_of_tried _ _ _ _ _ _ (by rw [htried]; exact List.mem_singleton_self 0) hfile
  · rw [hunits, hall, hfree, List.map_cons, fileName_unnamed]
    rfl

end SchemaForge.Generation
