import SchemaForge.Proofs.Arrays
/-! Linking: a walk below a node meets all that it leads to, and tells each child where it stands. -/
namespace SchemaForge

theorem Node.parent_adopt (n : Node) (parent : NodeId) (file : Option Path) :
    (n.adopt parent file).parent = n.parent.or (some parent) := by
  obtain ⟨property, _ | own, ownFile, fileRoot⟩ := n <;> cases file <;> cases ownFile <;>
    cases fileRoot <;> rfl

theorem Node.file_adopt (n : Node) (parent : NodeId) (file : Option Path) :
    (n.adopt parent file).file = n.file.or (if n.fileRoot then none else file) := by
  obtain ⟨property, _ | own, ownFile, fileRoot⟩ := n <;> cases file <;> cases ownFile <;>
    cases fileRoot <;> rfl

namespace Graph

variable {g g' g'' : Graph} {id c n : NodeId} {seen seen' seen'' : List NodeId} {file : Option Path}
  {limit : Nat}

/-- What nodes may learn where they stand: of the nodes that refer to them, or of nobody. -/
structure Learns (g g' : Graph) : Prop where
  extends' : g.Extends g'
  size : g'.size = g.size
  parent : ∀ {c q}, g'.parent? c = some q → g.parent? c = some q ∨ c ∈ g.children q
  file : ∀ {c f}, g'.file? c = some f →
    g.file? c = some f ∨ g.isFileRoot c = false ∧ ∃ q, c ∈ g.children q ∧ g'.file? q = some f

theorem Extends.property?_eq (h : g.Extends g') (hsize : g'.size = g.size) (id : NodeId) :
    g'.property? id = g.property? id := by
  by_cases hid : id < g.size
  · exact h.property hid
  · have hnone : ∀ {g : Graph}, ¬ id < g.size → g.property? id = none := by
      intro g hid
      rw [← node?_isSome_iff] at hid
      simp [property?, Option.not_isSome_iff_eq_none.1 hid]
    rw [hnone hid, hnone (hsize ▸ hid)]

theorem Extends.children (h : g.Extends g') (hsize : g'.size = g.size) (id : NodeId) :
    g'.children id = g.children id := by
  rw [Graph.children, h.property?_eq hsize, Graph.children]

theorem Extends.isFileRoot (h : g.Extends g') (hsize : g'.size = g.size) (id : NodeId) :
    g'.isFileRoot id = g.isFileRoot id := by
  by_cases hid : id < g.size
  · exact h.fileRoot hid
  · have hfalse : ∀ {g : Graph}, ¬ id < g.size → g.isFileRoot id = false :=
      fun hid => eq_false_of_ne_true fun hroot => hid (lt_of_isFileRoot hroot)
    rw [hfalse hid, hfalse (hsize ▸ hid)]

theorem Learns.refl (g : Graph) : g.Learns g := ⟨.refl g, rfl, Or.inl, Or.inl⟩

theorem Learns.children (h : g.Learns g') (id : NodeId) : g'.children id = g.children id :=
  h.extends'.children h.size id

theorem Learns.trans (h : g.Learns g') (h' : g'.Learns g'') : g.Learns g'' := by
  refine ⟨h.extends'.trans h'.extends', h'.size.trans h.size, ?_, ?_⟩
  · intro c q hq
    rcases h'.parent hq with hq | hq
    · exact h.parent hq
    · rw [h.children] at hq
      exact Or.inr hq
  · intro c f hf
    rcases h'.file hf with hf | ⟨hroot, q, hq, hfq⟩
    · rcases h.file hf with hf | ⟨hroot, q, hq, hfq⟩
      · exact Or.inl hf
      · exact Or.inr ⟨hroot, q, hq, h'.extends'.file hfq⟩
    · rw [h.extends'.isFileRoot h.size] at hroot
      rw [h.children] at hq
      exact Or.inr ⟨hroot, q, hq, hfq⟩

/-- A child learns of the node that refers to it. -/
theorem learns_adopt (hc : c ∈ g.children id) (hfile : ∀ f, file = some f → g.file? id = some f) :
    g.Learns (g.modify c (·.adopt id file)) := by
  refine ⟨extends_modify g c (tells_adopt id file), size_modify .., ?_, ?_⟩
  · intro child q hq
    rw [parent?, node?_modify] at hq
    split at hq
    · next heq =>
      subst heq
      obtain ⟨n', hn', hq⟩ := Option.bind_eq_some_iff.1 hq
      obtain ⟨n, hn, rfl⟩ := Option.map_eq_some_iff.1 hn'
      rw [Node.parent_adopt] at hq
      cases hown : n.parent with
      | some own =>
        rw [hown] at hq
        exact Or.inl (by rw [parent?, hn]; exact hown.trans hq)
      | none =>
        rw [hown] at hq
        cases hq
        exact Or.inr hc
    · exact Or.inl hq
  · intro child f hf
    have hkept : g.file? id = some f → (g.modify c (·.adopt id file)).file? id = some f :=
      (extends_modify g c (tells_adopt id file)).file
    rw [file?, node?_modify] at hf
    split at hf
    · next heq =>
      subst heq
      obtain ⟨n', hn', hf⟩ := Option.bind_eq_some_iff.1 hf
      obtain ⟨n, hn, rfl⟩ := Option.map_eq_some_iff.1 hn'
      rw [Node.file_adopt] at hf
      cases hown : n.file with
      | some own =>
        rw [hown] at hf
        exact Or.inl (by rw [file?, hn]; exact hown.trans hf)
      | none =>
        rw [hown, Option.none_or] at hf
        split at hf
        · cases hf
        · next hroot =>
          refine Or.inr ⟨?_, id, hc, hkept (hfile f hf)⟩
          rw [isFileRoot_eq, hn]
          exact eq_false_of_ne_true hroot
    · exact Or.inl hf

/-- Whether a child knows where it stands. -/
def Told (g : Graph) (id c : NodeId) : Prop :=
  (g.file? c).isSome = true ∧ (c ≠ id → (g.parent? c).isSome = true)

theorem Told.mono (h : g.Told id c) (hg : g.Extends g') : g'.Told id c := by
  obtain ⟨hfile, hparent⟩ := h
  obtain ⟨f, hf⟩ := Option.isSome_iff_exists.1 hfile
  refine ⟨Option.isSome_of_eq_some (hg.file hf), fun hne => ?_⟩
  obtain ⟨q, hq⟩ := Option.isSome_iff_exists.1 (hparent hne)
  exact Option.isSome_of_eq_some (hg.parent hq)

/-- A graph that a walk may start in: references lead to nodes, and the roots of files know their
files. -/
structure Passable (g : Graph) : Prop where
  child_lt : ∀ {id c}, c ∈ g.children id → c < g.size
  file : ∀ {id}, g.isFileRoot id = true → (g.file? id).isSome = true

theorem Passable.mono (h : g.Passable) (hg : g.Learns g') : g'.Passable := by
  refine ⟨?_, ?_⟩
  · intro id c hc
    rw [hg.children] at hc
    exact hg.size ▸ h.child_lt hc
  · intro id hid
    rw [hg.extends'.isFileRoot hg.size] at hid
    obtain ⟨f, hf⟩ := Option.isSome_iff_exists.1 (h.file hid)
    exact Option.isSome_of_eq_some (hg.extends'.file hf)

/-- A child has a parent once a node that refers to it has told it. -/
theorem parent?_adopt (hg : g.Passable) (hc : c ∈ g.children id) (file : Option Path) :
    ((g.modify c (·.adopt id file)).parent? c).isSome = true := by
  obtain ⟨n, hn⟩ := Option.isSome_iff_exists.1 (node?_isSome_iff.2 (hg.child_lt hc))
  rw [parent?, node?_modify, if_pos rfl, hn, Option.map_some, Option.bind_some, Node.parent_adopt]
  cases n.parent <;> rfl

/-- What a node has learnt once a node that refers to it has told it. -/
theorem told_adopt (hg : g.Passable) (hc : c ∈ g.children id) (hfile : file.isSome = true) :
    (g.modify c (·.adopt id file)).Told id c := by
  obtain ⟨n, hn⟩ := Option.isSome_iff_exists.1 (node?_isSome_iff.2 (hg.child_lt hc))
  have hroot : g.isFileRoot c = true → (g.file? c).isSome = true := hg.file
  rw [isFileRoot_eq, hn, file?, hn] at hroot
  refine ⟨?_, fun _ => parent?_adopt hg hc file⟩
  rw [file?, node?_modify, if_pos rfl, hn, Option.map_some, Option.bind_some, Node.file_adopt]
  cases hown : n.file with
  | some own => rfl
  | none =>
    rw [Option.none_or]
    split
    · next h => simpa [hown] using hroot h
    · exact hfile

/-- What a walk tells children, once it has met a node of which it knows what it has to. -/
structure Telling (known : Option Path → Prop) (told : Graph → NodeId → NodeId → Prop) : Prop where
  mono : ∀ {g g' id c}, told g id c → Extends g g' → told g' id c
  passes : ∀ {g : Graph} {id c : NodeId}, told g id c → known (g.file? c)
  self : ∀ {g : Graph} {id : NodeId} {file}, (∀ f, file = some f → g.file? id = some f) →
    known file → told g id id
  adopt : ∀ {g : Graph} {id c : NodeId} {file}, g.Passable → c ∈ g.children id → known file →
    told (g.modify c (·.adopt id file)) id c

/-- Who belongs to a file tells its children all that there is to know. -/
theorem telling_told : Telling (·.isSome = true) Told where
  mono := Told.mono
  passes h := h.1
  self hfile hsome := by
    obtain ⟨f, hf⟩ := Option.isSome_iff_exists.1 hsome
    exact ⟨Option.isSome_of_eq_some (hfile f hf), fun hne => absurd rfl hne⟩
  adopt := told_adopt

/-- Even without a file a child learns who refers to it. -/
theorem telling_parents :
    Telling (fun _ => True) fun g id c => c ≠ id → (g.parent? c).isSome = true where
  mono h hg hne := by
    obtain ⟨q, hq⟩ := Option.isSome_iff_exists.1 (h hne)
    exact Option.isSome_of_eq_some (hg.parent hq)
  passes _ := trivial
  self _ _ hne := absurd rfl hne
  adopt hg hc _ _ := parent?_adopt hg hc _

/-- What a walk does: the nodes that it meets lead to no others, and their children are told. -/
structure Walked (told : Graph → NodeId → NodeId → Prop) (walk walk' : Graph × List NodeId) :
    Prop where
  learns : walk.1.Learns walk'.1
  seen : walk.2 ⊆ walk'.2
  closed : ∀ n ∈ walk'.2, n ∉ walk.2 → ∀ c ∈ walk.1.children n, c ∈ walk'.2 ∧ told walk'.1 n c

variable {walk walk' walk'' : Graph × List NodeId} {known : Option Path → Prop}
  {told : Graph → NodeId → NodeId → Prop}

theorem Walked.refl (walk : Graph × List NodeId) : Walked told walk walk :=
  ⟨.refl _, fun _ h => h, fun _ h hn => absurd h hn⟩

theorem Walked.trans (ht : Telling known told) (h : Walked told walk walk')
    (h' : Walked told walk' walk'') : Walked told walk walk'' := by
  refine ⟨h.learns.trans h'.learns, fun _ hn => h'.seen (h.seen hn), ?_⟩
  intro n hn hnew c hc
  by_cases hmid : n ∈ walk'.2
  · obtain ⟨hseen, htold⟩ := h.closed n hmid hnew c hc
    exact ⟨h'.seen hseen, ht.mono htold h'.learns.extends'⟩
  · rw [← h.learns.children] at hc
    exact h'.closed n hn hmid c hc

theorem length_unseen_le_size (g : Graph) (seen : List NodeId) :
    (g.unseen seen).length ≤ g.size :=
  Nat.le_trans (List.length_filter_le ..) (Nat.le_of_eq List.length_range)

/-- Who has met more has less to meet. -/
theorem length_unseen_le (h : seen ⊆ seen') (hsize : g'.size = g.size) :
    (g'.unseen seen').length ≤ (g.unseen seen).length := by
  unfold unseen
  rw [hsize, ← List.countP_eq_length_filter, ← List.countP_eq_length_filter]
  apply List.countP_mono_left
  intro n _ hn
  simp only [Bool.not_eq_eq_eq_not, Bool.not_true, List.contains_eq_mem, decide_eq_false_iff_not]
    at hn ⊢
  exact fun hmem => hn (h hmem)

/-- Tells a child where it stands and walks on through it. -/
def linkChild (limit : Nat) (id : NodeId) (file : Option Path) (walk : Graph × List NodeId)
    (c : NodeId) : Graph × List NodeId :=
  linkWithin limit c (if c = id then walk.1 else walk.1.modify c (·.adopt id file), walk.2)

theorem linkWithin_succ (limit : Nat) (id : NodeId) (g : Graph) (seen : List NodeId) :
    linkWithin (limit + 1) id (g, seen) =
      if seen.contains id then (g, seen)
      else (g.children id).foldl (linkChild limit id (g.file? id)) (g, id :: seen) := by
  rw [linkWithin]
  rfl

section telling

variable (ht : Telling known told)

include ht

/-- A walk through one child after the other. -/
theorem foldl_linkChild {children : List NodeId} (hg : walk.1.Passable)
    (hwalk : ∀ {walk : Graph × List NodeId} {c}, walk.1.Passable → seen ⊆ walk.2 →
      walk.1.size = g.size → c < walk.1.size → known (walk.1.file? c) →
      Walked told walk (linkWithin limit c walk) ∧ c ∈ (linkWithin limit c walk).2)
    (hseen : seen ⊆ walk.2) (hsize : walk.1.size = g.size)
    (hchildren : ∀ c ∈ children, c ∈ walk.1.children id)
    (hfile : ∀ f, file = some f → walk.1.file? id = some f) (hknown : known file) :
    let walk' := children.foldl (linkChild limit id file) walk
    Walked told walk walk' ∧ ∀ c ∈ children, c ∈ walk'.2 ∧ told walk'.1 id c := by
  induction children generalizing walk with
  | nil => exact ⟨.refl walk, fun c hc => absurd hc List.not_mem_nil⟩
  | cons c children ih =>
    obtain ⟨hc, hchildren⟩ := List.forall_mem_cons.1 hchildren
    let g₁ : Graph := if c = id then walk.1 else walk.1.modify c (·.adopt id file)
    have hlearns : walk.1.Learns g₁ := by
      unfold g₁
      split
      · exact .refl _
      · exact learns_adopt hc hfile
    have htold : told g₁ id c := by
      unfold g₁
      split
      · next heq =>
        subst heq
        exact ht.self hfile hknown
      · exact ht.adopt hg hc hknown
    have hstart : Walked told walk (g₁, walk.2) :=
      ⟨hlearns, fun _ h => h, fun _ h hn => absurd h hn⟩
    have hlt : c < g₁.size := hlearns.size ▸ hg.child_lt hc
    obtain ⟨hchild, hmet⟩ := @hwalk (g₁, walk.2) c (hg.mono hlearns) hseen
      (hlearns.size.trans hsize) hlt (ht.passes htold)
    have hdone : Walked told walk (linkChild limit id file walk c) := hstart.trans ht hchild
    obtain ⟨hrest, htoldRest⟩ := ih (hg.mono hdone.learns) (fun _ h => hdone.seen (hseen h))
      (hdone.learns.size.trans hsize)
      (fun c hc => (hdone.learns.children id).symm ▸ hchildren c hc)
      (fun f hf => hdone.learns.extends'.file (hfile f hf))
    refine ⟨hdone.trans ht hrest, ?_⟩
    intro c' hc'
    rcases List.mem_cons.1 hc' with rfl | hc'
    · exact ⟨hrest.seen hmet,
        ht.mono (ht.mono htold hchild.learns.extends') hrest.learns.extends'⟩
    · exact htoldRest c' hc'

theorem linkWithin_walked (hg : walk.1.Passable) (hlimit : (walk.1.unseen walk.2).length < limit)
    (hid : id < walk.1.size) (hknown : known (walk.1.file? id)) :
    Walked told walk (linkWithin limit id walk) ∧ id ∈ (linkWithin limit id walk).2 := by
  induction limit generalizing walk id with
  | zero => exact absurd hlimit (Nat.not_lt_zero _)
  | succ limit ih =>
    obtain ⟨g, seen⟩ := walk
    rw [linkWithin_succ]
    split
    · next hseen => exact ⟨.refl _, List.contains_iff_mem.1 hseen⟩
    · next hnew =>
      have hroom : (g.unseen (id :: seen)).length < limit :=
        Nat.lt_of_lt_of_le (length_unseen_cons hid (eq_false_of_ne_true hnew))
          (Nat.le_of_lt_succ hlimit)
      have hstart : ((g, id :: seen) : Graph × List NodeId).1.Passable := hg
      obtain ⟨hwalked, htold⟩ := foldl_linkChild (g := g) ht hstart
        (fun {walk c} hg hseen hsize hc hknown => ih hg
          (Nat.lt_of_le_of_lt (length_unseen_le hseen hsize) hroom) hc hknown)
        (fun _ h => h) rfl (fun c hc => hc) (fun f hf => hf) hknown
      refine ⟨⟨hwalked.learns, fun n hn => hwalked.seen (List.mem_cons_of_mem _ hn), ?_⟩,
        hwalked.seen List.mem_cons_self⟩
      intro n hn hnew' c hc
      by_cases heq : n = id
      · subst heq
        exact htold c hc
      · exact hwalked.closed n hn (by simp [heq, hnew']) c hc

end telling

section link

variable {root : NodeId} (hg : g.Passable) (hroot : root < g.size)

include hg hroot

theorem link_walked (ht : Telling known told) (hknown : known (g.file? root)) :
    Walked told (g, []) (linkWithin (g.size + 1) root (g, [])) ∧
      root ∈ (linkWithin (g.size + 1) root (g, [])).2 :=
  linkWithin_walked ht hg (Nat.lt_succ_of_le (length_unseen_le_size g [])) hroot hknown

/-- Linking a root tells all that it leads to what it knows. -/
theorem telling_link (ht : Telling known told) (hknown : known (g.file? root))
    (hn : g.Reaches root n) (hc : c ∈ g.children n) : told (g.link root) n c := by
  obtain ⟨hwalked, hmet⟩ := link_walked hg hroot ht hknown
  have hseen : n ∈ (linkWithin (g.size + 1) root (g, [])).2 := by
    clear hc
    induction hn with
    | refl => exact hmet
    | tail _ hchild ih => exact (hwalked.closed _ ih List.not_mem_nil _ hchild).1
  exact (hwalked.closed n hseen List.not_mem_nil c hc).2

theorem told_link (hfile : (g.file? root).isSome = true) (hn : g.Reaches root n)
    (hc : c ∈ g.children n) : (g.link root).Told n c :=
  telling_link hg hroot telling_told hfile hn hc

theorem learns_link : g.Learns (g.link root) :=
  (link_walked hg hroot telling_parents trivial).1.learns

end link

/-- A child that is told again learns nothing. -/
theorem modify_adopt_of_told (h : g.Told id c) (hne : c ≠ id) (file : Option Path) :
    g.modify c (·.adopt id file) = g := by
  obtain ⟨hfile, hparent⟩ := h
  have hkept : ∀ n, g.node? c = some n → n.adopt id file = n := by
    intro n hn
    rw [file?, hn, Option.bind_some] at hfile
    have hparent := hparent hne
    rw [parent?, hn, Option.bind_some] at hparent
    cases file <;> simp [Node.adopt, Node.withParent, Node.withFile, hparent, hfile]
  have hnodes : (g.modify c (·.adopt id file)).nodes = g.nodes := by
    refine Array.ext_getElem? fun n => ?_
    change (g.modify c (·.adopt id file)).node? n = g.node? n
    rw [node?_modify]
    split
    · next heq =>
      subst heq
      cases hn : g.node? c with
      | none => rfl
      | some own => rw [Option.map_some, hkept own hn]
    · rfl
  calc g.modify c (·.adopt id file) = ⟨(g.modify c (·.adopt id file)).nodes⟩ := rfl
    _ = g := by rw [hnodes]

theorem foldl_linkChild_of_told {children : List NodeId}
    (htold : ∀ c ∈ children, g.Told id c)
    (hwalk : ∀ c ∈ children, ∀ seen, (linkWithin limit c (g, seen)).1 = g) (seen : List NodeId) :
    (children.foldl (linkChild limit id file) (g, seen)).1 = g := by
  induction children generalizing seen with
  | nil => rfl
  | cons c children ih =>
    obtain ⟨htold, hrest⟩ := List.forall_mem_cons.1 htold
    obtain ⟨hwalk, hwalkRest⟩ := List.forall_mem_cons.1 hwalk
    have hsame : (if c = id then g else g.modify c (·.adopt id file)) = g := by
      split
      · rfl
      · next hne => exact modify_adopt_of_told htold hne file
    have hchild : (linkChild limit id file (g, seen) c).1 = g := by
      rw [linkChild, hsame]
      exact hwalk seen
    rw [List.foldl_cons]
    generalize linkChild limit id file (g, seen) c = walk at hchild ⊢
    obtain ⟨g', seen'⟩ := walk
    cases hchild
    exact ih hrest hwalkRest seen'

/-- Linking changes nothing once all that it would tell is known. -/
theorem link_of_told {root : NodeId}
    (h : ∀ {n c}, g.Reaches root n → c ∈ g.children n → g.Told n c) : g.link root = g := by
  have hwalk : ∀ limit n seen, g.Reaches root n → (linkWithin limit n (g, seen)).1 = g := by
    intro limit
    induction limit with
    | zero => exact fun _ _ _ => rfl
    | succ limit ih =>
      intro n seen hn
      rw [linkWithin_succ]
      split
      · rfl
      · exact foldl_linkChild_of_told (fun c hc => h hn hc)
          (fun c hc seen => ih c seen (hn.tail hc)) _
  exact hwalk (g.size + 1) root [] .refl

/-- Two walks that have the same graph before them and have met the same of its nodes. -/
def Abreast (walk walk' : Graph × List NodeId) : Prop :=
  walk.1 = walk'.1 ∧ ∀ n < walk.1.size, n ∈ walk.2 ↔ n ∈ walk'.2

/-- What has been met stays met. -/
theorem linkWithin_seen (limit : Nat) (id : NodeId) (walk : Graph × List NodeId) :
    walk.2 ⊆ (linkWithin limit id walk).2 := by
  induction limit generalizing id walk with
  | zero => exact fun _ h => h
  | succ limit ih =>
    obtain ⟨g, seen⟩ := walk
    have hfold : ∀ (children : List NodeId) (file : Option Path) (walk : Graph × List NodeId),
        walk.2 ⊆ (children.foldl (linkChild limit id file) walk).2 := by
      intro children file
      induction children with
      | nil => exact fun walk _ h => h
      | cons c children ihc => exact fun walk n hn => ihc _ (ih c _ hn)
    rw [linkWithin_succ]
    split
    · exact fun _ h => h
    · exact fun n hn => hfold _ _ _ (List.mem_cons_of_mem _ hn)

theorem size_told (g : Graph) (id c : NodeId) (file : Option Path) :
    (if c = id then g else g.modify c (·.adopt id file)).size = g.size := by
  split
  · rfl
  · exact size_modify ..

/-- A child leaves no more to meet than it finds. -/
theorem length_unseen_linkChild (limit : Nat) (id : NodeId) (file : Option Path)
    (walk : Graph × List NodeId) (c : NodeId) :
    ((linkChild limit id file walk c).1.unseen (linkChild limit id file walk c).2).length ≤
      (walk.1.unseen walk.2).length := by
  obtain ⟨g, seen⟩ := walk
  have hseen := linkWithin_seen limit c
    (if c = id then g else g.modify c (·.adopt id file), seen)
  exact length_unseen_le hseen ((linkWithin_told ..).2.trans (size_told g id c file))

variable {limit' room : Nat}

/-- Through one child after the other, walks stay abreast that stay so through each. -/
theorem foldl_abreast {children : List NodeId} (h : Abreast walk walk')
    (hwalk : ∀ {walk walk' : Graph × List NodeId} {c}, Abreast walk walk' →
      (walk.1.unseen walk.2).length ≤ room →
        Abreast (linkWithin limit c walk) (linkWithin limit' c walk'))
    (hroom : (walk.1.unseen walk.2).length ≤ room) :
    Abreast (children.foldl (linkChild limit id file) walk)
      (children.foldl (linkChild limit' id file) walk') := by
  induction children generalizing walk walk' with
  | nil => exact h
  | cons c children ih =>
    refine ih ?_ (Nat.le_trans (length_unseen_linkChild ..) hroom)
    obtain ⟨g, seen⟩ := walk
    obtain ⟨g', seen'⟩ := walk'
    obtain ⟨rfl, hseen⟩ := h
    have hsize := size_told g id c file
    refine hwalk ⟨rfl, fun n hn => hseen n (hsize ▸ hn)⟩ ?_
    exact Nat.le_trans (length_unseen_le (fun _ hn => hn) hsize) hroom

/-- With more references to go than nodes to meet, the limit never ends a walk. -/
theorem linkWithin_abreast (h : Abreast walk walk')
    (hlimit : (walk.1.unseen walk.2).length < limit)
    (hlimit' : (walk.1.unseen walk.2).length < limit') :
    Abreast (linkWithin limit id walk) (linkWithin limit' id walk') := by
  induction limit generalizing limit' walk walk' id with
  | zero => exact absurd hlimit (Nat.not_lt_zero _)
  | succ limit ih =>
    obtain _ | limit' := limit'
    · exact absurd hlimit' (Nat.not_lt_zero _)
    obtain ⟨g, seen⟩ := walk
    obtain ⟨g', seen'⟩ := walk'
    obtain ⟨rfl, hseen⟩ := h
    have hcons : Abreast (g, id :: seen) (g, id :: seen') :=
      ⟨rfl, fun n hn => by simp only [List.mem_cons, hseen n hn]⟩
    rw [linkWithin_succ, linkWithin_succ]
    by_cases hid : id < g.size
    · have hmet : seen.contains id = seen'.contains id := by
        simp only [List.contains_eq_mem, hseen id hid]
      rw [← hmet]
      split
      · exact ⟨rfl, hseen⟩
      · next hnew =>
        have hlt := length_unseen_cons hid (eq_false_of_ne_true hnew)
        refine foldl_abreast hcons (fun h hroom => ih h ?_ ?_) (Nat.le_refl _)
        · exact Nat.lt_of_le_of_lt hroom (Nat.lt_of_lt_of_le hlt (Nat.le_of_lt_succ hlimit))
        · exact Nat.lt_of_le_of_lt hroom (Nat.lt_of_lt_of_le hlt (Nat.le_of_lt_succ hlimit'))
    · -- no node, no children
      have hnone : g.children id = [] := by
        have hproperty : g.property? id = none := by
          cases hp : g.property? id with
          | none => rfl
          | some p => exact absurd (lt_of_property? hp) hid
        rw [children, hproperty]
      have hother : ∀ n < g.size, n ≠ id := fun n hn heq => hid (heq ▸ hn)
      rw [hnone]
      refine ⟨by split <;> split <;> rfl, fun n hn => ?_⟩
      have hn : n < g.size := by split at hn <;> exact hn
      split <;> split <;> simp [hother n hn, hseen n hn]

/-- Linking ends by itself: it would do the same if it might go deeper. -/
theorem link_eq (hlimit : g.size < limit) : (linkWithin limit id (g, [])).1 = g.link id := by
  have hall := length_unseen_le_size g []
  have hstart : Abreast (g, []) (g, []) := ⟨rfl, fun _ _ => Iff.rfl⟩
  exact (linkWithin_abreast hstart (Nat.lt_of_le_of_lt hall hlimit)
    (Nat.lt_succ_of_le hall)).1

end Graph

end SchemaForge
