import Mathlib
import SchemaForge.Proofs.Building.Attribution
import SchemaForge.Proofs.Building.Faithful
import SchemaForge.Proofs.Generation.Agreement
/-! The order in which files are loaded does not show in what is written for them. -/
namespace SchemaForge.Generation

open Build

variable {lib : Library} {w w' : Workspace} {f : Path} {id id' : NodeId}

/-- What rows have in common whose items do, one by one. -/
theorem exists_common {α β γ : Type} {R : α → γ → Prop} {R' : β → γ → Prop} {xs : List α}
    {ys : List β} (h : List.Forall₂ (fun x y => ∃ z, R x z ∧ R' y z) xs ys) :
    ∃ zs, List.Forall₂ R xs zs ∧ List.Forall₂ R' ys zs := by
  induction h with
  | nil => exact ⟨[], .nil, .nil⟩
  | cons hxy _ ih =>
    obtain ⟨z, hx, hy⟩ := hxy
    obtain ⟨zs, hxs, hys⟩ := ih
    exact ⟨z :: zs, .cons hx hxs, .cons hy hys⟩

/-- A path that leads to nodes in two workspaces leads to the same place, however it is written. -/
theorem twin_of_node? (hl : lib.Regular) (h : Complete lib w) (h' : Complete lib w')
    (hn : w.registry.node? f = some id) (hn' : w'.registry.node? f = some id') :
    w.graph.Twin w'.graph id id' := by
  obtain ⟨e, he, -⟩ := Option.bind_eq_some_iff.1 hn
  obtain ⟨e', he', -⟩ := Option.bind_eq_some_iff.1 hn'
  have hsame := Registry.same_of_entry?_eq he
  have hsame' := Registry.same_of_entry?_eq he'
  obtain ⟨hserves, -⟩ := h.sound.entry e (Registry.mem_of_entry?_eq he)
  obtain ⟨hserves', -⟩ := h'.sound.entry e' (Registry.mem_of_entry?_eq he')
  have hfile := hl.eq_of_same hserves hserves' (hsame.trans hsame'.symm)
  rw [← Registry.node?_congr _ hsame] at hn
  rw [← Registry.node?_congr _ hsame', ← hfile] at hn'
  exact h.twin h' hserves hn hn'

/-- Two rows of loads that all work leave the same schemas behind, in whatever order the files came:
a file that has nodes after both has the same document, a walk from it meets the same places in the
same order, and for each object that it leads to the same is written, or the same error is given. -/
theorem written_of_loads (m : FileMap) (includeDirs : List Path) (targets targets' : List String)
    (ids ids' : List NodeId) (w w' : Workspace)
    (hloads : (targets.mapM (load (m.library includeDirs)) : Build (List NodeId)) .empty =
      (.ok ids, w))
    (hloads' : (targets'.mapM (load (m.library includeDirs)) : Build (List NodeId)) .empty =
      (.ok ids', w'))
    (f : Path) (id id' : NodeId) (hn : w.registry.node? f = some id)
    (hn' : w'.registry.node? f = some id') :
    w.graph.document id = w'.graph.document id' ∧
    (∃ places : List (Path × List Nat),
      List.Forall₂ (fun n place => w.graph.Stands place.1 place.2 n) (w.graph.objects id) places ∧
      List.Forall₂ (fun n place => w'.graph.Stands place.1 place.2 n) (w'.graph.objects id')
        places) ∧
    ∀ n, w.graph.Reaches id n → (w.graph.object? n).isSome = true →
      ∃ n' file steps, w'.graph.Reaches id' n' ∧ w.graph.Stands file steps n ∧
        w'.graph.Stands file steps n' ∧ ∀ (style : Style) (language : Language),
          style.settings.provenance = false →
            written style language w.graph n = written style language w'.graph n' := by
  have hl := m.regular_library includeDirs
  have h := complete_loads hl (complete_empty _) hloads
  have h' := complete_loads hl (complete_empty _) hloads'
  have hagree := h.agree h'
  have htwin := twin_of_node? hl h h' hn hn'
  refine ⟨hagree.document_eq htwin, ?_, ?_⟩
  · apply exists_common
    refine (hagree.objects htwin).imp fun a b hab => ?_
    obtain ⟨file, steps, ha, hb⟩ := hab
    exact ⟨(file, steps), ha, hb⟩
  · intro n hreach hobject
    obtain ⟨n', hreach', hnn'⟩ := hagree.reaches htwin hreach
    obtain ⟨file, steps, hstands, hstands'⟩ := hnn'
    refine ⟨n', file, steps, hreach', hstands, hstands', fun style language hstyle => ?_⟩
    exact written_eq hagree ⟨file, steps, hstands, hstands'⟩ hobject hstyle

theorem loads_house : ∃ w,
    (["file:///house"].mapM (load houseLibrary) : Build (List NodeId)) .empty = (.ok [0], w) ∧
    w.registry.node? ⟨"/owner"⟩ = some 1 ∧ (w.graph.object? 1).isSome = true := by
  obtain ⟨w, hload, hnode, hobject, -⟩ := load_house
  refine ⟨w, ?_, hnode, hobject⟩
  simp only [List.mapM_cons, List.mapM_nil, bind_apply, hload]
  rfl

theorem loads_owner_first : ∃ w,
    (["file:///owner", "file:///house"].mapM (load houseLibrary) : Build (List NodeId)) .empty =
      (.ok [0, 2], w) ∧
    w.registry.node? ⟨"/owner"⟩ = some 0 := by
  obtain ⟨text, ht, hd⟩ := reads_owner
  obtain ⟨text', ht', hd'⟩ := reads_house
  have hr := Registry.resolve_new (r := .empty) (locate_owner none) rfl ht hd
  have hout : reference houseLibrary [] none "file:///owner" .empty = _ :=
    reference_typed hr rfl rfl (by rw [schema_owner]; rfl)
  dsimp only at hout
  rw [schema_owner] at hout
  obtain ⟨w, hload, hnode, hentry, hsize⟩ : ∃ w,
      load houseLibrary "file:///owner" .empty = (.ok 0, w) ∧
      w.registry.node? ⟨"/owner"⟩ = some 0 ∧ w.registry.entry? ⟨"/house"⟩ = none ∧
      w.graph.size = 2 := by
    rw [load_apply, hout]
    exact ⟨_, rfl, rfl, rfl, rfl⟩
  have hr' := Registry.resolve_new (locate_house none) hentry ht' hd'
  have hresolved := step_resolve houseLibrary [] w none "file:///house"
  rw [hr'] at hresolved
  have hfree : Free _ [] _ := free_of_resolve hr' rfl rfl
  have hkept := (hfree.step_reserved houseLibrary).extends'.node (hresolved.extends'.node hnode)
  have hinner : reference houseLibrary [⟨"/house"⟩] (some ⟨"/house"⟩) "file:///owner" _ = _ :=
    reference_built (locate_owner (some ⟨"/house"⟩)) hkept
  have hout' : reference houseLibrary [] none "file:///house" w = _ :=
    reference_typed hr' rfl rfl (by rw [schema_house]; rfl)
  dsimp only at hout'
  rw [schema_house] at hout'
  simp only [schema, members_cons, bind_apply, hinner] at hout'
  obtain ⟨w', hload', hnode'⟩ : ∃ w', load houseLibrary "file:///house" w = (.ok 2, w') ∧
      w'.registry.node? ⟨"/owner"⟩ = some 0 := by
    rw [load_apply, hout', ← hsize]
    exact ⟨_, rfl, hkept⟩
  refine ⟨w', ?_, hnode'⟩
  simp only [List.mapM_cons, List.mapM_nil, bind_apply, hload, hload']
  rfl

theorem written_of_loads_house : ∃ w w',
    (["file:///house"].mapM (load houseLibrary) : Build (List NodeId)) .empty = (.ok [0], w) ∧
    (["file:///owner", "file:///house"].mapM (load houseLibrary) : Build (List NodeId)) .empty =
      (.ok [0, 2], w') ∧
    w.registry.node? ⟨"/owner"⟩ = some 1 ∧ w'.registry.node? ⟨"/owner"⟩ = some 0 ∧
    w.graph.document 1 = w'.graph.document 0 ∧
    ∃ n', w'.graph.Reaches 0 n' ∧ ∀ language, written ⟨.standard, ""⟩ language w.graph 1 =
      written ⟨.standard, ""⟩ language w'.graph n' := by
  obtain ⟨w, hloads, hn, hobject⟩ := loads_house
  obtain ⟨w', hloads', hn'⟩ := loads_owner_first
  obtain ⟨hdocument, -, hwritten⟩ := written_of_loads houseFiles [] _ _ _ _ w w' hloads hloads'
    ⟨"/owner"⟩ 1 0 hn hn'
  obtain ⟨n', file, steps, hreach, -, -, hsame⟩ := hwritten 1 .refl hobject
  exact ⟨w, w', hloads, hloads', hn, hn', hdocument, n', hreach,
    fun language => hsame ⟨.standard, ""⟩ language rfl⟩

end SchemaForge.Generation
