import SchemaForge.Proofs.Building.Authors
import SchemaForge.Proofs.Building.Transparency
/-! One node for each file. Once a file has been loaded its node is there to stay: whoever loads the
file again gets it and changes nothing, and all references to the file lead to it. -/
namespace SchemaForge.Build

variable {lib : Library} {calls : List Call} {target : String} {w w' : Workspace} {n m c : NodeId}
  {f : Path}

/-- A load that works leaves the node of the file that its target names, with all that it leads to
knowing where it stands. -/
theorem node_of_load (h : (load lib target (Workspace.after lib calls)).1 = .ok n) :
    ∃ f, lib.locate none target = .ok f ∧
      (Workspace.after lib (calls ++ [.load target])).registry.node? f = some n ∧
      ∀ {m c}, (Workspace.after lib (calls ++ [.load target])).graph.Reaches n m →
        c ∈ (Workspace.after lib (calls ++ [.load target])).graph.children m →
        (Workspace.after lib (calls ++ [.load target])).graph.Told m c := by
  have hs := Workspace.sound_after lib calls
  obtain ⟨ho, -⟩ := Workspace.orderly_after lib calls
  have hleaves := leaves_reference lib [] none target (Workspace.after lib calls) ⟨target, none⟩
  have hleads := (follows_reference lib [] none target (Workspace.after lib calls)).2
  rw [Workspace.after_concat, Call.run]
  rw [load_apply] at h ⊢
  generalize reference lib [] none target (Workspace.after lib calls) = out at h hleaves hleads ⊢
  obtain ⟨e | id, w⟩ := out
  · cases h
  · cases h
    obtain ⟨f, hf, hn⟩ := hleads n rfl
    have hsound : w.Sound lib := hleaves.step.sound hs
    have hfile : ∀ {id}, w.graph.isFileRoot id = true → (w.graph.file? id).isSome = true := by
      intro id hid
      obtain ⟨f, hf, -⟩ := hsound.root hid
      exact Option.isSome_of_eq_some hf
    have hroot := hsound.node hn
    have hpass : w.graph.Passable := ⟨(hleaves.grafted hs ho).orderly.child_lt, hfile⟩
    have hlearns := Graph.learns_link hpass (Graph.lt_of_isFileRoot hroot)
    refine ⟨f, hf, hn, fun {m c} hm hc => ?_⟩
    have hm : w.graph.Reaches n m :=
      Graph.Reaches.mono hm fun id _ hc => (hlearns.children id) ▸ hc
    rw [hlearns.children] at hc
    exact Graph.told_link hpass (Graph.lt_of_isFileRoot hroot) (hfile hroot) hm hc

/-- Once a file has been loaded, whoever loads it again gets its node and changes nothing. -/
theorem load_again (h : (load lib target (Workspace.after lib calls)).1 = .ok n)
    (hf : lib.locate none target = .ok f) (more : List Call) {again : String} {f' : Path}
    (hagain : lib.locate none again = .ok f') (hsame : f'.Same f) :
    load lib again (Workspace.after lib (calls ++ .load target :: more)) =
      (.ok n, Workspace.after lib (calls ++ .load target :: more)) := by
  obtain ⟨g, hg, hn, htold⟩ := node_of_load h
  rw [hf, Except.ok.injEq] at hg
  subst hg
  obtain ⟨ho, -⟩ := Workspace.orderly_after lib (calls ++ [.load target])
  have hroot := (Workspace.sound_after lib (calls ++ [.load target])).node hn
  have hextends := Workspace.extends_after_append lib (calls ++ [.load target]) more
  rw [List.append_assoc, List.singleton_append] at hextends
  have hn' := hextends.node hn
  rw [← Registry.node?_congr _ hsame] at hn'
  have hlinked : (Workspace.after lib (calls ++ .load target :: more)).graph.link n =
      (Workspace.after lib (calls ++ .load target :: more)).graph := by
    refine Graph.link_of_told fun {m c} hm hc => ?_
    obtain ⟨hreach, hlt⟩ := hextends.graph.reaches_of_lt ho.child_lt
      (Graph.lt_of_isFileRoot hroot) hm
    rw [hextends.graph.children_of_lt hlt] at hc
    exact (htold hreach hc).mono hextends.graph
  rw [load_apply, reference_built hagain hn']
  dsimp only
  rw [hlinked]

/-- One node for each file. After a load that works, the file that its target names has its node for
good. Whatever else is asked of builders, whoever loads the file, by any spelling, gets that node
and changes nothing. And each node has an author, which is its file if it is the root of one, and
that of the node that it stands in if it stands in one; whatever its author has referred to by a
site that names the file, before or after, is the node of the file. -/
theorem one_node_for_file (lib : Library) (calls : List Call) (target : String) (n : NodeId)
    (h : (load lib target (Workspace.after lib calls)).1 = .ok n) :
    ∃ f, lib.locate none target = .ok f ∧ ∀ more,
      let w := Workspace.after lib (calls ++ .load target :: more)
      let authors := Workspace.authors lib .empty (calls ++ .load target :: more)
      (∀ again f', lib.locate none again = .ok f' → f'.Same f → load lib again w = (.ok n, w)) ∧
      authors.length = w.graph.size ∧
      (∀ id g, w.graph.isFileRoot id = true → w.graph.file? id = some g →
        authors[id]? = some (some g)) ∧
      (∀ id c, (c, none) ∈ w.graph.edges id → authors[c]? = authors[id]?) ∧
      ∀ id c site author f', (c, some site) ∈ w.graph.edges id → authors[id]? = some author →
        lib.locate author site.reference = .ok f' → f'.Same f → c = n := by
  obtain ⟨f, hf, hn, -⟩ := node_of_load h
  refine ⟨f, hf, fun more => ?_⟩
  dsimp only
  have ha := Workspace.authored_after lib (calls ++ .load target :: more)
  have hextends := Workspace.extends_after_append lib (calls ++ [.load target]) more
  rw [List.append_assoc, List.singleton_append] at hextends
  refine ⟨fun again f' hagain hsame => load_again h hf more hagain hsame, ha.length,
    fun id g hid hg => ha.root hid hg, ?_, ?_⟩
  · intro id c hc
    have hid := Graph.lt_of_mem_edges hc
    rw [← ha.length] at hid
    have hown := List.getElem?_eq_getElem hid
    exact (ha.edges hown _ hc).trans hown.symm
  · intro id c site author f' hc hauthor hf' hsame
    obtain ⟨g, hg, hnode⟩ := ha.edges hauthor _ hc
    rw [hf', Except.ok.injEq] at hg
    subst hg
    rw [Registry.node?_congr _ hsame, hextends.node hn] at hnode
    exact (Option.some.inj hnode).symm

/-- A file whose member refers to it through another one, loaded again by a longer way. -/
theorem one_node_for_file_looped :
    (load (looped.library []) "file:///b.json" .empty).1 = .ok 0 ∧
    ∀ more,
      let w := Workspace.after (looped.library []) (.load "file:///b.json" :: more)
      load (looped.library []) "file:///x/../b.json" w = (.ok 0, w) := by
  have hload := load_looped_object
  obtain ⟨f, hf, hnode⟩ := one_node_for_file (looped.library []) [] _ 0 hload
  rw [locate_looped_object] at hf
  cases hf
  exact ⟨hload, fun more => (hnode more).1 "file:///x/../b.json" ⟨"/b.json"⟩ rfl rfl⟩

end SchemaForge.Build
