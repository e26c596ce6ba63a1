import SchemaForge.Proofs.Building.Shared
import SchemaForge.Proofs.Json
/-! Where nodes stand: each knows a node that refers to it, and the file whose document says what it
holds. Both are found out when a root is linked, and stay. -/
namespace SchemaForge

namespace Build

variable {lib : Library} {chain : List Path} {w w' w'' : Workspace} {f : Path} {id c q : NodeId}
  {referrer : Option Path} {target : String} {writers log : List (Option Path)} {p : Property}

/-- A step of building that tells no node where it stands. Only the root of a file knows its file
from the start. -/
structure Silent (lib : Library) (chain : List Path) (w w' : Workspace) : Prop where
  step : Step lib chain w w'
  kept : ∀ {c}, c < w.graph.size →
    w'.graph.parent? c = w.graph.parent? c ∧ w'.graph.file? c = w.graph.file? c
  fresh : ∀ {c}, w.graph.size ≤ c → w'.graph.parent? c = none ∧
    ∀ f, w'.graph.file? c = some f → w'.graph.isFileRoot c = true ∧ lib.Serves f

/-- A step that touches no node. -/
theorem Step.silent (h : Step lib chain w w') (hg : w'.graph = w.graph) :
    Silent lib chain w w' := by
  refine ⟨h, fun _ => by rw [hg]; exact ⟨rfl, rfl⟩, fun {c} hc => ?_⟩
  have hnone : ¬ (w.graph.node? c).isSome := by
    rw [Graph.node?_isSome_iff]
    exact Nat.not_lt.2 hc
  simp [hg, Graph.parent?, Graph.file?, Option.not_isSome_iff_eq_none.1 hnone]

theorem Silent.refl (lib : Library) (chain : List Path) (w : Workspace) : Silent lib chain w w :=
  (Step.refl lib chain w).silent rfl

theorem Silent.trans (h : Silent lib chain w w') (h' : Silent lib chain w' w'') :
    Silent lib chain w w'' := by
  refine ⟨h.step.trans h'.step, fun {c} hc => ?_, fun {c} hc => ?_⟩
  · obtain ⟨hparent, hfile⟩ := h.kept hc
    obtain ⟨hparent', hfile'⟩ := h'.kept (Nat.lt_of_lt_of_le hc h.step.extends'.graph.size_le)
    exact ⟨hparent'.trans hparent, hfile'.trans hfile⟩
  · by_cases hnew : w'.graph.size ≤ c
    · exact h'.fresh hnew
    · have hlt := Nat.lt_of_not_le hnew
      obtain ⟨hparent, hfile⟩ := h'.kept hlt
      rw [hparent, hfile, h'.step.extends'.graph.fileRoot hlt]
      exact h.fresh hc

theorem Silent.of_cons (h : Silent lib (f :: chain) w w') : Silent lib chain w w' :=
  ⟨h.step.of_cons, h.kept, h.fresh⟩

/-- A new node stands nowhere yet, and belongs to a file only as its root. -/
theorem silent_grow (h : Step lib chain w w') {n : Node} (hg : w'.graph = w.graph.add n)
    (hparent : n.parent = none)
    (hfile : ∀ f, n.file = some f → n.fileRoot = true ∧ lib.Serves f) :
    Silent lib chain w w' := by
  refine ⟨h, fun {c} hc => ?_, fun {c} hc => ?_⟩
  · rw [hg, Graph.parent?, Graph.file?, Graph.node?_add, if_neg (Nat.ne_of_lt hc)]
    exact ⟨rfl, rfl⟩
  · rw [hg, Graph.parent?, Graph.file?, Graph.isFileRoot_eq, Graph.node?_add]
    split
    · exact ⟨hparent, hfile⟩
    · have hnone : ¬ (w.graph.node? c).isSome := by
        rw [Graph.node?_isSome_iff]
        exact Nat.not_lt.2 hc
      simp [Option.not_isSome_iff_eq_none.1 hnone]

theorem silent_add (p : Property) : Keeps (Silent lib chain) (add p) := by
  intro w
  refine silent_grow (step_add p w) rfl rfl fun f hf => ?_
  cases hf

theorem Free.silent_reserved (h : Free w chain f) (hf : lib.Serves f) :
    Silent lib chain w (reserved f w) := by
  refine silent_grow (h.step_reserved lib) rfl rfl fun g hg => ?_
  cases hg
  exact ⟨rfl, hf⟩

theorem Silent.fill (h : Silent lib chain w w') (hslot : w.graph.size ≤ id) (p : Property) :
    Silent lib chain w (fill id p w').2 := by
  refine ⟨h.step.fill hslot p, fun {c} hc => ?_, fun {c} hc => ?_⟩
  · rw [show (Build.fill id p w').2.graph = w'.graph.replace id p from rfl,
      Graph.parent?_replace, Graph.file?_replace]
    exact h.kept hc
  · rw [show (Build.fill id p w').2.graph = w'.graph.replace id p from rfl,
      Graph.parent?_replace, Graph.file?_replace, Graph.isFileRoot_replace]
    exact h.fresh hc

/-- Nothing is told where it stands before all that a reference leads to has been built. -/
theorem silent_reference (lib : Library) (chain : List Path) (referrer : Option Path)
    (target : String) : Keeps (Silent lib chain) (reference lib chain referrer target) := by
  intro w
  induction chain, referrer, target, w using reference_induction lib with
  | done chain referrer target w out hout _ _ =>
    rw [hout]
    exact (step_resolve lib chain w referrer target).silent rfl
  | untyped chain referrer target w found r site hr hfree _ hout ih =>
    have hresolved : Silent lib chain w { w with registry := r } := by
      have hstep := step_resolve lib chain w referrer target
      rw [hr] at hstep
      exact hstep.silent rfl
    have hleads := (follows_reference lib (found.file :: chain) (some found.file) site.reference
      { w with registry := r }).2
    have hnext := ih site.reference { w with registry := r }
    rw [hout, bind_apply]
    generalize reference lib (found.file :: chain) (some found.file) site.reference
      { w with registry := r } = out at hleads hnext ⊢
    obtain ⟨e | node, w'⟩ := out
    · exact hresolved.trans hnext.of_cons
    · obtain ⟨g, -, hnode⟩ := hleads node rfl
      have hrecord : Step lib chain w' (record found.file node w').2 :=
        (hfree.of_step hnext.step).step_record hnode
      exact (hresolved.trans hnext.of_cons).trans (hrecord.silent rfl)
  | typed chain referrer target w found r hr hfree hs hout ih =>
    have hresolved : Silent lib chain w { w with registry := r } := by
      have hstep := step_resolve lib chain w referrer target
      rw [hr] at hstep
      exact hstep.silent rfl
    have hserves := Library.serves_of_locate (Registry.resolve_ok hr).1
    have hreserved := hresolved.trans (hfree.silent_reserved hserves)
    rw [hout]
    rcases schema_placed (R := Silent lib (found.file :: chain)) (.refl lib _)
      (fun _ _ _ => .trans) ih silent_add (fill w.graph.size) hs
      (reserved found.file { w with registry := r }) with ⟨e, w', hout, h⟩ | ⟨p, w', hout, h⟩
    · rw [hout]
      exact hreserved.trans h.of_cons
    · rw [hout]
      exact (hreserved.trans h.of_cons).fill (Nat.le_refl _) p

/-- A workspace whose nodes know nothing wrong about where they stand: a parent refers to its child,
and the file of a node is its author. -/
structure Attributed (lib : Library) (w : Workspace) (writers : List (Option Path)) : Prop where
  parent : ∀ {c q}, w.graph.parent? c = some q → c ∈ w.graph.children q
  file : ∀ {c f}, w.graph.file? c = some f → writers[c]? = some (some f)
  served : ∀ {c f}, w.graph.isFileRoot c = true → w.graph.file? c = some f → lib.Serves f

theorem attributed_empty (lib : Library) : Attributed lib .empty [] := by
  refine ⟨fun h => ?_, fun h => ?_, fun h => ?_⟩
  · cases h
  · cases h
  · exact absurd (Graph.lt_of_isFileRoot h) (Nat.not_lt_zero _)

theorem Attributed.silent (h : Attributed lib w writers) (hw : Silent lib chain w w')
    (ha : Authored lib w writers) (ha' : Authored lib w' (writers ++ log)) :
    Attributed lib w' (writers ++ log) := by
  have hextends := hw.step.extends'.graph
  refine ⟨fun {c q} hq => ?_, fun {c f} hf => ?_, fun {c f} hroot hf => ?_⟩
  · by_cases hnew : w.graph.size ≤ c
    · rw [(hw.fresh hnew).1] at hq
      cases hq
    · rw [(hw.kept (Nat.lt_of_not_le hnew)).1] at hq
      exact hextends.children_subset q (h.parent hq)
  · by_cases hnew : w.graph.size ≤ c
    · exact ha'.root ((hw.fresh hnew).2 f hf).1 hf
    · have hlt := Nat.lt_of_not_le hnew
      rw [(hw.kept hlt).2] at hf
      rw [List.getElem?_append_left (ha.length ▸ hlt)]
      exact h.file hf
  · by_cases hnew : w.graph.size ≤ c
    · exact ((hw.fresh hnew).2 f hf).2
    · have hlt := Nat.lt_of_not_le hnew
      rw [(hw.kept hlt).2] at hf
      rw [hextends.fileRoot hlt] at hroot
      exact h.served hroot hf

/-- A node inside a file has the author of the node that it stands in. -/
theorem Authored.inner (ha : Authored lib w writers) (ht : w.graph.Tidy)
    (hc : c ∈ w.graph.children q) (hinner : w.graph.isFileRoot c = false) :
    w.graph.Inside c q ∧ writers[c]? = writers[q]? := by
  obtain ⟨site, hedge⟩ := Graph.mem_children_iff.1 hc
  obtain ⟨-, hsite⟩ := ht.sited q c site hedge
  cases site with
  | some site =>
    rw [hsite.1 rfl] at hinner
    cases hinner
  | none =>
    have hq : q < writers.length := ha.length ▸ Graph.lt_of_mem_edges hedge
    have hown := List.getElem?_eq_getElem hq
    exact ⟨hedge, (ha.edges hown _ hedge).trans hown.symm⟩

/-- What nodes learn from those that refer to them is not wrong. A file comes down from the root of
the file, and the owners on the way down have ever smaller places. -/
theorem Attributed.learns (h : Attributed lib w writers) (ha : Authored lib w writers)
    (ht : w.graph.Tidy) {g : Graph} (hl : w.graph.Learns g) :
    Attributed lib { w with graph := g } writers := by
  have hroot : ∀ {c}, g.isFileRoot c = w.graph.isFileRoot c :=
    fun {c} => hl.extends'.isFileRoot hl.size c
  have hrootFile : ∀ {c f}, w.graph.isFileRoot c = true → g.file? c = some f →
      w.graph.file? c = some f := by
    intro c f hc hf
    rcases hl.file hf with hf | ⟨hinner, -⟩
    · exact hf
    · rw [hc] at hinner
      cases hinner
  refine ⟨fun {c q} hq => ?_, fun {c f} hf => ?_, fun {c f} hc hf => ?_⟩
  · rcases hl.parent hq with hq | hq
    · exact (hl.children q).symm ▸ h.parent hq
    · exact (hl.children q).symm ▸ hq
  · generalize hroom : w.graph.size - c = room
    induction room using Nat.strongRecOn generalizing c with
    | ind room ih =>
      rcases hl.file hf with hf | ⟨hinner, q, hq, hfq⟩
      · exact h.file hf
      · obtain ⟨hinside, hauthor⟩ := ha.inner ht hq hinner
        rw [hauthor]
        cases hown : w.graph.isFileRoot q with
        | true => exact h.file (hrootFile hown hfq)
        | false =>
          have hbelow := ht.below hown hinside
          have hlt := Graph.lt_of_mem_edges hinside
          refine ih (w.graph.size - q) ?_ hfq rfl
          unfold NodeId at *
          omega
  · rw [hroot] at hc
    exact h.served hc (hrootFile hc hf)

/-- A node that is told its author knows nothing wrong. -/
theorem Attributed.withFile (h : Attributed lib w writers)
    (hid : w.graph.file? id = none → w.graph.isFileRoot id = false ∧ writers[id]? = some (some f)) :
    Attributed lib { w with graph := w.graph.modify id (·.withFile f) } writers := by
  have hextends := Graph.extends_modify w.graph id (Graph.tells_withFile f)
  have hsize := Graph.size_modify w.graph (·.withFile f) id
  have hparent : ∀ c, (w.graph.modify id (·.withFile f)).parent? c = w.graph.parent? c := by
    intro c
    simp only [Graph.parent?, Graph.node?_modify]
    split
    · cases w.graph.node? c with
      | none => rfl
      | some n =>
        simp only [Option.map_some, Option.bind_some, Node.withFile]
        split <;> rfl
    · rfl
  have hfile : ∀ {c g}, (w.graph.modify id (·.withFile f)).file? c = some g →
      w.graph.file? c = some g ∨ c = id ∧ w.graph.file? c = none ∧ g = f := by
    intro c g hg
    simp only [Graph.file?, Graph.node?_modify] at hg ⊢
    split at hg
    · next heq =>
      cases hn : w.graph.node? c with
      | none => rw [hn] at hg; cases hg
      | some n =>
        rw [hn, Option.map_some, Option.bind_some, Node.withFile] at hg
        cases hown : n.file with
        | some own => exact Or.inl (by simpa [hown] using hg)
        | none =>
          refine Or.inr ⟨heq.symm, hown, ?_⟩
          simpa [hown] using hg.symm
    · exact Or.inl hg
  refine ⟨fun {c q} hq => ?_, fun {c g} hg => ?_, fun {c g} hc hg => ?_⟩
  · rw [hparent] at hq
    exact (hextends.children hsize q).symm ▸ h.parent hq
  · rcases hfile hg with hg | ⟨rfl, hnone, rfl⟩
    · exact h.file hg
    · exact (hid hnone).2
  · rw [hextends.isFileRoot hsize] at hc
    rcases hfile hg with hg | ⟨rfl, hnone, rfl⟩
    · exact h.served hc hg
    · rw [(hid hnone).1] at hc
      cases hc

/-- A workspace in which building may go on: in order, and with all that its nodes know right. -/
structure Coherent (lib : Library) (w : Workspace) (writers : List (Option Path)) : Prop where
  sound : w.Sound lib
  orderly : w.graph.Orderly
  tidy : w.graph.Tidy
  authored : Authored lib w writers
  attributed : Attributed lib w writers

theorem Coherent.passable (h : Coherent lib w writers) : w.graph.Passable := by
  refine ⟨h.orderly.child_lt, fun {id} hid => ?_⟩
  obtain ⟨f, hf, -⟩ := h.sound.root hid
  exact Option.isSome_of_eq_some hf

/-- Linking a node keeps a workspace coherent. -/
theorem Coherent.link (h : Coherent lib w writers) (hid : id < w.graph.size) :
    Coherent lib { w with graph := w.graph.link id } writers := by
  have hl := Graph.learns_link h.passable hid
  have hstep : Step lib [] w { w with graph := w.graph.link id } := step_link id w
  refine ⟨hstep.sound h.sound, hl.orderly h.orderly,
    hl.extends'.tidy hl.size h.tidy, h.authored.settled h.sound id none,
    h.attributed.learns h.authored h.tidy hl⟩

/-- The author of a document is told to its node, unless the document stands for another file. -/
theorem Coherent.withFile (h : Coherent lib w writers)
    (hid : w.graph.file? id = none → w.graph.isFileRoot id = false ∧ writers[id]? = some (some f)) :
    Coherent lib { w with graph := w.graph.modify id (·.withFile f) } writers := by
  have hextends := Graph.extends_modify w.graph id (Graph.tells_withFile f)
  have hsize := Graph.size_modify w.graph (·.withFile f) id
  have hstep : Step lib [] w { w with graph := w.graph.modify id (·.withFile f) } :=
    step_tells w id (Graph.tells_withFile f)
  refine ⟨hstep.sound h.sound,
    hextends.orderly hsize h.orderly, hextends.tidy hsize h.tidy, ?_, h.attributed.withFile hid⟩
  refine ⟨h.authored.length.trans hsize.symm, fun {id f} hroot hf => ?_,
    fun hown edge hedge => ?_⟩
  · rw [hextends.isFileRoot hsize] at hroot
    obtain ⟨f', hf', -⟩ := h.sound.root hroot
    rw [hextends.file hf'] at hf
    cases hf
    exact h.authored.root hroot hf'
  · rw [hextends.edges hsize] at hedge
    exact h.authored.edges hown edge hedge

/-- What a step of building leaves and writes before anything is linked keeps a workspace
coherent. -/
theorem Coherent.built (h : Coherent lib w writers) {own : Option Path}
    {made made' : List (NodeId × Option RefSite)} (hleaves : Leaves lib [] w w' made)
    (hwrites : Writes lib [] own w w' made' log) (hsilent : Silent lib [] w w') :
    Coherent lib w' (writers ++ log) := by
  have ha := hwrites.authored h.sound h.authored
  exact ⟨hleaves.step.sound h.sound, (hleaves.grafted h.sound h.orderly).orderly,
    (hleaves.tidy h.sound h.tidy).1, ha, h.attributed.silent hsilent h.authored ha⟩

theorem coherent_empty (lib : Library) : Coherent lib .empty [] :=
  ⟨Workspace.sound_empty lib, .empty, .empty, authored_empty lib, attributed_empty lib⟩

/-- A later graph in which nothing new refers to the old nodes that stand inside files. -/
def Apart (g g' : Graph) : Prop :=
  ∀ c q, c < g.size → g.isFileRoot c = false → c ∈ g'.children q → c ∈ g.children q

theorem Leaves.apart {made : List (NodeId × Option RefSite)} (h : Leaves lib chain w w' made)
    (hs : w.Sound lib) (ho : w.graph.Orderly) : Apart w.graph w'.graph := by
  intro c q hlt hinner hc
  obtain ⟨k, hk⟩ := List.mem_iff_getElem?.1 hc
  exact List.mem_of_getElem? ((h.grafted hs ho).old hlt hinner hk)

/-- How a call ends that has begun in a coherent workspace: with an error on the way, or by linking
what it has built. That is the root of a file, or a new node that nothing refers to. -/
inductive Ends (lib : Library) (w : Workspace) (writers : List (Option Path)) :
    Except Error NodeId × Workspace → Prop
  | failed {e : Error} {w' : Workspace} : Coherent lib w' writers → Apart w.graph w'.graph →
      Ends lib w writers (.error e, w')
  | linked {id : NodeId} {w' : Workspace} : Coherent lib w' writers → Apart w.graph w'.graph →
      id < w'.graph.size →
      (w'.graph.isFileRoot id = false → ∀ q, id ∉ w'.graph.children q) →
      Ends lib w writers (.ok id, { w' with graph := w'.graph.link id })

theorem ends_run (c : Call) (h : Coherent lib w writers) :
    Ends lib w (writers ++ c.authors lib w) (c.run lib w) := by
  cases c with
  | load target =>
    have hleaves := leaves_reference lib [] none target w ⟨target, none⟩
    have hwrites := writes_reference lib [] none target w ⟨target, none⟩ rfl
    have hsilent := silent_reference lib [] none target w
    have hapart := hleaves.apart h.sound h.orderly
    have hroot := (hleaves.tidy h.sound h.tidy).2
    rw [Call.run, load_apply, Call.authors]
    generalize reference lib [] none target w = out at hleaves hwrites hsilent hapart hroot ⊢
    obtain ⟨e | id, w'⟩ := out
    · exact .failed (h.built hleaves hwrites hsilent) hapart
    · obtain ⟨hlt, hsite⟩ := hroot id _ (List.mem_singleton_self _)
      refine .linked (h.built hleaves hwrites hsilent) hapart hlt fun hinner => ?_
      rw [hsite.1 rfl] at hinner
      cases hinner
  | document file d =>
    have hleaves := ((left_schema (leaves_reference lib [] file)).1 add
      (Schema.ofDocument d) w).leaves
    have hwrites := ((written_schema fun site w =>
      writes_reference lib [] file site.reference w site rfl).1 add (Schema.ofDocument d) w).writes
    have hsilent := (keeps_schema (.refl lib []) (fun _ _ _ => .trans)
      (silent_reference lib [] file) silent_add).1 add (Schema.ofDocument d) silent_add w
    have hapart := hleaves.apart h.sound h.orderly
    have hgrafted := hleaves.grafted h.sound h.orderly
    have hroot := (hleaves.tidy h.sound h.tidy).2
    have hfits := hwrites.fits h.sound h.authored
    rw [Call.run, document_apply, Call.authors]
    generalize schema (reference lib [] file) add (Schema.ofDocument d) w = out
      at hleaves hwrites hsilent hapart hgrafted hroot hfits ⊢
    obtain ⟨e | id, w'⟩ := out
    · exact .failed (h.built hleaves hwrites hsilent) hapart
    · have hbuilt := h.built hleaves hwrites hsilent
      obtain ⟨hlt, hsite⟩ := hroot id _ (List.mem_singleton_self _)
      have hfree : w'.graph.isFileRoot id = false → ∀ q, id ∉ w'.graph.children q :=
        fun hinner => (hgrafted.made_new id (List.mem_singleton_self _) hinner).2
      cases file with
      | none => exact .linked hbuilt hapart hlt hfree
      | some f =>
        have hextends := Graph.extends_modify w'.graph id (Graph.tells_withFile f)
        have hsize := Graph.size_modify w'.graph (·.withFile f) id
        have htold : Coherent lib { w' with graph := w'.graph.modify id (·.withFile f) } _ :=
            hbuilt.withFile fun hnone => by
          cases hs : (Schema.ofDocument d).declaredSite? with
          | some site =>
            rw [hs] at hsite
            obtain ⟨g, hg, -⟩ := hbuilt.sound.root (hsite.1 rfl)
            rw [hnone] at hg
            cases hg
          | none =>
            rw [hs] at hsite
            have hedge := hfits (id, none) (by rw [hs]; exact List.mem_singleton_self _)
            exact ⟨eq_false_of_ne_true fun hid => Bool.false_ne_true (hsite.2 hid), hedge⟩
        refine .linked htold (fun c q hc hinner hmem => ?_) (hsize.symm ▸ hlt)
          fun hinner q hmem => ?_
        · rw [hextends.children hsize] at hmem
          exact hapart c q hc hinner hmem
        · rw [hextends.isFileRoot hsize] at hinner
          rw [hextends.children hsize] at hmem
          exact hfree hinner q hmem

/-- A call keeps a workspace coherent, whatever its outcome. -/
theorem coherent_run (c : Call) (h : Coherent lib w writers) :
    Coherent lib (c.run lib w).2 (writers ++ c.authors lib w) := by
  have hends := ends_run c h
  generalize c.run lib w = out at hends ⊢
  cases hends with
  | failed h => exact h
  | linked h _ hlt => exact h.link hlt

/-- Nothing that a call builds refers to old nodes inside files. -/
theorem apart_run (c : Call) (h : Coherent lib w writers) :
    Apart w.graph (c.run lib w).2.graph := by
  have hends := ends_run c h
  generalize c.run lib w = out at hends ⊢
  cases hends with
  | failed _ hapart => exact hapart
  | linked h hapart hlt =>
    intro c q hc hinner hmem
    rw [(Graph.learns_link h.passable hlt).children] at hmem
    exact hapart c q hc hinner hmem

end Build

namespace Workspace

open Build

variable {lib : Library}

/-- After a row of calls, whatever their outcomes, nodes know nothing wrong about where they
stand. -/
theorem coherent_after (lib : Library) (calls : List Call) :
    Coherent lib (after lib calls) (authors lib .empty calls) := by
  have hfoldl : ∀ w writers, Coherent lib w writers →
      Coherent lib (calls.foldl (fun w c => (c.run lib w).2) w)
        (writers ++ authors lib w calls) := by
    induction calls with
    | nil =>
      intro w writers h
      rw [authors, List.append_nil]
      exact h
    | cons c calls ih =>
      intro w writers h
      rw [authors, ← List.append_assoc]
      exact ih _ _ (coherent_run c h)
  exact hfoldl .empty [] (coherent_empty lib)

end Workspace

namespace Build

variable {lib : Library} {root n : NodeId}

/-- A node that is reached is where the walk began, or another one that is reached refers to it. -/
theorem referrer_of_reaches {g : Graph} (h : g.Reaches root n) (hne : n ≠ root) :
    ∃ q, g.Reaches root q ∧ n ∈ g.children q ∧ n ≠ q := by
  induction h with
  | refl => exact absurd rfl hne
  | @tail q n hreach hchild ih =>
    by_cases heq : n = q
    · subst heq
      exact ih hne
    · exact ⟨q, hreach, hchild, heq⟩

/-- Where a node stands: in the node of a file, below which only schemas inside others lie on the
way to it, and the file has written it. -/
structure StandsIn (lib : Library) (w : Workspace) (writers : List (Option Path)) (n : NodeId)
    (f : Path) : Prop where
  served : lib.Serves f
  within : ∃ top, w.registry.node? f = some top ∧ Relation.ReflTransGen w.graph.Inside n top
  root : w.graph.isFileRoot n = true → w.registry.node? f = some n
  file : w.graph.file? n = some f
  author : writers[n]? = some (some f)

/-- The root of a file stands in its own file. -/
theorem Coherent.standsIn_root {w : Workspace} {writers : List (Option Path)}
    (h : Coherent lib w writers) (hroot : w.graph.isFileRoot n = true) :
    ∃ f, StandsIn lib w writers n f := by
  obtain ⟨f, hf, hnode⟩ := h.sound.root hroot
  exact ⟨f, h.attributed.served hroot hf, ⟨n, hnode, .refl⟩, fun _ => hnode, hf,
    h.attributed.file hf⟩

/-- A node inside a file stands in the file of the node that refers to it. -/
theorem Coherent.standsIn_inner {w : Workspace} {writers : List (Option Path)} {q : NodeId}
    {f : Path} (h : Coherent lib w writers) (hq : StandsIn lib w writers q f)
    (hc : n ∈ w.graph.children q) (hinner : w.graph.isFileRoot n = false)
    (hfile : (w.graph.file? n).isSome = true) : StandsIn lib w writers n f := by
  obtain ⟨hinside, hauthor⟩ := h.authored.inner h.tidy hc hinner
  obtain ⟨top, htop, hwithin⟩ := hq.within
  have hauthor : writers[n]? = some (some f) := hauthor.trans hq.author
  obtain ⟨f', hf'⟩ := Option.isSome_iff_exists.1 hfile
  have hsame := h.attributed.file hf'
  rw [hauthor, Option.some.injEq, Option.some.injEq] at hsame
  refine ⟨hq.served, ⟨top, htop, .head hinside hwithin⟩, fun hroot => ?_, hsame ▸ hf', hauthor⟩
  rw [hinner] at hroot
  cases hroot

/-- After a load that works, however the calls before it ended, each node that its root leads to
stands in a file that the library serves, and says so: the file has written it, and it is the node
of the file or lies inside it. Each of them but the root has a parent, which refers to it. And what
a node has been told about its parent and its file, no call ever changes. -/
theorem attribution_of_load (lib : Library) (calls : List Call) (target : String) (root : NodeId)
    (h : (load lib target (Workspace.after lib calls)).1 = .ok root) :
    let w := Workspace.after lib (calls ++ [.load target])
    (∀ n, w.graph.Reaches root n →
      (∃ f, StandsIn lib w (Workspace.authors lib .empty (calls ++ [.load target])) n f) ∧
      (n ≠ root → ∃ q, w.graph.parent? n = some q ∧ n ∈ w.graph.children q)) ∧
    ∀ earlier later n,
      (∀ q, (Workspace.after lib earlier).graph.parent? n = some q →
        (Workspace.after lib (earlier ++ later)).graph.parent? n = some q) ∧
      ∀ f, (Workspace.after lib earlier).graph.file? n = some f →
        (Workspace.after lib (earlier ++ later)).graph.file? n = some f := by
  have hcoherent := Workspace.coherent_after lib (calls ++ [.load target])
  obtain ⟨f, -, hnode, htold⟩ := node_of_load h
  have hroot := hcoherent.sound.node hnode
  refine ⟨fun n hreach => ⟨?_, fun hne => ?_⟩, fun earlier later n => ?_⟩
  · induction hreach with
    | refl => exact hcoherent.standsIn_root hroot
    | @tail q n hq hchild ih =>
      cases hown : (Workspace.after lib (calls ++ [.load target])).graph.isFileRoot n with
      | true => exact hcoherent.standsIn_root hown
      | false =>
        obtain ⟨f, hf⟩ := ih
        exact ⟨f, hcoherent.standsIn_inner hf hchild hown (htold hq hchild).1⟩
  · obtain ⟨q, hq, hchild, hne⟩ := referrer_of_reaches hreach hne
    obtain ⟨parent, hparent⟩ := Option.isSome_iff_exists.1 ((htold hq hchild).2 hne)
    exact ⟨parent, hparent, hcoherent.attributed.parent hparent⟩
  · have hextends := (Workspace.extends_after_append lib earlier later).graph
    exact ⟨fun q hq => hextends.parent hq, fun f hf => hextends.file hf⟩

/-- A house and whoever lives there, each in a file of its own. -/
def houseText : String :=
  "\x7b\"$id\":\"h\",\"title\":\"House\",\"type\":\"object\",\"properties\":" ++
    "\x7b\"owner\":\x7b\"$ref\":\"file:///owner\"\x7d\x7d\x7d"

def ownerText : String :=
  "\x7b\"$id\":\"o\",\"title\":\"Owner\",\"type\":\"object\",\"properties\":" ++
    "\x7b\"name\":\x7b\"type\":\"string\"\x7d\x7d\x7d"

def houseFiles : FileMap := ⟨⟨"/"⟩, [(⟨"/house"⟩, houseText), (⟨"/owner"⟩, ownerText)]⟩

def houseLibrary : Library := houseFiles.library []

def houseDocument : Document where
  members := [("$id", .string "h"), ("title", .string "House"), ("type", .string "object"),
    ("properties", .object [("owner", .object [("$ref", .string "file:///owner")])])]

def ownerDocument : Document where
  members := [("$id", .string "o"), ("title", .string "Owner"), ("type", .string "object"),
    ("properties", .object [("name", .object [("type", .string "string")])])]

theorem reads_house : houseLibrary.Reads ⟨"/house"⟩ houseDocument := by
  have hchars : houseText.toList = _ := toList_literals (toList_literal rfl) (toList_literal rfl)
  exact ⟨houseText, rfl, Document.read_of_toList hchars (by cbv)⟩

theorem reads_owner : houseLibrary.Reads ⟨"/owner"⟩ ownerDocument := by
  have hchars : ownerText.toList = _ := toList_literals (toList_literal rfl) (toList_literal rfl)
  exact ⟨ownerText, rfl, Document.read_of_toList hchars (by cbv)⟩

theorem schema_house : Schema.ofDocument houseDocument =
    .object "House" ⟨none, none⟩ ⟨some "h", none, some "House", true, none⟩ []
      [("owner", .reference ⟨"file:///owner", none⟩)] [] := by cbv

theorem schema_owner : Schema.ofDocument ownerDocument =
    .object "Owner" ⟨none, none⟩ ⟨some "o", none, some "Owner", true, none⟩ []
      [("name", .leaf ⟨none, none⟩ (.string none none))] [] := by cbv

theorem locate_house (referrer : Option Path) :
    houseLibrary.locate referrer "file:///house" = .ok ⟨"/house"⟩ := rfl

theorem locate_owner (referrer : Option Path) :
    houseLibrary.locate referrer "file:///owner" = .ok ⟨"/owner"⟩ := rfl

theorem load_house : ∃ w, load houseLibrary "file:///house" .empty = (.ok 0, w) ∧
    w.registry.node? ⟨"/owner"⟩ = some 1 ∧ (w.graph.object? 1).isSome = true ∧
    w.graph.children 0 = [1] ∧ w.graph.children 1 = [2] := by
  obtain ⟨text, ht, hd⟩ := reads_house
  obtain ⟨text', ht', hd'⟩ := reads_owner
  have hr := Registry.resolve_new (r := .empty) (locate_house none) rfl ht hd
  have hr' := Registry.resolve_new (r := (reserved ⟨"/house"⟩
      { Workspace.empty with
        registry := { Registry.empty with reads := 1 }.register ⟨"/house"⟩
          (Text.trim "file:///house") houseDocument }).registry)
    (locate_owner (some ⟨"/house"⟩)) rfl ht' hd'
  have hout : reference houseLibrary [] none "file:///house" .empty = _ :=
    reference_typed hr rfl rfl (by rw [schema_house]; rfl)
  have hinner : reference houseLibrary [⟨"/house"⟩] (some ⟨"/house"⟩) "file:///owner"
      (reserved ⟨"/house"⟩
        { Workspace.empty with
          registry := { Registry.empty with reads := 1 }.register ⟨"/house"⟩
            (Text.trim "file:///house") houseDocument }) = _ :=
    reference_typed hr' rfl rfl (by rw [schema_owner]; rfl)
  dsimp only at hout hinner
  rw [schema_house] at hout
  rw [schema_owner] at hinner
  simp only [schema, members_cons, bind_apply] at hout
  erw [hinner] at hout
  rw [load_apply, hout]
  exact ⟨_, rfl, rfl, rfl, rfl, rfl⟩

/-- There is no barn, and asking for one leaves nothing behind. -/
theorem after_barn : Workspace.after houseLibrary [.load "file:///barn"] = .empty := by
  have hr : Workspace.empty.registry.resolve houseLibrary none "file:///barn" =
      (.error _, .empty) := rfl
  rw [Workspace.after_load, load_apply, reference_error hr]
  rfl

theorem attribution_of_load_house :
    (load houseLibrary "file:///house" (Workspace.after houseLibrary [.load "file:///barn"])).1 =
      .ok 0 ∧
    let w := Workspace.after houseLibrary [.load "file:///barn", .load "file:///house"]
    w.graph.Reaches 0 2 ∧
    (∃ f, StandsIn houseLibrary w
      (Workspace.authors houseLibrary .empty [.load "file:///barn", .load "file:///house"]) 2 f) ∧
    ∃ q, w.graph.parent? 2 = some q ∧ 2 ∈ w.graph.children q := by
  obtain ⟨w, hload, -, -, hhouse, howner⟩ := load_house
  have h : (load houseLibrary "file:///house"
      (Workspace.after houseLibrary [.load "file:///barn"])).1 = .ok 0 := by
    rw [after_barn, hload]
  have hw : Workspace.after houseLibrary ([.load "file:///barn"] ++ [.load "file:///house"]) =
      w := by
    rw [Workspace.after_concat, after_barn, Call.run, hload]
  obtain ⟨hstands, -⟩ := attribution_of_load houseLibrary [.load "file:///barn"] _ 0 h
  have hreach : (Workspace.after houseLibrary
      ([.load "file:///barn"] ++ [.load "file:///house"])).graph.Reaches 0 2 := by
    rw [hw]
    refine .head (b := 1) ?_ (.single ?_)
    · rw [hhouse]
      exact List.mem_singleton_self _
    · rw [howner]
      exact List.mem_singleton_self _
  obtain ⟨hfile, hparent⟩ := hstands 2 hreach
  exact ⟨h, hreach, hfile, hparent (by decide)⟩

end Build

end SchemaForge
