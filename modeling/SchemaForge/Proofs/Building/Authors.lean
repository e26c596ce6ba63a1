import SchemaForge.Proofs.Building.Leaves
/-! In which file each node is written. A site is relative to that file, and leads to the node of
the file that it names. -/
namespace SchemaForge

namespace Build

variable {lib : Library} {chain : List Path} {referrer own : Option Path} {target : String}
  {w w' w'' : Workspace} {f : Path} {id : NodeId} {found : Resolved} {r : Registry}
  {site : RefSite} {s : Schema} {p : Property} {writers log log' : List (Option Path)}
  {made made' : List (NodeId × Option RefSite)}

/-- The author of the node that a schema gets, unless that is one of another file. -/
def authorOf (own : Option Path) (s : Schema) : Except Error NodeId → List (Option Path)
  | .ok _ => if s.declaredSite?.isNone then [own] else []
  | .error _ => []

mutual

/-- The authors of the nodes inside a schema that `own` writes, in the order of the nodes, where
`log` tells those of following a reference. -/
def schemaAuthors (own : Option Path) (follow : String → Build NodeId)
    (log : String → Workspace → List (Option Path)) : Schema → Workspace → List (Option Path)
  | .reference site, w => log site.reference w
  | .faulty .., _ => []
  | .leaf .., _ => []
  | .array _ items, w =>
    schemaAuthors own follow log items w ++ authorOf own items (schema follow add items w).1
  | .object _ _ _ _ inner _, w => membersAuthors own follow log inner w

/-- The authors of members and of the nodes inside them, until one comes to an end. -/
def membersAuthors (own : Option Path) (follow : String → Build NodeId)
    (log : String → Workspace → List (Option Path)) :
    List (String × Schema) → Workspace → List (Option Path)
  | [], _ => []
  | (_, s) :: rest, w =>
    schemaAuthors own follow log s w ++ authorOf own s (schema follow add s w).1 ++
    match schema follow add s w with
    | (.ok _, w') => membersAuthors own follow log rest w'
    | (.error (.structural ..), w') => membersAuthors own follow log rest w'
    | (.error _, _) => []

end

/-- The authors of the nodes that following a reference makes. The place of a file is reserved
before all that its document refers to. -/
def referenceAuthors (lib : Library) (chain : List Path) (referrer : Option Path)
    (target : String) (w : Workspace) : List (Option Path) :=
  match _ : w.registry.resolve lib referrer target with
  | (.error _, _) => []
  | (.ok found, r) =>
    let w := { w with registry := r }
    match found.node with
    | some _ => []
    | none =>
      if _ : chain.any (·.Same found.file) then []
      else
        let log next := referenceAuthors lib (found.file :: chain) (some found.file) next
        match Schema.ofDocument found.document with
        | .reference site => log site.reference w
        | s => some found.file :: schemaAuthors (some found.file)
            (reference lib (found.file :: chain) (some found.file)) log s
            (reserved found.file w)
termination_by (pending lib chain).length
decreasing_by
  apply pending_cons_lt
  · exact Registry.mem_files_of_resolve (congrArg Prod.fst ‹_›)
  · exact eq_false_of_ne_true ‹_›

/-- The authors of the nodes that a call makes. -/
def Call.authors (lib : Library) : Call → Workspace → List (Option Path)
  | .load target, w => referenceAuthors lib [] none target w
  | .document file d, w =>
    schemaAuthors file (reference lib [] file) (referenceAuthors lib [] file)
        (Schema.ofDocument d) w ++
      authorOf file (Schema.ofDocument d)
        (schema (reference lib [] file) add (Schema.ofDocument d) w).1

section cases

theorem referenceAuthors_done (h : ∀ found r,
      w.registry.resolve lib referrer target = (.ok found, r) → found.node = none →
      chain.any (·.Same found.file) = true) :
    referenceAuthors lib chain referrer target w = [] := by
  rw [referenceAuthors]
  split
  · rfl
  · next found r hr =>
    dsimp only
    split
    · rfl
    · next hn => rw [dif_pos (h found r hr hn)]

variable (hr : w.registry.resolve lib referrer target = (.ok found, r)) (hn : found.node = none)
  (hc : chain.any (·.Same found.file) = false)

include hr hn hc

theorem referenceAuthors_alias (hs : Schema.ofDocument found.document = .reference site) :
    referenceAuthors lib chain referrer target w =
      referenceAuthors lib (found.file :: chain) (some found.file) site.reference
        { w with registry := r } := by
  rw [referenceAuthors]
  split
  · next h => rw [hr] at h; cases h
  · next h =>
    rw [hr] at h
    cases h
    simp only [hn, hc, Bool.false_eq_true, dite_false, hs]

theorem referenceAuthors_typed (hs : (Schema.ofDocument found.document).declaredSite? = none) :
    referenceAuthors lib chain referrer target w =
      some found.file :: schemaAuthors (some found.file)
        (reference lib (found.file :: chain) (some found.file))
        (referenceAuthors lib (found.file :: chain) (some found.file))
        (Schema.ofDocument found.document) (reserved found.file { w with registry := r }) := by
  rw [referenceAuthors]
  split
  · next h => rw [hr] at h; cases h
  · next h =>
    rw [hr] at h
    cases h
    simp only [hn, hc, Bool.false_eq_true, dite_false]
    generalize Schema.ofDocument found.document = s at hs ⊢
    cases s with
    | reference site => cases hs
    | _ => rfl

end cases

/-- What `own` may refer to: a node of its own, or by a site the node of the file that it names. -/
def Fits (lib : Library) (w : Workspace) (writers : List (Option Path)) (own : Option Path) :
    NodeId × Option RefSite → Prop
  | (c, none) => writers[c]? = some own
  | (c, some site) => Leads lib w own site.reference c

theorem Fits.mono {edge : NodeId × Option RefSite} (h : Fits lib w writers own edge)
    (hw : w.Extends chain w') (log : List (Option Path)) :
    Fits lib w' (writers ++ log) own edge := by
  obtain ⟨c, _ | site⟩ := edge
  · have hc : writers[c]? = some own := h
    rw [Fits, List.getElem?_append_left (List.getElem?_eq_some_iff.1 hc).1, hc]
  · exact Leads.mono h hw

/-- A workspace whose nodes have been written by `writers`, one for each: a file writes its own
root, and whatever a node refers to is what its author may refer to. -/
structure Authored (lib : Library) (w : Workspace) (writers : List (Option Path)) : Prop where
  length : writers.length = w.graph.size
  root : ∀ {id f}, w.graph.isFileRoot id = true → w.graph.file? id = some f →
    writers[id]? = some (some f)
  edges : ∀ {id own}, writers[id]? = some own → ∀ edge ∈ w.graph.edges id,
    Fits lib w writers own edge

theorem authored_empty (lib : Library) : Authored lib .empty [] := by
  refine ⟨rfl, ?_, ?_⟩
  · intro id f hid
    exact absurd (Graph.lt_of_isFileRoot hid) (Nat.not_lt_zero id)
  · intro id own hid
    cases hid

/-- Nodes that learn where they stand keep their authors. -/
theorem Authored.settled (h : Authored lib w writers) (hs : w.Sound lib) (root : NodeId)
    (file : Option Path) :
    Authored lib { w with graph := Build.settled w.graph root file } writers := by
  have hextends := (step_settled lib [] w root file).extends'.graph
  have hsize := size_settled w.graph root file
  refine ⟨h.length.trans hsize.symm, ?_, ?_⟩
  · intro id f hid hf
    dsimp only at hid hf
    rw [hextends.isFileRoot hsize] at hid
    obtain ⟨f', hf', -⟩ := hs.root hid
    rw [hextends.file hf'] at hf
    cases hf
    exact h.root hid hf'
  · intro id own hown edge hedge
    rw [hextends.edges hsize] at hedge
    exact h.edges hown edge hedge

/-- A new node has an author of its own: its file, if it is the root of one. -/
theorem Authored.grow (h : Authored lib w writers) {n : Node} (hw : w.Extends chain w')
    (hg : w'.graph = w.graph.add n) (hroot : n.fileRoot = true → own = n.file)
    (hn : ∀ edge ∈ n.property.edges, Fits lib w writers own edge) :
    Authored lib w' (writers ++ [own]) := by
  have hlast : (writers ++ [own])[w.graph.size]? = some own := by
    rw [← h.length, List.getElem?_concat_length]
  refine ⟨?_, ?_, ?_⟩
  · rw [hg, List.length_append, h.length, Graph.size_add, List.length_singleton]
  · intro id f hid hf
    rw [hg, Graph.isFileRoot_eq, Graph.node?_add] at hid
    rw [hg, Graph.file?, Graph.node?_add] at hf
    split at hid
    · next heq =>
      rw [if_pos heq] at hf
      rw [heq, hlast, hroot hid]
      exact congrArg some hf
    · next hne =>
      rw [if_neg hne] at hf
      rw [← Graph.isFileRoot_eq] at hid
      have hold := h.root hid hf
      rw [List.getElem?_append_left (List.getElem?_eq_some_iff.1 hold).1, hold]
  · intro id own' hown edge hedge
    rw [hg, Graph.edges_add] at hedge
    split at hedge
    · next heq =>
      rw [heq, hlast] at hown
      cases hown
      exact (hn edge hedge).mono hw [own]
    · next hne =>
      have hlt : id < writers.length := by
        have hle := (List.getElem?_eq_some_iff.1 hown).1
        rw [List.length_append, List.length_singleton] at hle
        rw [h.length] at hle ⊢
        exact Nat.lt_of_le_of_ne (Nat.le_of_lt_succ hle) hne
      rw [List.getElem?_append_left hlt] at hown
      exact (h.edges hown edge hedge).mono hw [own]

/-- What a step of building writes, whatever its outcome: the authors of its nodes, in their order,
and edges for `own` that are still to be put into a node. -/
structure Writes (lib : Library) (chain : List Path) (own : Option Path) (w w' : Workspace)
    (made : List (NodeId × Option RefSite)) (log : List (Option Path)) : Prop where
  step : Step lib chain w w'
  authored : ∀ {writers}, w.Sound lib → Authored lib w writers → Authored lib w' (writers ++ log)
  fits : ∀ {writers}, w.Sound lib → Authored lib w writers →
    ∀ edge ∈ made, Fits lib w' (writers ++ log) own edge

/-- A step that touches no node writes nothing. -/
theorem Step.writes (h : Step lib chain w w') (hg : w'.graph = w.graph)
    (hmade : ∀ c site, (c, site) ∈ made → ∃ site', site = some site' ∧
      Leads lib w' own site'.reference c) :
    Writes lib chain own w w' made [] := by
  refine ⟨h, ?_, ?_⟩
  · intro writers _ ha
    rw [List.append_nil]
    refine ⟨hg ▸ ha.length, fun hid hf => ?_, fun hown edge hedge => ?_⟩
    · rw [hg] at hid hf
      exact ha.root hid hf
    · rw [hg] at hedge
      have hfits := (ha.edges hown edge hedge).mono h.extends' []
      rwa [List.append_nil] at hfits
  · intro writers _ _ edge hedge
    obtain ⟨c, site⟩ := edge
    obtain ⟨site', rfl, hleads⟩ := hmade c site hedge
    exact hleads

theorem Step.writes_nil (h : Step lib chain w w') (hg : w'.graph = w.graph) :
    Writes lib chain own w w' [] [] :=
  h.writes hg fun _ _ hc => absurd hc List.not_mem_nil

theorem Writes.refl (lib : Library) (chain : List Path) (own : Option Path) (w : Workspace) :
    Writes lib chain own w w [] [] :=
  (Step.refl lib chain w).writes_nil rfl

theorem Writes.append (h : Writes lib chain own w w' made log)
    (h' : Writes lib chain own w' w'' made' log') :
    Writes lib chain own w w'' (made ++ made') (log ++ log') := by
  refine ⟨h.step.trans h'.step, ?_, ?_⟩
  · intro writers hs ha
    rw [← List.append_assoc]
    exact h'.authored (h.step.sound hs) (h.authored hs ha)
  · intro writers hs ha edge hedge
    rw [← List.append_assoc]
    rcases List.mem_append.1 hedge with hedge | hedge
    · exact (h.fits hs ha edge hedge).mono h'.step.extends' log'
    · exact h'.fits (h.step.sound hs) (h.authored hs ha) edge hedge

/-- Edges that nobody will put into a node do not matter. -/
theorem Writes.forget (h : Writes lib chain own w w' made log) {other : Option Path} :
    Writes lib chain other w w' [] log :=
  ⟨h.step, h.authored, fun _ _ _ hedge => absurd hedge List.not_mem_nil⟩

theorem Writes.of_cons (h : Writes lib (f :: chain) own w w' made log) :
    Writes lib chain own w w' made log :=
  ⟨h.step.of_cons, h.authored, h.fits⟩

/-- Steps that leave no edges come before and after. -/
theorem Writes.after (h' : Writes lib chain own w' w'' made log')
    (h : Writes lib chain own w w' [] log) : Writes lib chain own w w'' made (log ++ log') :=
  h.append h'

/-- The node that is added has the author of all that it refers to. -/
theorem Writes.add (h : Writes lib chain own w w' p.edges log) :
    Writes lib chain own w (add p w').2 [(w'.graph.size, none)] (log ++ [own]) := by
  have hstep : Step lib chain w' (Build.add p w').2 := step_add p w'
  refine ⟨h.step.trans hstep, ?_, ?_⟩
  · intro writers hs ha
    rw [← List.append_assoc]
    exact (h.authored hs ha).grow hstep.extends' rfl (fun hroot => absurd hroot Bool.false_ne_true)
      (h.fits hs ha)
  · intro writers hs ha edge hedge
    cases List.mem_singleton.1 hedge
    rw [Fits, ← List.append_assoc, ← (h.authored hs ha).length, List.getElem?_concat_length]

/-- The place of a file is written by the file. -/
theorem Free.writes_reserved (h : Free w chain f) (lib : Library) :
    Writes lib chain own w (reserved f w) [] [some f] := by
  have hstep := h.step_reserved lib
  refine ⟨hstep, fun _ ha => ?_, fun _ _ _ hedge => absurd hedge List.not_mem_nil⟩
  exact ha.grow hstep.extends' rfl (fun _ => rfl) fun _ hedge => absurd hedge List.not_mem_nil

/-- Filling the place of a file puts into it what the file has written. -/
theorem Writes.fill (h : Writes lib (f :: chain) (some f) (reserved f w) w' p.edges log)
    (hfree : Free w chain f) (hf : lib.locate own site.reference = .ok f) :
    Writes lib chain own w (fill w.graph.size p w').2 [(w.graph.size, some site)]
      (some f :: log) := by
  have hreserved : Writes lib chain own w (reserved f w) [] [some f] := hfree.writes_reserved lib
  have hlt : w.graph.size < (reserved f w).graph.size :=
    Nat.lt_of_lt_of_eq (Nat.lt_succ_self _) (Graph.size_add ..).symm
  have hslot : w.graph.size < w'.graph.size :=
    Nat.lt_of_lt_of_le hlt h.step.extends'.graph.size_le
  refine ⟨(hreserved.step.trans h.step.of_cons).fill (Nat.le_refl _) p, ?_, ?_⟩
  · intro writers hs ha
    have hs' := hreserved.step.sound hs
    have ha' := hreserved.authored hs ha
    have hinner := h.authored hs' ha'
    have hedges := h.fits hs' ha'
    have hown : (writers ++ [some f] ++ log)[w.graph.size]? = some (some f) := by
      rw [List.getElem?_append_left (by simp [ha.length]), ← ha.length,
        List.getElem?_concat_length]
    rw [List.append_cons]
    refine ⟨?_, ?_, ?_⟩
    · exact hinner.length.trans (Graph.size_replace ..).symm
    · intro id f' hid hf'
      exact hinner.root ((Graph.isFileRoot_replace ..).symm.trans hid)
        ((Graph.file?_replace ..).symm.trans hf')
    · intro id own' hown' edge hedge
      rw [show (Build.fill w.graph.size p w').2.graph = w'.graph.replace w.graph.size p from rfl,
        Graph.edges_replace hslot] at hedge
      split at hedge
      · next heq =>
        rw [heq, hown] at hown'
        cases hown'
        exact hedges edge hedge
      · exact hinner.edges hown' edge hedge
  · intro writers hs ha edge hedge
    cases List.mem_singleton.1 hedge
    exact ⟨f, hf, h.step.extends'.node (hfree.node?_setNode _)⟩

/-- What a build has written of a schema: what following its reference writes, or all that a
property refers to, which is put into its place then. -/
def Written (lib : Library) (chain : List Path) (own : Option Path) (s : Schema)
    (place : Property → Build NodeId) (w : Workspace) (out : Except Error NodeId × Workspace)
    (log : List (Option Path)) : Prop :=
  match s.declaredSite? with
  | some site => Writes lib chain own w out.2 (madeBy (fun id => [(id, some site)]) out.1) log
  | none => (∃ e, out.1 = .error e ∧ Writes lib chain own w out.2 [] log) ∨
      ∃ p w₁, Writes lib chain own w w₁ p.edges log ∧ out = place p w₁

/-- A node that has been added is all that is still to be put into one. -/
theorem Written.writes {out : Except Error NodeId × Workspace}
    (h : Written lib chain own s Build.add w out log) :
    Writes lib chain own w out.2 (madeBy (fun id => [(id, s.declaredSite?)]) out.1)
      (log ++ authorOf own s out.1) := by
  unfold Written at h
  split at h
  · next site hsite =>
    have hnone : authorOf own s out.1 = [] := by
      cases out.1 <;> simp [authorOf, hsite]
    rw [hsite, hnone, List.append_nil]
    exact h
  · next hsite =>
    rw [hsite]
    rcases h with ⟨e, he, h⟩ | ⟨p, w₁, h, rfl⟩
    · rw [he, authorOf, List.append_nil]
      exact h
    · have hone : authorOf own s (Build.add p w₁).1 = [own] := by
        simp [Build.add, authorOf, hsite]
      rw [hone]
      exact h.add

section schema

variable {follow : String → Build NodeId} {logs : String → Workspace → List (Option Path)}
  (hfollow : ∀ (site : RefSite) w, Writes lib chain own w (follow site.reference w).2
    (madeBy (fun id => [(id, some site)]) (follow site.reference w).1) (logs site.reference w))

include hfollow

theorem written_schema :
    (∀ place s w, Written lib chain own s place w (schema follow place s w)
      (schemaAuthors own follow logs s w)) ∧
    ∀ head index inner w, Writes lib chain own w (members follow head index inner w).2
      (madeBy (fun r => r.1.map fun m => (m.node, m.site))
        (members follow head index inner w).1) (membersAuthors own follow logs inner w) := by
  refine schema.mutual_induct
    (fun place s => ∀ w, Written lib chain own s place w (schema follow place s w)
      (schemaAuthors own follow logs s w))
    (fun head index inner => ∀ w, Writes lib chain own w (members follow head index inner w).2
      (madeBy (fun r => r.1.map fun m => (m.node, m.site))
        (members follow head index inner w).1) (membersAuthors own follow logs inner w))
    ?reference ?faulty ?leaf ?array ?object ?nil ?cons
  case reference =>
    intro place site w
    rw [schema, schemaAuthors]
    exact hfollow site w
  case faulty =>
    intro place context faults w
    rw [schemaAuthors]
    exact Or.inl ⟨_, rfl, .refl lib chain own w⟩
  case leaf =>
    intro place info leaf w
    rw [schemaAuthors]
    exact Or.inr ⟨⟨info, .leaf leaf⟩, w, .refl lib chain own w, rfl⟩
  case array =>
    intro place info items ih w
    have h := (ih w).writes
    rw [schema, schemaAuthors, bind_apply]
    generalize schema follow add items w = out at h ⊢
    obtain ⟨e | node, w'⟩ := out
    · exact Or.inl ⟨e, rfl, h⟩
    · exact Or.inr ⟨⟨info, .array node items.declaredSite?⟩, w', h, rfl⟩
  case object =>
    intro place context info head before inner after ih w
    have h := ih w
    rw [schema, schemaAuthors, bind_apply]
    generalize members follow head 0 inner w = out at h ⊢
    obtain ⟨e | ⟨found, faults⟩, w'⟩ := out
    · exact Or.inl ⟨e, rfl, h⟩
    · dsimp only
      split
      · exact Or.inr ⟨⟨info, .object head found⟩, w', h, rfl⟩
      · exact Or.inl ⟨_, rfl, h.forget⟩
  case nil =>
    intro head index w
    rw [membersAuthors]
    exact .refl lib chain own w
  case cons =>
    intro head index name s rest ih ihr w
    have h := (ih w).writes
    rw [members_cons, membersAuthors]
    generalize schema follow add s w = out at h ⊢
    obtain ⟨e | node, w'⟩ := out
    · cases e with
      | structural context faults =>
        have hrest := ihr w'
        simp only [bind_apply]
        generalize members follow head (index + 1) rest w' = out at hrest ⊢
        obtain ⟨e | r, w''⟩ := out
        · exact hrest.after h
        · exact hrest.after h
      | _ =>
        simp only [List.append_nil]
        exact h
    · have hrest := ihr w'
      simp only [bind_apply]
      generalize members follow head (index + 1) rest w' = out at hrest ⊢
      obtain ⟨e | r, w''⟩ := out
      · exact hrest.after h.forget
      · exact h.append hrest

end schema

/-- A reference that is done with its file at once writes nothing. -/
theorem writes_done {out : Except Error NodeId}
    (hout : reference lib chain own target w =
      (out, { w with registry := (w.registry.resolve lib own target).2 }))
    (hsite : site.reference = target) :
    Writes lib chain own w (reference lib chain own target w).2
      (madeBy (fun id => [(id, some site)]) (reference lib chain own target w).1) [] := by
  obtain ⟨hstep, hleads⟩ := follows_reference lib chain own target w
  refine hstep.writes (congrArg (fun out => out.2.graph) hout) fun c site' hc => ?_
  generalize reference lib chain own target w = out at hleads hc ⊢
  obtain ⟨e | id, w'⟩ := out
  · exact absurd hc List.not_mem_nil
  · cases List.mem_singleton.1 hc
    exact ⟨site, rfl, hsite ▸ hleads _ rfl⟩

/-- Following a reference leaves an edge to the node of the file that it names, and all that is
written on the way is written by the files that it leads through. -/
theorem writes_reference (lib : Library) (chain : List Path) (own : Option Path) (target : String)
    (w : Workspace) (site : RefSite) (hsite : site.reference = target) :
    Writes lib chain own w (reference lib chain own target w).2
      (madeBy (fun id => [(id, some site)]) (reference lib chain own target w).1)
      (referenceAuthors lib chain own target w) := by
  induction chain, own, target, w using reference.induct lib generalizing site with
  | case1 chain own target w e r hr =>
    rw [referenceAuthors_done fun _ _ h => by rw [hr] at h; cases h]
    exact writes_done (by rw [reference_error hr, hr]) hsite
  | case2 chain own target w found r hr node hn =>
    rw [referenceAuthors_done fun _ _ h hn' => by rw [hr] at h; cases h; simp [hn] at hn']
    exact writes_done (by rw [reference_known hr hn, hr]) hsite
  | case3 chain own target w found r hr hn hc =>
    rw [referenceAuthors_done fun _ _ h _ => by rw [hr] at h; cases h; exact hc]
    exact writes_done (by rw [reference_circular hr hn hc, hr]) hsite
  | case4 chain own target w found r hr hn hc ih =>
    have hc := eq_false_of_ne_true hc
    have hfree := free_of_resolve hr hn hc
    have hstep := step_resolve lib chain w own target
    rw [hr] at hstep
    obtain ⟨hf, -⟩ := Registry.resolve_ok hr
    have hresolved : Writes lib chain own w { w with registry := r } [] [] := hstep.writes_nil rfl
    cases hs : (Schema.ofDocument found.document).declaredSite? with
    | some next =>
      have hnext := Schema.eq_reference hs
      have hleads := (follows_reference lib chain own target w).2
      have hinner := ih next.reference { w with registry := r } next rfl
      have hnode := (follows_reference lib (found.file :: chain) (some found.file) next.reference
        { w with registry := r }).2
      rw [referenceAuthors_alias hr hn hc hnext]
      rw [reference_alias hr hn hc hnext, bind_apply] at hleads ⊢
      generalize reference lib (found.file :: chain) (some found.file) next.reference
        { w with registry := r } = out at hinner hnode hleads ⊢
      obtain ⟨e | node, w'⟩ := out
      · exact hinner.of_cons.forget.after hresolved
      · obtain ⟨g, -, hg⟩ := hnode node rfl
        have hrecord : Step lib chain w' (record found.file node w').2 :=
          (hfree.of_step hinner.step).step_record hg
        have hedge : Writes lib chain own w' (record found.file node w').2 [(node, some site)] [] :=
          hrecord.writes rfl fun c site' hc => by
            cases List.mem_singleton.1 hc
            exact ⟨site, rfl, hsite ▸ hleads node rfl⟩
        have hdone := (hedge.after hinner.of_cons.forget).after hresolved
        rwa [List.append_nil] at hdone
    | none =>
      rw [referenceAuthors_typed hr hn hc hs, reference_typed hr hn hc hs]
      have hwritten := (written_schema fun next w => ih next.reference w next rfl).1
        (fill w.graph.size) (Schema.ofDocument found.document)
        (reserved found.file { w with registry := r })
      unfold Written at hwritten
      rw [hs] at hwritten
      generalize schema (reference lib (found.file :: chain) (some found.file)) (fill w.graph.size)
        (Schema.ofDocument found.document) (reserved found.file { w with registry := r }) = out
        at hwritten ⊢
      rcases hwritten with ⟨e, he, h⟩ | ⟨p, w₁, h, rfl⟩
      · rw [he]
        have hplace : Writes lib chain own { w with registry := r } _ [] [some found.file] :=
          hfree.writes_reserved lib
        exact (h.of_cons.forget.after hplace).after hresolved
      · exact (h.fill hfree (hsite ▸ hf)).after hresolved

/-- A call keeps track of the authors. -/
theorem authored_run (c : Call) (hs : w.Sound lib) (ha : Authored lib w writers) :
    Authored lib (c.run lib w).2 (writers ++ c.authors lib w) := by
  cases c with
  | load target =>
    have h := writes_reference lib [] none target w ⟨target, none⟩ rfl
    rw [Call.run, load_apply, Call.authors]
    generalize reference lib [] none target w = out at h ⊢
    obtain ⟨e | id, w'⟩ := out
    · exact h.authored hs ha
    · exact (h.authored hs ha).settled (h.step.sound hs) id none
  | document file d =>
    have h := ((written_schema fun site w =>
      writes_reference lib [] file site.reference w site rfl).1 add (Schema.ofDocument d) w).writes
    rw [Call.run, document_apply, Call.authors]
    generalize schema (reference lib [] file) add (Schema.ofDocument d) w = out at h ⊢
    obtain ⟨e | id, w'⟩ := out
    · exact h.authored hs ha
    · exact (h.authored hs ha).settled (h.step.sound hs) id file

end Build

namespace Workspace

open Build

/-- The authors of all nodes that a row of calls makes, from a workspace on. -/
def authors (lib : Library) : Workspace → List Call → List (Option Path)
  | _, [] => []
  | w, c :: calls => c.authors lib w ++ authors lib (c.run lib w).2 calls

/-- After a row of calls, whatever their outcomes, each node has its author. -/
theorem authored_after (lib : Library) (calls : List Call) :
    Authored lib (after lib calls) (authors lib .empty calls) := by
  have hfoldl : ∀ w writers, w.Sound lib → Authored lib w writers →
      Authored lib (calls.foldl (fun w c => (c.run lib w).2) w)
        (writers ++ authors lib w calls) := by
    induction calls with
    | nil =>
      intro w writers _ ha
      rw [authors, List.append_nil]
      exact ha
    | cons c calls ih =>
      intro w writers hs ha
      rw [authors, ← List.append_assoc]
      exact ih _ _ ((step_run lib c w).sound hs) (authored_run c hs ha)
  exact hfoldl .empty [] (sound_empty lib) (authored_empty lib)

end Workspace

end SchemaForge
