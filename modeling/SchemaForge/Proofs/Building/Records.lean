import SchemaForge.Proofs.Building.Roots
import SchemaForge.Proofs.Faults
import SchemaForge.Proofs.Linking
/-! What nodes record of the documents that they were built from. Each node has a document, which a
file holds, or which was handed over, or which lies inside the document of another node. -/
namespace SchemaForge

open Schema

/-- The documents that building may meet: those of files, those that are handed over, and what lies
inside them. -/
inductive Library.Offers (lib : Library) (handed : Document → Prop) : Document → Prop
  | file {f : Path} {d : Document} : lib.Reads f d → Offers lib handed d
  | handed {d : Document} : handed d → Offers lib handed d
  | items {d e : Document} :
      Offers lib handed d → d.document? "items" = some e → Offers lib handed e
  | member {d : Document} {name : String} {ms : Members} :
      Offers lib handed d → (name, .object ms) ∈ d.declared → Offers lib handed ⟨ms⟩

/-- The members of an object, as the documents of its `properties` have them, from an index on. A
member without reference is a node with just this document. -/
inductive RecordsMembers (docs : List Document) (head : ObjectHead) :
    Nat → Members → List Member → Prop
  | nil {index : Nat} : RecordsMembers docs head index [] []
  | cons {index : Nat} {name : String} {ms : Members} {node : NodeId} {rest : Members}
      {found : List Member} : (site? ⟨ms⟩ = none → docs[node]? = some ⟨ms⟩) →
      RecordsMembers docs head (index + 1) rest found →
      RecordsMembers docs head index ((name, .object ms) :: rest)
        (⟨name, index, !head.requires name, node, site? ⟨ms⟩⟩ :: found)

/-- What a node holds that was built from a document. The documents of all nodes are known. -/
inductive Records (docs : List Document) (d : Document) : Property → Prop
  | leaf {info : Info} {l : Leaf} : ofDocument d = .leaf info l → Records docs d ⟨info, .leaf l⟩
  | array {e : Document} {node : NodeId} : d.document? "items" = some e →
      (site? e = none → docs[node]? = some e) →
      Records docs d ⟨info d, .array node (site? e)⟩
  | object {found : List Member} : d.requiredFaults = [] → d.idFaults = [] →
      RecordsMembers docs (head d) 0 d.declared found →
      Records docs d ⟨info d, .object (head d) found⟩

variable {lib : Library} {handed : Document → Prop} {docs : List Document} {d e : Document}
  {p : Property} {w w' w'' : Workspace} {chain : List Path} {f : Path} {id : NodeId} {s : Schema}
  {head : ObjectHead} {index : Nat} {members : Members} {found : List Member}

theorem getElem?_append_some (h : docs[id]? = some d) (more : List Document) :
    (docs ++ more)[id]? = some d := by
  rw [List.getElem?_append_left (List.getElem?_eq_some_iff.1 h).1, h]

theorem RecordsMembers.append (h : RecordsMembers docs head index members found)
    (more : List Document) : RecordsMembers (docs ++ more) head index members found := by
  induction h with
  | nil => exact .nil
  | cons hnode _ ih => exact .cons (fun hs => getElem?_append_some (hnode hs) more) ih

theorem Records.append (h : Records docs d p) (more : List Document) :
    Records (docs ++ more) d p := by
  cases h with
  | leaf hs => exact .leaf hs
  | array he hnode => exact .array he fun hs => getElem?_append_some (hnode hs) more
  | object hrequired hid hfound => exact .object hrequired hid (hfound.append more)

/-- Each member stands where its document stands among the `properties`. -/
theorem RecordsMembers.get (h : RecordsMembers docs head index members found) :
    found.map Member.name = Members.keys members ∧
      ∀ (k : Nat) (m : Member), found[k]? = some m → m.index = index + k ∧
        m.optional = !head.requires m.name ∧ ∃ ms, members[k]? = some (m.name, .object ms) ∧
          m.site = site? ⟨ms⟩ ∧ (m.site = none → docs[m.node]? = some ⟨ms⟩) := by
  induction h with
  | nil => exact ⟨rfl, fun k m hm => by cases hm⟩
  | cons hnode _ ih =>
    obtain ⟨hnames, hget⟩ := ih
    refine ⟨by rw [List.map_cons, hnames]; rfl, fun k m hm => ?_⟩
    cases k with
    | zero =>
      cases hm
      exact ⟨rfl, rfl, _, rfl, rfl, hnode⟩
    | succ k =>
      obtain ⟨hindex, hrest⟩ := hget k m hm
      exact ⟨by omega, hrest⟩

namespace Schema

/-- The forms that the schema of a document may have. -/
theorem ofDocument_cases (d : Document) :
    (∃ site, ofDocument d = .reference site) ∨ (∃ c faults, ofDocument d = .faulty c faults) ∨
    (∃ info l, ofDocument d = .leaf info l) ∨
    (∃ e, d.document? "items" = some e ∧ ofDocument d = .array (info d) (ofDocument e)) ∨
    ofDocument d = .object (context d) (Schema.info d) (Schema.head d)
      (d.requiredFaults ++ d.propertiesFaults) (ofMembers d.declared) d.idFaults := by
  cases hs : site? d with
  | some site => exact Or.inl ⟨site, ofDocument_site hs⟩
  | none =>
    refine Or.inr ?_
    cases hk : d.kind? with
    | none => exact Or.inl ⟨_, _, ofDocument_of_no_kind hs hk⟩
    | some kind =>
      by_cases ho : kind = .object
      · subst ho
        exact Or.inr (Or.inr (Or.inr (ofDocument_object hs hk)))
      · by_cases ha : kind = .array
        · subst ha
          rw [ofDocument_array hs hk]
          cases he : d.document? "items" with
          | none => exact Or.inl ⟨_, _, rfl⟩
          | some e => exact Or.inr (Or.inr (Or.inl ⟨e, rfl, rfl⟩))
        · obtain ⟨info, l, hl⟩ := ofDocument_leaf hs hk ho ha
          rw [hl, ofFaults]
          split
          · exact Or.inr (Or.inl ⟨info, l, rfl⟩)
          · exact Or.inl ⟨_, _, rfl⟩

theorem eq_of_ofDocument_array {info : Info} {items : Schema}
    (h : ofDocument d = .array info items) :
    info = Schema.info d ∧ ∃ e, d.document? "items" = some e ∧ items = ofDocument e := by
  rcases ofDocument_cases d with ⟨_, hd⟩ | ⟨_, _, hd⟩ | ⟨_, _, hd⟩ | ⟨e, he, hd⟩ | hd
  all_goals rw [hd] at h; cases h
  exact ⟨rfl, e, he, rfl⟩

theorem eq_of_ofDocument_object {context : String} {info : Info} {before after : List Fault}
    {inner : List (String × Schema)}
    (h : ofDocument d = .object context info head before inner after) :
    info = Schema.info d ∧ head = Schema.head d ∧
      before = d.requiredFaults ++ d.propertiesFaults ∧ inner = ofMembers d.declared ∧
      after = d.idFaults := by
  rcases ofDocument_cases d with ⟨_, hd⟩ | ⟨_, _, hd⟩ | ⟨_, _, hd⟩ | ⟨e, he, hd⟩ | hd
  all_goals rw [hd] at h; cases h
  exact ⟨rfl, rfl, rfl, rfl, rfl⟩

/-- A member is read by the rules for documents, or it is at fault for being none. -/
theorem ofMembers_cons (name : String) (value : Json) (more : Members) :
    ∃ s, ofMembers ((name, value) :: more) = (name, s) :: ofMembers more ∧
      ((∃ ms, value = .object ms ∧ s = ofDocument ⟨ms⟩) ∨
        ∃ context faults, s = .faulty context faults ∧ faults ≠ []) := by
  by_cases hvalue : ∃ ms, value = .object ms
  · obtain ⟨ms, rfl⟩ := hvalue
    exact ⟨_, by rw [ofMembers], Or.inl ⟨ms, rfl, rfl⟩⟩
  · refine ⟨.faulty name [.memberNotObject value.kind], ?_, Or.inr ⟨_, _, rfl, List.cons_ne_nil _ _⟩⟩
    rw [ofMembers]
    exact fun ms heq => hvalue ⟨ms, heq⟩

end Schema

namespace Build

/-- A workspace whose nodes record the documents that they were built from. A place that is reserved
for a file has the document of the file. -/
structure Documented (lib : Library) (handed : Document → Prop) (w : Workspace)
    (docs : List Document) : Prop where
  sound : w.Sound lib
  length : docs.length = w.graph.size
  offered : ∀ d ∈ docs, lib.Offers handed d
  root : ∀ {id f}, w.graph.isFileRoot id = true → w.graph.file? id = some f →
    ∃ d, docs[id]? = some d ∧ lib.Reads f d
  records : ∀ {id d p}, docs[id]? = some d → w.graph.property? id = some p →
    p = .reserved ∧ w.graph.isFileRoot id = true ∨ Records docs d p

theorem documented_empty : Documented lib handed .empty [] := by
  refine ⟨Workspace.sound_empty lib, rfl, fun _ h => absurd h List.not_mem_nil, fun h => ?_,
    fun h => by cases h⟩
  exact absurd (Graph.lt_of_isFileRoot h) (Nat.not_lt_zero _)

/-- Nodes may learn where they stand, and files may get nodes. -/
theorem Documented.learn (h : Documented lib handed w docs) (hs : w'.Sound lib)
    (hg : w.graph.Extends w'.graph) (hsize : w'.graph.size = w.graph.size) :
    Documented lib handed w' docs := by
  refine ⟨hs, h.length.trans hsize.symm, h.offered, fun {id f} hroot hf => ?_,
    fun {id d p} hd hp => ?_⟩
  · rw [hg.isFileRoot hsize] at hroot
    obtain ⟨f', hf', -⟩ := h.sound.root hroot
    rw [hg.file hf'] at hf
    cases hf
    exact h.root hroot hf'
  · rw [hg.property?_eq hsize] at hp
    rw [hg.isFileRoot hsize]
    exact h.records hd hp

/-- A node is added at the end, with its document. -/
theorem Documented.grow (h : Documented lib handed w docs) (hs : w'.Sound lib) {n : Node}
    (hg : w'.graph = w.graph.add n) (hd : lib.Offers handed d)
    (hroot : n.fileRoot = true → ∀ f, n.file = some f → lib.Reads f d)
    (hn : n.property = .reserved ∧ n.fileRoot = true ∨ Records docs d n.property) :
    Documented lib handed w' (docs ++ [d]) := by
  have hextends := Graph.extends_add w.graph n
  have hlast : (docs ++ [d])[w.graph.size]? = some d := by
    rw [← h.length, List.getElem?_concat_length]
  have hold : ∀ {id d'}, (docs ++ [d])[id]? = some d' → id ≠ w.graph.size →
      id < w.graph.size ∧ docs[id]? = some d' := by
    intro id d' hd' hne
    have hlt := (List.getElem?_eq_some_iff.1 hd').1
    rw [List.length_append, List.length_singleton, h.length] at hlt
    have hlt : id < w.graph.size := by omega
    rw [List.getElem?_append_left (h.length ▸ hlt)] at hd'
    exact ⟨hlt, hd'⟩
  refine ⟨hs, ?_, fun d' hd' => ?_, fun {id f} hid hf => ?_, fun {id d' p} hd' hp => ?_⟩
  · rw [hg, Graph.size_add, List.length_append, h.length, List.length_singleton]
  · rcases List.mem_append.1 hd' with hd' | hd'
    · exact h.offered d' hd'
    · rw [List.mem_singleton.1 hd']
      exact hd
  · rw [hg] at hid hf
    by_cases hnew : id = w.graph.size
    · subst hnew
      rw [Graph.isFileRoot_add] at hid
      rw [Graph.file?, Graph.node?_add, if_pos rfl] at hf
      exact ⟨d, hlast, hroot hid f hf⟩
    · have hlt : id < w.graph.size := by
        have := Graph.lt_of_isFileRoot hid
        rw [Graph.size_add] at this
        unfold NodeId at *
        omega
      rw [hextends.fileRoot hlt] at hid
      rw [Graph.file?, Graph.node?_add, if_neg hnew] at hf
      obtain ⟨d', hd', hreads⟩ := h.root hid hf
      exact ⟨d', getElem?_append_some hd' [d], hreads⟩
  · rw [hg] at hp ⊢
    by_cases hnew : id = w.graph.size
    · subst hnew
      rw [hlast] at hd'
      cases hd'
      rw [Graph.property?_add] at hp
      cases hp
      rw [Graph.isFileRoot_add]
      exact hn.imp_right fun hrecords => hrecords.append [d]
    · obtain ⟨hlt, hd'⟩ := hold hd' hnew
      rw [hextends.property hlt] at hp
      rw [hextends.fileRoot hlt]
      exact (h.records hd' hp).imp_right fun hrecords => hrecords.append [d]

/-- A place is filled with what its document says. -/
theorem Documented.fill (h : Documented lib handed w docs) (hd : docs[id]? = some d)
    (hp : Records docs d p) :
    Documented lib handed (Build.fill id p w).2 docs := by
  have hg : (Build.fill id p w).2.graph = w.graph.replace id p := rfl
  have hlt : id < w.graph.size := h.length ▸ (List.getElem?_eq_some_iff.1 hd).1
  refine ⟨sound_fill h.sound id p, h.length.trans (Graph.size_replace ..).symm, h.offered,
    fun {id' f} hroot hf => ?_, fun {id' d' p'} hd' hp' => ?_⟩
  · rw [hg, Graph.isFileRoot_replace] at hroot
    rw [hg, Graph.file?_replace] at hf
    exact h.root hroot hf
  · rw [hg] at hp' ⊢
    rw [Graph.isFileRoot_replace]
    by_cases heq : id = id'
    · subst heq
      rw [Graph.property?_replace _ _ hlt] at hp'
      rw [hd] at hd'
      cases hd'
      cases hp'
      exact Or.inr hp
    · rw [Graph.property?_replace_ne _ _ heq] at hp'
      exact h.records hd' hp'

/-- A step of building adds nodes with their documents. -/
def Enters (lib : Library) (handed : Document → Prop) (w w' : Workspace) : Prop :=
  ∀ docs, Documented lib handed w docs → ∃ more, Documented lib handed w' (docs ++ more)

theorem Enters.trans (h : Enters lib handed w w') (h' : Enters lib handed w' w'') :
    Enters lib handed w w'' := by
  intro docs hd
  obtain ⟨more, hmore⟩ := h docs hd
  obtain ⟨more', hmore'⟩ := h' _ hmore
  rw [List.append_assoc] at hmore'
  exact ⟨more ++ more', hmore'⟩

/-- A step that adds no node. -/
theorem Step.enters (h : Step lib chain w w') (hsize : w'.graph.size = w.graph.size) :
    Enters lib handed w w' := by
  intro docs hd
  refine ⟨[], ?_⟩
  rw [List.append_nil]
  exact hd.learn (h.sound hd.sound) h.extends'.graph hsize

/-- What has been built of a document: whatever its reference leads to, or all that it refers to,
with a property that is put into its place then. -/
def Recorded (lib : Library) (handed : Document → Prop) (d : Document)
    (place : Property → Build NodeId) (w : Workspace) (out : Except Error NodeId × Workspace) :
    Prop :=
  ∀ docs, Documented lib handed w docs → ∃ more,
    match site? d with
    | some _ => Documented lib handed out.2 (docs ++ more)
    | none => (∃ e, out.1 = .error e ∧ Documented lib handed out.2 (docs ++ more)) ∨
        ∃ p w₁, Documented lib handed w₁ (docs ++ more) ∧ Records (docs ++ more) d p ∧
          out = place p w₁

/-- A node that has been added has its document. -/
theorem Recorded.added {out : Except Error NodeId × Workspace}
    (h : Recorded lib handed d add w out) (hd : lib.Offers handed d)
    (hdocs : Documented lib handed w docs) :
    ∃ more, Documented lib handed out.2 (docs ++ more) ∧
      ∀ id, out.1 = .ok id → site? d = none → (docs ++ more)[id]? = some d := by
  obtain ⟨more, hmore⟩ := h docs hdocs
  cases hs : site? d with
  | some site =>
    rw [hs] at hmore
    exact ⟨more, hmore, fun _ _ hnone => by cases hnone⟩
  | none =>
    rw [hs] at hmore
    rcases hmore with ⟨e, he, hw⟩ | ⟨p, w₁, hw, hrecords, rfl⟩
    · refine ⟨more, hw, fun id hid => ?_⟩
      rw [he] at hid
      cases hid
    · refine ⟨more ++ [d], ?_, fun id hid _ => ?_⟩
      · rw [← List.append_assoc]
        have hstep : Step lib [] w₁ (add p w₁).2 := step_add p w₁
        exact hw.grow (hstep.sound hw.sound) rfl hd
          (fun hroot => absurd hroot Bool.false_ne_true) (Or.inr hrecords)
      · cases hid
        rw [← List.append_assoc, ← hw.length, List.getElem?_concat_length]

theorem members_faulty (follow : String → Build NodeId) (head : ObjectHead) (index : Nat)
    (name context : String) (faults : List Fault) (rest : List (String × Schema)) (w : Workspace) :
    Build.members follow head index ((name, .faulty context faults) :: rest) w =
      (Build.members follow head (index + 1) rest >>= fun r =>
        pure (r.1, faults.map (.within name) ++ r.2)) w := by
  rw [members_cons]
  rfl

/-- What is done with the outcome of a build alone touches no workspace. -/
theorem bind_pure_snd {α β : Type} (b : Build α) (f : α → β) (w : Workspace) :
    ((b >>= fun r => pure (f r)) w).2 = (b w).2 := by
  rw [bind_apply]
  generalize b w = out
  obtain ⟨e | r, w'⟩ := out <;> rfl

/-- The faults of a member are not lost. -/
theorem bind_faults_ne {faults : List Fault} (hne : faults ≠ []) (name : String)
    (b : Build (List Member × List Fault)) (w : Workspace) (found : List Member) :
    ((b >>= fun r => pure (r.1, faults.map (.within name) ++ r.2)) w).1 ≠ .ok (found, []) := by
  intro h
  rw [bind_apply] at h
  generalize b w = out at h
  obtain ⟨e | r, w'⟩ := out
  · cases h
  · have hfaults := congrArg (Except.map Prod.snd) h
    simp [pure_apply, Except.map, hne] at hfaults

section schema

variable {follow : String → Build NodeId} (hcandid : ∀ target, Candid (follow target))
  (hfollow : ∀ target, Keeps (Enters lib handed) (follow target))

include hcandid hfollow

theorem recorded_schema :
    (∀ place s d, s = ofDocument d → lib.Offers handed d → ∀ w,
      Recorded lib handed d place w (schema follow place s w)) ∧
    ∀ head index inner members, inner = ofMembers members →
      (∀ name ms, (name, .object ms) ∈ members → lib.Offers handed ⟨ms⟩) → ∀ w docs,
      Documented lib handed w docs → ∃ more,
        Documented lib handed (Build.members follow head index inner w).2 (docs ++ more) ∧
        ∀ found, (Build.members follow head index inner w).1 = .ok (found, []) →
          RecordsMembers (docs ++ more) head index members found := by
  refine schema.mutual_induct
    (fun place s => ∀ d, s = ofDocument d → lib.Offers handed d → ∀ w,
      Recorded lib handed d place w (schema follow place s w))
    (fun head index inner => ∀ members, inner = ofMembers members →
      (∀ name ms, (name, .object ms) ∈ members → lib.Offers handed ⟨ms⟩) → ∀ w docs,
      Documented lib handed w docs → ∃ more,
        Documented lib handed (Build.members follow head index inner w).2 (docs ++ more) ∧
        ∀ found, (Build.members follow head index inner w).1 = .ok (found, []) →
          RecordsMembers (docs ++ more) head index members found)
    ?reference ?faulty ?leaf ?array ?object ?nil ?cons
  case reference =>
    intro place site d hd _ w docs hdocs
    have hsite : site? d = some site := by rw [← declaredSite?_ofDocument, ← hd]; rfl
    obtain ⟨more, h⟩ := hfollow site.reference w docs hdocs
    refine ⟨more, ?_⟩
    rw [hsite]
    exact h
  case faulty =>
    intro place context faults d hd _ w docs hdocs
    have hsite : site? d = none := by rw [← declaredSite?_ofDocument, ← hd]; rfl
    refine ⟨[], ?_⟩
    rw [hsite, List.append_nil]
    exact Or.inl ⟨_, rfl, hdocs⟩
  case leaf =>
    intro place info leaf d hd _ w docs hdocs
    have hsite : site? d = none := by rw [← declaredSite?_ofDocument, ← hd]; rfl
    refine ⟨[], ?_⟩
    rw [hsite, List.append_nil]
    exact Or.inr ⟨_, w, hdocs, .leaf hd.symm, rfl⟩
  case array =>
    intro place info items ih d hd hoffers w docs hdocs
    have hsite : site? d = none := by rw [← declaredSite?_ofDocument, ← hd]; rfl
    obtain ⟨rfl, e, he, rfl⟩ := eq_of_ofDocument_array hd.symm
    obtain ⟨more, h, hnode⟩ := (ih e rfl (hoffers.items he) w).added (hoffers.items he) hdocs
    refine ⟨more, ?_⟩
    rw [hsite, schema, bind_apply]
    generalize schema follow add (ofDocument e) w = out at h hnode ⊢
    obtain ⟨e | node, w'⟩ := out
    · exact Or.inl ⟨_, rfl, h⟩
    · refine Or.inr ⟨_, w', h, ?_, rfl⟩
      rw [declaredSite?_ofDocument]
      exact .array he fun hs => hnode node rfl hs
  case object =>
    intro place context info head before inner after ih d hd hoffers w docs hdocs
    have hsite : site? d = none := by rw [← declaredSite?_ofDocument, ← hd]; rfl
    obtain ⟨rfl, rfl, rfl, rfl, rfl⟩ := eq_of_ofDocument_object hd.symm
    obtain ⟨more, h, hfound⟩ := ih d.declared rfl (fun name ms hms => hoffers.member hms) w docs hdocs
    refine ⟨more, ?_⟩
    rw [hsite, schema, bind_apply]
    generalize Build.members follow (Schema.head d) 0 (ofMembers d.declared) w = out
      at h hfound ⊢
    obtain ⟨e | ⟨found, faults⟩, w'⟩ := out
    · exact Or.inl ⟨_, rfl, h⟩
    · dsimp only
      split
      · next hempty =>
        simp only [List.isEmpty_iff, List.append_eq_nil_iff] at hempty
        obtain ⟨⟨⟨hrequired, -⟩, rfl⟩, hid⟩ := hempty
        exact Or.inr ⟨_, w', h, .object hrequired hid (hfound found rfl), rfl⟩
      · exact Or.inl ⟨_, rfl, h⟩
  case nil =>
    intro head index members hmembers _ w docs hdocs
    refine ⟨[], ?_, fun found hfound => ?_⟩
    · rw [List.append_nil]
      exact hdocs
    · cases hfound
      cases members with
      | nil => exact .nil
      | cons m more =>
        obtain ⟨s, hcons, -⟩ := ofMembers_cons m.1 m.2 more
        rw [hcons] at hmembers
        cases hmembers
  case cons =>
    intro head index name s rest ih ihr members hmembers hoffers w docs hdocs
    cases members with
    | nil => rw [ofMembers] at hmembers; cases hmembers
    | cons m rest =>
      obtain ⟨name, value⟩ := m
      obtain ⟨s, hcons, hs⟩ := ofMembers_cons name value rest
      rw [hcons] at hmembers
      cases hmembers
      have hrest : ∀ name ms, (name, .object ms) ∈ rest → lib.Offers handed ⟨ms⟩ :=
        fun name ms hms => hoffers name ms (List.mem_cons_of_mem _ hms)
      rcases hs with ⟨ms, rfl, rfl⟩ | ⟨context, faults, rfl, hne⟩
      · have hms := hoffers name ms List.mem_cons_self
        obtain ⟨more, h, hnode⟩ := (ih ⟨ms⟩ rfl hms w).added hms hdocs
        have hnone := (candid_schema hcandid).1 add _ (candid_ofDocument.1 ⟨ms⟩) candid_add w
        rw [members_cons]
        generalize schema follow add (ofDocument ⟨ms⟩) w = out at h hnode hnone ⊢
        obtain ⟨e | node, w'⟩ := out
        · cases e with
          | structural context faults =>
            obtain ⟨more', h', -⟩ := ihr rest rfl hrest w' _ h
            rw [List.append_assoc] at h'
            dsimp only
            rw [bind_pure_snd]
            exact ⟨more ++ more', h', fun _ hfound =>
              (bind_faults_ne (hnone context faults w' rfl) _ _ _ _ hfound).elim⟩
          | _ => exact ⟨more, h, fun _ hfound => by cases hfound⟩
        · obtain ⟨more', h', hmore⟩ := ihr rest rfl hrest w' _ h
          rw [List.append_assoc] at h' hmore
          refine ⟨more ++ more', ?_⟩
          simp only [bind_apply]
          generalize Build.members follow head (index + 1) (ofMembers rest) w' = out at h' hmore ⊢
          obtain ⟨e | ⟨found, faults⟩, w''⟩ := out
          · exact ⟨h', fun _ hfound => by cases hfound⟩
          · refine ⟨h', fun found' hfound => ?_⟩
            cases hfound
            rw [declaredSite?_ofDocument]
            refine .cons (fun hs => ?_) (hmore found rfl)
            rw [← List.append_assoc]
            exact getElem?_append_some (hnode node rfl hs) more'
      · obtain ⟨more, h, -⟩ := ihr rest rfl hrest w docs hdocs
        rw [members_faulty, bind_pure_snd]
        exact ⟨more, h, fun _ hfound => (bind_faults_ne hne _ _ _ _ hfound).elim⟩

end schema

/-- Following a reference adds nodes with the documents of the files that it leads through. -/
theorem enters_reference (hl : lib.Regular) (chain : List Path) (referrer : Option Path)
    (target : String) : Keeps (Enters lib handed) (reference lib chain referrer target) := by
  intro w
  induction chain, referrer, target, w using reference_induction lib with
  | done chain referrer target w out hout _ _ =>
    rw [hout]
    exact (step_resolve lib chain w referrer target).enters rfl
  | untyped chain referrer target w found r site hr hfree _ hout ih =>
    have hstep := step_resolve lib chain w referrer target
    rw [hr] at hstep
    have hresolved : Enters lib handed w { w with registry := r } := hstep.enters rfl
    have hfollows := follows_reference lib (found.file :: chain) (some found.file) site.reference
      { w with registry := r }
    have hnext := ih site.reference { w with registry := r }
    rw [hout, bind_apply]
    generalize reference lib (found.file :: chain) (some found.file) site.reference
      { w with registry := r } = out at hfollows hnext ⊢
    obtain ⟨e | node, w'⟩ := out
    · exact hresolved.trans hnext
    · obtain ⟨hfollowed, hleads⟩ := hfollows
      obtain ⟨g, -, hnode⟩ := hleads node rfl
      have hrecord : Step lib chain w' (record found.file node w').2 :=
        (hfree.of_step hfollowed).step_record hnode
      exact (hresolved.trans hnext).trans (hrecord.enters rfl)
  | typed chain referrer target w found r hr hfree hs hout ih =>
    have hstep := step_resolve lib chain w referrer target
    rw [hr] at hstep
    intro docs hdocs
    have hresolved : Documented lib handed { w with registry := r } docs :=
      hdocs.learn (hstep.sound hdocs.sound) hstep.extends'.graph rfl
    have hreads := reads_of_resolve hl hr hresolved.sound
    have hplace : Documented lib handed (reserved found.file { w with registry := r })
        (docs ++ [found.document]) := by
      refine hresolved.grow ((hfree.step_reserved lib).sound hresolved.sound) rfl (.file hreads)
        (fun _ f hf => ?_) (Or.inl ⟨rfl, rfl⟩)
      cases hf
      exact hreads
    have hslot : (docs ++ [found.document])[w.graph.size]? = some found.document := by
      rw [← hdocs.length, List.getElem?_concat_length]
    obtain ⟨more, h⟩ := (recorded_schema (candid_reference hl _ _) fun target w => ih target w).1
      (fill w.graph.size) _ found.document rfl (.file hreads)
      (reserved found.file { w with registry := r }) _ hplace
    rw [declaredSite?_ofDocument] at hs
    rw [hs] at h
    refine ⟨found.document :: more, ?_⟩
    rw [hout, List.append_cons]
    rcases h with ⟨e, -, h⟩ | ⟨p, w₁, h, hrecords, hplaced⟩
    · exact h
    · rw [hplaced]
      exact h.fill (getElem?_append_some hslot more) hrecords

/-- A call adds nodes with their documents, whatever its outcome. -/
theorem enters_run (hl : lib.Regular) (c : Call)
    (hc : ∀ file d, c = .document file d → handed d) : Keeps (Enters lib handed) (c.run lib) := by
  intro w
  have hsettled : ∀ w id file, Enters lib handed w { w with graph := settled w.graph id file } :=
    fun w id file => (step_settled lib [] w id file).enters (size_settled w.graph id file)
  cases c with
  | load target =>
    have h : Enters lib handed w _ := enters_reference hl [] none target w
    rw [Call.run, load_apply]
    generalize reference lib [] none target w = out at h ⊢
    obtain ⟨e | id, w'⟩ := out
    · exact h
    · exact h.trans (hsettled w' id none)
  | document file d =>
    have hoffers : lib.Offers handed d := .handed (hc file d rfl)
    have h : Enters lib handed w (schema (reference lib [] file) add (ofDocument d) w).2 := by
      intro docs hdocs
      obtain ⟨more, h, -⟩ := ((recorded_schema (candid_reference hl _ _)
        (enters_reference hl [] file)).1 add _ d rfl hoffers w).added hoffers hdocs
      exact ⟨more, h⟩
    rw [Call.run, document_apply]
    generalize schema (reference lib [] file) add (ofDocument d) w = out at h ⊢
    obtain ⟨e | id, w'⟩ := out
    · exact h
    · exact h.trans (hsettled w' id file)

end Build

namespace Workspace

open Build

/-- After a row of calls, whatever their outcomes, each node has the document that it was built
from. -/
theorem documented_after (hl : lib.Regular) (calls : List Call) :
    ∃ docs, Documented lib (fun d => ∃ file, .document file d ∈ calls) (after lib calls) docs := by
  have hfoldl : ∀ (more : List Call), more ⊆ calls → ∀ w,
      Enters lib (fun d => ∃ file, .document file d ∈ calls) w
        (more.foldl (fun w c => (c.run lib w).2) w) := by
    intro more
    induction more with
    | nil =>
      intro _ w docs h
      refine ⟨[], ?_⟩
      rw [List.append_nil]
      exact h
    | cons c more ih =>
      intro hsub w
      obtain ⟨hc, hsub⟩ := List.cons_subset.1 hsub
      exact (enters_run hl c (fun file d heq => ⟨file, heq ▸ hc⟩) w).trans (ih hsub _)
  exact hfoldl calls (List.Subset.refl _) .empty [] documented_empty

end Workspace

end SchemaForge
