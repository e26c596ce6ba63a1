import Mathlib
import SchemaForge.Proofs.Building.Shows
import SchemaForge.Proofs.Faults
/-!
Building a document that refers to no other is a walk of it: it fails over all faults at once, and
puts a node into the graph for each place without faults.
-/
namespace SchemaForge

namespace Build

/-- One workspace leads to another by adding nodes that show documents, in the order of these. -/
structure Adds (lib : Library) (file : Option Path) (w : Workspace) (parts : List Document)
    (w' : Workspace) : Prop where
  registry : w'.registry = w.registry
  extends' : w.graph.Extends w'.graph
  size : w'.graph.size = w.graph.size + parts.length
  shows : ∀ {i d}, parts[i]? = some d → w'.graph.isFileRoot (w.graph.size + i) = false ∧
    ∃ p, w'.graph.property? (w.graph.size + i) = some p ∧
      Shows lib w' file (Schema.ofDocument d) (w.graph.size + i) p

section Adds

variable {lib : Library} {file : Option Path} {w w' w'' : Workspace} {parts more : List Document}
  {d : Document} {p : Property}

theorem Adds.refl (lib : Library) (file : Option Path) (w : Workspace) : Adds lib file w [] w :=
  ⟨rfl, .refl _, rfl, nofun⟩

theorem Adds.retains (h : Adds lib file w parts w') : w.Retains w' where
  size_le := h.extends'.size_le
  property hid _ := h.extends'.property hid
  fileRoot hid := h.extends'.fileRoot hid
  node hf := h.registry ▸ hf

theorem Adds.trans (h : Adds lib file w parts w') (h' : Adds lib file w' more w'') :
    Adds lib file w (parts ++ more) w'' where
  registry := h'.registry.trans h.registry
  extends' := h.extends'.trans h'.extends'
  size := by rw [h'.size, h.size, List.length_append, Nat.add_assoc]
  shows {i d} hd := by
    rw [List.getElem?_append] at hd
    split at hd
    · next hi =>
      obtain ⟨hroot, p, hp, hshows⟩ := h.shows hd
      have hid := Graph.lt_of_property? hp
      exact ⟨(h'.extends'.fileRoot hid).trans hroot, p, (h'.extends'.property hid).trans hp,
        hshows.mono h'.retains (Nat.le_refl _) _⟩
    · next hi =>
      have hplace : w'.graph.size + (i - parts.length) = w.graph.size + i := by
        have := h.size
        omega
      simpa only [hplace] using h'.shows hd

/-- A node that shows a document is added. -/
theorem adds_add (hshows : Shows lib w file (Schema.ofDocument d) w.graph.size p) :
    Adds lib file w [d] (add p w).2 := by
  have hext : w.graph.Extends (add p w).2.graph := Graph.extends_add ..
  have hretains : w.Retains (add p w).2 :=
    ⟨hext.size_le, fun hid _ => hext.property hid, hext.fileRoot, fun h => h⟩
  refine ⟨rfl, hext, Graph.size_add .., ?_⟩
  intro i e he
  obtain ⟨rfl, rfl⟩ : i = 0 ∧ d = e := by cases i <;> simp_all
  exact ⟨Graph.isFileRoot_add _ _, p, Graph.property?_add _ _,
    hshows.mono hretains (Nat.le_refl _) _⟩

/-- Telling nodes where they stand changes nothing of what they show. -/
theorem Adds.settled (h : Adds lib file w parts w') (id : NodeId) (at' : Option Path) :
    Adds lib file w parts { w' with graph := settled w'.graph id at' } := by
  have hstep := step_settled lib [] w' id at'
  have hsize := size_settled w'.graph id at'
  refine ⟨h.registry, h.extends'.trans hstep.extends'.graph, hsize.trans h.size, ?_⟩
  intro i d hd
  obtain ⟨hroot, p, hp, hshows⟩ := h.shows hd
  have hid := Graph.lt_of_property? hp
  exact ⟨(hstep.extends'.graph.fileRoot hid).trans hroot, p,
    (hstep.extends'.graph.property hid).trans hp,
    hshows.mono hstep.extends'.retains (Nat.le_refl _) _⟩

end Adds

/-- What building a document comes to: a node for each sound place, and the node of the whole if
nothing is wrong with it, else all its faults. -/
structure Outcome (lib : Library) (file : Option Path) (w : Workspace) (d : Document)
    (out : Except Error NodeId × Workspace) : Prop where
  adds : Adds lib file w (d.places.filter Document.sound) out.2
  ok : d.faults = [] → ∃ id, out.1 = .ok id ∧
    Edge lib out.2 file (Shows lib out.2 file (Schema.ofDocument d)) out.2.graph.size none id
  error : d.faults ≠ [] → out.1 = .error (.structural (Schema.context d.blamed) d.faults)

/-- The same for members: those that are sound are found. -/
structure MembersOutcome (lib : Library) (file : Option Path) (head : ObjectHead) (index : Nat)
    (w : Workspace) (members : Members) (found : List Member) (w' : Workspace) : Prop where
  adds : Adds lib file w ((Document.placesAmong members).filter Document.sound) w'
  shows : Document.memberFaults members = [] →
    ShowsMembers lib w' file head index (Schema.ofMembers members) w'.graph.size found

section Outcome

variable {lib : Library} {file : Option Path} {follow : String → Build NodeId} {w w' : Workspace}
  {d : Document} {p : Property} {inner : List Document}

/-- A sound document ends with its node, once its inner places are done. -/
theorem outcome_add (hfaults : d.faults = []) (hplaces : d.places = inner ++ [d])
    (hinner : Adds lib file w (inner.filter Document.sound) w')
    (hshows : Shows lib w' file (Schema.ofDocument d) w'.graph.size p) :
    Outcome lib file w d (add p w') := by
  have hadd := adds_add hshows
  have hsound : d.sound = true := by simp [Document.sound, hfaults]
  have hfilter : d.places.filter Document.sound = inner.filter Document.sound ++ [d] := by
    simp [hplaces, hsound]
  refine ⟨hfilter ▸ hinner.trans hadd, fun _ => ⟨w'.graph.size, rfl, ?_⟩, absurd hfaults⟩
  obtain ⟨hroot, p', hp, hp'⟩ := hadd.shows (i := 0) rfl
  have hlt : w'.graph.size < (add p w').2.graph.size := by
    rw [hadd.size]
    exact Nat.lt_succ_self _
  exact ⟨hlt, hroot, p', hp, hp'⟩

/-- A document with faults of its own or inside adds no node of its own. -/
theorem outcome_error (hfaults : d.faults ≠ []) (hplaces : d.places = inner ++ [d])
    (hinner : Adds lib file w (inner.filter Document.sound) w') :
    Outcome lib file w d (.error (.structural (Schema.context d.blamed) d.faults), w') := by
  have hsound : d.sound = false := by simpa [Document.sound] using hfaults
  have hfilter : d.places.filter Document.sound = inner.filter Document.sound := by
    simp [hplaces, hsound]
  exact ⟨hfilter ▸ hinner, fun h => absurd h hfaults, fun _ => rfl⟩

/-- A document that no walk leads into, with faults. -/
theorem outcome_faulty (hfaults : d.faults ≠ []) (hplaces : d.places = [d]) (hblamed : d.blamed = d)
    (hd : Schema.ofDocument d = .faulty (Schema.context d) d.faults) :
    Outcome lib file w d (schema follow add (Schema.ofDocument d) w) := by
  have hwhole : d.places = [] ++ [d] := hplaces
  have herror := outcome_error hfaults hwhole (.refl lib file w)
  rw [hblamed] at herror
  rw [hd, schema]
  exact herror

theorem outcome_leaf {kind : Kind} (hs : Schema.site? d = none) (hk : d.kind? = some kind)
    (ho : kind ≠ .object) (ha : kind ≠ .array) :
    Outcome lib file w d (schema follow add (Schema.ofDocument d) w) := by
  have hplaces : d.places = [d] := by
    rw [Document.places]
    cases kind <;> simp_all
  have hblamed : d.blamed = d := by
    rw [Document.blamed]
    cases kind <;> simp_all
  obtain ⟨info, leaf, hd⟩ := Schema.ofDocument_leaf hs hk ho ha
  unfold Schema.ofFaults at hd
  split at hd
  · next h =>
    have hwhole : d.places = [] ++ [d] := hplaces
    have hshows : Shows lib w file (Schema.ofDocument d) w.graph.size ⟨info, .leaf leaf⟩ := by
      rw [hd, Shows]
    rw [hd, schema]
    exact outcome_add (List.isEmpty_iff.1 h) hwhole (.refl lib file w) hshows
  · next h => exact outcome_faulty (by simpa using h) hplaces hblamed hd

theorem outcome_untyped (hs : Schema.site? d = none) (hk : d.kind? = none) :
    Outcome lib file w d (schema follow add (Schema.ofDocument d) w) := by
  have hfaults : d.faults = [d.typeFault] := by
    rw [Document.faults]
    simp only [hk]
  refine outcome_faulty (by simp [hfaults]) ?_ ?_ ?_
  · rw [Document.places]
    simp only [hk]
  · rw [Document.blamed]
    simp only [hk]
  · rw [Schema.ofDocument_of_no_kind hs hk, hfaults]

theorem outcome_itemless (hs : Schema.site? d = none) (hk : d.kind? = some .array)
    (hitems : d.document? "items" = none) :
    Outcome lib file w d (schema follow add (Schema.ofDocument d) w) := by
  have hfaults : d.faults = [.itemsMissing] := by
    rw [Document.faults]
    simp only [hk]
    split <;> simp_all
  refine outcome_faulty (by simp [hfaults]) ?_ ?_ ?_
  · rw [Document.places]
    simp only [hk]
    split <;> simp_all
  · rw [Document.blamed]
    simp only [hk]
    split <;> simp_all
  · rw [Schema.ofDocument_array hs hk, hitems, hfaults]

theorem outcome_array {items : Document} (hs : Schema.site? d = none) (hk : d.kind? = some .array)
    (hitems : d.document? "items" = some items) (hsite : Schema.site? items = none)
    (ih : Outcome lib file w items (schema follow add (Schema.ofDocument items) w)) :
    Outcome lib file w d (schema follow add (Schema.ofDocument d) w) := by
  have hd : Schema.ofDocument d = .array (Schema.info d) (Schema.ofDocument items) := by
    rw [Schema.ofDocument_array hs hk, hitems]
  have hfaults : d.faults = items.faults := by
    rw [Document.faults]
    simp only [hk]
    split <;> simp_all only [Option.some.injEq, reduceCtorEq]
  have hplaces : d.places = items.places ++ [d] := by
    rw [Document.places]
    simp only [hk]
    split <;> simp_all only [Option.some.injEq, reduceCtorEq]
  have hblamed : d.blamed = items.blamed := by
    rw [Document.blamed]
    simp only [hk]
    split <;> simp_all only [Option.some.injEq, reduceCtorEq]
  rw [← Schema.declaredSite?_ofDocument] at hsite
  rw [hd, schema, bind_apply]
  generalize schema follow add (Schema.ofDocument items) w = out at ih ⊢
  obtain ⟨result, w'⟩ := out
  by_cases hnil : items.faults = []
  · obtain ⟨id, hid, hedge⟩ := ih.ok hnil
    cases hid
    refine outcome_add (hfaults.trans hnil) hplaces ih.adds ?_
    rw [hd, Shows]
    exact ⟨id, rfl, by rw [hsite]; exact hedge⟩
  · cases ih.error hnil
    have herror := outcome_error (hfaults ▸ hnil) hplaces ih.adds
    rw [hblamed, hfaults] at herror
    exact herror

theorem outcome_object (hs : Schema.site? d = none) (hk : d.kind? = some .object)
    (ih : ∀ head, ∃ found w',
      members follow head 0 (Schema.ofMembers d.declared) w =
        (.ok (found, Document.memberFaults d.declared), w') ∧
      MembersOutcome lib file head 0 w d.declared found w') :
    Outcome lib file w d (schema follow add (Schema.ofDocument d) w) := by
  have hd := Schema.ofDocument_object hs hk
  have hfaults : d.faults = d.requiredFaults ++ d.propertiesFaults ++
      Document.memberFaults d.declared ++ d.idFaults := by
    rw [Document.faults]
    simp only [hk]
  have hplaces : d.places = Document.placesAmong d.declared ++ [d] := by
    rw [Document.places]
    simp only [hk]
  have hblamed : d.blamed = d := by
    rw [Document.blamed]
    simp only [hk]
  obtain ⟨found, w', hout, hmembers⟩ := ih (Schema.head d)
  rw [hd, schema, bind_apply, hout]
  simp only [← hfaults]
  split
  · next hempty =>
    have hnil : d.faults = [] := List.isEmpty_iff.1 hempty
    refine outcome_add hnil hplaces hmembers.adds ?_
    rw [hfaults] at hnil
    simp only [List.append_eq_nil_iff] at hnil
    obtain ⟨⟨⟨hrequired, hproperties⟩, hinner⟩, hid⟩ := hnil
    rw [hd, Shows]
    exact ⟨by rw [hrequired, hproperties]; rfl, hid, found, rfl, hmembers.shows hinner⟩
  · next hempty =>
    have herror := outcome_error (by simpa using hempty) hplaces hmembers.adds
    rw [hblamed] at herror
    exact herror

/-- A member that is an object is built; either it is found or its faults stay, under its name. -/
theorem membersOutcome_object {head : ObjectHead} {index : Nat} {rest : Members} (name : String)
    (hsite : Schema.site? d = none)
    (hd : Outcome lib file w d (schema follow add (Schema.ofDocument d) w))
    (ih : ∀ w, ∃ found w',
      members follow head (index + 1) (Schema.ofMembers rest) w =
        (.ok (found, Document.memberFaults rest), w') ∧
      MembersOutcome lib file head (index + 1) w rest found w') :
    ∃ found w',
      members follow head index ((name, Schema.ofDocument d) :: Schema.ofMembers rest) w =
        (.ok (found, d.faults.map (.within name) ++ Document.memberFaults rest), w') ∧
      Adds lib file w ((d.places ++ Document.placesAmong rest).filter Document.sound) w' ∧
      (d.faults = [] → Document.memberFaults rest = [] →
        ShowsMembers lib w' file head index ((name, Schema.ofDocument d) :: Schema.ofMembers rest)
          w'.graph.size found) := by
  rw [← Schema.declaredSite?_ofDocument] at hsite
  rw [members_cons, List.filter_append]
  generalize schema follow add (Schema.ofDocument d) w = out at hd ⊢
  obtain ⟨result, w₁⟩ := out
  obtain ⟨more, w₂, hmore, hrest⟩ := ih w₁
  by_cases hnil : d.faults = []
  · obtain ⟨id, hid, hedge⟩ := hd.ok hnil
    cases hid
    refine ⟨⟨name, index, !head.requires name, id, none⟩ :: more, w₂, ?_,
      hd.adds.trans hrest.adds, fun _ hfaults => ?_⟩
    · simp only [bind_apply, hmore, hsite, hnil]
      rfl
    · have hret := hrest.adds.retains
      rw [ShowsMembers, hsite]
      exact ⟨id, more, rfl, hedge.mono hret hret.size_le fun node p =>
        Shows.mono hret (Nat.le_refl node) _, hrest.shows hfaults⟩
  · cases hd.error hnil
    refine ⟨more, w₂, ?_, hd.adds.trans hrest.adds, fun h => absurd h hnil⟩
    simp only [bind_apply, hmore]
    rfl

variable (lib file follow)

/-- Building a document without references is the walk of it. -/
theorem outcome_schema :
    (∀ d : Document, d.toJson.refFree = true → ∀ w,
      Outcome lib file w d (schema follow add (Schema.ofDocument d) w)) ∧
    ∀ ms : Members, Json.refFreeMembers ms = true → ∀ head index w, ∃ found w',
      members follow head index (Schema.ofMembers ms) w =
        (.ok (found, Document.memberFaults ms), w') ∧
      MembersOutcome lib file head index w ms found w' := by
  apply Document.faults.mutual_induct
    (fun d => d.toJson.refFree = true → ∀ w,
      Outcome lib file w d (schema follow add (Schema.ofDocument d) w))
    (fun ms => Json.refFreeMembers ms = true → ∀ head index w, ∃ found w',
      members follow head index (Schema.ofMembers ms) w =
        (.ok (found, Document.memberFaults ms), w') ∧
      MembersOutcome lib file head index w ms found w')
  case case1 => exact fun d hk h w => outcome_untyped (Json.site?_of_refFree h) hk
  case case2 =>
    intro d hk ih h w
    exact outcome_object (Json.site?_of_refFree h) hk fun head =>
      ih (Json.refFreeMembers_declared h) head 0 w
  case case3 =>
    intro d hk items hitems ih h w
    have hfree := Json.refFree_document? h hitems
    exact outcome_array (Json.site?_of_refFree h) hk hitems (Json.site?_of_refFree hfree)
      (ih hfree w)
  case case4 => exact fun d hk hitems h w => outcome_itemless (Json.site?_of_refFree h) hk hitems
  case case5 | case6 | case7 | case8 =>
    exact fun d hk h w => outcome_leaf (Json.site?_of_refFree h) hk nofun nofun
  case case9 =>
    intro _ head index w
    rw [Schema.ofMembers, Document.memberFaults]
    refine ⟨[], w, rfl, ?_, fun _ => ?_⟩
    · rw [Document.placesAmong]
      exact .refl lib file w
    · rw [Schema.ofMembers, ShowsMembers]
  case case10 =>
    intro name ms rest ih ihr h head index w
    rw [Json.refFreeMembers, Bool.and_eq_true] at h
    obtain ⟨found, w', hout, hadds, hshows⟩ := membersOutcome_object name
      (Json.site?_of_refFree h.1) (ih h.1 w) (ihr h.2 head (index + 1))
    rw [Schema.ofMembers, Document.memberFaults]
    refine ⟨found, w', hout, ?_, ?_⟩
    · rw [Document.placesAmong]
      exact hadds
    · rw [Document.memberFaults, Schema.ofMembers, List.append_eq_nil_iff, List.map_eq_nil_iff]
      exact fun hfaults => hshows hfaults.1 hfaults.2
  case case11 =>
    intro name value rest hvalue ihr h head index w
    rw [Json.refFreeMembers, Bool.and_eq_true] at h
    obtain ⟨found, w', hout, hrest⟩ := ihr h.2 head (index + 1) w
    have hfaults : Document.memberFaults ((name, value) :: rest) =
        .within name (.memberNotObject value.kind) :: Document.memberFaults rest := by
      rw [Document.memberFaults]
      exact hvalue
    refine ⟨found, w', ?_, ?_, fun hnil => by simp [hfaults] at hnil⟩
    · have hthrow : schema follow add (.faulty name [.memberNotObject value.kind]) w =
          (.error (.structural name [.memberNotObject value.kind]), w) := by
        rw [schema]
        rfl
      rw [Schema.ofMembers, members_cons, hthrow, hfaults]
      · simp only [bind_apply, hout]
        rfl
      · exact hvalue
    · rw [Document.placesAmong]
      · exact hrest.adds
      · exact hvalue

end Outcome

/-- A document without references fails to build if and only if the walk of it finds faults, which
are then reported all and in order; and each node that is added shows a document without faults. -/
theorem document_faults (lib : Library) (file : Option Path) {d : Document}
    (h : d.toJson.refFree = true) (w : Workspace) :
    (∀ e, (document lib file d w).1 = .error e ↔
      d.faults ≠ [] ∧ e = .structural (Schema.context d.blamed) d.faults) ∧
    Adds lib file w (d.places.filter Document.sound) (document lib file d w).2 := by
  have hbuilt := (outcome_schema lib file (reference lib [] file)).1 d h w
  rw [document_apply]
  generalize schema (reference lib [] file) add (Schema.ofDocument d) w = out at hbuilt ⊢
  obtain ⟨result, w'⟩ := out
  by_cases hnil : d.faults = []
  · obtain ⟨id, hid, -⟩ := hbuilt.ok hnil
    cases hid
    exact ⟨fun e => ⟨nofun, fun he => absurd hnil he.1⟩, hbuilt.adds.settled id file⟩
  · cases hbuilt.error hnil
    refine ⟨fun e => ⟨fun he => ⟨hnil, ?_⟩, fun he => ?_⟩, hbuilt.adds⟩
    · exact (Except.error.inj he).symm
    · rw [he.2]

/-- A document that is faulty in itself and in three of its four members. -/
def badDocument : Document where
  members := [
    ("title", .string "Bad"), ("type", .string "object"),
    ("properties", .object [
      ("a", .object [("type", .string "strin")]),
      ("b", .object [("type", .string "string")]),
      ("c", .object [("type", .string "object"), ("properties", .array [])]),
      ("d", .object [("type", .string "integer"), ("format", .string "int128")])]),
    ("required", .array [.string "b", .number (.integer 7)])]

theorem faults_bad : badDocument.faults =
    [.requiredNotString 1 "number", .within "a" (.typeUnknown "strin"),
      .within "c" (.propertiesNotObject "array"),
      .within "d" (.formatUnknown .integer "int128"), .idMissing] := by cbv

theorem sound_places_bad :
    badDocument.places.filter Document.sound = [⟨[("type", .string "string")]⟩] := by cbv

theorem document_faults_bad :
    badDocument.toJson.refFree = true ∧
      (document (FileMap.library ⟨⟨"/"⟩, []⟩ []) none badDocument .empty).1 =
        .error (.structural "Bad"
          [.requiredNotString 1 "number", .within "a" (.typeUnknown "strin"),
            .within "c" (.propertiesNotObject "array"),
            .within "d" (.formatUnknown .integer "int128"), .idMissing]) ∧
      (document (FileMap.library ⟨⟨"/"⟩, []⟩ []) none badDocument .empty).2.graph.size = 1 := by
  have hfree : badDocument.toJson.refFree = true := by cbv
  obtain ⟨herror, hadds⟩ :=
    document_faults (FileMap.library ⟨⟨"/"⟩, []⟩ []) none hfree .empty
  have hcontext : Schema.context badDocument.blamed = "Bad" := by cbv
  rw [faults_bad, hcontext] at herror
  rw [sound_places_bad] at hadds
  exact ⟨hfree, (herror _).2 ⟨List.cons_ne_nil _ _, rfl⟩, hadds.size⟩

end Build

end SchemaForge
