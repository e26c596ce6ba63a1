import SchemaForge.Generation
import SchemaForge.Proofs.Agreement
/-! Code for graphs that agree: names, members and units are the same wherever a place is in both. -/
namespace SchemaForge

variable {g g' : Graph} {a b : NodeId} {file : Path} {steps : List Nat} {limit limit' : Nat}
  {style : Style} {language : Language}

namespace Graph.Agree

variable (h : g.Agree g')

include h

/-- Titles outwards are the same: both graphs go up by the same references to the root of the file,
whoever the root itself takes for its parent. -/
theorem titlesOutwards_eq (ha : g.Stands file steps a) (hb : g'.Stands file steps b)
    (hlimit : steps.length < limit) (hlimit' : steps.length < limit') :
    g.titlesOutwards limit a = g'.titlesOutwards limit' b := by
  induction ha generalizing b limit limit' with
  | @root a hroot hfile =>
    have hab : g.Twin g' a b := ⟨file, [], .root hroot hfile, hb⟩
    obtain ⟨limit, rfl⟩ := Nat.exists_eq_add_of_lt hlimit
    obtain ⟨limit', rfl⟩ := Nat.exists_eq_add_of_lt hlimit'
    rw [titlesOutwards, titlesOutwards, h.title_eq hab, hroot, ← hab.isFileRoot_eq, hroot]
    rfl
  | @inner parent a k steps hid hc hinner ih =>
    have hab : g.Twin g' a b := ⟨file, k :: steps, .inner hid hc hinner, hb⟩
    obtain ⟨limit, rfl⟩ : ∃ n, limit = n + 1 := ⟨limit - 1, by omega⟩
    obtain ⟨limit', rfl⟩ : ∃ n, limit' = n + 1 := ⟨limit' - 1, by omega⟩
    rw [List.length_cons] at hlimit hlimit'
    cases hb with
    | @inner parent' _ _ _ hid' hc' hinner' =>
      obtain ⟨hparent, -⟩ := h.located.told (List.mem_of_getElem? hc) hinner
      obtain ⟨hparent', -⟩ := h.located'.told (List.mem_of_getElem? hc') hinner'
      have houter := ih hid' (Nat.lt_of_succ_lt_succ hlimit) (Nat.lt_of_succ_lt_succ hlimit')
      simp only [titlesOutwards, h.title_eq hab, hinner, hinner', hparent, hparent', houter]

theorem objectName_eq (hab : g.Twin g' a b) : g.objectName a = g'.objectName b := by
  obtain ⟨file, steps, ha, hb⟩ := hab
  have hlimit := Nat.lt_succ_of_lt (ha.length_lt h.located)
  have hlimit' := Nat.lt_succ_of_lt (hb.length_lt h.located')
  rw [objectName, objectName, h.titlesOutwards_eq ha hb hlimit hlimit']

/-- A node inside a file has a parent in both graphs, and of a root nobody asks. -/
theorem source_eq (hab : g.Twin g' a b) : g.source a = g'.source b := by
  have hfile := h.file?_eq hab
  have hroot := hab.isFileRoot_eq
  have htitle := h.title_eq hab
  obtain ⟨file, steps, ha, hb⟩ := hab
  have hparent : (g.isFileRoot a || (g.parent? a).isNone) =
      (g'.isFileRoot b || (g'.parent? b).isNone) := by
    cases ha with
    | root hroot' _ => rw [← hroot, hroot', Bool.true_or, Bool.true_or]
    | inner _ hc hinner =>
      cases hb with
      | inner _ hc' hinner' =>
        rw [(h.located.told (List.mem_of_getElem? hc) hinner).1,
          (h.located'.told (List.mem_of_getElem? hc') hinner').1, hroot]
        rfl
  rw [source, source, hfile, hparent, htitle]

theorem default?_eq (hab : g.Twin g' a b) :
    (g.property? a).bind Property.default? = (g'.property? b).bind Property.default? := by
  obtain ⟨p, q, hp, hq, halike⟩ := h.alike hab
  rw [hp, hq]
  exact halike.default?_eq

/-- Objects have the same head, and members that say the same. -/
theorem object? (hab : g.Twin g' a b) (ha : (g.object? a).isSome = true) :
    ∃ head members members', g.object? a = some (head, members) ∧
      g'.object? b = some (head, members') ∧
      List.Forall₂ (Member.Alike (g.Linked g')) members members' := by
  obtain ⟨p, q, hp, hq, halike⟩ := h.alike hab
  rw [Graph.object?, hp] at ha
  rw [Graph.object?, hp, Graph.object?, hq]
  cases halike with
  | leaf | array => cases ha
  | object info head hmembers => exact ⟨head, _, _, rfl, rfl, hmembers⟩

theorem goMemberType?_eq (hab : g.Twin g' a b) (title member : String) :
    Go.memberType? g title member a = Go.memberType? g' title member b := by
  rw [Go.memberType?, Go.memberType?]
  cases hc : g.arrayChain? a with
  | none => rw [h.arrayChain?_eq_none hab hc]
  | some chain =>
    obtain ⟨chain', hc', hdepth, hleaf⟩ := h.arrayChain? hab hc
    obtain ⟨p, q, hp, hq, halike⟩ := h.alike hleaf
    simp only [hc', hp, hq, hdepth]
    cases halike with
    | leaf | array => rfl
    | object info head hmembers => cases hmembers <;> rfl

theorem tsMemberType?_eq (hab : g.Twin g' a b) (title member : String) :
    TypeScript.memberType? g title member a = TypeScript.memberType? g' title member b := by
  rw [TypeScript.memberType?, TypeScript.memberType?]
  cases hc : g.arrayChain? a with
  | none => rw [h.arrayChain?_eq_none hab hc]
  | some chain =>
    obtain ⟨chain', hc', hdepth, hleaf⟩ := h.arrayChain? hab hc
    obtain ⟨p, q, hp, hq, halike⟩ := h.alike hleaf
    simp only [hc', hp, hq, hdepth, h.objectName_eq hleaf]
    cases halike with
    | leaf | array => rfl
    | object info head hmembers => cases hmembers <;> rfl

theorem goField?_eq {m m' : Member} (hm : m.Alike (g.Linked g') m') (title : String) :
    Go.field? g title m = Go.field? g' title m' := by
  have hnode := hm.node.1
  rw [Go.field?, Go.field?, hm.name, hm.optional, h.goMemberType?_eq hnode, h.default?_eq hnode]

theorem tsField?_eq {m m' : Member} (hm : m.Alike (g.Linked g') m') (title : String) :
    TypeScript.field? g title m = TypeScript.field? g' title m' := by
  have hnode := hm.node.1
  rw [TypeScript.field?, TypeScript.field?, hm.name, hm.optional, h.tsMemberType?_eq hnode,
    h.default?_eq hnode]

end Graph.Agree

/-- What comes of rows whose items correspond, or the first error. -/
theorem mapM_eq_of_forall₂ {α β γ ε : Type} {R : α → β → Prop} {f : α → Except ε γ}
    {f' : β → Except ε γ} {xs : List α} {ys : List β} (h : List.Forall₂ R xs ys)
    (hf : ∀ x y, R x y → f x = f' y) : xs.mapM f = ys.mapM f' := by
  have hmap := map_eq_of_forall₂ h fun x _ y hxy => hf x y hxy
  have hid := congrArg (List.mapM id) hmap
  rwa [List.mapM_map, List.mapM_map] at hid

namespace Generation

/-- What is written for an object: the name of the file, where its schema came from, and the text. -/
def written (style : Style) (language : Language) (g : Graph) (id : NodeId) :
    Except ShapeFault (String × String × String) :=
  (unit? style language g id).map fun u => (u.fileName, u.source, u.contents)

theorem written_go (style : Style) (g : Graph) (id : NodeId) :
    written style .go g id = (Go.Class.ofNode? g id).map fun c =>
      (Go.fileName g id, g.source id, Go.contents style g id c) := by
  rw [written, unit?, Go.unit?]
  cases Go.Class.ofNode? g id <;> simp only [bind, Except.bind, pure, Except.pure, Except.map]

theorem written_typeScript (style : Style) (g : Graph) (id : NodeId) :
    written style .typeScript g id = (TypeScript.Class.ofNode? g id).map fun c =>
      (TypeScript.fileName g id, g.source id, TypeScript.contents style g id c) := by
  rw [written, unit?, TypeScript.unit?]
  cases TypeScript.Class.ofNode? g id <;>
    simp only [bind, Except.bind, pure, Except.pure, Except.map]

variable (h : g.Agree g')

include h

theorem goClass_eq (hab : g.Twin g' a b) (ha : (g.object? a).isSome = true) :
    Go.Class.ofNode? g a = Go.Class.ofNode? g' b := by
  obtain ⟨head, members, members', hobject, hobject', hmembers⟩ := h.object? hab ha
  have hnames : members.map Member.name = members'.map Member.name :=
    map_eq_of_forall₂ hmembers fun _ _ _ hm => hm.name
  have hfields : members.mapM (Go.field? g head.titleText) =
      members'.mapM (Go.field? g' head.titleText) :=
    mapM_eq_of_forall₂ hmembers fun _ _ hm => h.goField?_eq hm _
  simp only [Go.Class.ofNode?, hobject, hobject', hnames, hfields]

theorem tsClass_eq (hab : g.Twin g' a b) (ha : (g.object? a).isSome = true) :
    TypeScript.Class.ofNode? g a = TypeScript.Class.ofNode? g' b := by
  obtain ⟨head, members, members', hobject, hobject', hmembers⟩ := h.object? hab ha
  have hnames : members.map Member.name = members'.map Member.name :=
    map_eq_of_forall₂ hmembers fun _ _ _ hm => hm.name
  have hfields : members.mapM (TypeScript.field? g head.titleText) =
      members'.mapM (TypeScript.field? g' head.titleText) :=
    mapM_eq_of_forall₂ hmembers fun _ _ hm => h.tsField?_eq hm _
  simp only [TypeScript.Class.ofNode?, hobject, hobject', hnames, hfields, h.objectName_eq hab]

/-- What is written for an object depends on its place alone. -/
theorem written_eq (hab : g.Twin g' a b) (ha : (g.object? a).isSome = true)
    (hstyle : style.settings.provenance = false) :
    written style language g a = written style language g' b := by
  have hprovenance : ∀ (g : Graph) (id : NodeId), CodeUnit.provenance style g id = [] := by
    intro g id
    simp [CodeUnit.provenance, hstyle]
  have hsource := h.source_eq hab
  cases language with
  | go =>
    have hname : Go.fileName g a = Go.fileName g' b := by
      rw [Go.fileName, Go.fileName, h.title_eq hab]
    have htext : Go.contents style g a = Go.contents style g' b := by
      funext c
      rw [Go.contents, Go.contents, hprovenance, hprovenance]
    rw [written_go, written_go, goClass_eq h hab ha, hname, hsource, htext]
  | typeScript =>
    have hname : TypeScript.fileName g a = TypeScript.fileName g' b := by
      rw [TypeScript.fileName, TypeScript.fileName, h.objectName_eq hab]
    have htext : TypeScript.contents style g a = TypeScript.contents style g' b := by
      funext c
      rw [TypeScript.contents, TypeScript.contents, hprovenance, hprovenance]
    rw [written_typeScript, written_typeScript, tsClass_eq h hab ha, hname, hsource, htext]

end Generation

end SchemaForge
