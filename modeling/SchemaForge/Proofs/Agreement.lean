import Mathlib.Data.List.Forall2
import SchemaForge.Graph.Document
import SchemaForge.Proofs.Arrays
import SchemaForge.Proofs.Places
/-! Graphs that say the same wherever a place is in both of them. Numbers of nodes do not show. -/
namespace SchemaForge

/-- What comes of rows whose items correspond. -/
theorem map_eq_of_forall₂ {α β γ : Type} {R : α → β → Prop} {f : α → γ} {f' : β → γ} {xs : List α}
    {ys : List β} (h : List.Forall₂ R xs ys) (hf : ∀ x ∈ xs, ∀ y, R x y → f x = f' y) :
    xs.map f = ys.map f' := by
  have hmem : List.Forall₂ (fun x y => x ∈ xs ∧ R x y) xs ys :=
    (List.forall₂_and_left xs ys).2 ⟨fun _ hx => hx, h⟩
  have heq : List.Forall₂ (· = ·) (xs.map f) (ys.map f') :=
    List.rel_map (fun x y hxy => hf x hxy.1 y hxy.2) hmem
  rwa [List.forall₂_eq_eq_eq] at heq

variable {same same' : Option RefSite → NodeId → NodeId → Prop} {p q : Property}

/-- Members that say the same of nodes that correspond. -/
structure Member.Alike (same : Option RefSite → NodeId → NodeId → Prop) (m m' : Member) : Prop where
  name : m.name = m'.name
  index : m.index = m'.index
  optional : m.optional = m'.optional
  site : m.site = m'.site
  node : same m.site m.node m'.node

/-- Properties that say the same of nodes that correspond. -/
inductive Property.Alike (same : Option RefSite → NodeId → NodeId → Prop) :
    Property → Property → Prop
  | leaf (info : Info) (l : Leaf) : Alike same ⟨info, .leaf l⟩ ⟨info, .leaf l⟩
  | array (info : Info) (site : Option RefSite) {items items' : NodeId}
      (h : same site items items') : Alike same ⟨info, .array items site⟩ ⟨info, .array items' site⟩
  | object (info : Info) (head : ObjectHead) {members members' : List Member}
      (h : List.Forall₂ (Member.Alike same) members members') :
      Alike same ⟨info, .object head members⟩ ⟨info, .object head members'⟩

namespace Property.Alike

theorem symm (h : p.Alike same q) (hs : ∀ site a b, same site a b → same' site b a) :
    q.Alike same' p := by
  cases h with
  | leaf info l => exact .leaf info l
  | array info site h => exact .array info site (hs _ _ _ h)
  | object info head h =>
    refine .object info head (List.Forall₂.flip (h.imp fun m m' hm => ?_))
    obtain ⟨hname, hindex, hoptional, hsite, hnode⟩ := hm
    exact ⟨hname.symm, hindex.symm, hoptional.symm, hsite.symm, hsite ▸ hs _ _ _ hnode⟩

theorem kind_eq (h : p.Alike same q) : p.kind = q.kind := by
  cases h <;> rfl

theorem default?_eq (h : p.Alike same q) : p.default? = q.default? := by
  cases h <;> rfl

theorem children (h : p.Alike same q) :
    List.Forall₂ (fun c c' => ∃ site, same site c c') p.children q.children := by
  cases h with
  | leaf info l => exact .nil
  | array info site h => exact .cons ⟨site, h⟩ .nil
  | object info head h => exact List.rel_map (fun m m' hm => ⟨m.site, hm.node⟩) h

end Property.Alike

namespace Graph

variable {g g' : Graph} {a b c id : NodeId} {file : Path} {steps : List Nat} {seen seen' pending
  pending' : List NodeId} {limit limit' : Nat} {chain : ArrayChain} {site : Option RefSite}

/-- Nodes of two graphs that stand at one place. -/
def Twin (g g' : Graph) (a b : NodeId) : Prop :=
  ∃ file steps, g.Stands file steps a ∧ g'.Stands file steps b

/-- Nodes at one place that something refers to. Whatever needs no reference lies inside a file. -/
def Linked (g g' : Graph) (site : Option RefSite) (a b : NodeId) : Prop :=
  g.Twin g' a b ∧ (site = none → g.isFileRoot a = false)

/-- Graphs that say the same at each place that is in both. -/
structure Agree (g g' : Graph) : Prop where
  located : g.Located
  located' : g'.Located
  alike : ∀ {a b}, g.Twin g' a b → ∃ p q, g.property? a = some p ∧ g'.property? b = some q ∧
    p.Alike (g.Linked g') q

/-- Whether walks have met the same places. -/
def Met (g g' : Graph) (seen seen' : List NodeId) : Prop :=
  ∀ a b, g.Twin g' a b → (a ∈ seen ↔ b ∈ seen')

theorem met_nil (g g' : Graph) : g.Met g' [] [] := fun _ _ _ => by simp

theorem Twin.symm (h : g.Twin g' a b) : g'.Twin g b a := by
  obtain ⟨file, steps, ha, hb⟩ := h
  exact ⟨file, steps, hb, ha⟩

theorem Twin.isFileRoot_eq (h : g.Twin g' a b) : g.isFileRoot a = g'.isFileRoot b := by
  obtain ⟨file, steps, ha, hb⟩ := h
  rw [ha.isFileRoot_eq, hb.isFileRoot_eq]

theorem Linked.symm (h : g.Linked g' site a b) : g'.Linked g site b a :=
  ⟨h.1.symm, fun hsite => h.1.isFileRoot_eq ▸ h.2 hsite⟩

namespace Agree

theorem symm (h : g.Agree g') : g'.Agree g := by
  refine ⟨h.located', h.located, fun hba => ?_⟩
  obtain ⟨p, q, hp, hq, halike⟩ := h.alike hba.symm
  exact ⟨q, p, hq, hp, halike.symm fun _ _ _ => Linked.symm⟩

variable (h : g.Agree g')

include h

theorem twin_iff {a' b' : NodeId} (hab : g.Twin g' a b) (hab' : g.Twin g' a' b') :
    a = a' ↔ b = b' := by
  obtain ⟨file, steps, ha, hb⟩ := hab
  obtain ⟨file', steps', ha', hb'⟩ := hab'
  constructor
  · rintro rfl
    obtain ⟨rfl, rfl⟩ := ha.place_unique h.located ha'
    exact hb.node_unique h.located' hb'
  · rintro rfl
    obtain ⟨rfl, rfl⟩ := hb.place_unique h.located' hb'
    exact ha.node_unique h.located ha'

theorem kind_eq (hab : g.Twin g' a b) : g.kind a = g'.kind b := by
  obtain ⟨p, q, hp, hq, halike⟩ := h.alike hab
  rw [kind, hp, kind, hq]
  exact halike.kind_eq

theorem title_eq (hab : g.Twin g' a b) : g.title a = g'.title b := by
  obtain ⟨p, q, hp, hq, halike⟩ := h.alike hab
  rw [title, object?, hp, title, object?, hq]
  cases halike <;> rfl

theorem file?_eq (hab : g.Twin g' a b) : g.file? a = g'.file? b := by
  obtain ⟨file, steps, ha, hb⟩ := hab
  rw [ha.file?_eq h.located, hb.file?_eq h.located']

theorem children (hab : g.Twin g' a b) :
    List.Forall₂ (g.Twin g') (g.children a) (g'.children b) := by
  obtain ⟨p, q, hp, hq, halike⟩ := h.alike hab
  rw [Graph.children, hp, Graph.children, hq]
  refine halike.children.imp ?_
  rintro c c' ⟨_, hlinked⟩
  exact hlinked.1

/-- Each node that can be reached in one graph can be reached in the other. -/
theorem reaches (hab : g.Twin g' a b) (ha : g.Reaches a c) :
    ∃ d, g'.Reaches b d ∧ g.Twin g' c d := by
  induction ha with
  | refl => exact ⟨b, .refl, hab⟩
  | @tail c c' _ hc ih =>
    obtain ⟨d, hd, hcd⟩ := ih
    obtain ⟨k, hk, rfl⟩ := List.mem_iff_getElem.1 hc
    have hchildren := h.children hcd
    have hk' := hchildren.length_eq ▸ hk
    exact ⟨_, hd.tail (List.getElem_mem hk'), hchildren.get hk hk'⟩

/-- Nodes inside twins stand one reference further on. -/
theorem inner {c' : NodeId} (ha : g.Stands file steps a) (hc : c ∈ g.children a)
    (hlinked : g.Linked g' none c c') :
    ∃ k, g.Stands file (k :: steps) c ∧ g'.Stands file (k :: steps) c' := by
  obtain ⟨⟨file', steps', hstands, hstands'⟩, hinner⟩ := hlinked
  obtain ⟨k, hk⟩ := List.mem_iff_getElem?.1 hc
  have hnext := Stands.inner ha hk (hinner rfl)
  obtain ⟨rfl, rfl⟩ := hstands.place_unique h.located hnext
  exact ⟨k, hnext, hstands'⟩

/-- Documents are the same. Inside a file both graphs go down by the same references, and neither
file is deeper than its graph has nodes. -/
theorem membersWithin_eq (ha : g.Stands file steps a) (hb : g'.Stands file steps b)
    (hlimit : g.size ≤ limit + steps.length) (hlimit' : g'.size ≤ limit' + steps.length) :
    g.membersWithin limit a = g'.membersWithin limit' b := by
  have hlength := ha.length_lt h.located
  have hlength' := hb.length_lt h.located'
  induction limit generalizing limit' steps a b with
  | zero => omega
  | succ limit ih =>
    obtain ⟨limit', rfl⟩ : ∃ n, limit' = n + 1 := ⟨limit' - 1, by omega⟩
    obtain ⟨p, q, hp, hq, halike⟩ := h.alike ⟨file, steps, ha, hb⟩
    have hchildren : g.children a = p.children := by rw [Graph.children, hp]
    have hplaced : ∀ {site c c'}, c ∈ p.children → g.Linked g' site c c' →
        placed (g.membersWithin limit) c site = placed (g'.membersWithin limit') c' site := by
      intro site c c' hc hlinked
      cases site with
      | some site => rfl
      | none =>
        obtain ⟨k, hc, hc'⟩ := h.inner ha (hchildren ▸ hc) hlinked
        have hroom : g.size ≤ limit + (k :: steps).length := by
          rw [List.length_cons]
          omega
        have hroom' : g'.size ≤ limit' + (k :: steps).length := by
          rw [List.length_cons]
          omega
        rw [placed, placed,
          ih hc hc' hroom hroom' (hc.length_lt h.located) (hc'.length_lt h.located')]
    rw [membersWithin, membersWithin, hp, hq]
    cases halike with
    | leaf info l => rfl
    | array info site hitems =>
      have hsame := hplaced (List.mem_singleton_self _) hitems
      simp only [hsame]
    | @object info head members members' hmembers =>
      have hsame :
          members.map (fun m => (m.name, placed (g.membersWithin limit) m.node m.site)) =
            members'.map fun m => (m.name, placed (g'.membersWithin limit') m.node m.site) := by
        apply map_eq_of_forall₂ hmembers
        intro m hm m' hmm'
        rw [hplaced (List.mem_map_of_mem hm) hmm'.node, hmm'.name, hmm'.site]
      simp only [hsame]

theorem document_eq (hab : g.Twin g' a b) : g.document a = g'.document b := by
  obtain ⟨file, steps, ha, hb⟩ := hab
  have hmembers := h.membersWithin_eq ha hb (Nat.le_add_right ..) (Nat.le_add_right ..)
  rw [document, document, hmembers]

theorem met_cons (hseen : g.Met g' seen seen') (hab : g.Twin g' a b) :
    g.Met g' (a :: seen) (b :: seen') := by
  intro c d hcd
  rw [List.mem_cons, List.mem_cons, hseen c d hcd, h.twin_iff hcd hab]

theorem unmet_iff (hseen : g.Met g' seen seen') (hab : g.Twin g' a b) :
    (a < g.size ∧ seen.contains a = false) ↔ b < g'.size ∧ seen'.contains b = false := by
  have hmem := hseen a b hab
  obtain ⟨file, steps, ha, hb⟩ := hab
  simp [ha.lt_size h.located, hb.lt_size h.located', hmem]

/-- Walks meet the same places in the same order. -/
theorem objectsAlong (hpending : List.Forall₂ (g.Twin g') pending pending')
    (hseen : g.Met g' seen seen') :
    List.Forall₂ (g.Twin g') (g.objectsAlong seen pending) (g'.objectsAlong seen' pending') := by
  induction seen, pending using Graph.objectsAlong.induct g generalizing seen' pending' with
  | case1 seen =>
    cases hpending
    rw [Graph.objectsAlong, Graph.objectsAlong]
    exact .nil
  | case2 seen a pending hnew hkind ih =>
    cases hpending with
    | cons hab hpending =>
      have hrest := ih (List.rel_append (h.children hab) hpending) (h.met_cons hseen hab)
      rw [Graph.objectsAlong, Graph.objectsAlong, dif_pos hnew,
        dif_pos ((h.unmet_iff hseen hab).1 hnew), if_pos hkind, if_pos (h.kind_eq hab ▸ hkind)]
      exact .cons hab hrest
  | case3 seen a pending hnew hkind ih =>
    cases hpending with
    | cons hab hpending =>
      have hrest := ih (List.rel_append (h.children hab) hpending) (h.met_cons hseen hab)
      rw [Graph.objectsAlong, Graph.objectsAlong, dif_pos hnew,
        dif_pos ((h.unmet_iff hseen hab).1 hnew), if_neg hkind, if_neg (h.kind_eq hab ▸ hkind)]
      exact hrest
  | case4 seen a pending hold ih =>
    cases hpending with
    | cons hab hpending =>
      rw [Graph.objectsAlong, Graph.objectsAlong, dif_neg hold,
        dif_neg fun hnew => hold ((h.unmet_iff hseen hab).2 hnew)]
      exact ih hpending hseen

theorem objects (hab : g.Twin g' a b) :
    List.Forall₂ (g.Twin g') (g.objects a) (g'.objects b) :=
  h.objectsAlong (.cons hab .nil) (met_nil g g')

theorem arrayChainWithin (hab : g.Twin g' a b)
    (hc : g.arrayChainWithin limit a = some chain) :
    ∃ chain', g'.arrayChainWithin limit b = some chain' ∧ chain.depth = chain'.depth ∧
      g.Twin g' chain.leaf chain'.leaf := by
  induction limit generalizing a b chain with
  | zero => cases hc
  | succ limit ih =>
    obtain ⟨p, q, hp, hq, halike⟩ := h.alike hab
    rw [Graph.arrayChainWithin, hp] at hc
    rw [Graph.arrayChainWithin, hq]
    cases halike with
    | leaf info l =>
      cases hc
      exact ⟨_, rfl, rfl, hab⟩
    | array info site hitems =>
      obtain ⟨inside, hinside, rfl⟩ := Option.map_eq_some_iff.1 hc
      obtain ⟨inside', hinside', hdepth, hleaf⟩ := ih hitems.1 hinside
      have hlength : (a :: inside.levels).length = (b :: inside'.levels).length :=
        congrArg (· + 1) hdepth
      exact ⟨_, Option.map_eq_some_iff.2 ⟨inside', hinside', rfl⟩, hlength, hleaf⟩
    | object info head hmembers =>
      cases hc
      exact ⟨_, rfl, rfl, hab⟩

theorem arrayChain? (hab : g.Twin g' a b) (hc : g.arrayChain? a = some chain) :
    ∃ chain', g'.arrayChain? b = some chain' ∧ chain.depth = chain'.depth ∧
      g.Twin g' chain.leaf chain'.leaf := by
  obtain ⟨chain', hc', hsame⟩ := h.arrayChainWithin hab hc
  exact ⟨chain', arrayChain?_of_within hc', hsame⟩

/-- Chains of arrays come to an end in both graphs or in neither. -/
theorem arrayChain?_eq_none (hab : g.Twin g' a b) (hc : g.arrayChain? a = none) :
    g'.arrayChain? b = none := by
  cases hc' : g'.arrayChain? b with
  | none => rfl
  | some chain' =>
    obtain ⟨chain, hchain, -⟩ := h.symm.arrayChain? hab.symm hc'
    rw [hc] at hchain
    cases hchain

end Agree

end Graph

end SchemaForge
