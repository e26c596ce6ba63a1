import SchemaForge.Building
import SchemaForge.Proofs.Graph
import SchemaForge.Proofs.Registry
import SchemaForge.Proofs.Schema
/-! What building does to a workspace, whatever its outcome. -/
namespace SchemaForge

/-- What later states of a workspace keep of earlier ones. Files on the chain stay as they are
until those who put them there are done. -/
structure Workspace.Extends (chain : List Path) (w w' : Workspace) : Prop where
  graph : w.graph.Extends w'.graph
  node : ∀ {f id}, w.registry.node? f = some id → w'.registry.node? f = some id
  document : ∀ {f d}, w.registry.document? f = some d → w'.registry.document? f = some d
  chain : ∀ f, chain.any (·.Same f) = true → w'.registry.node? f = w.registry.node? f
  units : w'.registry.units = w.registry.units
  isEmitted : ∀ f, w'.registry.isEmitted f = w.registry.isEmitted f

/-- Entries hold what their files hold, and the nodes of files are the roots of their graph: each
root stands for one file. -/
structure Workspace.Sound (lib : Library) (w : Workspace) : Prop where
  entry : ∀ e ∈ w.registry.entries, lib.Serves e.file ∧ lib.Reads e.file e.document
  root : ∀ {id}, w.graph.isFileRoot id = true →
    ∃ f, w.graph.file? id = some f ∧ w.registry.node? f = some id
  node : ∀ {f id}, w.registry.node? f = some id → w.graph.isFileRoot id = true

namespace Workspace

variable {chain : List Path} {lib : Library} {w w' w'' : Workspace} {f g : Path} {id : NodeId}

theorem Extends.refl (chain : List Path) (w : Workspace) : w.Extends chain w :=
  ⟨Graph.Extends.refl _, fun h => h, fun h => h, fun _ _ => rfl, rfl, fun _ => rfl⟩

theorem Extends.trans (h : w.Extends chain w') (h' : w'.Extends chain w'') :
    w.Extends chain w'' where
  graph := h.graph.trans h'.graph
  node hf := h'.node (h.node hf)
  document hf := h'.document (h.document hf)
  chain f hf := (h'.chain f hf).trans (h.chain f hf)
  units := h'.units.trans h.units
  isEmitted f := (h'.isEmitted f).trans (h.isEmitted f)

theorem Extends.of_cons (h : w.Extends (f :: chain) w') : w.Extends chain w' :=
  { h with chain := fun g hg => h.chain g (by simp [hg]) }

theorem Extends.node?_of_mem (h : w.Extends chain w') (hf : f ∈ chain) :
    w'.registry.node? f = w.registry.node? f :=
  h.chain f (Path.any_same hf)

theorem extends_graph {g : Graph} (h : w.graph.Extends g) : w.Extends chain { w with graph := g } :=
  { Extends.refl chain w with graph := h }

theorem sound_empty (lib : Library) : empty.Sound lib := by
  refine ⟨?_, ?_, ?_⟩
  · intro e he
    exact absurd he List.not_mem_nil
  · intro id h
    exact absurd (Graph.lt_of_isFileRoot h) (Nat.not_lt_zero id)
  · intro f id h
    simp [empty, Registry.empty, Registry.node?, Registry.entry?] at h

/-- A root stands for one file, so two roots of one file are the same. -/
theorem Sound.root_unique (h : w.Sound lib) {other : NodeId} (hid : w.graph.isFileRoot id = true)
    (hother : w.graph.isFileRoot other = true) (hf : w.graph.file? id = some f)
    (hg : w.graph.file? other = some g) (hs : f.Same g) : id = other := by
  obtain ⟨f', hf', hid⟩ := h.root hid
  obtain ⟨g', hg', hother⟩ := h.root hother
  rw [hf] at hf'
  rw [hg] at hg'
  cases hf'
  cases hg'
  rw [Registry.node?_congr _ hs, hother] at hid
  exact (Option.some.inj hid).symm

/-- Changes of a graph that keep its roots and their files keep a workspace sound. -/
theorem Sound.of_graph {g : Graph} (h : w.Sound lib) (hg : w.graph.Extends g)
    (hroot : ∀ {id}, g.isFileRoot id = true → w.graph.isFileRoot id = true) :
    ({ w with graph := g } : Workspace).Sound lib where
  entry := h.entry
  root hid := by
    obtain ⟨f, hf, hn⟩ := h.root (hroot hid)
    exact ⟨f, hg.file hf, hn⟩
  node hn := by
    have hid := h.node hn
    exact (hg.fileRoot (Graph.lt_of_isFileRoot hid)).trans hid

end Workspace

namespace Build

/-- Whatever its outcome, a build leads from a workspace to one that is related to it. -/
def Keeps (R : Workspace → Workspace → Prop) {α : Type} (b : Build α) : Prop := ∀ w, R w (b w).2

/-- A reference leads to a node: that of the file that it names. -/
def Leads (lib : Library) (w : Workspace) (referrer : Option Path) (target : String)
    (id : NodeId) : Prop :=
  ∃ f, lib.locate referrer target = .ok f ∧ w.registry.node? f = some id

variable {α β : Type} {R : Workspace → Workspace → Prop} {lib : Library} {chain : List Path}
  {referrer : Option Path} {target : String} {w w' : Workspace} {id : NodeId}

theorem bind_apply (b : Build α) (f : α → Build β) (w : Workspace) :
    (b >>= f) w = match b w with
      | (.ok a, w') => f a w'
      | (.error e, w') => (.error e, w') := by
  change (match (b w : Except Error α × Workspace) with | (a, w') => ExceptT.bindCont f a w') = _
  obtain ⟨e | a, w'⟩ := b w <;> rfl

/-- One build after another fails where the first does, or where the second does. -/
theorem error_of_bind {b : Build α} {f : α → Build β} {w : Workspace} {e : Error}
    (h : ((b >>= f) w).1 = .error e) :
    (b w).1 = .error e ∨ ∃ a w', b w = (.ok a, w') ∧ (f a w').1 = .error e := by
  rw [bind_apply] at h
  generalize b w = out at h ⊢
  obtain ⟨e' | a, w'⟩ := out
  · cases h
    exact Or.inl rfl
  · exact Or.inr ⟨a, w', rfl, h⟩

theorem add_ok (p : Property) (w : Workspace) (e : Error) : (add p w).1 ≠ .error e := nofun

theorem fill_ok (slot : NodeId) (p : Property) (w : Workspace) (e : Error) :
    (fill slot p w).1 ≠ .error e := nofun

theorem pure_apply (a : α) (w : Workspace) : (pure a : Build α) w = (.ok a, w) := rfl

theorem lift_apply (b : Build α) (w : Workspace) :
    (ExceptT.lift b : Build (Except Error α)) w = (.ok (b w).1, (b w).2) := rfl

/-- One member after the other; the faults of each stand before those of the rest. -/
theorem members_cons (follow : String → Build NodeId) (head : ObjectHead) (index : Nat)
    (name : String) (s : Schema) (rest : List (String × Schema)) (w : Workspace) :
    members follow head index ((name, s) :: rest) w =
      match schema follow add s w with
      | (.ok node, w') =>
        (members follow head (index + 1) rest >>= fun r =>
          pure (⟨name, index, !head.requires name, node, s.declaredSite?⟩ :: r.1, r.2)) w'
      | (.error (.structural _ faults), w') =>
        (members follow head (index + 1) rest >>= fun r =>
          pure (r.1, faults.map (.within name) ++ r.2)) w'
      | (.error e, w') => (.error e, w') := by
  rw [members]
  simp only [bind_apply, lift_apply]
  rcases schema follow add s w with ⟨e | node, w'⟩
  · cases e with
    | structural context faults =>
      simp only [bind_apply, pure_apply]
      obtain ⟨e | r, w'⟩ := members follow head (index + 1) rest w' <;> rfl
    | _ => rfl
  · simp only [bind_apply, pure_apply]
    obtain ⟨e | r, w'⟩ := members follow head (index + 1) rest w' <;> rfl

variable (hr : ∀ w, R w w) (ht : ∀ u v w, R u v → R v w → R u w)

include ht in
theorem Keeps.bind {b : Build α} {f : α → Build β} (hb : Keeps R b) (hf : ∀ a, Keeps R (f a)) :
    Keeps R (b >>= f) := by
  intro w
  have h := hb w
  rw [bind_apply]
  generalize b w = r at h ⊢
  rcases r with ⟨e | a, w'⟩
  · exact h
  · exact ht _ _ _ h (hf a w')

variable {follow : String → Build NodeId} (hf : ∀ target, Keeps R (follow target))
  (ha : ∀ p, Keeps R (add p))

include hr ht hf ha

/-- What references and new nodes keep, building a whole schema keeps. -/
theorem keeps_schema :
    (∀ place s, (∀ p, Keeps R (place p)) → Keeps R (schema follow place s)) ∧
      ∀ head index inner, Keeps R (members follow head index inner) := by
  refine schema.mutual_induct
    (fun place s => (∀ p, Keeps R (place p)) → Keeps R (schema follow place s))
    (fun head index inner => Keeps R (members follow head index inner))
    ?reference ?faulty ?leaf ?array ?object ?nil ?cons
  case reference => exact fun _ site _ => hf site.reference
  case faulty => exact fun _ _ _ _ w => hr w
  case leaf => exact fun _ _ _ hp => hp _
  case array =>
    intro place info items ih hp
    rw [schema]
    exact (ih ha).bind ht fun _ => hp _
  case object =>
    intro place context info head before inner after ih hp
    rw [schema]
    refine ih.bind ht ?_
    rintro ⟨found, faults⟩
    dsimp only
    split
    · exact hp _
    · exact fun w => hr w
  case nil => exact fun _ _ w => hr w
  case cons =>
    intro head index name s rest ih ihr w
    have h := ih ha w
    have hrest : ∀ f : List Member × List Fault → List Member × List Fault,
        Keeps R (members follow head (index + 1) rest >>= fun r => pure (f r)) :=
      fun f => ihr.bind ht fun _ w => hr w
    rw [members_cons]
    generalize schema follow add s w = r at h ⊢
    obtain ⟨e | node, w'⟩ := r
    · cases e with
      | structural _ faults => exact ht _ _ _ h (hrest _ w')
      | _ => exact h
    · exact ht _ _ _ h (hrest _ w')

/-- A schema that is no reference either fails, or ends with placing its node. -/
theorem schema_placed (place : Property → Build NodeId) {s : Schema}
    (hs : s.declaredSite? = none) (w : Workspace) :
    (∃ e w', schema follow place s w = (.error e, w') ∧ R w w') ∨
      ∃ p w', schema follow place s w = place p w' ∧ R w w' := by
  obtain ⟨hschema, hmembers⟩ := keeps_schema hr ht hf ha
  cases s with
  | reference site => cases hs
  | faulty context faults => exact Or.inl ⟨_, w, rfl, hr w⟩
  | leaf info leaf => exact Or.inr ⟨_, w, rfl, hr w⟩
  | array info items =>
    have h := hschema add items ha w
    rw [schema, bind_apply]
    generalize schema follow add items w = r at h ⊢
    obtain ⟨e | node, w'⟩ := r
    · exact Or.inl ⟨e, w', rfl, h⟩
    · exact Or.inr ⟨_, w', rfl, h⟩
  | object context info head before inner after =>
    have h := hmembers head 0 inner w
    rw [schema, bind_apply]
    generalize members follow head 0 inner w = r at h ⊢
    obtain ⟨e | ⟨found, faults⟩, w'⟩ := r
    · exact Or.inl ⟨e, w', rfl, h⟩
    · dsimp only
      split
      · exact Or.inr ⟨_, w', rfl, h⟩
      · exact Or.inl ⟨_, w', rfl, h⟩

end Build

end SchemaForge
