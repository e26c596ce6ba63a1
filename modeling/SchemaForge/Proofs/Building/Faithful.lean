import SchemaForge.Proofs.Agreement
import SchemaForge.Proofs.Building.Loads
/-! What stands at a place is what the file says there. Complete workspaces of one library agree,
in whatever order their files were loaded. -/
namespace SchemaForge

variable {lib : Library} {w w' : Workspace} {f g g' : Path} {id id' c : NodeId} {k index : Nat}
  {steps : List Nat} {s s' : Schema} {d : Document} {p q : Property} {bound bound' : NodeId}
  {file : Option Path} {head : ObjectHead} {inner : List (String × Schema)} {found : List Member}
  {same : Option RefSite → NodeId → NodeId → Prop}

/-- The schemas right inside a schema, in the order of declaration. -/
def Schema.inside : Schema → List Schema
  | .array _ items => [items]
  | .object _ _ _ _ inner _ => inner.map Prod.snd
  | _ => []

namespace Library

/-- What a file says at a place inside it. -/
inductive Says (lib : Library) (f : Path) : List Nat → Schema → Prop
  | root {d : Document} (hd : lib.Reads f d) : Says lib f [] (Schema.ofDocument d)
  | inner {k : Nat} {steps : List Nat} {s s' : Schema} (hs : Says lib f steps s)
      (hk : s.inside[k]? = some s') : Says lib f (k :: steps) s'

theorem Says.unique (h : lib.Says f steps s) (h' : lib.Says f steps s') : s = s' := by
  induction h generalizing s' with
  | root hd =>
    cases h' with
    | root hd' => rw [hd.unique hd']
  | inner _ hk ih =>
    cases h' with
    | inner hs' hk' =>
      rw [ih hs', hk'] at hk
      exact (Option.some.inj hk).symm

/-- A file stands for one typed file only. -/
theorem end_unique (h : Relation.ReflTransGen lib.AliasOf f g) (hg : lib.Typed g)
    (h' : Relation.ReflTransGen lib.AliasOf f g') (hg' : lib.Typed g') : g = g' := by
  have hends : ∀ {g g'}, lib.Typed g → Relation.ReflTransGen lib.AliasOf g g' → g = g' := by
    intro g g' hg hpath
    rcases hpath.cases_head with heq | ⟨next, hnext, -⟩
    · exact heq
    · exact absurd hg hnext.not_typed
  have hright : Relator.RightUnique lib.AliasOf := fun _ _ _ => AliasOf.unique
  rcases Relation.ReflTransGen.total_of_right_unique hright h h' with hpath | hpath
  · exact hends hg hpath
  · exact (hends hg' hpath).symm

end Library

/-- Each member holds what its own schema says. -/
theorem ShowsMembers.get (h : ShowsMembers lib w file head index inner bound found) :
    found.length = inner.length ∧ ∀ {k : Nat} {m : Member}, found[k]? = some m →
      ∃ name s, inner[k]? = some (name, s) ∧
        m = ⟨name, index + k, !head.requires name, m.node, s.declaredSite?⟩ ∧
        Edge lib w file (Shows lib w file s) bound s.declaredSite? m.node := by
  induction inner generalizing index found with
  | nil =>
    rw [ShowsMembers] at h
    subst h
    exact ⟨rfl, fun hm => by cases hm⟩
  | cons first rest ih =>
    obtain ⟨name, s⟩ := first
    rw [ShowsMembers] at h
    obtain ⟨node, more, rfl, hedge, hmore⟩ := h
    obtain ⟨hlength, hget⟩ := ih hmore
    refine ⟨congrArg (· + 1) hlength, ?_⟩
    intro k m hm
    cases k with
    | zero =>
      cases hm
      exact ⟨name, s, rfl, rfl, hedge⟩
    | succ k =>
      obtain ⟨name', s', hinner, hmember, hedge'⟩ := hget hm
      refine ⟨name', s', hinner, ?_, hedge'⟩
      rw [Nat.add_right_comm] at hmember
      exact hmember

namespace Shows

/-- What stands right inside a property holds what is said right inside the schema. -/
theorem child (h : Shows lib w file s bound p) (hc : p.children[k]? = some c) :
    ∃ s', s.inside[k]? = some s' ∧
      Edge lib w file (Shows lib w file s') bound s'.declaredSite? c := by
  cases s with
  | reference | faulty =>
    rw [Shows] at h
    exact h.elim
  | leaf info l =>
    rw [Shows] at h
    subst h
    cases hc
  | array info items =>
    rw [Shows] at h
    obtain ⟨node, rfl, hedge⟩ := h
    obtain ⟨hk, hnode⟩ := List.getElem?_eq_some_iff.1 hc
    obtain rfl : k = 0 := Nat.lt_one_iff.1 hk
    exact ⟨items, rfl, hnode ▸ hedge⟩
  | object context info head before inner after =>
    rw [Shows] at h
    obtain ⟨-, -, found, rfl, hinner⟩ := h
    obtain ⟨m, hm, rfl⟩ : ∃ m, found[k]? = some m ∧ m.node = c := by
      simpa [Property.children] using hc
    obtain ⟨name, s', hs', -, hedge⟩ := hinner.get.2 hm
    refine ⟨s', ?_, hedge⟩
    simp [Schema.inside, hs']

/-- Properties that show one schema are alike, if what stands right inside them corresponds. -/
theorem alike (h : Shows lib w file s bound p) (h' : Shows lib w' file s bound' q)
    (hsame : ∀ {k : Nat} {s' : Schema} {c c' : NodeId}, s.inside[k]? = some s' →
      p.children[k]? = some c → q.children[k]? = some c' → same s'.declaredSite? c c') : p.Alike same q := by
  cases s with
  | reference | faulty =>
    rw [Shows] at h
    exact h.elim
  | leaf info l =>
    rw [Shows] at h h'
    subst h h'
    exact .leaf info l
  | array info items =>
    rw [Shows] at h h'
    obtain ⟨node, rfl, -⟩ := h
    obtain ⟨node', rfl, -⟩ := h'
    have hnodes : same items.declaredSite? node node' := @hsame 0 items node node' rfl rfl rfl
    exact .array info _ hnodes
  | object context info head before inner after =>
    rw [Shows] at h h'
    obtain ⟨-, -, found, rfl, hinner⟩ := h
    obtain ⟨-, -, found', rfl, hinner'⟩ := h'
    obtain ⟨hlength, hget⟩ := hinner.get
    obtain ⟨hlength', hget'⟩ := hinner'.get
    refine .object info head (List.forall₂_iff_get.2 ⟨hlength.trans hlength'.symm, ?_⟩)
    intro k hk hk'
    have hm := List.getElem?_eq_getElem hk
    have hm' := List.getElem?_eq_getElem hk'
    obtain ⟨name, s, hs, hmember, -⟩ := hget hm
    obtain ⟨name', s', hs', hmember', -⟩ := hget' hm'
    rw [hs] at hs'
    cases hs'
    have hnode : same s.declaredSite? found[k].node found'[k].node := by
      apply hsame (k := k)
      · simp [Schema.inside, hs]
      · simp [Property.children, hm]
      · simp [Property.children, hm']
    simp only [List.get_eq_getElem]
    rw [hmember, hmember']
    exact ⟨rfl, rfl, rfl, rfl, hnode⟩

end Shows

namespace Complete

/-- A node inside a file is no root, so that nothing but a schema stands there. -/
theorem edge_inner (h : Complete lib w) {shows : NodeId → Property → Prop}
    {site : Option RefSite} (hedge : Edge lib w file shows bound site c)
    (hinner : w.graph.isFileRoot c = false) :
    c < bound ∧ ∃ p, w.graph.property? c = some p ∧ shows c p := by
  cases site with
  | none =>
    obtain ⟨hlt, -, p, hp, hshows⟩ := hedge
    exact ⟨hlt, p, hp, hshows⟩
  | some site =>
    obtain ⟨f, -, hn⟩ := hedge
    rw [h.sound.node hn] at hinner
    cases hinner

/-- What stands at a place shows what the file says there. All that is inside a node inside a file
has smaller numbers. -/
theorem shows (h : Complete lib w) (hstands : w.graph.Stands f steps id) :
    ∃ s p bound, lib.Says f steps s ∧ w.graph.property? id = some p ∧
      Shows lib w (some f) s bound p ∧ (steps ≠ [] → bound = id) := by
  induction hstands with
  | root hroot hfile =>
    obtain ⟨f', d, p, hf', hd, hp, hshows⟩ := h.holds hroot
    rw [hfile] at hf'
    cases hf'
    exact ⟨_, p, _, .root hd, hp, hshows, fun hne => absurd rfl hne⟩
  | @inner id c k steps _ hc hinner ih =>
    obtain ⟨s, p, bound, hsays, hp, hshows, -⟩ := ih
    rw [Graph.children, hp] at hc
    obtain ⟨s', hs', hedge⟩ := hshows.child hc
    obtain ⟨-, p', hp', hshows'⟩ := h.edge_inner hedge hinner
    exact ⟨s', p', c, .inner hsays hs', hp', hshows', fun _ => rfl⟩

theorem located (h : Complete lib w) : w.graph.Located := by
  refine ⟨h.orderly, ?_, ?_, ?_⟩
  · intro a b file ha hb hfile hfile'
    exact h.sound.root_unique ha hb hfile hfile' rfl
  · intro id c hc hinner
    obtain ⟨hparent, -, hfile⟩ := h.told hc hinner
    exact ⟨hparent, hfile⟩
  · intro file k steps id c hstands hc hinner
    obtain ⟨s, p, bound, -, hp, hshows, hbound⟩ := h.shows hstands
    obtain rfl : bound = id := hbound (List.cons_ne_nil k steps)
    rw [Graph.children, hp] at hc
    obtain ⟨k', hk'⟩ := List.mem_iff_getElem?.1 hc
    obtain ⟨s', -, hedge⟩ := hshows.child hk'
    exact (h.edge_inner hedge hinner).1

/-- The nodes that a file has in two workspaces stand at one place: the root of the typed file that
it stands for. -/
theorem twin (h : Complete lib w) (h' : Complete lib w') (hf : lib.Serves f)
    (hn : w.registry.node? f = some id) (hn' : w'.registry.node? f = some id') :
    w.graph.Twin w'.graph id id' := by
  obtain ⟨g, hpath, htyped, hfile⟩ := h.rooted f id hf hn
  obtain ⟨g', hpath', htyped', hfile'⟩ := h'.rooted f id' hf hn'
  obtain rfl := Library.end_unique hpath htyped hpath' htyped'
  exact ⟨g, [], .root (h.sound.node hn) hfile, .root (h'.sound.node hn') hfile'⟩

/-- Complete workspaces of one library say the same at each place. -/
theorem agree (h : Complete lib w) (h' : Complete lib w') : w.graph.Agree w'.graph := by
  refine ⟨h.located, h'.located, ?_⟩
  rintro a b ⟨file, steps, ha, hb⟩
  obtain ⟨s, p, bound, hsays, hp, hshows, -⟩ := h.shows ha
  obtain ⟨s', q, bound', hsays', hq, hshows', -⟩ := h'.shows hb
  obtain rfl := hsays.unique hsays'
  refine ⟨p, q, hp, hq, hshows.alike hshows' ?_⟩
  intro k inside c c' hinside hc hc'
  obtain ⟨s₁, hs₁, hedge⟩ := hshows.child hc
  obtain ⟨s₂, hs₂, hedge'⟩ := hshows'.child hc'
  rw [hinside] at hs₁ hs₂
  cases hs₁
  cases hs₂
  cases hsite : inside.declaredSite? with
  | some site =>
    rw [hsite] at hedge hedge'
    obtain ⟨f, hf, hn⟩ := hedge
    obtain ⟨f', hf', hn'⟩ := hedge'
    rw [hf] at hf'
    cases hf'
    exact ⟨h.twin h' (Library.serves_of_locate hf) hn hn', fun hnone => by cases hnone⟩
  | none =>
    rw [hsite] at hedge hedge'
    obtain ⟨-, hinner, -⟩ := hedge
    obtain ⟨-, hinner', -⟩ := hedge'
    have hchild : (w.graph.children a)[k]? = some c := by rw [Graph.children, hp]; exact hc
    have hchild' : (w'.graph.children b)[k]? = some c' := by rw [Graph.children, hq]; exact hc'
    have hstands : w.graph.Stands file (k :: steps) c := .inner ha hchild hinner
    have hstands' : w'.graph.Stands file (k :: steps) c' := .inner hb hchild' hinner'
    exact ⟨⟨file, k :: steps, hstands, hstands'⟩, fun _ => hinner⟩

end Complete

end SchemaForge
