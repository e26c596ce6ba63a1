import SchemaForge.Graph.Document
import SchemaForge.Proofs.Sites
/-! Documents of nodes. Where references alone lead to the roots of files, no schema lies inside
itself, and the document of a node is made of those right inside it. -/
namespace SchemaForge.Graph

variable {g : Graph} {id c : NodeId} {limit limit' k k' : Nat} {own own' : NodeId → Members}

/-- The members of the document of a node, made of those of the nodes right inside it. -/
def membersFrom (g : Graph) (own : NodeId → Members) (id : NodeId) : Members :=
  match g.property? id with
  | some ⟨info, .leaf l⟩ => Canonical.leaf info l
  | some ⟨info, .array items site⟩ => Canonical.array info (placed own items site)
  | some ⟨info, .object head members⟩ =>
    Canonical.object info head (members.map fun m => (m.name, placed own m.node m.site))
  | none => []

theorem membersWithin_succ (g : Graph) (limit : Nat) (id : NodeId) :
    g.membersWithin (limit + 1) id = g.membersFrom (g.membersWithin limit) id := by
  rw [membersWithin]
  rfl

/-- Only the nodes right inside a node show in its document. -/
theorem membersFrom_congr (h : ∀ c, g.Inside c id → own c = own' c) :
    g.membersFrom own id = g.membersFrom own' id := by
  have hplaced : ∀ c site, (c, site) ∈ g.edges id → placed own c site = placed own' c site := by
    intro c site hc
    cases site with
    | none => rw [placed, placed, h c hc]
    | some site => rfl
  rw [membersFrom, membersFrom]
  cases hp : g.property? id with
  | none => rfl
  | some p =>
    have hedges : g.edges id = p.edges := by rw [edges, hp]
    rw [hedges] at hplaced
    obtain ⟨info, l | ⟨items, site⟩ | ⟨head, members⟩⟩ := p
    · rfl
    · simp only [hplaced items site (List.mem_singleton_self _)]
    · have hmembers : members.map (fun m => (m.name, placed own m.node m.site)) =
          members.map fun m => (m.name, placed own' m.node m.site) := by
        apply List.map_congr_left
        intro m hm
        rw [hplaced m.node m.site (List.mem_map_of_mem hm)]
      simp only [hmembers]

/-- How many nodes with smaller numbers stand inside files. -/
def innerBelow (g : Graph) (k : Nat) : Nat := ((List.range k).filter (!g.isFileRoot ·)).length

theorem innerBelow_succ (h : g.isFileRoot id = false) :
    g.innerBelow (id + 1) = g.innerBelow id + 1 := by
  simp [innerBelow, List.range_succ, h]

theorem innerBelow_mono (h : k ≤ k') : g.innerBelow k ≤ g.innerBelow k' :=
  ((List.range_sublist.2 h).filter _).length_le

theorem innerBelow_lt (h : g.isFileRoot id = true) (hk : id < k) : g.innerBelow k < k := by
  have hlt : ((List.range k).filter (!g.isFileRoot ·)).length < (List.range k).length :=
    List.length_filter_lt_length_iff_exists.2 ⟨id, List.mem_range.2 hk, by simp [h]⟩
  rwa [List.length_range] at hlt

theorem innerBelow_le (g : Graph) (k : Nat) : g.innerBelow k ≤ k := by
  have hle := List.length_filter_le (!g.isFileRoot ·) (List.range k)
  rwa [List.length_range] at hle

namespace Tidy

variable (h : g.Tidy)

include h

theorem inner (hc : g.Inside c id) : g.isFileRoot c = false := by
  have hsite := (h.sited id c none hc).2
  simpa using hsite

theorem inner_of_transGen (hc : Relation.TransGen g.Inside c id) : g.isFileRoot c = false := by
  obtain ⟨b, hb, -⟩ := Relation.TransGen.head'_iff.1 hc
  exact h.inner hb

/-- What stands inside a node inside a file, however deep, has a smaller number. -/
theorem lt_of_transGen (hc : Relation.TransGen g.Inside c id) (hid : g.isFileRoot id = false) :
    c < id := by
  induction hc with
  | single hc => exact h.below hid hc
  | tail _ hlast ih => exact Nat.lt_trans (ih (h.inner hlast)) (h.below hid hlast)

/-- No node stands inside itself. -/
theorem not_inside_itself (id : NodeId) : ¬ Relation.TransGen g.Inside id id :=
  fun hid => Nat.lt_irrefl id (h.lt_of_transGen hid (h.inner_of_transGen hid))

/-- One comes to an end on the way to what stands inside. -/
theorem wellFounded_inside : WellFounded g.Inside := by
  have hinner : ∀ id, g.isFileRoot id = false → Acc g.Inside id := by
    intro id
    induction id using Nat.strongRecOn with
    | ind id ih => exact fun hid => ⟨_, fun c hc => ih c (h.below hid hc) (h.inner hc)⟩
  exact ⟨fun id => ⟨_, fun c hc => hinner c (h.inner hc)⟩⟩

/-- A walk that comes back to where it began has followed a reference. -/
theorem site_of_cycle (hcycle : Relation.TransGen (fun a b => b ∈ g.children a) id id) :
    ∃ a c site, (c, some site) ∈ g.edges a ∧ g.Reaches id a ∧ g.Reaches c id := by
  have hwalk : ∀ {n}, Relation.TransGen (fun a b => b ∈ g.children a) id n →
      Relation.TransGen g.Inside n id ∨
        ∃ a c site, (c, some site) ∈ g.edges a ∧ g.Reaches id a ∧ g.Reaches c n := by
    intro n hn
    induction hn with
    | @single b hb =>
      obtain ⟨_ | site, hedge⟩ := mem_children_iff.1 hb
      · exact Or.inl (.single hedge)
      · exact Or.inr ⟨id, b, site, hedge, .refl, .refl⟩
    | @tail a b hfirst hb ih =>
      rcases ih with hinside | ⟨a', c, site, hedge, hreach, hrest⟩
      · obtain ⟨_ | site, hedge⟩ := mem_children_iff.1 hb
        · exact Or.inl (.head hedge hinside)
        · exact Or.inr ⟨a, b, site, hedge, hfirst.to_reflTransGen, .refl⟩
      · exact Or.inr ⟨a', c, site, hedge, hreach, hrest.tail hb⟩
  exact (hwalk hcycle).resolve_left (h.not_inside_itself id)

/-- A limit that leaves room for the nodes inside files does not show. -/
theorem membersWithin_eq (hid : g.isFileRoot id = false) (hlimit : g.innerBelow (id + 1) ≤ limit)
    (hlimit' : g.innerBelow (id + 1) ≤ limit') :
    g.membersWithin limit id = g.membersWithin limit' id := by
  induction id using Nat.strongRecOn generalizing limit limit' with
  | ind id ih =>
    rw [innerBelow_succ hid] at hlimit hlimit'
    obtain ⟨limit, rfl⟩ := Nat.exists_eq_add_of_lt hlimit
    obtain ⟨limit', rfl⟩ := Nat.exists_eq_add_of_lt hlimit'
    rw [membersWithin_succ, membersWithin_succ]
    apply membersFrom_congr
    intro c hc
    have hroom : g.innerBelow (c + 1) ≤ g.innerBelow id := innerBelow_mono (h.below hid hc)
    exact ih c (h.below hid hc) (h.inner hc) (by omega) (by omega)

/-- The nodes inside a node leave room for it. -/
theorem innerBelow_lt_size (hc : g.Inside c id) (hid : id < g.size) :
    g.innerBelow (c + 1) < g.size := by
  cases hroot : g.isFileRoot id with
  | true =>
    have hmono : g.innerBelow (c + 1) ≤ g.innerBelow g.size :=
      innerBelow_mono (h.sited id c none hc).1
    exact Nat.lt_of_le_of_lt hmono (innerBelow_lt hroot hid)
  | false =>
    have hroom : g.innerBelow (c + 1) ≤ g.innerBelow id := innerBelow_mono (h.below hroot hc)
    have hall : g.innerBelow (id + 1) ≤ g.innerBelow g.size := innerBelow_mono hid
    have hsucc := innerBelow_succ hroot
    have hle := innerBelow_le g g.size
    omega

/-- The document of a node is made of the documents right inside it. -/
theorem members_document (id : NodeId) :
    (g.document id).members = g.membersFrom (fun c => (g.document c).members) id := by
  change g.membersWithin g.size id = g.membersFrom (g.membersWithin g.size) id
  by_cases hid : id < g.size
  · obtain ⟨limit, hsize⟩ := Nat.exists_eq_add_of_lt (Nat.zero_lt_of_lt hid)
    rw [Nat.zero_add] at hsize
    have hunfold : g.membersWithin g.size id = g.membersFrom (g.membersWithin limit) id := by
      rw [hsize, membersWithin_succ]
    rw [hunfold]
    apply membersFrom_congr
    intro c hc
    have hroom := h.innerBelow_lt_size hc hid
    exact h.membersWithin_eq (h.inner hc) (by omega) (Nat.le_of_lt hroom)
  · have hnone : g.property? id = none := by
      have : ¬ (g.node? id).isSome := by rwa [node?_isSome_iff]
      rw [property?, Option.not_isSome_iff_eq_none.1 this, Option.map_none]
    cases g.size with
    | zero => rw [membersWithin, membersFrom, hnone]
    | succ limit => rw [membersWithin_succ, membersFrom, membersFrom, hnone]

end Tidy

end SchemaForge.Graph
