import SchemaForge.Document
/-!
JSON values whose objects name no member twice. All values that are read are of this kind, as they
have whatever arrays and objects inherit from their parts.
-/
namespace SchemaForge

mutual

/-- Whether no object, at any depth, has two members of one name. -/
def Json.Distinct : Json → Prop
  | .array items => DistinctItems items
  | .object members => (Members.keys members).Nodup ∧ DistinctMembers members
  | .null | .bool _ | .number _ | .string _ => True

def DistinctItems : List Json → Prop
  | [] => True
  | v :: rest => v.Distinct ∧ DistinctItems rest

def DistinctMembers : List (String × Json) → Prop
  | [] => True
  | (_, v) :: rest => v.Distinct ∧ DistinctMembers rest

end

/-- Whether no object in a document has two members of one name. -/
def Document.Distinct (d : Document) : Prop := d.toJson.Distinct

variable {members : Members} {key : String} {v : Json}

theorem distinctItems_append {items : List Json} (h : DistinctItems items) (hv : v.Distinct) :
    DistinctItems (items ++ [v]) := by
  induction items with
  | nil => exact ⟨hv, trivial⟩
  | cons item items ih => exact ⟨h.1, ih h.2⟩

theorem distinct_of_lookup (h : DistinctMembers members) (hv : members.lookup key = some v) :
    v.Distinct := by
  induction members with
  | nil => cases hv
  | cons m rest ih =>
    obtain ⟨name, value⟩ := m
    rw [List.lookup_cons] at hv
    split at hv
    · cases hv
      exact h.1
    · exact ih h.2 hv

namespace Members

theorem insert_of_not_mem (h : key ∉ members.keys) :
    members.insert key v = members ++ [(key, v)] := by
  induction members with
  | nil => rfl
  | cons m rest ih =>
    obtain ⟨name, value⟩ := m
    obtain ⟨hname, hrest⟩ := List.ne_and_not_mem_of_not_mem_cons h
    rw [insert, if_neg (Ne.symm hname), ih hrest, List.cons_append]

theorem mem_keys_insert {k : String} (h : k ∈ (members.insert key v).keys) :
    k = key ∨ k ∈ members.keys := by
  induction members with
  | nil => simpa [insert, keys] using h
  | cons m rest ih =>
    obtain ⟨name, value⟩ := m
    rw [insert] at h
    split at h
    · simp only [keys, List.map_cons, List.mem_cons] at h ⊢
      exact h.imp_right Or.inr
    · simp only [keys, List.map_cons, List.mem_cons] at h ih ⊢
      rcases h with h | h
      · exact Or.inr (Or.inl h)
      · exact (ih h).imp_right Or.inr

theorem nodup_insert (h : members.keys.Nodup) : (members.insert key v).keys.Nodup := by
  induction members with
  | nil => simp [insert, keys]
  | cons m rest ih =>
    obtain ⟨name, value⟩ := m
    obtain ⟨hname, hrest⟩ := List.nodup_cons.1 h
    rw [insert]
    split
    · next heq =>
      subst heq
      exact h
    · next hne =>
      refine List.nodup_cons.2 ⟨?_, ih hrest⟩
      intro hmem
      rcases mem_keys_insert hmem with rfl | hmem
      · exact hne rfl
      · exact hname hmem

theorem distinct_insert (h : (Json.object members).Distinct) (hv : v.Distinct) :
    (Json.object (members.insert key v)).Distinct := by
  rw [Json.Distinct] at h ⊢
  refine ⟨nodup_insert h.1, ?_⟩
  replace h := h.2
  induction members with
  | nil => exact ⟨hv, trivial⟩
  | cons m rest ih =>
    obtain ⟨name, value⟩ := m
    rw [insert]
    split
    · exact ⟨hv, h.2⟩
    · exact ⟨h.1, ih h.2⟩

end Members

/-- The value of a member of a distinct document is distinct. -/
theorem Document.Distinct.document? {d e : Document} (h : d.Distinct)
    (he : d.document? key = some e) : e.Distinct := by
  unfold Document.document? at he
  split at he
  · next members hm =>
    cases he
    have hd : (Json.object d.members).Distinct := h
    rw [Json.Distinct] at hd
    exact distinct_of_lookup hd.2 hm
  · cases he

namespace Json

open Reader

/-- A property of values inside a number of arrays and objects that goes from the parts of arrays
and objects to the whole. -/
structure Inherited (P : Nat → Json → Prop) : Prop where
  array : ∀ {n}, n < maxDepth → P n (.array [])
  object : ∀ {n}, n < maxDepth → P n (.object [])
  item : ∀ {n items v}, P n (.array items) → P (n + 1) v → P n (.array (items ++ [v]))
  member : ∀ {n key v} {members : Members}, P n (.object members) → P (n + 1) v →
    P n (.object (members.insert key v))

/-- An array or object that is still open, as if it ended here. -/
def Frame.value : Frame → Json
  | .array items => .array items
  | .object members _ => .object members

section holds

variable (P : Nat → Json → Prop)

def StackHolds : List Frame → Prop
  | [] => True
  | frame :: rest => P rest.length frame.value ∧ StackHolds rest

def Expect.Holds (n : Nat) : Expect → Prop
  | .keyOrEnd members | .key members | .colon members _ => P n (.object members)
  | .done v => P 0 v
  | .value | .itemOrEnd | .commaOrEnd => True

/-- Whether all that has been read so far has a property. -/
structure Reader.Holds (r : Reader) : Prop where
  stack : StackHolds P r.stack
  expect : r.expect.Holds P r.stack.length

def Token.Holds : Token → Prop
  | .scalar v => ∀ n, P n v
  | _ => True

end holds

variable {P : Nat → Json → Prop} {stack : List Frame} {t : Token} {ts : List Token}
  {r r' : Reader}

section read

variable (hP : Inherited P)

include hP

theorem holds_finish (h : StackHolds P stack) (hv : P stack.length v) :
    (finish stack v).Holds P := by
  cases stack with
  | nil => exact ⟨trivial, hv⟩
  | cons frame rest =>
    cases frame with
    | array items => exact ⟨⟨hP.item h.1 hv, h.2⟩, trivial⟩
    | object members key => exact ⟨⟨hP.member h.1 hv, h.2⟩, trivial⟩

theorem holds_begin? (h : StackHolds P stack) (ht : t.Holds P) (hb : begin? stack t = some r) :
    r.Holds P := by
  unfold begin? at hb
  split at hb
  · cases hb
    exact holds_finish hP h (ht stack.length)
  · split at hb
    · next hdepth =>
      cases hb
      exact ⟨⟨hP.array hdepth, h⟩, trivial⟩
    · cases hb
  · split at hb
    · next hdepth =>
      cases hb
      exact ⟨h, hP.object hdepth⟩
    · cases hb
  · cases hb

/-- Reading a token keeps the property. -/
theorem holds_step? (h : r.Holds P) (ht : t.Holds P) (hs : r.step? t = some r') : r'.Holds P := by
  obtain ⟨hstack, hexpect⟩ := h
  unfold step? at hs
  split at hs
  · exact holds_begin? hP hstack ht hs
  · next items rest _ hitems =>
    rw [hitems] at hstack
    cases hs
    exact holds_finish hP hstack.2 hstack.1
  · exact holds_begin? hP hstack ht hs
  · next he =>
    rw [he] at hexpect
    cases hs
    exact holds_finish hP hstack hexpect
  · next he =>
    rw [he] at hexpect
    cases hs
    exact ⟨hstack, hexpect⟩
  · next he =>
    rw [he] at hexpect
    cases hs
    exact ⟨hstack, hexpect⟩
  · next he =>
    rw [he] at hexpect
    cases hs
    exact ⟨⟨hexpect, hstack⟩, trivial⟩
  · next items rest _ hitems =>
    rw [hitems] at hstack
    cases hs
    exact ⟨hstack, trivial⟩
  · next items rest _ hitems =>
    rw [hitems] at hstack
    cases hs
    exact holds_finish hP hstack.2 hstack.1
  · next members _ rest _ hmembers =>
    rw [hmembers] at hstack
    cases hs
    exact ⟨hstack.2, hstack.1⟩
  · next members _ rest _ hmembers =>
    rw [hmembers] at hstack
    cases hs
    exact holds_finish hP hstack.2 hstack.1
  · cases hs

theorem holds_run? (h : r.Holds P) (hts : ∀ t ∈ ts, t.Holds P) (hv : r.run? ts = some v) :
    P 0 v := by
  induction ts generalizing r with
  | nil =>
    rw [run?] at hv
    split at hv
    · next heq =>
      cases hv
      have := h.expect
      rwa [heq] at this
    · cases hv
  | cons t ts ih =>
    obtain ⟨ht, hts⟩ := List.forall_mem_cons.1 hts
    rw [run?, Option.bind_eq_some_iff] at hv
    obtain ⟨r', hr', hv⟩ := hv
    exact ih (holds_step? hP h ht hr') hts hv

end read

theorem holds_cons? {rest : Option (List Token)} (ht : t.Holds P)
    (hrest : ∀ {ts}, rest = some ts → ∀ t ∈ ts, t.Holds P) (h : rest.map (t :: ·) = some ts) :
    ∀ t ∈ ts, t.Holds P := by
  obtain ⟨ts', hts', rfl⟩ := Option.map_eq_some_iff.1 h
  exact List.forall_mem_cons.2 ⟨ht, hrest hts'⟩

section scan

variable (htext : ∀ s n, P n (.string s))
  (hword : ∀ {cs v}, Token.word? cs = some v → ∀ n, P n v)
  (hnumber : ∀ {cs m}, Token.number? cs = some m → ∀ n, P n (.number m))

include htext hword hnumber

/-- Tokens hold texts, words and numbers, each of them read by rules of its own. -/
theorem holds_scan? {cs : List Char} (h : Token.scan? cs = some ts) : ∀ t ∈ ts, t.Holds P := by
  fun_induction Token.scan? cs generalizing ts with
  | case1 =>
    cases h
    exact fun _ ht => absurd ht List.not_mem_nil
  | case2 _ _ _ ih => exact ih h
  | case3 _ _ ih | case4 _ _ ih | case5 _ _ ih | case6 _ _ ih | case7 _ _ ih | case8 _ _ ih =>
    exact holds_cons? (by trivial) ih h
  | case9 _ s _ _ _ ih =>
    have ht : (Token.scalar (.string (String.ofList s))).Holds P := htext _
    exact holds_cons? ht ih h
  | case11 _ _ _ _ _ _ _ _ _ _ _ hv _ ih =>
    have ht : (Token.scalar _).Holds P := hword hv
    exact holds_cons? ht ih h
  | case13 _ _ _ _ _ _ _ _ _ _ _ _ hm _ ih =>
    have ht : (Token.scalar _).Holds P := hnumber hm
    exact holds_cons? ht ih h
  | case10 | case12 | case14 | case15 => cases h

/-- What texts, words and numbers have and values inherit, every value has that is read. -/
theorem holds_read? (hP : Inherited P) {s : String} (h : read? s = some v) : P 0 v := by
  obtain ⟨ts, hts, hv⟩ := Option.bind_eq_some_iff.1 h
  have hstart : start.Holds P := ⟨trivial, trivial⟩
  exact holds_run? hP hstart (holds_scan? htext hword hnumber hts) hv

end scan

theorem word?_eq {cs : List Char} (h : Token.word? cs = some v) :
    v = .null ∨ ∃ b, v = .bool b := by
  unfold Token.word? at h
  split at h
  · exact Or.inl (Option.some.inj h).symm
  · split at h
    · exact Or.inr ⟨true, (Option.some.inj h).symm⟩
    · split at h
      · exact Or.inr ⟨false, (Option.some.inj h).symm⟩
      · cases h

theorem inherited_distinct : Inherited fun _ v => v.Distinct where
  array _ := trivial
  object _ := by
    rw [Distinct]
    exact ⟨List.nodup_nil, trivial⟩
  item hitems hv := distinctItems_append hitems hv
  member hmembers hv := Members.distinct_insert hmembers hv

theorem distinct_read? {s : String} (h : read? s = some v) : v.Distinct := by
  refine holds_read? (fun _ _ => trivial) ?_ (fun _ _ => trivial) inherited_distinct h
  intro cs v hv _
  rcases word?_eq hv with rfl | ⟨b, rfl⟩ <;> trivial

end Json

section literals

variable {s t : String} {cs ds : List Char}

-- A literal is decoded from its bytes when its characters are asked for. They are taken from how
-- it is written instead, so that reading a text by evaluation stays cheap.

theorem toList_literal (h : s = String.ofList cs) : s.toList = cs := by
  rw [h, String.toList_ofList]

theorem toList_literals (hs : s.toList = cs) (ht : t.toList = ds) : (s ++ t).toList = cs ++ ds := by
  rw [String.toList_append, hs, ht]

theorem Document.read_of_read? {path : Path} (h : Json.read? s = some (.object members)) :
    read path s = .ok ⟨members⟩ := by
  rw [read, h]

theorem Document.read_of_toList {path : Path} (hs : s.toList = cs)
    (h : (Json.Token.scan? cs).bind Json.Reader.start.run? = some (.object members)) :
    read path s = .ok ⟨members⟩ :=
  read_of_read? (by rw [Json.read?, hs, h])

end literals

/-- Documents that are read name no member twice. -/
theorem Document.distinct_of_read {path : Path} {text : String} {d : Document}
    (h : Document.read path text = .ok d) : d.Distinct := by
  unfold read at h
  split at h
  · next hread =>
    cases h
    exact Json.distinct_read? hread
  · cases h
  · cases h

end SchemaForge
