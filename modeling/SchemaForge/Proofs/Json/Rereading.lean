import SchemaForge.Proofs.Json
import SchemaForge.Proofs.Json.Tokens
/-!
Printed documents read back. What has been read can be printed and read again for ever: the text
stays the same from the first printing on.
-/
namespace SchemaForge

namespace Json

mutual

/-- How deep arrays and objects nest in a value. -/
def depth : Json → Nat
  | array items => itemsDepth items + 1
  | object members => membersDepth members + 1
  | _ => 0

def itemsDepth : List Json → Nat
  | [] => 0
  | v :: vs => max v.depth (itemsDepth vs)

def membersDepth : Members → Nat
  | [] => 0
  | (_, v) :: ms => max v.depth (membersDepth ms)

end

section reading

open Reader

variable {r : Reader} {t : Token} {stack : List Frame} {items : List Json} {members : Members}
  {key : String}

/-- Whether a reader expects a value, whatever else it expects. -/
def Reader.Ready (r : Reader) : Prop := ∀ t, t ≠ .closeArray → r.step? t = begin? r.stack t

theorem ready_value (stack : List Frame) : Ready ⟨stack, .value⟩ := fun _ _ => rfl

theorem ready_itemOrEnd (stack : List Frame) : Ready ⟨stack, .itemOrEnd⟩ := by
  intro t ht
  cases t with
  | closeArray => exact absurd rfl ht
  | _ => rfl

theorem Reader.Ready.scalar (h : r.Ready) (v : Json) (ts : List Token) :
    r.run? (.scalar v :: ts) = (finish r.stack v).run? ts := by
  rw [run?, h (.scalar v) (by simp)]
  rfl

theorem Reader.Ready.openArray (h : r.Ready) (hdepth : r.stack.length < maxDepth)
    (ts : List Token) :
    r.run? (.openArray :: ts) = Reader.run? ⟨.array [] :: r.stack, .itemOrEnd⟩ ts := by
  rw [run?, h .openArray (by simp), begin?, if_pos hdepth]
  rfl

theorem Reader.Ready.openObject (h : r.Ready) (hdepth : r.stack.length < maxDepth)
    (ts : List Token) :
    r.run? (.openObject :: ts) = Reader.run? ⟨r.stack, .keyOrEnd []⟩ ts := by
  rw [run?, h .openObject (by simp), begin?, if_pos hdepth]
  rfl

theorem insert_of_nodup_append {v : Json} {ms : Members}
    (h : (Members.keys (members ++ (key, v) :: ms)).Nodup) :
    members.insert key v = members ++ [(key, v)] := by
  apply Members.insert_of_not_mem
  rw [Members.keys, List.map_append, List.map_cons] at h
  exact fun hmem => (List.nodup_append.1 h).2.2 key hmem key List.mem_cons_self rfl

mutual

/-- The tokens of a value are read as that value. -/
theorem run?_tokens : ∀ (v : Json) {r : Reader} (ts : List Token), r.Ready →
    r.stack.length + v.depth ≤ maxDepth → v.Distinct →
    r.run? (v.tokens ++ ts) = (finish r.stack v).run? ts
  | .null, r, ts, hr, _, _ => hr.scalar .null ts
  | .bool b, r, ts, hr, _, _ => hr.scalar (.bool b) ts
  | .number n, r, ts, hr, _, _ => hr.scalar (.number n) ts
  | .string s, r, ts, hr, _, _ => hr.scalar (.string s) ts
  | .array [], r, ts, hr, hdepth, _ => by
    rw [depth] at hdepth
    rw [tokens, List.cons_append, hr.openArray (by omega)]
    rfl
  | .array (v :: vs), r, ts, hr, hdepth, hd => by
    rw [depth, itemsDepth] at hdepth
    rw [Distinct, DistinctItems] at hd
    have hv : (Frame.array [] :: r.stack).length + v.depth ≤ maxDepth := by
      rw [List.length_cons]
      omega
    rw [tokens, List.cons_append, hr.openArray (by omega), List.append_assoc, List.append_assoc,
      run?_tokens v _ (ready_itemOrEnd _) hv hd.1]
    exact run?_itemTokens vs r.stack [v] ts (by omega) hd.2
  | .object [], r, ts, hr, hdepth, _ => by
    rw [depth] at hdepth
    rw [tokens, List.cons_append, hr.openObject (by omega)]
    rfl
  | .object ((k, v) :: ms), r, ts, hr, hdepth, hd => by
    rw [depth, membersDepth] at hdepth
    rw [Distinct, DistinctMembers] at hd
    have hv : (Frame.object [] k :: r.stack).length + v.depth ≤ maxDepth := by
      rw [List.length_cons]
      omega
    have hread := run?_tokens v (memberTokens ms ++ .closeObject :: ts)
      (ready_value (.object [] k :: r.stack)) hv hd.2.1
    have hrest := run?_memberTokens ms r.stack [(k, v)] k ts (by omega)
      hd.1 hd.2.2
    rw [tokens, List.cons_append, hr.openObject (by omega)]
    simpa [run?, step?] using hread.trans hrest

/-- The items after a comma are read into the array that is open. -/
theorem run?_itemTokens : ∀ (vs : List Json) (stack : List Frame) (items : List Json)
    (ts : List Token), stack.length + 1 + itemsDepth vs ≤ maxDepth → DistinctItems vs →
    Reader.run? ⟨.array items :: stack, .commaOrEnd⟩ (itemTokens vs ++ .closeArray :: ts) =
      (finish stack (.array (items ++ vs))).run? ts
  | [], stack, items, ts, _, _ => by
    rw [itemTokens, List.append_nil]
    rfl
  | v :: vs, stack, items, ts, hdepth, hd => by
    rw [itemsDepth] at hdepth
    rw [DistinctItems] at hd
    have hv : (Frame.array items :: stack).length + v.depth ≤ maxDepth := by
      rw [List.length_cons]
      omega
    have hread := run?_tokens v (itemTokens vs ++ .closeArray :: ts)
      (ready_value (.array items :: stack)) hv hd.1
    have hrest := run?_itemTokens vs stack (items ++ [v]) ts (by omega) hd.2
    rw [itemTokens]
    simpa [run?, step?] using hread.trans hrest

/-- The members after a comma are read into the object that is open. -/
theorem run?_memberTokens : ∀ (ms : Members) (stack : List Frame) (members : Members)
    (key : String) (ts : List Token), stack.length + 1 + membersDepth ms ≤ maxDepth →
    (Members.keys (members ++ ms)).Nodup → DistinctMembers ms →
    Reader.run? ⟨.object members key :: stack, .commaOrEnd⟩
        (memberTokens ms ++ .closeObject :: ts) =
      (finish stack (.object (members ++ ms))).run? ts
  | [], stack, members, key, ts, _, _, _ => by
    rw [memberTokens, List.append_nil]
    rfl
  | (k, v) :: ms, stack, members, key, ts, hdepth, hkeys, hd => by
    rw [membersDepth] at hdepth
    rw [DistinctMembers] at hd
    have hv : (Frame.object members k :: stack).length + v.depth ≤ maxDepth := by
      rw [List.length_cons]
      omega
    have hread := run?_tokens v (memberTokens ms ++ .closeObject :: ts)
      (ready_value (.object members k :: stack)) hv hd.1
    have hrest := run?_memberTokens ms stack (members ++ [(k, v)]) k ts (by omega)
      (by simpa using hkeys) hd.2
    rw [finish, insert_of_nodup_append hkeys] at hread
    rw [memberTokens]
    simpa [run?, step?] using hread.trans hrest

end

end reading

section bounds

variable {items : List Json} {members : Members} {key : String} {v : Json}

theorem itemsDepth_append (items : List Json) (v : Json) :
    itemsDepth (items ++ [v]) = max (itemsDepth items) v.depth := by
  induction items with
  | nil => simp [itemsDepth]
  | cons item items ih => rw [List.cons_append, itemsDepth, ih, itemsDepth, Nat.max_assoc]

theorem membersDepth_insert (members : Members) (key : String) (v : Json) :
    membersDepth (members.insert key v) ≤ max (membersDepth members) v.depth := by
  induction members with
  | nil => simp [Members.insert, membersDepth]
  | cons m ms ih =>
    obtain ⟨k, w⟩ := m
    rw [Members.insert]
    split
    · rw [membersDepth, membersDepth]
      omega
    · rw [membersDepth, membersDepth]
      omega

theorem itemsInRange_append (h : ItemsInRange items) (hv : v.InRange) :
    ItemsInRange (items ++ [v]) := by
  induction items with
  | nil => exact ⟨hv, trivial⟩
  | cons item items ih => exact ⟨h.1, ih h.2⟩

theorem membersInRange_insert (h : MembersInRange members) (hv : v.InRange) :
    MembersInRange (members.insert key v) := by
  induction members with
  | nil => exact ⟨hv, trivial⟩
  | cons m ms ih =>
    obtain ⟨k, w⟩ := m
    rw [Members.insert]
    split
    · exact ⟨hv, h.2⟩
    · exact ⟨h.1, ih h.2⟩

theorem inherited_bounds : Inherited fun n v => v.depth ≤ maxDepth - n ∧ v.InRange where
  array h := ⟨Nat.sub_pos_of_lt h, trivial⟩
  object h := ⟨Nat.sub_pos_of_lt h, trivial⟩
  item {n items v} hitems hv := by
    rw [depth, InRange] at hitems ⊢
    rw [itemsDepth_append]
    exact ⟨by omega, itemsInRange_append hitems.2 hv.2⟩
  member {n key v members} hmembers hv := by
    rw [depth, InRange] at hmembers ⊢
    have := membersDepth_insert members key v
    exact ⟨by omega, membersInRange_insert hmembers.2 hv.2⟩

/-- Whole numbers that are read have 64 bits. -/
theorem inRange_of_number? {cs : List Char} {n : Number} (h : Token.number? cs = some n) :
    n.InRange := by
  obtain ⟨l, -, hl⟩ := Option.bind_eq_some_iff.1 h
  have hfloat : ∀ {x : Option Binary64}, x.map Number.float = some n → n.InRange := by
    intro x hx
    obtain ⟨x, -, rfl⟩ := Option.map_eq_some_iff.1 hx
    trivial
  have hpos := twoTo_pos 64
  unfold Token.Literal.number? at hl
  split at hl
  · dsimp only at hl
    split at hl
    · next hlt =>
      simp only [Bool.and_eq_true, decide_eq_true_eq] at hlt
      cases hl
      exact ⟨by omega, by omega⟩
    · split at hl
      · next hle =>
        simp only [Bool.and_eq_true, decide_eq_true_eq] at hle
        cases hl
        exact ⟨by omega, by omega⟩
      · exact hfloat hl
  · exact hfloat hl

/-- Values that are read nest no deeper than the reader goes, and have numbers of 64 bits. -/
theorem bounds_of_read? {s : String} (h : read? s = some v) :
    v.depth ≤ maxDepth ∧ v.InRange := by
  have hscalar : ∀ {v : Json} n, v.depth = 0 → v.InRange →
      v.depth ≤ maxDepth - n ∧ v.InRange := fun n hv hrange => ⟨hv ▸ Nat.zero_le _, hrange⟩
  refine holds_read? (P := fun n v => v.depth ≤ maxDepth - n ∧ v.InRange)
    (fun s n => hscalar n rfl trivial) ?_ ?_ inherited_bounds h
  · intro cs v hv n
    rcases word?_eq hv with rfl | ⟨b, rfl⟩ <;> exact hscalar n rfl trivial
  · intro cs m hm n
    exact hscalar n rfl (inRange_of_number? hm)

end bounds

/-- The text of a value is read as that value, whatever the layout. -/
theorem read?_write {spacing : Spacing} (hs : spacing.Plain) {v : Json} (hd : v.Distinct)
    (hdepth : v.depth ≤ maxDepth) (hv : v.InRange) :
    read? (String.ofList (v.write spacing 0)) = some v := by
  have hscan : Token.scan? (v.write spacing 0) = some v.tokens := by
    simpa [Token.scan?] using scan?_write hs v 0 hv Token.ends_nil
  have hrun := run?_tokens v [] (ready_value []) (by simpa using hdepth) hd
  rw [List.append_nil] at hrun
  rw [read?, String.toList_ofList, hscan]
  exact hrun

end Json

namespace Document

variable {d : Document} {path other : Path} {text : String}

theorem read?_of_read (h : read path text = .ok d) : Json.read? text = some d.toJson := by
  unfold read at h
  split at h
  · next hread =>
    cases h
    exact hread
  · cases h
  · cases h

theorem read_printed (path : Path) (hd : d.Distinct) (hdepth : d.toJson.depth ≤ Json.maxDepth)
    (hrange : d.toJson.InRange) :
    read path d.compact = .ok d ∧ read path d.pretty = .ok d :=
  ⟨read_of_read? (Json.read?_write Json.plain_compact hd hdepth hrange),
    read_of_read? (Json.read?_write Json.plain_pretty hd hdepth hrange)⟩

/-- Documents survive both of their texts, and what has been read is printed the same ever after. -/
theorem survives_text :
    (∀ (d : Document) (path : Path), d.Distinct → d.toJson.depth ≤ Json.maxDepth →
      d.toJson.InRange → read path d.compact = .ok d ∧ read path d.pretty = .ok d) ∧
    ∀ (text : String) (d : Document) (path other : Path), read path text = .ok d →
      (read other d.compact).map compact = .ok d.compact ∧
      (read other d.pretty).map pretty = .ok d.pretty := by
  refine ⟨fun d path hd hdepth hrange => read_printed path hd hdepth hrange, ?_⟩
  intro text d path other h
  obtain ⟨hdepth, hrange⟩ := Json.bounds_of_read? (read?_of_read h)
  obtain ⟨hcompact, hpretty⟩ := read_printed other (distinct_of_read h) hdepth hrange
  rw [hcompact, hpretty]
  exact ⟨rfl, rfl⟩

/-- A document with empty and nested parts, a number at the end of its range, minus zero and a
control character. -/
def mixedDocument : Document where
  members := [
    ("z", .array [.object [("k", .null)], .array []]),
    ("a", .number (.integer 18446744073709551615)),
    ("", .string "\x01\"\\"),
    ("m", .object [("f", .number (.float (.zero true))), ("b", .bool false)])]

/-- A text that names a member twice. -/
def repeatedText : String := "\x7b\"b\": true, \"a\": [], \"b\": \"x\"\x7d"

theorem read_repeated (path : Path) :
    read path repeatedText = .ok ⟨[("b", .string "x"), ("a", .array [])]⟩ :=
  read_of_toList (toList_literal rfl) (by cbv)

theorem survives_text_mixed :
    mixedDocument.Distinct ∧ mixedDocument.toJson.depth = 3 ∧ mixedDocument.toJson.InRange ∧
      read ⟨"/m"⟩ mixedDocument.compact = .ok mixedDocument ∧
      read ⟨"/m"⟩ mixedDocument.pretty = .ok mixedDocument ∧
      (read ⟨"/m"⟩ "\x7b\"b\":\"x\",\"a\":[]\x7d").map compact =
        .ok "\x7b\"b\":\"x\",\"a\":[]\x7d" := by
  have hdistinct : mixedDocument.Distinct := by
    simp [Distinct, mixedDocument, toJson, Json.Distinct, DistinctMembers, DistinctItems,
      Members.keys]
  have hdepth : mixedDocument.toJson.depth = 3 := rfl
  have hrange : mixedDocument.toJson.InRange := by
    simp [mixedDocument, toJson, Json.InRange, Json.MembersInRange, Json.ItemsInRange,
      Number.InRange, twoTo]
  have hshallow : mixedDocument.toJson.depth ≤ Json.maxDepth := by decide
  obtain ⟨hcompact, hpretty⟩ := survives_text.1 mixedDocument ⟨"/m"⟩ hdistinct hshallow hrange
  have hagain := (survives_text.2 repeatedText _ ⟨"/m"⟩ ⟨"/m"⟩ (read_repeated ⟨"/m"⟩)).1
  have htext : compact ⟨[("b", .string "x"), ("a", .array [])]⟩ =
      "\x7b\"b\":\"x\",\"a\":[]\x7d" := by cbv
  rw [htext] at hagain
  exact ⟨hdistinct, hdepth, hrange, hcompact, hpretty, hagain⟩

end Document

end SchemaForge
