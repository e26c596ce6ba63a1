import SchemaForge.Proofs.Json.Numbers
/-! The tokens of printed values: layouts differ in blanks only. -/
namespace SchemaForge

namespace Json

mutual

/-- Whether all whole numbers in a value have 64 bits. -/
def InRange : Json → Prop
  | number n => n.InRange
  | array items => ItemsInRange items
  | object members => MembersInRange members
  | _ => True

def ItemsInRange : List Json → Prop
  | [] => True
  | v :: vs => v.InRange ∧ ItemsInRange vs

def MembersInRange : Members → Prop
  | [] => True
  | (_, v) :: ms => v.InRange ∧ MembersInRange ms

end

mutual

/-- The tokens that a value is written with. -/
def tokens : Json → List Token
  | array [] => [.openArray, .closeArray]
  | array (v :: vs) => .openArray :: (tokens v ++ itemTokens vs ++ [.closeArray])
  | object [] => [.openObject, .closeObject]
  | object ((k, v) :: ms) =>
    .openObject :: .scalar (.string k) :: .colon ::
      (tokens v ++ memberTokens ms ++ [.closeObject])
  | v => [.scalar v]

/-- The tokens of the items after the first. -/
def itemTokens : List Json → List Token
  | [] => []
  | v :: vs => .comma :: (tokens v ++ itemTokens vs)

/-- The tokens of the members after the first. -/
def memberTokens : Members → List Token
  | [] => []
  | (k, v) :: ms => .comma :: .scalar (.string k) :: .colon :: (tokens v ++ memberTokens ms)

end

namespace Token

variable {c : Char} {cs r : List Char}

/-- What may follow a word or a number, so that it ends there. -/
def Ends (r : List Char) : Prop :=
  ∀ c ∈ r.head?, c.isAlpha = false ∧ isNumberChar c = false

theorem ends_nil : Ends [] := fun _ h => by cases h

theorem ends_cons (ha : c.isAlpha = false) (hn : isNumberChar c = false) : Ends (c :: r) := by
  intro c' hc'
  cases hc'
  exact ⟨ha, hn⟩

/-- Nothing else is taken from what follows. -/
theorem takeWhile_ends {p : Char → Bool} (hcs : ∀ c ∈ cs, p c = true)
    (hr : ∀ c ∈ r.head?, p c = false) :
    (cs ++ r).takeWhile p = cs ∧ (cs ++ r).dropWhile p = r := by
  rw [List.takeWhile_append_of_pos hcs, List.dropWhile_append_of_pos hcs]
  cases r with
  | nil => simp
  | cons c r => simp [hr c rfl]

theorem scan?_space (hc : isSpace c = true) (r : List Char) : scan? (c :: r) = scan? r := by
  rw [scan?.eq_def]
  exact if_pos hc

theorem scan?_spaces (hcs : ∀ c ∈ cs, isSpace c = true) (r : List Char) :
    scan? (cs ++ r) = scan? r := by
  induction cs with
  | nil => rfl
  | cons c cs ih =>
    obtain ⟨hc, hcs⟩ := List.forall_mem_cons.1 hcs
    exact (scan?_space hc _).trans (ih hcs)

/-- The tokens of one character. -/
def punctuation? : Char → Option Token
  | '[' => some openArray
  | ']' => some closeArray
  | '{' => some openObject
  | '}' => some closeObject
  | ',' => some comma
  | ':' => some colon
  | _ => none

theorem scan?_punctuation {t : Token} (h : punctuation? c = some t) (r : List Char) :
    scan? (c :: r) = (scan? r).map (t :: ·) := by
  unfold punctuation? at h
  split at h <;> cases h <;> (rw [scan?.eq_def]; rfl)

theorem scan?_openArray (r : List Char) : scan? ('[' :: r) = (scan? r).map (openArray :: ·) :=
  scan?_punctuation rfl r

theorem scan?_closeArray (r : List Char) : scan? (']' :: r) = (scan? r).map (closeArray :: ·) :=
  scan?_punctuation rfl r

theorem scan?_openObject (r : List Char) : scan? ('{' :: r) = (scan? r).map (openObject :: ·) :=
  scan?_punctuation rfl r

theorem scan?_closeObject (r : List Char) : scan? ('}' :: r) = (scan? r).map (closeObject :: ·) :=
  scan?_punctuation rfl r

theorem scan?_comma (r : List Char) : scan? (',' :: r) = (scan? r).map (comma :: ·) :=
  scan?_punctuation rfl r

theorem scan?_colon (r : List Char) : scan? (':' :: r) = (scan? r).map (colon :: ·) :=
  scan?_punctuation rfl r

theorem scan?_text {s : List Char} (h : text? cs = some (s, r)) :
    scan? ('"' :: cs) = (scan? r).map (scalar (.string (String.ofList s)) :: ·) := by
  have hspace : isSpace '"' = false := rfl
  simp only [scan?, hspace, Bool.false_eq_true, if_false]
  split
  · next heq =>
    rw [h] at heq
    cases heq
    rfl
  · next heq =>
    rw [h] at heq
    cases heq

theorem scan?_quote (s : String) (r : List Char) :
    scan? (quoteChars s.toList ++ r) = (scan? r).map (scalar (.string s) :: ·) := by
  have htext : text? (s.toList.flatMap escape ++ ['"'] ++ r) = some (s.toList, r) := by
    rw [List.append_assoc]
    exact text?_flatMap_escape s.toList r
  have hscan := scan?_text htext
  rwa [String.ofList_toList] at hscan

theorem scan?_word {v : Json} (hw : word? (c :: cs) = some v)
    (hcs : ∀ c' ∈ c :: cs, c'.isAlpha = true) (hr : Ends r) :
    scan? (c :: cs ++ r) = (scan? r).map (scalar v :: ·) := by
  obtain ⟨hc, hcs⟩ := List.forall_mem_cons.1 hcs
  obtain ⟨htake, hdrop⟩ := takeWhile_ends hcs fun c hc => (hr c hc).1
  have hspace : isSpace c = false := by
    by_contra hspace
    simp only [Bool.not_eq_false, isSpace, Bool.or_eq_true, beq_iff_eq] at hspace
    rcases hspace with ((rfl | rfl) | rfl) | rfl <;> exact absurd hc (by decide)
  rw [List.cons_append, scan?, hspace, if_neg Bool.false_ne_true, if_pos hc, htake, hw, hdrop]
  all_goals rintro rfl; exact absurd hc (by decide)

theorem isAlpha_of_isDigit (hc : c.isDigit = true) : c.isAlpha = false := by
  grind [Char.isDigit, Char.isAlpha, Char.isUpper, Char.isLower]

/-- A number is read to its end. -/
theorem scan?_number {n : Number} (hn : number? cs = some n) (hr : Ends r) :
    scan? (cs ++ r) = (scan? r).map (scalar (.number n) :: ·) := by
  obtain ⟨⟨c, rest, rfl, hc⟩, hcs⟩ := number?_chars hn
  obtain ⟨hnumber, hrest⟩ := List.forall_mem_cons.1 hcs
  obtain ⟨htake, hdrop⟩ := takeWhile_ends hrest fun c hc => (hr c hc).2
  have hspace : isSpace c = false := by
    by_contra hspace
    simp only [Bool.not_eq_false, isSpace, Bool.or_eq_true, beq_iff_eq] at hspace
    rcases hspace with ((rfl | rfl) | rfl) | rfl <;> exact absurd hc (by decide)
  have halpha : c.isAlpha = false := by
    rcases hc with rfl | hc
    · rfl
    · exact isAlpha_of_isDigit hc
  rw [List.cons_append, scan?, hspace, if_neg Bool.false_ne_true, halpha,
    if_neg Bool.false_ne_true, if_pos hnumber, htake, hn, hdrop]
  all_goals rintro rfl; exact absurd hc (by decide)

end Token

open Token

/-- What stands between parts holds blanks and colons only. -/
structure Spacing.Plain (spacing : Spacing) : Prop where
  lineBreak : ∀ depth, ∀ c ∈ spacing.lineBreak depth, isSpace c = true
  colon : ∀ r, scan? (spacing.colon ++ r) = (scan? r).map (.colon :: ·)

theorem plain_compact : Spacing.compact.Plain where
  lineBreak _ _ h := absurd h List.not_mem_nil
  colon := scan?_colon

theorem plain_pretty : Spacing.pretty.Plain where
  lineBreak depth c h := by
    rcases List.mem_cons.1 h with rfl | h
    · rfl
    · rw [List.eq_of_mem_replicate h]
      rfl
  colon r := (scan?_colon (' ' :: r)).trans (by rw [scan?_space rfl])

section write

variable {spacing : Spacing} (hs : spacing.Plain)

theorem ends_space {c : Char} (hc : isSpace c = true) (r : List Char) : Ends (c :: r) := by
  simp only [isSpace, Bool.or_eq_true, beq_iff_eq] at hc
  rcases hc with ((rfl | rfl) | rfl) | rfl <;> exact ends_cons rfl rfl

include hs in
theorem ends_lineBreak (depth : Nat) {r : List Char} (hr : Ends r) :
    Ends (spacing.lineBreak depth ++ r) := by
  have hbreak := hs.lineBreak depth
  cases hb : spacing.lineBreak depth with
  | nil => exact hr
  | cons c cs =>
    rw [hb] at hbreak
    exact ends_space (hbreak c List.mem_cons_self) _

theorem ends_writeItems (depth : Nat) (vs : List Json) {r : List Char} (hr : Ends r) :
    Ends (writeItems spacing depth vs ++ r) := by
  cases vs with
  | nil => exact hr
  | cons v vs => exact ends_cons rfl rfl

theorem ends_writeMembers (depth : Nat) (ms : Members) {r : List Char} (hr : Ends r) :
    Ends (writeMembers spacing depth ms ++ r) := by
  cases ms with
  | nil => exact hr
  | cons m ms => exact ends_cons rfl rfl

include hs

mutual

/-- The text of a value has the tokens of the value, whatever follows it. -/
theorem scan?_write : ∀ (v : Json) (depth : Nat) {r : List Char}, v.InRange → Ends r →
    scan? (v.write spacing depth ++ r) = (scan? r).map (v.tokens ++ ·)
  | .null, depth, r, _, hr => by
    have halpha : ['n', 'u', 'l', 'l'].all Char.isAlpha = true := by decide
    exact scan?_word rfl (List.all_eq_true.1 halpha) hr
  | .bool true, depth, r, _, hr => by
    have halpha : ['t', 'r', 'u', 'e'].all Char.isAlpha = true := by decide
    exact scan?_word rfl (List.all_eq_true.1 halpha) hr
  | .bool false, depth, r, _, hr => by
    have halpha : ['f', 'a', 'l', 's', 'e'].all Char.isAlpha = true := by decide
    exact scan?_word rfl (List.all_eq_true.1 halpha) hr
  | .number n, depth, r, hn, hr => by
    rw [InRange] at hn
    rw [write]
    exact scan?_number (number?_toText hn) hr
  | .string s, depth, r, _, hr => by
    rw [write]
    exact scan?_quote s r
  | .array [], depth, r, _, hr => by
    simp only [write, List.cons_append, List.nil_append, scan?_openArray, scan?_closeArray]
    simp [tokens, Function.comp_def]
  | .array (v :: vs), depth, r, h, hr => by
    rw [InRange, ItemsInRange] at h
    have hclose : Ends (spacing.lineBreak depth ++ ']' :: r) :=
      ends_lineBreak hs depth (ends_cons rfl rfl)
    simp only [write, List.cons_append, List.append_assoc, List.nil_append]
    rw [scan?_openArray, scan?_spaces (hs.lineBreak _),
      scan?_write v _ h.1 (ends_writeItems _ vs hclose), scan?_writeItems vs _ h.2 hclose,
      scan?_spaces (hs.lineBreak _), scan?_closeArray]
    simp [tokens, Function.comp_def]
  | .object [], depth, r, _, hr => by
    simp only [write, List.cons_append, List.nil_append, scan?_openObject, scan?_closeObject]
    simp [tokens, Function.comp_def]
  | .object ((k, v) :: ms), depth, r, h, hr => by
    rw [InRange, MembersInRange] at h
    have hclose : Ends (spacing.lineBreak depth ++ '}' :: r) :=
      ends_lineBreak hs depth (ends_cons rfl rfl)
    simp only [write, List.cons_append, List.append_assoc, List.nil_append]
    rw [scan?_openObject, scan?_spaces (hs.lineBreak _), scan?_quote, hs.colon,
      scan?_write v _ h.1 (ends_writeMembers _ ms hclose), scan?_writeMembers ms _ h.2 hclose,
      scan?_spaces (hs.lineBreak _), scan?_closeObject]
    simp [tokens, Function.comp_def]

theorem scan?_writeItems : ∀ (vs : List Json) (depth : Nat) {r : List Char}, ItemsInRange vs →
    Ends r → scan? (writeItems spacing depth vs ++ r) = (scan? r).map (itemTokens vs ++ ·)
  | [], depth, r, _, hr => by simp [writeItems, itemTokens]
  | v :: vs, depth, r, h, hr => by
    rw [ItemsInRange] at h
    simp only [writeItems, List.cons_append, List.append_assoc]
    rw [scan?_comma, scan?_spaces (hs.lineBreak _),
      scan?_write v _ h.1 (ends_writeItems _ vs hr), scan?_writeItems vs _ h.2 hr]
    simp [itemTokens, Function.comp_def]

theorem scan?_writeMembers : ∀ (ms : Members) (depth : Nat) {r : List Char}, MembersInRange ms →
    Ends r → scan? (writeMembers spacing depth ms ++ r) = (scan? r).map (memberTokens ms ++ ·)
  | [], depth, r, _, hr => by simp [writeMembers, memberTokens]
  | (k, v) :: ms, depth, r, h, hr => by
    rw [MembersInRange] at h
    simp only [writeMembers, List.cons_append, List.append_assoc]
    rw [scan?_comma, scan?_spaces (hs.lineBreak _), scan?_quote, hs.colon,
      scan?_write v _ h.1 (ends_writeMembers _ ms hr), scan?_writeMembers ms _ h.2 hr]
    simp [memberTokens, Function.comp_def]

end

end write

end Json

end SchemaForge
