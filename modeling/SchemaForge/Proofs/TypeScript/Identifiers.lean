import Mathlib
import SchemaForge.Proofs.Naming
/-!
Identifiers of TypeScript modules: which names have one, and what two names with one identifier
have in common.
-/
namespace SchemaForge.Naming

variable {keep : Char → Bool} {inRun : Bool} {c : Char} {cs ds : List Char}
  {a b name suffix : String}

section squash

theorem squash_cons (h : keep c = true) :
    squash keep inRun (c :: cs) = c :: squash keep false cs := by
  rw [squash, if_pos h]

/-- What is kept divides the runs before it from those after it. -/
theorem squash_append (h : keep c = true) :
    squash keep inRun (cs ++ c :: ds) = squash keep inRun cs ++ c :: squash keep false ds := by
  induction cs generalizing inRun with
  | nil => exact squash_cons h
  | cons d cs ih =>
    by_cases hd : keep d = true
    · simp [squash_cons hd, ih]
    · cases inRun <;> simp [squash, hd, ih]

theorem isTsChar_of_mem_squash (h : c ∈ squash isTsChar inRun cs) : isTsChar c = true := by
  induction cs generalizing inRun with
  | nil => cases h
  | cons d cs ih =>
    by_cases hd : isTsChar d = true
    · rw [squash_cons hd] at h
      rcases List.mem_cons.1 h with rfl | h
      · exact hd
      · exact ih h
    · cases inRun
      · simp only [squash, hd, Bool.false_eq_true, if_false, List.mem_cons] at h
        rcases h with rfl | h
        · decide
        · exact ih h
      · simp only [squash, hd, Bool.false_eq_true, if_false, if_true] at h
        exact ih h

end squash

/-- Whether a name starts with a character once it has an identifier. -/
def leads (c : Char) : Bool := c.isAlphanum || c == '$'

/-- The first character of a name that its identifier can start with. -/
def lead? (name : String) : Option Char := name.toList.find? leads

/-- The characters of a name as TypeScript has them: none in front that only separates. -/
def tsChars (name : String) : List Char := (squash isTsChar false name.toList).dropWhile (· == '_')

def tsWord (name : String) : String := String.ofList (tsChars name)

theorem tsPublic_eq (name : String) :
    tsPublic name = if tsReserved.contains (tsWord name) then Json.quote (tsWord name)
      else tsWord name := rfl

theorem head?_dropWhile_squash :
    ((squash isTsChar inRun cs).dropWhile (· == '_')).head? = cs.find? leads := by
  induction cs generalizing inRun with
  | nil => rfl
  | cons c cs ih =>
    by_cases hc : isTsChar c = true
    · rw [squash_cons hc]
      by_cases hunder : c = '_'
      · subst hunder
        have hleads : leads '_' = false := by decide
        simpa [List.find?_cons, hleads] using ih
      · have hleads : leads c = true := by
          simpa [leads, isTsChar, hunder] using hc
        simp [hunder, hleads]
    · have hleads : leads c = false := by
        simp only [isTsChar, Bool.or_eq_true, not_or, Bool.not_eq_true] at hc
        simp [leads, hc]
      cases inRun <;> simpa [squash, hc, List.find?_cons, hleads] using ih

/-- The identifier of a name starts with the lead of the name. -/
theorem head?_tsChars (name : String) : (tsChars name).head? = lead? name := head?_dropWhile_squash

theorem isTsChar_of_mem_tsChars (h : c ∈ tsChars name) : isTsChar c = true :=
  isTsChar_of_mem_squash ((List.dropWhile_sublist _).mem h)

/-- Names with one private identifier have one public identifier. -/
theorem tsPublic_eq_of_squash_eq
    (h : squash isTsChar false a.toList = squash isTsChar false b.toList) :
    tsPublic a = tsPublic b := by
  rw [tsPublic_eq, tsPublic_eq, tsWord, tsWord, tsChars, tsChars, h]

theorem tsPublic_eq_of_tsPrivate_eq (h : tsPrivate a = tsPrivate b) : tsPublic a = tsPublic b := by
  apply tsPublic_eq_of_squash_eq
  have hlist := congrArg String.toList h
  simpa [tsPrivate] using hlist

section reserved

/-- Reserved words are of small letters. -/
theorem isLower_of_reserved :
    ∀ word ∈ tsReserved, word.toList ≠ [] ∧ ∀ c ∈ word.toList, c.isLower = true := by
  have hall : tsReserved.all (fun word => !word.toList.isEmpty && word.toList.all Char.isLower) =
      true := by decide
  intro word hword
  have := List.all_eq_true.1 hall word hword
  simpa using this

theorem toList_quote_reserved :
    ∀ word ∈ tsReserved, (Json.quote word).toList = '"' :: (word.toList ++ ['"']) := by
  decide

theorem toList_tsPublic (name : String) :
    (tsPublic name).toList =
      if tsWord name ∈ tsReserved then '"' :: (tsChars name ++ ['"']) else tsChars name := by
  have hword : (tsWord name).toList = tsChars name := String.toList_ofList
  rw [tsPublic_eq]
  by_cases h : tsWord name ∈ tsReserved
  · rw [if_pos (List.contains_iff_mem.2 h), if_pos h, toList_quote_reserved _ h, hword]
  · rw [if_neg (mt List.contains_iff_mem.1 h), if_neg h, hword]

/-- A word that is not of small letters alone is not reserved. -/
theorem tsWord_not_reserved (h : c ∈ tsChars name) (hc : c.isLower = false) :
    tsWord name ∉ tsReserved := by
  intro hmem
  have := (isLower_of_reserved _ hmem).2 c (by simpa [tsWord] using h)
  rw [hc] at this
  cases this

/-- Public names are of what can stand in an identifier, and quotes. -/
theorem mem_tsPublic (h : c ∈ (tsPublic name).toList) : isTsChar c = true ∨ c = '"' := by
  rw [toList_tsPublic] at h
  split at h
  · simp only [List.mem_cons, List.mem_append, List.not_mem_nil, or_false] at h
    rcases h with h | h | h
    exacts [Or.inr h, Or.inl (isTsChar_of_mem_tsChars h), Or.inr h]
  · exact Or.inl (isTsChar_of_mem_tsChars h)

/-- Public names never start with `_`. -/
theorem head?_tsPublic_ne (name : String) : (tsPublic name).toList.head? ≠ some '_' := by
  rw [toList_tsPublic]
  split
  · simp
  · rw [head?_tsChars]
    intro h
    exact absurd (List.find?_some h) (by decide)

/-- A name with a mark in it and a word at its end keeps both. -/
theorem tsChars_marked (a b : String) :
    tsChars (a ++ "$" ++ b ++ "Coerce") =
      tsChars a ++ '$' :: (squash isTsChar false b.toList ++ "Coerce".toList) := by
  have hmark : isTsChar '$' = true := by decide
  have hcapital : isTsChar 'C' = true := by decide
  have hlist : (a ++ "$" ++ b ++ "Coerce").toList =
      a.toList ++ '$' :: (b.toList ++ 'C' :: "oerce".toList) := by simp
  have hrest : squash isTsChar false "oerce".toList = "oerce".toList := by decide
  rw [tsChars, hlist, squash_append hmark, squash_append hcapital, hrest, List.dropWhile_append]
  split
  · next hempty =>
    rw [tsChars, List.isEmpty_iff.1 hempty]
    simp
  · simp [tsChars]

/-- And is no reserved word. -/
theorem toList_tsPublic_marked (a b : String) :
    (tsPublic (a ++ "$" ++ b ++ "Coerce")).toList =
      tsChars a ++ '$' :: (squash isTsChar false b.toList ++ "Coerce".toList) := by
  have hmem : '$' ∈ tsChars (a ++ "$" ++ b ++ "Coerce") := by
    rw [tsChars_marked]
    simp
  rw [toList_tsPublic, if_neg (tsWord_not_reserved hmem (by decide)), tsChars_marked]

end reserved

section shapes

/-- A character that an identifier can start with. -/
def isIdentifierStart (c : Char) : Bool := c.isAlpha || c == '_' || c == '$'

/-- An identifier, of ASCII letters: generated names have no others. -/
def isIdentifier (s : String) : Bool :=
  match s.toList with
  | [] => false
  | c :: cs => isIdentifierStart c && cs.all isTsChar

/-- A literal of a text between quotes, complete and without anything escaped. -/
def IsQuoted (s : String) : Prop :=
  ∃ cs, s.toList = '"' :: (cs ++ ['"']) ∧ ∀ c ∈ cs, c ≠ '"' ∧ c ≠ '\\'

theorem isIdentifier_iff : isIdentifier a = true ↔
    ∃ c cs, a.toList = c :: cs ∧ isIdentifierStart c = true ∧ ∀ d ∈ cs, isTsChar d = true := by
  unfold isIdentifier
  cases a.toList <;> simp

theorem isTsChar_of_isIdentifierStart (h : isIdentifierStart c = true) : isTsChar c = true := by
  simp only [isIdentifierStart, Bool.or_eq_true] at h
  simp only [isTsChar, Char.isAlphanum, Bool.or_eq_true]
  tauto

/-- What can stand in an identifier can stand behind one. -/
theorem isIdentifier_append (ha : isIdentifier a = true) (hb : ∀ c ∈ b.toList, isTsChar c = true) :
    isIdentifier (a ++ b) = true := by
  obtain ⟨c, cs, heq, hc, hcs⟩ := isIdentifier_iff.1 ha
  refine isIdentifier_iff.2 ⟨c, cs ++ b.toList, by simp [heq], hc, ?_⟩
  exact List.forall_mem_append.2 ⟨hcs, hb⟩

theorem isTsChar_of_isIdentifier (h : isIdentifier a = true) : ∀ c ∈ a.toList, isTsChar c = true := by
  obtain ⟨c, cs, heq, hc, hcs⟩ := isIdentifier_iff.1 h
  rw [heq]
  exact List.forall_mem_cons.2 ⟨isTsChar_of_isIdentifierStart hc, hcs⟩

theorem isDigit_of_isAlpha (h : c.isAlpha = true) : c.isDigit = false := by
  grind [Char.isAlpha, Char.isUpper, Char.isLower, Char.isDigit]

/-- What leads a name starts an identifier unless it is a digit. -/
theorem isIdentifierStart_of_leads (h : leads c = true) :
    isIdentifierStart c = true ↔ c.isDigit = false := by
  simp only [leads, Char.isAlphanum, Bool.or_eq_true, beq_iff_eq] at h
  rcases h with (halpha | hdigit) | rfl
  · simp [isIdentifierStart, halpha, isDigit_of_isAlpha halpha]
  · have halpha : c.isAlpha = false := by
      by_contra hne
      simp [isDigit_of_isAlpha (eq_true_of_ne_false hne)] at hdigit
    have hne : c ≠ '_' ∧ c ≠ '$' := by constructor <;> rintro rfl <;> cases hdigit
    simp [isIdentifierStart, halpha, hne, hdigit]
  · decide

theorem isIdentifier_tsWord_iff :
    isIdentifier (tsWord name) = true ↔ ∃ c, lead? name = some c ∧ c.isDigit = false := by
  rw [← head?_tsChars, isIdentifier_iff, tsWord, String.toList_ofList]
  have hkept : ∀ c ∈ tsChars name, isTsChar c = true := fun c hc => isTsChar_of_mem_tsChars hc
  have hleads : ∀ c, (tsChars name).head? = some c → leads c = true := by
    intro c hc
    rw [head?_tsChars] at hc
    exact List.find?_some hc
  cases hchars : tsChars name with
  | nil => simp
  | cons c cs =>
    rw [hchars] at hkept hleads
    have hstart := isIdentifierStart_of_leads (hleads c rfl)
    have hcs := (List.forall_mem_cons.1 hkept).2
    constructor
    · rintro ⟨_, _, heq, hc, -⟩
      cases heq
      exact ⟨c, rfl, hstart.1 hc⟩
    · rintro ⟨_, heq, hc⟩
      cases heq
      exact ⟨c, cs, rfl, hstart.2 hc, hcs⟩

/-- A public name is an identifier exactly if it is not reserved and leads with no digit. -/
theorem isIdentifier_tsPublic_iff : isIdentifier (tsPublic name) = true ↔
    (∃ c, lead? name = some c ∧ c.isDigit = false) ∧ tsWord name ∉ tsReserved := by
  by_cases h : tsWord name ∈ tsReserved
  · have hquoted : isIdentifier (tsPublic name) = false := by
      rw [isIdentifier, toList_tsPublic, if_pos h]
      rfl
    simp [hquoted, h]
  · have hword : tsPublic name = tsWord name := by
      rw [tsPublic_eq, if_neg (mt List.contains_iff_mem.1 h)]
    rw [hword, isIdentifier_tsWord_iff]
    simp [h]

/-- A public name stands in quotes exactly if it is reserved. -/
theorem isQuoted_tsPublic_iff : IsQuoted (tsPublic name) ↔ tsWord name ∈ tsReserved := by
  constructor
  · rintro ⟨cs, heq, -⟩
    by_contra h
    rw [toList_tsPublic, if_neg h] at heq
    have hquote : '"' ∈ tsChars name := heq ▸ List.mem_cons_self
    exact absurd (isTsChar_of_mem_tsChars hquote) (by decide)
  · intro h
    refine ⟨tsChars name, by rw [toList_tsPublic, if_pos h], fun c hc => ?_⟩
    have hkept := isTsChar_of_mem_tsChars hc
    constructor <;> rintro rfl <;> exact absurd hkept (by decide)

/-- Reserved words lead with a letter. -/
theorem lead?_of_reserved (h : tsWord name ∈ tsReserved) :
    ∃ c, lead? name = some c ∧ c.isDigit = false := by
  obtain ⟨hne, hlower⟩ := isLower_of_reserved _ h
  rw [tsWord, String.toList_ofList] at hne hlower
  obtain ⟨c, cs, hchars⟩ := List.exists_cons_of_ne_nil hne
  refine ⟨c, by rw [← head?_tsChars, hchars, List.head?_cons], ?_⟩
  have hc : c.isLower = true := hlower c (hchars ▸ List.mem_cons_self)
  grind [Char.isLower, Char.isDigit]

/-- A public name is an identifier or stands in quotes exactly if it leads with no digit. -/
theorem isIdentifier_or_isQuoted_iff :
    (isIdentifier (tsPublic name) = true ∨ IsQuoted (tsPublic name)) ↔
      ∃ c, lead? name = some c ∧ c.isDigit = false := by
  rw [isIdentifier_tsPublic_iff, isQuoted_tsPublic_iff]
  constructor
  · rintro (⟨hlead, -⟩ | hreserved)
    · exact hlead
    · exact lead?_of_reserved hreserved
  · intro hlead
    by_cases hreserved : tsWord name ∈ tsReserved
    · exact Or.inr hreserved
    · exact Or.inl ⟨hlead, hreserved⟩

/-- What has a public name has a lead. -/
theorem exists_lead? (h : tsPublic name ≠ "") : ∃ c, lead? name = some c := by
  rw [← Option.isSome_iff_exists, ← head?_tsChars, List.isSome_head?]
  intro hnil
  apply h
  have hword : tsWord name = "" := by rw [tsWord, hnil, String.ofList_nil]
  rw [tsPublic_eq, hword]
  rfl

/-- What stands behind a public name that is an identifier does not keep it from leading. -/
theorem lead?_tsPublic_append (h : isIdentifier (tsPublic a) = true) (b : String) :
    lead? (tsPublic a ++ b) = lead? a := by
  obtain ⟨⟨c, hc, -⟩, hreserved⟩ := isIdentifier_tsPublic_iff.1 h
  obtain ⟨cs, hchars⟩ : ∃ cs, tsChars a = c :: cs := by
    rw [← head?_tsChars] at hc
    exact ⟨_, List.eq_cons_of_mem_head? hc⟩
  rw [lead?, String.toList_append, toList_tsPublic, if_neg hreserved, hchars, hc]
  simp [List.find?_some hc]

/-- The name of a function for a list is an identifier if the name of its object is. -/
theorem isIdentifier_marked (h : isIdentifier (tsPublic a) = true) (b : String) :
    isIdentifier (tsPublic (tsPublic a ++ "$" ++ b ++ "Coerce")) = true := by
  have hlead := (isIdentifier_tsPublic_iff.1 h).1
  have hmark : '$' ∈ tsChars (tsPublic a ++ "$" ++ b ++ "Coerce") := by
    rw [tsChars_marked]
    simp
  rw [isIdentifier_tsPublic_iff]
  refine ⟨?_, tsWord_not_reserved hmark (by decide)⟩
  rw [String.append_assoc, String.append_assoc, lead?_tsPublic_append h]
  exact hlead

end shapes

end SchemaForge.Naming
