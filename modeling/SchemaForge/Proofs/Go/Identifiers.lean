import SchemaForge.Proofs.Go.Emitted
/-!
Identifiers of members. A check of names looks at their public identifiers only: it refuses a name
that has none, or one that another name has. Private identifiers follow public ones, so that those
of names without fault are distinct and well formed, too.
-/
namespace SchemaForge

namespace MemberNames

variable {title name : String} {identifier : String → String} {taken : List (String × String)}
  {names : List String} {fault : ShapeFault}

/-- Why a name is refused behind others: it has no identifier, or one that is held already. -/
inductive Refused (title : String) (identifier : String → String) (taken : List (String × String))
    (name : String) : ShapeFault → Prop where
  | unnamed (h : identifier name = "") : Refused title identifier taken name (.unnamedMember title name)
  | taken {other : String} (hne : identifier name ≠ "") (h : (identifier name, other) ∈ taken) :
    Refused title identifier taken name (.identifierTaken title name (identifier name) other)

/-- One name after the other: each is refused, or holds its identifier from then on. -/
theorem faultAmong?_cons (title : String) (identifier : String → String)
    (taken : List (String × String)) (name : String) (names : List String) :
    (∃ fault, faultAmong? title identifier taken (name :: names) = some fault ∧
        Refused title identifier taken name fault) ∨
      identifier name ≠ "" ∧ taken.lookup (identifier name) = none ∧
        faultAmong? title identifier taken (name :: names) =
          faultAmong? title identifier ((identifier name, name) :: taken) names := by
  by_cases hempty : identifier name = ""
  · left
    exact ⟨_, by simp [faultAmong?, hempty], .unnamed hempty⟩
  · cases htaken : taken.lookup (identifier name) with
    | some other =>
      left
      obtain ⟨before, after, heq, -⟩ := List.lookup_eq_some_iff.1 htaken
      have hmem : (identifier name, other) ∈ taken := heq ▸ by simp
      exact ⟨_, by simp [faultAmong?, hempty, htaken], .taken hempty hmem⟩
    | none =>
      right
      exact ⟨hempty, rfl, by simp [faultAmong?, hempty, htaken]⟩

/-- The first name that is refused is the fault: those before it are not. -/
theorem refused_of_faultAmong? (h : faultAmong? title identifier taken names = some fault) :
    ∃ before name after, names = before ++ name :: after ∧
      faultAmong? title identifier taken before = none ∧
      Refused title identifier ((before.map fun n => (identifier n, n)).reverse ++ taken) name
        fault := by
  induction names generalizing taken with
  | nil => cases h
  | cons name names ih =>
    rcases faultAmong?_cons title identifier taken name names with
      ⟨fault', hfault, hrefused⟩ | ⟨hne, hfree, hrest⟩
    · rw [h, Option.some.injEq] at hfault
      subst hfault
      exact ⟨[], name, names, rfl, rfl, hrefused⟩
    · rw [hrest] at h
      obtain ⟨before, bad, after, rfl, hbefore, hrefused⟩ := ih h
      exact ⟨name :: before, bad, after, rfl, by simp [faultAmong?, hne, hfree, hbefore],
        by simpa using hrefused⟩

/-- Names have no fault exactly if each has an identifier of its own. -/
theorem fault?_eq_none_iff : fault? title identifier names = none ↔
    (names.map identifier).Nodup ∧ ∀ name ∈ names, identifier name ≠ "" := by
  constructor
  · intro h
    obtain ⟨hnodup, hnames⟩ := nodup_of_faultAmong?_none h
    exact ⟨hnodup, fun name hname => (hnames name hname).1⟩
  · rintro ⟨hnodup, hnames⟩
    cases hfault : fault? title identifier names with
    | none => rfl
    | some fault =>
      obtain ⟨before, name, after, rfl, -, hrefused⟩ := refused_of_faultAmong? hfault
      cases hrefused with
      | unnamed hempty => exact absurd hempty (hnames name (by simp))
      | taken hne hmem =>
        rename_i other
        rw [List.append_nil, List.mem_reverse, List.mem_map] at hmem
        obtain ⟨n, hn, heq⟩ := hmem
        rw [List.map_append, List.map_cons, List.nodup_append] at hnodup
        exact absurd (Prod.mk.inj heq).1
          (hnodup.2.2 _ (List.mem_map_of_mem hn) _ List.mem_cons_self)

end MemberNames

namespace Go

open Naming Place

variable {name : String} {c : Char} {cs : List Char}

/-- A capital with letters, digits and `_` behind it. -/
def IsExported (s : String) : Prop :=
  ∃ c cs, s.toList = c :: cs ∧ c.isUpper = true ∧ ∀ d ∈ cs, isNameChar d = true

/-- Letters, digits and `_`, of which the first is neither a capital nor a digit. -/
def IsUnexported (s : String) : Prop :=
  ∃ c cs, s.toList = c :: cs ∧ (c.isLower = true ∨ c = '_') ∧ ∀ d ∈ cs, isNameChar d = true

theorem camel_eq_nil_iff (start : Bool) : camel start cs = [] ↔ ∀ c ∈ cs, c.isAlphanum = false := by
  induction cs generalizing start with
  | nil => simp [camel]
  | cons c cs ih =>
    by_cases hc : c.isAlphanum = true
    · simp [camel, hc]
    · simp [camel, hc, ih]

/-- A name without letters and digits has no identifier, and no other. -/
theorem goPublic_eq_empty_iff : goPublic name = "" ↔ ∀ c ∈ name.toList, c.isAlphanum = false := by
  rw [← camel_eq_nil_iff true, goPublic, String.ofList_eq_empty_iff, goPublicChars]
  split
  · next h => simp [h]
  · next h =>
    rw [h]
    split <;> simp

theorem goPublicChars_eq_cons (h : goPublic name ≠ "") :
    ∃ c cs, goPublicChars name.toList = c :: cs := by
  apply List.exists_cons_of_ne_nil
  intro hnil
  apply h
  rw [goPublic, hnil, String.ofList_nil]

theorem isExported_goPublic (h : goPublic name ≠ "") : IsExported (goPublic name) := by
  obtain ⟨c, cs, hcs⟩ := goPublicChars_eq_cons h
  have hall : ∀ d ∈ c :: cs, isNameChar d = true := hcs ▸ isNameChar_goPublicChars
  exact ⟨c, cs, by rw [goPublic, String.toList_ofList, hcs], isUpper_of_goPublicChars hcs,
    fun d hd => hall d (List.mem_cons_of_mem c hd)⟩

theorem isUnexported_goPrivate (h : goPublic name ≠ "") : IsUnexported (goPrivate name) := by
  have hall := (isName_iff.1 (isName_goPrivate h)).2
  obtain ⟨c, cs, hcs⟩ := goPublicChars_eq_cons h
  have hprivate : privateChars name = c.toLower :: cs := by
    rw [privateChars, hcs, List.modifyHead_cons]
  have hlower : c.toLower.isLower = true := isLower_of_privateChars hprivate
  rcases toList_goPrivate name with htext | htext
  · rw [hprivate] at htext
    rw [htext] at hall
    exact ⟨_, cs, htext, Or.inl hlower, fun d hd => hall d (List.mem_cons_of_mem _ hd)⟩
  · rw [htext] at hall
    exact ⟨'_', _, htext, Or.inr rfl, fun d hd => hall d (List.mem_cons_of_mem _ hd)⟩

/-- Reserved words begin with small letters. -/
theorem isLower_of_goReserved {word : String} (h : word ∈ goReserved) :
    ∃ c cs, word.toList = c :: cs ∧ c.isLower = true := by
  have hall : ∀ word ∈ goReserved, word.toList.head?.any Char.isLower = true := by decide
  have hword := hall word h
  cases hlist : word.toList with
  | nil => simp [hlist] at hword
  | cons c cs => exact ⟨c, cs, rfl, by simpa [hlist] using hword⟩

theorem goPublic_not_reserved (h : goPublic name ≠ "") : goPublic name ∉ goReserved := by
  intro hmem
  obtain ⟨c, cs, hcs, hlower⟩ := isLower_of_goReserved hmem
  obtain ⟨c', cs', hcs', hupper, -⟩ := isExported_goPublic h
  rw [hcs', List.cons.injEq] at hcs
  rw [hcs.1] at hupper
  exact absurd hlower (Char.not_isLower_of_isUpper hupper)

/-- What would be reserved stands behind `_`. -/
theorem goPrivate_not_reserved (name : String) : goPrivate name ∉ goReserved := by
  intro hmem
  rw [goPrivate_eq] at hmem
  dsimp only at hmem
  split at hmem
  · obtain ⟨c, cs, hcs, hlower⟩ := isLower_of_goReserved hmem
    have hunderscore : c = '_' := by
      simp only [String.toList_append] at hcs
      exact (List.cons.inj hcs).1.symm
    rw [hunderscore] at hlower
    exact absurd hlower (by decide)
  · next hfree => exact hfree (List.contains_iff_mem.2 hmem)

/-- Names that a check lets through have public identifiers, each its own, and private ones, each
its own, that are well formed and not reserved. One that it refuses has no letter and no digit, or
the public identifier of a name before it; the fault is that of the first such name and tells which
other name it was. -/
theorem checked_names (title : String) (names : List String) :
    (MemberNames.fault? title goPublic names = none →
      (names.map goPublic).Nodup ∧ (names.map goPrivate).Nodup ∧
      ∀ name ∈ names, IsExported (goPublic name) ∧ goPublic name ∉ goReserved ∧
        IsUnexported (goPrivate name) ∧ goPrivate name ∉ goReserved) ∧
    ∀ fault, MemberNames.fault? title goPublic names = some fault →
      ∃ before name after, names = before ++ name :: after ∧
        MemberNames.fault? title goPublic before = none ∧
        ((∀ c ∈ name.toList, c.isAlphanum = false) ∧ fault = .unnamedMember title name ∨
          ∃ other ∈ before, goPublic other = goPublic name ∧
            fault = .identifierTaken title name (goPublic name) other) := by
  constructor
  · intro h
    obtain ⟨hnodup, hnames⟩ := MemberNames.fault?_eq_none_iff.1 h
    refine ⟨hnodup, ?_, fun name hname => ?_⟩
    · rw [List.Nodup, List.pairwise_map] at hnodup ⊢
      exact hnodup.imp fun hne heq => hne (goPublic_eq_of_goPrivate_eq heq)
    · have hname := hnames name hname
      exact ⟨isExported_goPublic hname, goPublic_not_reserved hname, isUnexported_goPrivate hname,
        goPrivate_not_reserved name⟩
  · intro fault h
    obtain ⟨before, name, after, hsplit, hbefore, hrefused⟩ := MemberNames.refused_of_faultAmong? h
    refine ⟨before, name, after, hsplit, hbefore, ?_⟩
    cases hrefused with
    | unnamed hempty => exact Or.inl ⟨goPublic_eq_empty_iff.1 hempty, rfl⟩
    | taken hne hmem =>
      rename_i other
      rw [List.append_nil, List.mem_reverse, List.mem_map] at hmem
      obtain ⟨n, hn, heq⟩ := hmem
      obtain ⟨hid, rfl⟩ := Prod.mk.inj heq
      exact Or.inr ⟨n, hn, hid, rfl⟩

/-- Names with a digit in front, of a reserved word and of two parts. A name of other characters is
refused, and one of other parts that are the same word. -/
theorem checked_names_mixed :
    MemberNames.fault? "S" goPublic ["9lives", "string", "opt-Test"] = none ∧
    (["9lives", "string", "opt-Test"].map goPrivate).Nodup ∧
    (IsExported (goPublic "9lives") ∧ IsUnexported (goPrivate "string") ∧
      goPrivate "string" ∉ goReserved) ∧
    MemberNames.fault? "S" goPublic ["a-b", "aB"] =
      some (.identifierTaken "S" "aB" "AB" "a-b") ∧
    ∃ before name after, ["a-b", "aB"] = before ++ name :: after ∧
      MemberNames.fault? "S" goPublic before = none := by
  have hnone : MemberNames.fault? "S" goPublic ["9lives", "string", "opt-Test"] = none := by decide
  have hsome : MemberNames.fault? "S" goPublic ["a-b", "aB"] =
      some (.identifierTaken "S" "aB" "AB" "a-b") := by decide
  obtain ⟨-, hprivate, hall⟩ := (checked_names "S" ["9lives", "string", "opt-Test"]).1 hnone
  obtain ⟨before, name, after, hsplit, hbefore, -⟩ :=
    (checked_names "S" ["a-b", "aB"]).2 _ hsome
  exact ⟨hnone, hprivate, ⟨(hall "9lives" (by simp)).1, (hall "string" (by simp)).2.2⟩, hsome,
    before, name, after, hsplit, hbefore⟩

end Go

end SchemaForge
