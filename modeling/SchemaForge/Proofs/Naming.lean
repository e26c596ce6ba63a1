import Mathlib
import SchemaForge.Naming
/-! Identifiers: members without fault have their own, and public and private ones go together. -/
namespace SchemaForge

namespace MemberNames

variable {title : String} {identifier : String → String} {taken : List (String × String)}
  {names : List String}

/-- Names without fault have identifiers, each its own. -/
theorem nodup_of_faultAmong?_none (h : faultAmong? title identifier taken names = none) :
    (names.map identifier).Nodup ∧
      ∀ name ∈ names, identifier name ≠ "" ∧ taken.lookup (identifier name) = none := by
  induction names generalizing taken with
  | nil => simp
  | cons name names ih =>
    rw [faultAmong?] at h
    by_cases hempty : identifier name = ""
    · simp [hempty] at h
    · simp only [String.isEmpty_iff, hempty, if_false] at h
      cases htaken : taken.lookup (identifier name) with
      | some other => simp [htaken] at h
      | none =>
        simp only [htaken] at h
        obtain ⟨hnodup, hrest⟩ := ih h
        have hfresh : ∀ other ∈ names, identifier other ≠ identifier name := by
          intro other hother heq
          have := (hrest other hother).2
          simp [heq] at this
        refine ⟨?_, List.forall_mem_cons.2 ⟨⟨hempty, htaken⟩, ?_⟩⟩
        · rw [List.map_cons, List.nodup_cons]
          refine ⟨?_, hnodup⟩
          intro hmem
          obtain ⟨other, hother, heq⟩ := List.mem_map.1 hmem
          exact hfresh other hother heq
        · intro other hother
          obtain ⟨hne, hlookup⟩ := hrest other hother
          rw [List.lookup_cons, beq_false_of_ne (hfresh other hother)] at hlookup
          exact ⟨hne, hlookup⟩

end MemberNames

namespace Naming

/-- Names that members have for themselves stay distinct beside others unless one of those is
taken. -/
theorem nodup_append_iff {α : Type} {own fixed : List α} (hown : own.Nodup) (hfixed : fixed.Nodup) :
    (own ++ fixed).Nodup ↔ ∀ x ∈ own, x ∉ fixed := by
  rw [List.nodup_append']
  exact ⟨fun h x hx hx' => h.2.2 hx hx', fun h => ⟨hown, hfixed, fun x hx hx' => h x hx hx'⟩⟩

variable {a b : String} {cs ds : List Char}

theorem isUpper_of_goPublicChars {c : Char} (h : goPublicChars cs = c :: ds) :
    c.isUpper = true := by
  unfold goPublicChars at h
  split at h
  · cases h
  · split at h
    · next hc => cases h; exact hc
    · cases h; rfl

theorem toLower_inj {c d : Char} (hc : c.isUpper = true) (hd : d.isUpper = true)
    (h : c.toLower = d.toLower) : c = d := by
  have raise {x : Char} (hx : x.isUpper = true) : x.toLower.toUpper = x := by
    have := Char.not_isLower_of_isUpper hx
    rw [Char.toUpper_toLower_eq_toUpper, Char.toUpper_eq_of_not_isLower this]
  rw [← raise hc, ← raise hd, h]

/-- The characters of a name with a small letter in front. -/
def privateChars (name : String) : List Char := (goPublicChars name.toList).modifyHead Char.toLower

theorem goPrivate_eq (name : String) :
    goPrivate name =
      let lowered := String.ofList (privateChars name)
      if goReserved.contains lowered then "_" ++ lowered else lowered := by
  unfold goPrivate privateChars
  cases goPublicChars name.toList <;> rfl

theorem toList_goPrivate (name : String) :
    (goPrivate name).toList = privateChars name ∨
      (goPrivate name).toList = '_' :: privateChars name := by
  rw [goPrivate_eq]
  dsimp only
  split
  · exact Or.inr (by simp)
  · exact Or.inl (by simp)

theorem isLower_of_privateChars {name : String} {c : Char} (h : privateChars name = c :: cs) :
    c.isLower = true := by
  unfold privateChars at h
  cases hname : goPublicChars name.toList with
  | nil => simp [hname] at h
  | cons d ds =>
    rw [hname, List.modifyHead_cons] at h
    have hupper : d.isUpper = true := isUpper_of_goPublicChars hname
    rw [← (List.cons.inj h).1]
    simp [Char.isAlpha, hupper]

theorem privateChars_ne_underscore (name : String) (rest : List Char) :
    privateChars name ≠ '_' :: rest := by
  intro h
  exact absurd (isLower_of_privateChars h) (by decide)

theorem privateChars_ne_upper {name : String} {c : Char} (hc : c.isUpper = true) :
    privateChars name ≠ c :: cs := by
  intro h
  exact Char.not_isLower_of_isUpper hc (isLower_of_privateChars h)

theorem privateChars_inj (h : privateChars a = privateChars b) : goPublic a = goPublic b := by
  unfold privateChars at h
  unfold goPublic
  congr 1
  cases ha : goPublicChars a.toList with
  | nil =>
    cases hb : goPublicChars b.toList with
    | nil => rfl
    | cons d ds => simp [ha, hb] at h
  | cons c cs =>
    cases hb : goPublicChars b.toList with
    | nil => simp [ha, hb] at h
    | cons d ds =>
      rw [ha, hb, List.modifyHead_cons, List.modifyHead_cons] at h
      obtain ⟨hhead, hrest⟩ := List.cons.inj h
      have := toLower_inj (isUpper_of_goPublicChars ha) (isUpper_of_goPublicChars hb) hhead
      rw [this, hrest]

/-- Names with one private identifier have one public identifier. -/
theorem goPublic_eq_of_goPrivate_eq (h : goPrivate a = goPrivate b) : goPublic a = goPublic b := by
  apply privateChars_inj
  have hlist : (goPrivate a).toList = (goPrivate b).toList := congrArg String.toList h
  rcases toList_goPrivate a with ha | ha <;> rcases toList_goPrivate b with hb | hb
  · rw [← ha, hlist, hb]
  · exact absurd (ha.symm.trans (hlist.trans hb)) (privateChars_ne_underscore a _)
  · exact absurd (hb.symm.trans (hlist.symm.trans ha)) (privateChars_ne_underscore b _)
  · exact (List.cons.inj (ha.symm.trans (hlist.trans hb))).2

/-- A word that goes on a name as it is: letters, of which the first is a capital. -/
def IsWord (word : List Char) : Prop :=
  ∃ c cs, word = c :: cs ∧ c.isUpper = true ∧ ∀ d ∈ c :: cs, d.isAlphanum = true

theorem camel_false_of_alphanum (h : ∀ d ∈ cs, d.isAlphanum = true) : camel false cs = cs := by
  induction cs with
  | nil => rfl
  | cons c cs ih =>
    have hc : c.isAlphanum = true := h c List.mem_cons_self
    have hcs := ih fun d hd => h d (List.mem_cons_of_mem _ hd)
    simp [camel, hc, hcs]

theorem camel_word (h : IsWord ds) (start : Bool) : camel start ds = ds := by
  obtain ⟨c, word, rfl, hupper, hall⟩ := h
  have hrest := camel_false_of_alphanum fun d hd => hall d (List.mem_cons_of_mem _ hd)
  have hc : c.toUpper = c := Char.toUpper_eq_of_not_isLower (Char.not_isLower_of_isUpper hupper)
  simp [camel, hall c List.mem_cons_self, hrest, hc]

theorem camel_append (h : IsWord ds) (start : Bool) (cs : List Char) :
    camel start (cs ++ ds) = camel start cs ++ ds := by
  induction cs generalizing start with
  | nil => exact camel_word h start
  | cons c cs ih =>
    by_cases hc : c.isAlphanum = true
    · simp [camel, hc, ih]
    · simp [camel, hc, ih]

/-- A word stays as it is at the end of a public identifier. -/
theorem goPublicChars_append (h : IsWord ds) (cs : List Char) :
    goPublicChars (cs ++ ds) = goPublicChars cs ++ ds := by
  unfold goPublicChars
  rw [camel_append h]
  cases hcamel : camel true cs with
  | nil =>
    obtain ⟨c, word, rfl, hupper, -⟩ := h
    simp [hupper]
  | cons c rest =>
    by_cases hc : c.isUpper = true <;> simp [hc]

theorem goPublic_append {word : String} (h : IsWord word.toList) (name : String) :
    goPublic (name ++ word) = goPublic name ++ word := by
  unfold goPublic
  rw [String.toList_append, goPublicChars_append h, String.ofList_append, String.ofList_toList]

/-- Private identifiers are made from public ones. -/
theorem goPrivate_eq_iff : goPrivate a = goPrivate b ↔ goPublic a = goPublic b := by
  refine ⟨goPublic_eq_of_goPrivate_eq, fun h => ?_⟩
  have hchars : goPublicChars a.toList = goPublicChars b.toList := by
    have := congrArg String.toList h
    simpa [goPublic] using this
  rw [goPrivate_eq, goPrivate_eq, privateChars, privateChars, hchars]

/-- No private identifier is a public one. -/
theorem goPrivate_ne_goPublic (hb : goPublic b ≠ "") : goPrivate a ≠ goPublic b := by
  intro h
  have hpublic : (goPublic b).toList = goPublicChars b.toList := by simp [goPublic]
  obtain ⟨c, cs, hcs⟩ : ∃ c cs, goPublicChars b.toList = c :: cs := by
    apply List.exists_cons_of_ne_nil
    intro hnil
    exact hb (by rw [goPublic, hnil, String.ofList_nil])
  have hupper : c.isUpper = true := isUpper_of_goPublicChars hcs
  have hlist : (goPrivate a).toList = c :: cs := by rw [h, hpublic, hcs]
  rcases toList_goPrivate a with ha | ha
  · exact privateChars_ne_upper hupper (ha.symm.trans hlist)
  · have hc : '_' = c := (List.cons.inj (ha.symm.trans hlist)).1
    rw [← hc] at hupper
    exact absurd hupper (by decide)

end Naming
end SchemaForge
