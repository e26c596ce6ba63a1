import SchemaForge.CommandLine
import SchemaForge.Proofs.CommandLine
/-!
The flag of a configuration file is looked for among all words of the arguments, which are split
into options only afterwards. Main statement: the file is that of the first option `--config`,
unless that text comes earlier, as the value of another option.
-/
namespace SchemaForge.CommandLine

namespace Setting

variable {flag : String} {front args : List String}

theorem valueOf?_cons_ne {word : String} (h : word ≠ flag) (args : List String) :
    valueOf? flag (word :: args) = valueOf? flag args := by
  rw [valueOf?.eq_def]
  exact if_neg h

theorem valueOf?_append (h : flag ∉ front) (args : List String) :
    valueOf? flag (front ++ args) = valueOf? flag args := by
  induction front with
  | nil => rfl
  | cons word front ih =>
    rw [List.mem_cons, not_or] at h
    rw [List.cons_append, valueOf?_cons_ne (Ne.symm h.1), ih h.2]

theorem valueOf?_not_mem (h : flag ∉ args) : valueOf? flag args = .ok none := by
  rw [← List.append_nil args, valueOf?_append h]
  rfl

end Setting

namespace Argument

variable {flag f value : String} {a : Argument} {as pre post : List Argument}

/-- A flag comes as the value of an option that has another flag, before it comes at any other
place. -/
def Shadowed (flag : String) (as : List Argument) : Prop :=
  ∃ pre f post, as = pre ++ option f flag :: post ∧ f ≠ flag ∧ flag ∉ pre.flatMap words

/-- A word is in no argument, or there is a first one that it is in. -/
theorem first_mention (flag : String) (as : List Argument) :
    flag ∉ as.flatMap words ∨
      ∃ pre a post, as = pre ++ a :: post ∧ flag ∈ a.words ∧ flag ∉ pre.flatMap words := by
  induction as with
  | nil => exact Or.inl List.not_mem_nil
  | cons a as ih =>
    by_cases ha : flag ∈ a.words
    · exact Or.inr ⟨[], a, as, rfl, ha, List.not_mem_nil⟩
    · have hcons : ∀ {as}, flag ∉ as.flatMap words → flag ∉ (a :: as).flatMap words := by
        intro as has
        rw [List.flatMap_cons, List.mem_append, not_or]
        exact ⟨ha, has⟩
      rcases ih with hnone | ⟨pre, b, post, rfl, hb, hpre⟩
      · exact Or.inl (hcons hnone)
      · exact Or.inr ⟨a :: pre, b, post, rfl, hb, hcons hpre⟩

theorem values_eq_nil (h : flag ∉ as.flatMap words) : values flag as = [] := by
  rw [values, List.filterMap_eq_nil_iff]
  intro a ha
  cases a with
  | switch f => rfl
  | option f value =>
    have hne : f ≠ flag := by
      rintro rfl
      exact h (List.mem_flatMap.2 ⟨_, ha, List.mem_cons_self⟩)
    rw [value?, if_neg hne]

theorem values_append (flag : String) (as bs : List Argument) :
    values flag (as ++ bs) = values flag as ++ values flag bs := List.filterMap_append

/-- Unless it is shadowed, a flag is found where its first option stands. -/
theorem valueOf?_words (hflag : flag ∉ switches) (hknown : ∀ a ∈ as, a.Known)
    (h : ¬ Shadowed flag as) :
    Setting.valueOf? flag (as.flatMap words) = .ok (values flag as).head? := by
  rcases first_mention flag as with hnone | ⟨pre, a, post, rfl, ha, hpre⟩
  · rw [Setting.valueOf?_not_mem hnone, values_eq_nil hnone]
    rfl
  · rw [List.flatMap_append, Setting.valueOf?_append hpre, values_append, values_eq_nil hpre,
      List.nil_append]
    cases a with
    | switch f =>
      cases List.mem_singleton.1 ha
      exact absurd (hknown _ (List.mem_append_right _ List.mem_cons_self)) hflag
    | option f value =>
      have hf : f = flag := by
        by_contra hne
        have hvalue : flag = value := by simpa [words, Ne.symm hne] using ha
        exact h ⟨pre, f, post, hvalue ▸ rfl, hne, hpre⟩
      simp [Setting.valueOf?, words, values, value?, hf]

/-- A flag that is the value of another option is found all the same, and what follows that value
is taken for its own. -/
theorem valueOf?_shadowed (hne : f ≠ flag) (hpre : flag ∉ pre.flatMap words) :
    Setting.valueOf? flag ((pre ++ option f flag :: post).flatMap words) =
      match post.flatMap words with
      | [] => .error (.valueMissing flag)
      | word :: _ => .ok (some word) := by
  rw [List.flatMap_append, Setting.valueOf?_append hpre, List.flatMap_cons]
  cases hpost : post.flatMap words <;> simp [Setting.valueOf?, words, hne]

theorem applyAll_known (hknown : ∀ a ∈ as, a.Known) (c : Configuration) :
    Setting.applyAll c (as.flatMap words) = .ok (configured c as) := by
  have hall := applyAll_words hknown c []
  rwa [List.append_nil] at hall

end Argument

open Argument

variable {m : Type → Type} [Monad m] {c c' : Configuration} {as : List Argument}
  {args : List String}

/-- The configuration of a file, or the standard one, changed by arguments. -/
def configurationFrom (disk : Disk m) (file : Option String) (as : List Argument) :
    ExceptT Error m Configuration :=
  match file with
  | some file => do return configured (← Run.configuration disk ⟨file⟩) as
  | none => return configured .standard as

variable [LawfulMonad m]

/-- What is found decides what the configuration starts from. -/
theorem configuration_words (disk : Disk m) (hknown : ∀ a ∈ as, a.Known) :
    configuration disk (as.flatMap words) =
      match Setting.valueOf? "--config" (as.flatMap words) with
      | .ok file => configurationFrom disk file as
      | .error fault => throw (.config fault) := by
  unfold configuration
  cases Setting.valueOf? "--config" (as.flatMap words) with
  | error fault =>
    apply ExceptT.ext
    simp
  | ok file => cases file <;> simp [applyAll_known hknown, configurationFrom]

/-- Accepted arguments are a row of known ones, whose configuration starts from the file of the
first `--config` among them, or from the standard one if there is none. Only if an option before it
has that text as its value, what follows that value is taken for the file instead, whatever it
is. -/
theorem configuration_of_accepted (disk : Disk m) (h : Setting.applyAll c args = .ok c') :
    ∃ as : List Argument, (∀ a ∈ as, a.Known) ∧ args = as.flatMap words ∧
      (¬ Shadowed "--config" as →
        configuration disk args = configurationFrom disk (values "--config" as).head? as) ∧
      ∀ pre f post, as = pre ++ .option f "--config" :: post → f ≠ "--config" →
        "--config" ∉ pre.flatMap words →
        configuration disk args =
          match post.flatMap words with
          | [] => throw (.config (.valueMissing "--config"))
          | word :: _ => configurationFrom disk (some word) as := by
  obtain ⟨as, hknown, rfl, -⟩ := exists_of_applyAll h
  refine ⟨as, hknown, rfl, fun hclear => ?_, ?_⟩
  · rw [configuration_words disk hknown, valueOf?_words (by decide) hknown hclear]
  · rintro pre f post rfl hne hpre
    rw [configuration_words disk hknown, valueOf?_shadowed hne hpre]
    cases post.flatMap words <;> rfl

/-- Of two files that are given, the first one is read. -/
theorem configuration_of_accepted_first :
    Setting.applyAll .standard ["--verbose", "--config", "a", "--config", "b"] = .ok .standard ∧
      configuration (FileTree.disk "") ["--verbose", "--config", "a", "--config", "b"] =
        configurationFrom (FileTree.disk "") (some "a")
          [.switch "--verbose", .option "--config" "a", .option "--config" "b"] := by
  have haccepted :
      Setting.applyAll .standard ["--verbose", "--config", "a", "--config", "b"] =
        .ok .standard := rfl
  have hknown : ∀ a ∈ [.switch "--verbose", .option "--config" "a", .option "--config" "b"],
      Known a := by decide
  have hclear : ¬ Shadowed "--config"
      [.switch "--verbose", .option "--config" "a", .option "--config" "b"] := by
    rintro ⟨pre, f, post, hsplit, -, -⟩
    have hmem : option f "--config" ∈ pre ++ option f "--config" :: post :=
      List.mem_append_right _ List.mem_cons_self
    rw [← hsplit] at hmem
    simp at hmem
  obtain ⟨as, hall, hargs, hread, -⟩ := configuration_of_accepted (FileTree.disk "") haccepted
  cases words_inj hknown hall hargs
  exact ⟨haccepted, hread hclear⟩

/-- A directory named like the flag makes what follows it the file that is read. -/
theorem value_taken_for_flag :
    Setting.applyAll .standard ["--output-dir", "--config", "--verbose"] =
        .ok (configured .standard [option "--output-dir" "--config", switch "--verbose"]) ∧
      values "--config" [option "--output-dir" "--config", switch "--verbose"] = [] ∧
      ((configuration (FileTree.disk "") ["--output-dir", "--config", "--verbose"]).run
        ⟨[], [], []⟩).1 = .error .files ∧
      ((configurationFrom (FileTree.disk "") none
        [option "--output-dir" "--config", switch "--verbose"]).run ⟨[], [], []⟩).1 =
        .ok (configured .standard [option "--output-dir" "--config", switch "--verbose"]) := by
  have hknown : ∀ a ∈ [option "--output-dir" "--config", switch "--verbose"], Known a := by decide
  exact ⟨applyAll_known hknown _, rfl, rfl, rfl⟩

end SchemaForge.CommandLine
