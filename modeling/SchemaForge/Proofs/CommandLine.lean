import Mathlib.Data.List.Basic
import SchemaForge.CommandLine.Setting
/-!
Arguments as a row of switches and of options with their values. Main statement: a row of arguments
is accepted exactly if it is such a row of known ones, and changes a configuration from left to
right.
-/
namespace SchemaForge.CommandLine

/-- What stands where an option may begin. -/
inductive Argument where
  | switch (flag : String)
  | option (flag value : String)
  deriving DecidableEq

namespace Argument

def words : Argument → List String
  | switch flag => [flag]
  | option flag value => [flag, value]

def switches : List String := ["--write-test-schema", "--provenance", "--verbose"]

def options : List String :=
  ["--config", "--input-file", "--include-dir", "--output-dir", "--eg-language", "--eg-indent",
    "--eg-package", "--eg-from-wueste", "--eg-from-result"]

def Known : Argument → Prop
  | switch flag => flag ∈ switches
  | option flag value =>
    flag ∈ options ∧ (flag = "--eg-language" → (Language.ofName? value).isSome)

instance : DecidablePred Known
  | switch _ => inferInstanceAs (Decidable (_ ∈ _))
  | option .. => inferInstanceAs (Decidable (_ ∧ _))

/-- The value of one option, if it is the one that a flag means. -/
def value? (flag : String) : Argument → Option String
  | switch _ => none
  | option f value => if f = flag then some value else none

/-- The values of an option, in the order in which they are given. -/
def values (flag : String) (as : List Argument) : List String := as.filterMap (value? flag)

/-- The value that is given last, or the one there was. -/
def last {α : Type} (given : List α) (old : α) : α := given.getLast?.getD old

/-- What arguments make of a configuration, setting by setting. -/
def configured (c : Configuration) (as : List Argument) : Configuration where
  includeDirs := c.includeDirs ++ (values "--include-dir" as).map Path.mk
  outputDir := last ((values "--output-dir" as).map Path.mk) c.outputDir
  inputFiles := c.inputFiles ++ (values "--input-file" as).map Path.mk
  writeSample := c.writeSample || as.contains (switch "--write-test-schema")
  code :=
    { language := last ((values "--eg-language" as).filterMap Language.ofName?) c.code.language
      indent := last (values "--eg-indent" as) c.code.indent
      packageName := last (values "--eg-package" as) c.code.packageName
      runtimePath := last (values "--eg-from-wueste" as) c.code.runtimePath
      resultPath := last (values "--eg-from-result" as) c.code.resultPath
      provenance := c.code.provenance || as.contains (switch "--provenance") }

variable {c c' : Configuration} {a b : Argument} {as bs : List Argument} {args more : List String}
  {flag value : String} {s : Setting}

@[simp] theorem values_switch (flag f : String) : values flag [switch f] = [] := rfl

@[simp] theorem values_option (flag f value : String) :
    values flag [option f value] = if f = flag then [value] else [] := by
  by_cases h : f = flag <;> simp [values, value?, h]

@[simp] theorem last_nil {α : Type} (old : α) : last [] old = old := rfl

@[simp] theorem last_singleton {α : Type} (new old : α) : last [new] old = new := rfl

theorem last_append {α : Type} (xs ys : List α) (old : α) :
    last (xs ++ ys) old = last ys (last xs old) := by
  unfold last
  rw [List.getLast?_append]
  cases ys.getLast? <;> rfl

/-- What arguments make of a configuration is made by one after the other. -/
theorem configured_append (c : Configuration) (as bs : List Argument) :
    configured c (as ++ bs) = configured (configured c as) bs := by
  simp only [configured, values, List.filterMap_append, List.map_append, last_append,
    List.contains_append, List.append_assoc, Bool.or_assoc]

theorem configured_nil (c : Configuration) : configured c [] = c := by
  simp [configured, values]

/-- A known switch is read as a setting that does what the switch does. -/
theorem read_switch (h : (switch flag).Known) :
    ∃ s, Setting.ofSwitch? flag = some s ∧ ∀ c, s.apply c = configured c [switch flag] := by
  have hflag : flag ∈ switches := h
  simp only [switches, List.mem_cons, List.not_mem_nil, or_false] at hflag
  rcases hflag with rfl | rfl | rfl
  all_goals
    refine ⟨_, rfl, fun c => ?_⟩
    simp [Setting.apply, configured]

/-- A known option is read as a setting that does what the option does. -/
theorem read_option (h : (option flag value).Known) :
    Setting.ofSwitch? flag = none ∧ ∃ s, Setting.ofOption flag value = .ok s ∧
      ∀ c, s.apply c = configured c [option flag value] := by
  obtain ⟨hflag, hlanguage⟩ := h
  simp only [options, List.mem_cons, List.not_mem_nil, or_false] at hflag
  rcases hflag with rfl | rfl | rfl | rfl | rfl | rfl | rfl | rfl | rfl
  case inr.inr.inr.inr.inl =>
    obtain ⟨l, hl⟩ := Option.isSome_iff_exists.1 (hlanguage rfl)
    refine ⟨rfl, .language l, by simp [Setting.ofOption, Setting.ofLanguage, hl], fun c => ?_⟩
    simp [Setting.apply, configured, hl]
  all_goals
    refine ⟨rfl, _, rfl, fun c => ?_⟩
    simp [Setting.apply, configured]

theorem read_words (h : a.Known) : ∃ s : Setting,
    (∀ rest, Setting.read (a.words ++ rest) = (Setting.read rest).map (s :: ·)) ∧
      ∀ c, s.apply c = configured c [a] := by
  cases a with
  | switch flag =>
    obtain ⟨s, hs, happly⟩ := read_switch h
    refine ⟨s, fun rest => ?_, happly⟩
    rw [words, List.singleton_append, Setting.read.eq_def]
    simp only [hs]
    cases Setting.read rest <;> rfl
  | option flag value =>
    obtain ⟨hswitch, s, hs, happly⟩ := read_option h
    refine ⟨s, fun rest => ?_, happly⟩
    simp only [words, List.cons_append, List.nil_append, Setting.read, hswitch, hs]
    cases Setting.read rest <;> rfl

theorem known_of_ofSwitch? (h : Setting.ofSwitch? flag = some s) : (switch flag).Known := by
  unfold Setting.ofSwitch? at h
  simp only [Known, switches, List.mem_cons, List.not_mem_nil, or_false]
  grind

theorem known_of_ofOption (h : Setting.ofOption flag value = .ok s) :
    (option flag value).Known := by
  unfold Setting.ofOption Setting.ofLanguage at h
  simp only [Known, options, List.mem_cons, List.not_mem_nil, or_false]
  grind

/-- What is read is a row of known arguments. -/
theorem exists_of_read {ss : List Setting} (h : Setting.read args = .ok ss) :
    ∃ as : List Argument, (∀ a ∈ as, a.Known) ∧ args = as.flatMap words := by
  fun_induction Setting.read args generalizing ss with
  | case1 => exact ⟨[], by simp, rfl⟩
  | case2 flag s rest hs ih =>
    cases hrest : Setting.read rest with
    | error e =>
      rw [hrest] at h
      cases h
    | ok ss =>
      obtain ⟨as, hknown, hwords⟩ := ih hrest
      refine ⟨switch flag :: as, List.forall_mem_cons.2 ⟨known_of_ofSwitch? hs, hknown⟩, ?_⟩
      rw [hwords]
      rfl
  | case3 => cases h
  | case4 flag value rest hswitch ih =>
    cases hs : Setting.ofOption flag value with
    | error e =>
      rw [hs] at h
      cases h
    | ok s =>
      cases hrest : Setting.read rest with
      | error e =>
        rw [hs, hrest] at h
        cases h
      | ok ss =>
        obtain ⟨as, hknown, hwords⟩ := ih hrest
        refine ⟨option flag value :: as, List.forall_mem_cons.2 ⟨known_of_ofOption hs, hknown⟩, ?_⟩
        rw [hwords]
        rfl

/-- A row of known arguments is read one by one. -/
theorem applyAll_words (h : ∀ a ∈ as, a.Known) (c : Configuration) (rest : List String) :
    Setting.applyAll c (as.flatMap words ++ rest) = Setting.applyAll (configured c as) rest := by
  induction as generalizing c with
  | nil => rw [configured_nil, List.flatMap_nil, List.nil_append]
  | cons a as ih =>
    obtain ⟨ha, has⟩ := List.forall_mem_cons.1 h
    obtain ⟨s, hread, happly⟩ := read_words ha
    have hstep : ∀ rest, Setting.applyAll c (a.words ++ rest) =
        Setting.applyAll (configured c [a]) rest := by
      intro rest
      rw [Setting.applyAll, hread, ← happly]
      unfold Setting.applyAll
      cases Setting.read rest <;> rfl
    rw [List.flatMap_cons, List.append_assoc, hstep, ih has, ← configured_append]
    rfl

/-- Arguments that are accepted are a row of known ones. -/
theorem exists_of_applyAll (h : Setting.applyAll c args = .ok c') :
    ∃ as : List Argument, (∀ a ∈ as, a.Known) ∧ args = as.flatMap words ∧ c' = configured c as := by
  obtain ⟨as, hknown, rfl⟩ :
      ∃ as : List Argument, (∀ a ∈ as, a.Known) ∧ args = as.flatMap words := by
    unfold Setting.applyAll at h
    cases hread : Setting.read args with
    | error e =>
      rw [hread] at h
      cases h
    | ok ss => exact exists_of_read hread
  refine ⟨as, hknown, rfl, ?_⟩
  have hall := applyAll_words hknown c []
  rw [List.append_nil, h] at hall
  exact Except.ok.inj hall

/-- No flag is both that of a switch and that of an option, so arguments are split in one way. -/
theorem words_inj (has : ∀ a ∈ as, a.Known) (hbs : ∀ b ∈ bs, b.Known)
    (h : as.flatMap words = bs.flatMap words) : as = bs := by
  have hapart : ∀ flag ∈ switches, flag ∉ options := by decide
  induction as generalizing bs with
  | nil =>
    cases bs with
    | nil => rfl
    | cons b bs => cases b <;> cases h
  | cons a as ih =>
    obtain ⟨ha, hrow⟩ := List.forall_mem_cons.1 has
    cases bs with
    | nil => cases a <;> cases h
    | cons b bs =>
      obtain ⟨hb, hrow'⟩ := List.forall_mem_cons.1 hbs
      cases a with
      | switch flag =>
        cases b with
        | switch flag' =>
          obtain ⟨rfl, hrest⟩ := List.cons.inj h
          rw [ih hrow hrow' hrest]
        | option flag' value' =>
          obtain ⟨rfl, -⟩ := List.cons.inj h
          exact absurd hb.1 (hapart flag ha)
      | option flag value =>
        cases b with
        | switch flag' =>
          obtain ⟨rfl, -⟩ := List.cons.inj h
          exact absurd ha.1 (hapart flag hb)
        | option flag' value' =>
          obtain ⟨rfl, hvalue⟩ := List.cons.inj h
          obtain ⟨rfl, hrest⟩ := List.cons.inj hvalue
          rw [ih hrow hrow' hrest]

end Argument

open Argument

/-- Settings are made from left to right. What arguments make of a configuration is what is to be
made of it by those after them, and they are accepted exactly if they are a row of known switches
and of known options with a value behind each, in one way; a setting is then as given last, a
switch is on that is given at all, and files and directories come behind those there were. -/
theorem applyAll_left_fold (c : Configuration) (args : List String) :
    (∀ c' more, Setting.applyAll c args = .ok c' →
      Setting.applyAll c (args ++ more) = Setting.applyAll c' more) ∧
    (∀ c', Setting.applyAll c args = .ok c' ↔
      ∃ as : List Argument, (∀ a ∈ as, a.Known) ∧ args = as.flatMap words ∧ c' = configured c as) ∧
    ∀ as bs : List Argument, (∀ a ∈ as, a.Known) → (∀ b ∈ bs, b.Known) →
      args = as.flatMap words → args = bs.flatMap words → as = bs := by
  refine ⟨fun c' more h => ?_, fun c' => ⟨exists_of_applyAll, ?_⟩, ?_⟩
  · obtain ⟨as, hknown, rfl, rfl⟩ := exists_of_applyAll h
    exact applyAll_words hknown c more
  · rintro ⟨as, hknown, rfl, rfl⟩
    have hall := applyAll_words hknown c []
    rwa [List.append_nil] at hall
  · intro as bs has hbs hargs hargs'
    exact words_inj has hbs (hargs.symm.trans hargs')

/-- A value may look like a switch, and a flag at the end lacks its value. -/
theorem applyAll_left_fold_flags :
    Setting.applyAll .standard ["--eg-indent", "--verbose", "--eg-language", "Go"] =
        .ok (configured .standard
          [.option "--eg-indent" "--verbose", .option "--eg-language" "Go"]) ∧
      Setting.applyAll .standard (["--eg-indent", "--verbose", "--eg-language", "Go"] ++
        ["--provenance", "--eg-indent"]) = .error (.valueMissing "--eg-indent") := by
  have hfold := applyAll_left_fold .standard ["--eg-indent", "--verbose", "--eg-language", "Go"]
  have hknown : ∀ a ∈ [Argument.option "--eg-indent" "--verbose", .option "--eg-language" "Go"],
      a.Known := by decide
  have haccepted := (hfold.2.1 _).2 ⟨_, hknown, rfl, rfl⟩
  exact ⟨haccepted, (hfold.1 _ _ haccepted).trans rfl⟩

end SchemaForge.CommandLine
