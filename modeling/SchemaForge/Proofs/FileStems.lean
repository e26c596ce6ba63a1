import SchemaForge.Proofs.Generation.Accounting
import SchemaForge.Proofs.Generation.Names
import SchemaForge.Proofs.Go.FileNames
import SchemaForge.Proofs.Path
/-!
Stems of file names. Main statement: whatever a title is, its stem is of small letters and digits
with single underscores behind them, and is its own stem; so every unit is a file right in the
directory that it is written to.
-/
namespace SchemaForge

namespace Naming

variable {c : Char} {cs : List Char} {start : Bool}

/-- The rest of a stem; `start` says whether it goes on with a letter or digit, if at all. -/
inductive StemRest : Bool → List Char → Prop
  | nil {start : Bool} : StemRest start []
  | letter {start : Bool} {c : Char} {cs : List Char} :
      c.isLower = true ∨ c.isDigit = true → StemRest false cs → StemRest start (c :: cs)
  | gap {cs : List Char} : StemRest true cs → StemRest false ('_' :: cs)

theorem isAlphanum_of_letter (h : c.isLower = true ∨ c.isDigit = true) :
    c.isAlphanum = true ∧ c.isUpper = false := by
  grind [Char.isAlphanum, Char.isAlpha, Char.isUpper, Char.isLower, Char.isDigit]

theorem letter_toLower (h : c.isAlphanum = true) :
    c.toLower.isLower = true ∨ c.toLower.isDigit = true := by
  rw [Char.isLower_toLower_eq_isAlpha]
  rcases Bool.or_eq_true_iff.1 h with halpha | hdigit
  · exact Or.inl halpha
  · have hupper : ¬ c.isUpper = true := by simp [(isAlphanum_of_letter (Or.inr hdigit)).2]
    rw [Char.toLower_eq_of_not_isUpper hupper]
    exact Or.inr hdigit

/-- What is made of a title is a stem. -/
theorem stemRest_stemFrom (inRun start : Bool) (cs : List Char) :
    StemRest start (stemFrom inRun start cs) := by
  induction cs generalizing inRun start with
  | nil => exact .nil
  | cons c cs ih =>
    by_cases hc : c.isAlphanum = true
    · rw [stemFrom_alphanum hc]
      have hletter : ∀ start, StemRest start (c.toLower :: stemFrom c.isUpper false cs) :=
        fun _ => .letter (letter_toLower hc) (ih _ _)
      split
      · next h =>
        cases start with
        | true => simp at h
        | false => exact .gap (hletter true)
      · exact hletter start
    · rw [stemFrom_separator (eq_false_of_ne_true hc)]
      cases start with
      | true => exact ih false true
      | false => exact .gap (ih false true)

/-- A stem is its own stem. -/
theorem StemRest.stemFrom_eq (h : StemRest start cs) (inRun : Bool) :
    stemFrom inRun start cs = cs := by
  induction h generalizing inRun with
  | nil => rfl
  | @letter start c cs hc _ ih =>
    obtain ⟨halphanum, hupper⟩ := isAlphanum_of_letter hc
    rw [stemFrom_alphanum halphanum, hupper, ih,
      Char.toLower_eq_of_not_isUpper (ne_true_of_eq_false hupper)]
    rfl
  | gap _ ih =>
    rw [stemFrom_separator (by decide), ih]
    rfl

theorem StemRest.chars (h : StemRest start cs) :
    ∀ c ∈ cs, c.isLower = true ∨ c.isDigit = true ∨ c = '_' := by
  induction h with
  | nil => exact fun c hc => absurd hc List.not_mem_nil
  | letter hc _ ih => exact List.forall_mem_cons.2 ⟨or_assoc.1 (Or.inl hc), ih⟩
  | gap _ ih => exact List.forall_mem_cons.2 ⟨Or.inr (Or.inr rfl), ih⟩

theorem StemRest.head?_ne (h : StemRest true cs) : cs.head? ≠ some '_' := by
  cases h with
  | nil => exact nofun
  | letter hc _ =>
    intro hhead
    rw [Option.some.inj hhead] at hc
    revert hc
    decide

theorem StemRest.apart (h : StemRest start cs) : ¬ ['_', '_'] <:+: cs := by
  induction h with
  | nil => simp
  | letter hc _ ih =>
    rw [List.infix_cons_iff]
    rintro (hstarts | hwithin)
    · have hhead := (List.cons_prefix_cons.1 hstarts).1
      rw [← hhead] at hc
      revert hc
      decide
    · exact ih hwithin
  | gap hrest ih =>
    rw [List.infix_cons_iff]
    rintro (hstarts | hwithin)
    · obtain ⟨cs, rfl⟩ := (List.cons_prefix_cons.1 hstarts).2
      exact hrest.head?_ne rfl
    · exact ih hwithin

theorem stemFrom_eq_nil_iff (inRun : Bool) (cs : List Char) :
    stemFrom inRun true cs = [] ↔ ∀ c ∈ cs, c.isAlphanum = false := by
  induction cs generalizing inRun with
  | nil => simp [stemFrom, markCapitals, squash]
  | cons c cs ih =>
    by_cases hc : c.isAlphanum = true
    · rw [stemFrom_alphanum hc]
      simp [hc]
    · have hseparator := eq_false_of_ne_true hc
      rw [stemFrom_separator hseparator, if_pos rfl, List.nil_append, ih, List.forall_mem_cons]
      simp [hseparator]

theorem stemRest_fileStem (title : String) : StemRest true (fileStem title).toList := by
  rw [fileStem, String.toList_ofList, fileStemChars_eq]
  exact stemRest_stemFrom false true title.toList

theorem fileStem_fileStem (title : String) : fileStem (fileStem title) = fileStem title := by
  have hstem := (stemRest_fileStem title).stemFrom_eq false
  rw [fileStem, fileStemChars_eq, hstem, String.ofList_toList]

theorem fileStem_eq_empty (title : String) :
    fileStem title = "" ↔ ∀ c ∈ title.toList, c.isAlphanum = false := by
  rw [← stemFrom_eq_nil_iff false, ← fileStemChars_eq, ← String.toList_inj, fileStem,
    String.toList_ofList]
  rfl

end Naming

/-- A name that is one step of a path: it has no separators, and no two dots in a row. -/
structure IsFileName (name : String) : Prop where
  slash : '/' ∉ name.toList
  backslash : '\\' ∉ name.toList
  dots : ¬ ['.', '.'] <:+: name.toList
  step : (⟨name⟩ : Path).components = [.name name]

namespace Path

/-- What is too long to be `.` or `..` is a name. -/
theorem isName_of_length {name : String} (hslash : '/' ∉ name.toList)
    (hlength : 3 ≤ name.toList.length) : IsName name := by
  refine ⟨?_, ?_, hslash⟩
  · cases hidle : isIdle name.toList with
    | false => rfl
    | true =>
      rcases Bool.or_eq_true_iff.1 hidle with h | h <;>
        rw [eq_of_beq h] at hlength <;> simp at hlength
  · intro hup
    rw [hup] at hlength
    simp at hlength

theorem components_of_isName {name : String} (h : IsName name) :
    (⟨name⟩ : Path).components = [.name name] := by
  have hnames : ∀ s ∈ [name], IsName s := by
    intro s hs
    rwa [List.mem_singleton.1 hs]
  have hpath : ofPlaces false [name] = ⟨name⟩ := by simp [ofPlaces, joinWith]
  rw [← hpath, components_ofPlaces hnames]
  rfl

end Path

namespace Generation

open Naming

def extension : Language → String
  | .go => ".go"
  | .typeScript => ".ts"

theorem fileName_eq (language : Language) (g : Graph) (id : NodeId) :
    ∃ title, fileName language g id = fileStem title ++ extension language := by
  cases language with
  | go => exact ⟨g.title id, rfl⟩
  | typeScript => exact ⟨g.objectName id, rfl⟩

/-- A character that no stem has comes from the extension. -/
theorem not_mem_fileName {c : Char} (title : String) (language : Language)
    (hc : ¬ (c.isLower = true ∨ c.isDigit = true ∨ c = '_'))
    (hext : c ∉ (extension language).toList) :
    c ∉ (fileStem title ++ extension language).toList := by
  rw [String.toList_append, List.mem_append]
  rintro (hmem | hmem)
  · exact hc ((stemRest_fileStem title).chars c hmem)
  · exact hext hmem

theorem isFileName_fileName (language : Language) (g : Graph) (id : NodeId) :
    IsFileName (fileName language g id) := by
  obtain ⟨title, hname⟩ := fileName_eq language g id
  rw [hname]
  have hslash : '/' ∉ (fileStem title ++ extension language).toList :=
    not_mem_fileName title language (by decide) (by cases language <;> decide)
  have hdots : (fileStem title ++ extension language).toList.count '.' ≤ 1 := by
    have hstem : '.' ∉ (fileStem title).toList := by
      intro hmem
      exact absurd ((stemRest_fileStem title).chars '.' hmem) (by decide)
    rw [String.toList_append, List.count_append, List.count_eq_zero.2 hstem]
    cases language <;> decide
  have hlength : 3 ≤ (fileStem title ++ extension language).toList.length := by
    rw [String.toList_append, List.length_append]
    cases language <;> exact Nat.le_add_left _ _
  refine ⟨hslash, not_mem_fileName title language (by decide) (by cases language <;> decide), ?_,
    Path.components_of_isName (Path.isName_of_length hslash hlength)⟩
  intro hwithin
  have hcount := hwithin.sublist.count_le '.'
  have htwo : ['.', '.'].count '.' = 2 := by decide
  omega

/-- The stem of a title is of small letters, digits and `_`, which neither starts it nor stands
twice in a row. It is empty just if the title has no letter or digit, and is its own stem. So the
name of a unit is one step of a path, whatever titles its schema has. -/
theorem fileStem_plain :
    (∀ title : String,
      (∀ c ∈ (fileStem title).toList, c.isLower = true ∨ c.isDigit = true ∨ c = '_') ∧
      (fileStem title).toList.head? ≠ some '_' ∧
      ¬ ['_', '_'] <:+: (fileStem title).toList ∧
      (fileStem title = "" ↔ ∀ c ∈ title.toList, c.isAlphanum = false) ∧
      fileStem (fileStem title) = fileStem title) ∧
    (∀ language g id, IsFileName (fileName language g id)) ∧
    ∀ style language g r root us r', units style language g r root = (.ok us, r') →
      ∀ u ∈ us, IsFileName u.fileName := by
  refine ⟨fun title => ?_, isFileName_fileName, ?_⟩
  · have hstem := stemRest_fileStem title
    exact ⟨hstem.chars, hstem.head?_ne, hstem.apart, fileStem_eq_empty title,
      fileStem_fileStem title⟩
  · intro style language g r root us r' hus u hu
    obtain ⟨-, -, -, -, hmapM⟩ := units_tried style language g r root
    have hnames := fileNames_of_mapM (hmapM us (by rw [hus]))
    obtain ⟨id, -, hid⟩ := List.mem_map.1 (hnames ▸ List.mem_map_of_mem hu)
    rw [← hid]
    exact isFileName_fileName language g id

/-- One object, whose title climbs out of every directory. -/
def climbingGraph : Graph :=
  ⟨#[.ofProperty ⟨⟨none, none⟩, .object ⟨none, none, some "../../Etc/.HOSTS/..", false, none⟩ []⟩]⟩

theorem fileName_climbing : fileName .go climbingGraph 0 = "etc_hosts_.go" := by cbv

theorem units_climbing : ∃ u r,
    units ⟨.standard, ""⟩ .go climbingGraph .empty 0 = (.ok [u], r) ∧
      u.fileName = "etc_hosts_.go" := by
  have hclass : Go.Class.ofNode? climbingGraph 0 = .ok ⟨"../../Etc/.HOSTS/..", []⟩ := rfl
  obtain ⟨u, hu⟩ : ∃ u, unit? ⟨.standard, ""⟩ .go climbingGraph 0 = .ok u :=
    go_unit?_of_class (by rw [hclass]; rfl)
  have hchildren : (climbingGraph.children 0).filterMap climbingGraph.memberObject? = [] := by
    decide
  have htried : tried ⟨.standard, ""⟩ .go climbingGraph .empty 0 = [0] := by
    have hroot : (climbingGraph.object? 0).isSome = true := rfl
    have hfree : ¬ Registry.empty.units.contains (fileName .go climbingGraph 0) = true := nofun
    rw [tried, if_pos hroot, triedAlong_free ⟨by decide, Or.inr rfl⟩ rfl hfree, hu]
    simp [(told_of_unit? hu).2, hchildren, triedAlong]
  have hunits : (units ⟨.standard, ""⟩ .go climbingGraph .empty 0).1 = .ok [u] := by
    rw [units_outcome rfl, htried, List.mapM_cons, hu]
    rfl
  exact ⟨u, _, Prod.ext hunits rfl, (told_of_unit? hu).1.trans fileName_climbing⟩

theorem fileStem_plain_climbing : ∃ u r,
    units ⟨.standard, ""⟩ .go climbingGraph .empty 0 = (.ok [u], r) ∧ u ∈ [u] ∧
      u.fileName = "etc_hosts_.go" ∧ IsFileName u.fileName ∧
      fileStem "../../Etc/.HOSTS/.." = "etc_hosts_" ∧ fileStem "etc_hosts_" = "etc_hosts_" := by
  obtain ⟨u, r, hunits, hname⟩ := units_climbing
  obtain ⟨hstems, -, hfiles⟩ := fileStem_plain
  have hstem : fileStem "../../Etc/.HOSTS/.." = "etc_hosts_" := by decide
  have hmem : u ∈ [u] := List.mem_singleton_self u
  obtain ⟨-, -, -, -, hagain⟩ := hstems "../../Etc/.HOSTS/.."
  rw [hstem] at hagain
  exact ⟨u, r, hunits, hmem, hname, hfiles _ _ _ _ _ _ _ hunits u hmem, hstem, hagain⟩

end Generation

end SchemaForge
