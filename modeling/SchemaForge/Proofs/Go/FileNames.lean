import Mathlib
import SchemaForge.Proofs.Go.Emitted
/-!
File names and type names are made from titles in two ways. When a file name tells the names of the
types in the file, and when a type name tells the file.
-/
namespace SchemaForge

namespace Naming

variable {s t : String} {c d : Char} {cs ds : List Char} {keep : Char → Bool}
  {inRun start : Bool} {x y : Bool × Char}

/-- No two capitals of a title are side by side. -/
def CapitalsApart (title : String) : Prop :=
  title.toList.IsChain fun c d => ¬ (c.isUpper ∧ d.isUpper)

instance : DecidablePred CapitalsApart := fun _ => inferInstanceAs (Decidable (List.IsChain _ _))

/-- The letters and digits of a title, each with whether a part begins with it; `start` says whether
one begins here. -/
def marked (start : Bool) : List Char → List (Bool × Char)
  | [] => []
  | c :: cs => if c.isAlphanum then (start, c) :: marked false cs else marked true cs

/-- What a letter becomes where parts are joined. -/
def capitalized (x : Bool × Char) : Char := if x.1 then x.2.toUpper else x.2

/-- Whether a letter or digit shows behind another one that it begins a part, if it does: it becomes
a capital, and no capital stands before it. And that none seems to begin with the second letter of a
part. -/
def SetOff (x y : Bool × Char) : Prop :=
  if y.1 then y.2.isAlpha ∧ ¬ (capitalized x).isUpper else ¬ (x.1 ∧ x.2.isLower ∧ y.2.isUpper)

instance : DecidableRel SetOff := fun x y =>
  inferInstanceAs (Decidable (if y.1 then y.2.isAlpha ∧ ¬ (capitalized x).isUpper
    else ¬ (x.1 ∧ x.2.isLower ∧ y.2.isUpper)))

/-- Whether something separates at the end of a title. -/
def endsApart (start : Bool) (cs : List Char) : Bool :=
  (cs.getLast?.map (!·.isAlphanum)).getD start

/-- The parts of a title show by their capitals alone, and nothing separates behind the last one. -/
def PartsShow (title : String) : Prop :=
  (marked true title.toList).IsChain SetOff ∧
    (marked true title.toList ≠ [] → endsApart true title.toList = false)

instance : DecidablePred PartsShow := fun _ => inferInstanceAs (Decidable (_ ∧ _))

/-- The stem of a title from some place on: `inRun` says whether a capital stands before it, and
`start` whether something separates there. -/
def stemFrom (inRun start : Bool) (cs : List Char) : List Char :=
  (squash Char.isAlphanum start (markCapitals inRun cs)).map Char.toLower

theorem squash_dropWhile : squash keep false (cs.dropWhile (!keep ·)) = squash keep true cs := by
  induction cs with
  | nil => rfl
  | cons c cs ih =>
    by_cases hc : keep c = true
    · simp [squash, hc]
    · simp [squash, hc, ih]

theorem fileStemChars_eq (cs : List Char) : fileStemChars cs = stemFrom false true cs := by
  rw [fileStemChars, stemFrom, ← squash_dropWhile]

theorem not_isUpper_of_separator (h : c.isAlphanum = false) : c.isUpper = false := by
  cases hupper : c.isUpper with
  | false => rfl
  | true => simp [Char.isAlphanum, Char.isAlpha, hupper] at h

theorem stemFrom_alphanum (hc : c.isAlphanum = true) :
    stemFrom inRun start (c :: cs) = (if c.isUpper && !inRun && !start then ['_'] else []) ++
      c.toLower :: stemFrom c.isUpper false cs := by
  by_cases hupper : c.isUpper = true
  · cases inRun <;> cases start <;> simp [stemFrom, markCapitals, squash, hc, hupper]
  · simp [stemFrom, markCapitals, squash, hc, hupper]

theorem stemFrom_separator (hc : c.isAlphanum = false) :
    stemFrom inRun start (c :: cs) = (if start then [] else ['_']) ++ stemFrom false true cs := by
  have hupper := not_isUpper_of_separator hc
  cases start <;> simp [stemFrom, markCapitals, squash, hc, hupper]

section capitals

theorem camel_alphanum_cons (hc : c.isAlphanum = true) :
    camel start (c :: cs) = (if start then c.toUpper else c) :: camel false cs := by
  rw [camel, if_pos hc]

theorem camel_separator_cons (hc : c.isAlphanum = false) :
    camel start (c :: cs) = camel true cs := by
  rw [camel, hc]
  rfl

/-- A stem makes the word of its title unless capitals stand side by side in the title. -/
theorem camel_stemFrom (h : inRun = true → start = false) :
    camel start (stemFrom inRun start cs) = camel start cs ↔
      (cs.IsChain fun c d => ¬ (c.isUpper ∧ d.isUpper)) ∧
        (inRun = true → ∀ c ∈ cs.head?, c.isUpper = false) := by
  induction cs generalizing inRun start with
  | nil => simp [stemFrom, markCapitals, squash, camel]
  | cons c cs ih =>
    by_cases hc : c.isAlphanum = true
    · have hlower := Go.isAlphanum_toLower hc
      have ih := @ih c.isUpper false fun _ => rfl
      rw [stemFrom_alphanum hc, camel_alphanum_cons hc, List.isChain_cons]
      by_cases hupper : c.isUpper = true
      · have hraise : c.toUpper = c :=
          Char.toUpper_eq_of_not_isLower (Char.not_isLower_of_isUpper hupper)
        have hne : c.toLower ≠ c := by
          intro heq
          have := Char.isUpper_toLower_eq_false c
          rw [heq, hupper] at this
          cases this
        cases inRun <;> cases start <;>
          simp_all [camel_alphanum_cons, camel_separator_cons, and_comm]
      · have hsame : c.toLower = c := Char.toLower_eq_of_not_isUpper hupper
        cases start <;> simp_all [camel_alphanum_cons]
    · have hseparator : c.isAlphanum = false := eq_false_of_ne_true hc
      have hupper := not_isUpper_of_separator hseparator
      have hunderscore : '_'.isAlphanum = false := by decide
      have ih := @ih false true fun h => absurd h Bool.false_ne_true
      rw [stemFrom_separator hseparator, camel_separator_cons hseparator, List.isChain_cons]
      cases start <;> simp_all [camel_separator_cons]

end capitals

section parts

/-- Letters behind another one, with `_` where a part begins. -/
def underscored {α : Type} (seam : α → α → Bool) (letter : α → Char) (x : α) : List α → List Char
  | [] => []
  | y :: ys => (if seam x y then ['_'] else []) ++ letter y :: underscored seam letter y ys

variable {α β : Type} {seam seam' : α → α → Bool} {letter : α → Char} {a : α} {as : List α}
  {tail : List Char}

theorem underscored_map {seam : β → β → Bool} {letter : β → Char} (f : α → β) (a : α)
    (as : List α) : underscored seam letter (f a) (as.map f) =
      underscored (fun a b => seam (f a) (f b)) (fun a => letter (f a)) a as := by
  induction as generalizing a with
  | nil => rfl
  | cons b as ih => rw [List.map_cons, underscored, underscored, ih]

/-- The parts can be read from where `_` stands. -/
theorem underscored_eq_iff (h : ∀ b ∈ as, letter b ≠ '_') :
    underscored seam letter a as ++ tail = underscored seam' letter a as ↔
      (a :: as).IsChain (fun a b => seam a b = seam' a b) ∧ tail = [] := by
  induction as generalizing a with
  | nil => simp [underscored]
  | cons b as ih =>
    obtain ⟨hb, has⟩ := List.forall_mem_cons.1 h
    have ih := @ih b has
    rw [List.isChain_cons_cons, and_assoc, ← ih]
    cases hseam : seam a b <;> cases hseam' : seam' a b <;>
      simp [underscored, hseam, hseam', hb, Ne.symm hb]

/-- Where the parts of a title begin in its stem: behind what separates, and with capitals that
stand behind none. -/
def titleSeam (x y : Bool × Char) : Bool := y.1 || (y.2.isUpper && !x.2.isUpper)

/-- Where they begin in the stem of a word. -/
def wordSeam (c d : Char) : Bool := d.isUpper && !c.isUpper

theorem setOff_iff : SetOff x y ↔ titleSeam x y = wordSeam (capitalized x) (capitalized y) := by
  obtain ⟨begins, c⟩ := x
  obtain ⟨begins', d⟩ := y
  cases begins' with
  | true => cases begins <;> simp [SetOff, titleSeam, wordSeam, capitalized,
      Char.isUpper_toUpper_eq_isAlpha]
  | false =>
    cases begins with
    | true =>
      by_cases hupper : c.isUpper = true
      · have := Char.not_isLower_of_isUpper hupper
        simp_all [SetOff, titleSeam, wordSeam, capitalized, Char.isUpper_toUpper_eq_isAlpha,
          Char.isAlpha]
      · simp_all [SetOff, titleSeam, wordSeam, capitalized, Char.isUpper_toUpper_eq_isAlpha,
          Char.isAlpha]
    | false => simp [SetOff, titleSeam, wordSeam, capitalized]

theorem marked_alphanum (hc : c.isAlphanum = true) :
    marked start (c :: cs) = (start, c) :: marked false cs := by
  rw [marked, if_pos hc]

theorem marked_separator (hc : c.isAlphanum = false) :
    marked start (c :: cs) = marked true cs := by
  rw [marked, hc]
  rfl

theorem camel_eq_map_marked : camel start cs = (marked start cs).map capitalized := by
  induction cs generalizing start with
  | nil => rfl
  | cons c cs ih =>
    by_cases hc : c.isAlphanum = true
    · rw [camel_alphanum_cons hc, marked_alphanum hc, List.map_cons, ih]
      rfl
    · have hseparator := eq_false_of_ne_true hc
      rw [camel_separator_cons hseparator, marked_separator hseparator, ih]

theorem isAlphanum_of_marked (h : x ∈ marked start cs) : x.2.isAlphanum = true := by
  induction cs generalizing start with
  | nil => cases h
  | cons c cs ih =>
    by_cases hc : c.isAlphanum = true
    · rw [marked_alphanum hc] at h
      rcases List.mem_cons.1 h with rfl | h
      · exact hc
      · exact ih h
    · rw [marked_separator (eq_false_of_ne_true hc)] at h
      exact ih h

theorem endsApart_cons : endsApart start (c :: cs) = endsApart (!c.isAlphanum) cs := by
  cases cs with
  | nil => rfl
  | cons d cs => simp [endsApart, List.getLast?_cons]

/-- What stands behind the last letter or digit of a stem. -/
def stemTail (start : Bool) (cs : List Char) : List Char := if endsApart start cs then ['_'] else []

/-- The stem of a title behind a letter or digit, where nothing separates and where something
does. -/
theorem stemFrom_behind (x : Bool × Char) (cs : List Char) :
    stemFrom x.2.isUpper false cs =
        underscored titleSeam (·.2.toLower) x (marked false cs) ++ stemTail false cs ∧
      '_' :: stemFrom false true cs =
        underscored titleSeam (·.2.toLower) x (marked true cs) ++ stemTail true cs := by
  induction cs generalizing x with
  | nil => exact ⟨rfl, rfl⟩
  | cons c cs ih =>
    rw [stemTail, stemTail, endsApart_cons, endsApart_cons, ← stemTail]
    by_cases hc : c.isAlphanum = true
    · have hbehind := (ih (false, c)).1
      have hbegins := (ih (true, c)).1
      rw [marked_alphanum hc, marked_alphanum hc, stemFrom_alphanum hc, stemFrom_alphanum hc, hc]
      constructor
      · simp_all [underscored, titleSeam]
      · simp only [Bool.not_true, Bool.and_false, Bool.false_eq_true, if_false, List.nil_append]
        rw [hbegins]
        rfl
    · have hseparator := eq_false_of_ne_true hc
      rw [marked_separator hseparator, marked_separator hseparator, stemFrom_separator hseparator,
        stemFrom_separator hseparator, hseparator]
      exact ⟨(ih x).2, (ih x).2⟩

theorem stemFrom_eq_nil (h : marked true cs = []) : stemFrom inRun true cs = [] := by
  induction cs generalizing inRun with
  | nil => rfl
  | cons c cs ih =>
    by_cases hc : c.isAlphanum = true
    · rw [marked_alphanum hc] at h
      cases h
    · have hseparator := eq_false_of_ne_true hc
      rw [marked_separator hseparator] at h
      rw [stemFrom_separator hseparator, ih h]
      rfl

theorem stemFrom_of_marked {xs : List (Bool × Char)} (h : marked true cs = x :: xs) :
    stemFrom inRun true cs =
      x.2.toLower :: (underscored titleSeam (·.2.toLower) x xs ++ stemTail true cs) := by
  induction cs generalizing inRun with
  | nil => cases h
  | cons c cs ih =>
    rw [stemTail, endsApart_cons, ← stemTail]
    by_cases hc : c.isAlphanum = true
    · rw [marked_alphanum hc] at h
      cases h
      rw [stemFrom_alphanum hc, (stemFrom_behind (true, c) cs).1, hc]
      simp
    · have hseparator := eq_false_of_ne_true hc
      rw [marked_separator hseparator] at h
      rw [stemFrom_separator hseparator, ih h, hseparator]
      rfl

/-- The stem of a word behind a letter or digit of it. -/
theorem stemFrom_word (h : ∀ d ∈ cs, d.isAlphanum = true) :
    stemFrom c.isUpper false cs = underscored wordSeam Char.toLower c cs := by
  induction cs generalizing c with
  | nil => rfl
  | cons d cs ih =>
    obtain ⟨hd, hcs⟩ := List.forall_mem_cons.1 h
    rw [stemFrom_alphanum hd, ih hcs, underscored]
    simp [wordSeam]

theorem toLower_capitalized (x : Bool × Char) : (capitalized x).toLower = x.2.toLower := by
  unfold capitalized
  split
  · exact Char.toLower_toUpper_eq_toLower x.2
  · rfl

theorem toLower_ne_underscore (hc : c.isAlphanum = true) : c.toLower ≠ '_' := by
  intro heq
  have := Go.isAlphanum_toLower hc
  rw [heq] at this
  cases this

/-- The word that a title makes has the stem of the title where the parts show. -/
theorem fileStemChars_camel (s : String) :
    fileStemChars (camel true s.toList) = fileStemChars s.toList ↔ PartsShow s := by
  rw [fileStemChars_eq, fileStemChars_eq, camel_eq_map_marked]
  unfold PartsShow
  cases hmarked : marked true s.toList with
  | nil =>
    rw [stemFrom_eq_nil hmarked]
    simp [stemFrom, markCapitals, squash]
  | cons x xs =>
    have hletters : ∀ y ∈ x :: xs, y.2.isAlphanum = true :=
      fun y hy => isAlphanum_of_marked (hmarked ▸ hy)
    have hcapitalized : ∀ y ∈ x :: xs, (capitalized y).isAlphanum = true := by
      intro y hy
      unfold capitalized
      split
      · exact Go.isAlphanum_toUpper (hletters y hy)
      · exact hletters y hy
    obtain ⟨hx, hxs⟩ := List.forall_mem_cons.1 hcapitalized
    have hseam : (fun x y => titleSeam x y = wordSeam (capitalized x) (capitalized y)) = SetOff := by
      funext x y
      exact propext setOff_iff.symm
    have htail : stemTail true s.toList = [] ↔ endsApart true s.toList = false := by
      unfold stemTail
      split <;> simp_all
    rw [stemFrom_of_marked hmarked, List.map_cons, stemFrom_alphanum hx,
      stemFrom_word (List.forall_mem_map.2 hxs), underscored_map, toLower_capitalized, eq_comm]
    simp only [Bool.not_true, Bool.and_false, Bool.false_eq_true, if_false, List.nil_append,
      List.cons.injEq, true_and, toLower_capitalized]
    rw [underscored_eq_iff fun y hy =>
      toLower_ne_underscore (hletters y (List.mem_cons_of_mem x hy)), hseam, htail]
    simp

end parts

/-- An identifier is a word, perhaps behind a mark. -/
theorem goPublicChars_eq (cs : List Char) :
    goPublicChars cs = camel true cs ∨ goPublicChars cs = 'X' :: '_' :: camel true cs := by
  unfold goPublicChars
  split
  · next h => exact Or.inl h.symm
  · next h =>
    rw [h]
    split
    · exact Or.inl rfl
    · exact Or.inr rfl

/-- And a word holds no mark. -/
theorem camel_ne_marked (cs ds : List Char) : camel true cs ≠ 'X' :: '_' :: ds := by
  intro h
  have hmem : '_' ∈ camel true cs := by simp [h]
  exact absurd (Go.camel_alphanum _ hmem) (by decide)

theorem goPublicChars_eq_iff :
    goPublicChars cs = goPublicChars ds ↔ camel true cs = camel true ds := by
  constructor
  · intro h
    rcases goPublicChars_eq cs with hcs | hcs <;> rcases goPublicChars_eq ds with hds | hds <;>
      rw [hcs, hds] at h
    · exact h
    · exact absurd h (camel_ne_marked cs _)
    · exact absurd h.symm (camel_ne_marked ds _)
    · exact (List.cons.inj (List.cons.inj h).2).2
  · intro h
    rw [goPublicChars, goPublicChars, h]

theorem goPublic_eq_iff :
    goPublic s = goPublic t ↔ camel true s.toList = camel true t.toList := by
  rw [← goPublicChars_eq_iff, goPublic, goPublic, String.ofList_inj]

/-- A stem has the identifier of its title exactly where capitals stand apart. -/
theorem goPublic_fileStem (s : String) : goPublic (fileStem s) = goPublic s ↔ CapitalsApart s := by
  rw [goPublic_eq_iff, fileStem, String.toList_ofList, fileStemChars_eq,
    camel_stemFrom fun h : false = true => absurd h Bool.false_ne_true]
  simp [CapitalsApart]

theorem fileStem_eq_of_goPublic_eq (hs : PartsShow s) (ht : PartsShow t)
    (h : goPublic s = goPublic t) : fileStem s = fileStem t := by
  rw [fileStem, fileStem, ← (fileStemChars_camel s).2 hs, ← (fileStemChars_camel t).2 ht,
    goPublic_eq_iff.1 h]

end Naming

namespace Go

open Naming

variable {s t : String} {c c' : Class} {g : Graph} {a b id : NodeId} {suffix suffix' x y : String}

/-- The endings of the names that types have for a title. -/
def typeSuffixes : List String := ["Class", "Param", "Json", "Builder", "Factory"]

/-- The name of the type that a declaration is of. -/
def Decl.typeName? : Decl → Option String
  | interfaceType name _ | structType name _ => some name
  | function .. | method .. => none

/-- The types that the file of a class declares. -/
def Class.typeNames (c : Class) : List String := c.decls.filterMap Decl.typeName?

theorem isWord_suffix (h : suffix ∈ typeSuffixes) : IsWord suffix.toList := by
  simp only [typeSuffixes, List.mem_cons, List.not_mem_nil, or_false] at h
  rcases h with rfl | rfl | rfl | rfl | rfl <;> exact isWord_of _ (by decide)

theorem typeName_eq (h : suffix ∈ typeSuffixes) (title : String) :
    typeName title suffix = goPublic title ++ suffix := goPublic_append (isWord_suffix h) title

/-- The endings differ in their last letters. -/
theorem suffix_inj (h : suffix ∈ typeSuffixes) (h' : suffix' ∈ typeSuffixes)
    (heq : x ++ suffix = y ++ suffix') : suffix = suffix' := by
  have hlast : ∀ a ∈ typeSuffixes, ∀ b ∈ typeSuffixes,
      a.toList.getLast? = b.toList.getLast? → a = b := by decide
  have hends {z a : String} (ha : a ∈ typeSuffixes) :
      (z ++ a).toList.getLast? = a.toList.getLast? := by
    obtain ⟨c, cs, hword, -⟩ := isWord_suffix ha
    rw [String.toList_append, List.getLast?_append, hword, List.getLast?_cons]
    rfl
  apply hlast _ h _ h'
  rw [← hends (z := x) h, heq, hends h']

theorem typeName_eq_iff (h : suffix ∈ typeSuffixes) (h' : suffix' ∈ typeSuffixes) :
    typeName s suffix = typeName t suffix' ↔ goPublic s = goPublic t ∧ suffix = suffix' := by
  rw [typeName_eq h, typeName_eq h']
  constructor
  · intro heq
    have hsuffix := suffix_inj h h' heq
    rw [hsuffix] at heq
    exact ⟨(String.append_left_inj _).1 heq, hsuffix⟩
  · rintro ⟨heq, rfl⟩
    rw [heq]

theorem typeNames_eq (c : Class) : c.typeNames = [typeName c.title "Class", typeName c.title "Param",
    typeName c.title "Json", c.implName, typeName c.title "Builder", typeName c.title "Factory"] := by
  have hgetters : (c.fields.map c.getterDecl).filterMap Decl.typeName? = [] := by
    rw [List.filterMap_map]
    exact List.filterMap_eq_nil_iff.2 fun f _ => rfl
  have hsetters : (c.fields.map c.setterDecl).filterMap Decl.typeName? = [] := by
    rw [List.filterMap_map]
    exact List.filterMap_eq_nil_iff.2 fun f _ => rfl
  simp only [Class.typeNames, Class.decls, Class.typeDecls, Class.builderDecls, Class.factoryDecls,
    List.filterMap_append, hgetters, hsetters]
  rfl

/-- A file declares a type for each ending, and the implementation. -/
theorem mem_typeNames : x ∈ c.typeNames ↔
    (∃ suffix ∈ typeSuffixes, x = typeName c.title suffix) ∨ x = c.implName := by
  rw [typeNames_eq]
  simp only [typeSuffixes, List.mem_cons, List.not_mem_nil, or_false, exists_eq_or_imp,
    exists_eq_left]
  simp only [or_assoc, or_comm, or_left_comm]

theorem implName_ne_typeName (h : suffix ∈ typeSuffixes) : c.implName ≠ typeName t suffix := by
  apply goPrivate_ne_goPublic
  rw [← typeName, typeName_eq h]
  obtain ⟨d, ds, hword, -⟩ := isWord_suffix h
  intro hempty
  have := congrArg String.toList hempty
  rw [String.toList_append, hword] at this
  simp at this

/-- Two files declare a type of one name exactly if their titles make one identifier, and then all
of their types have the same names. -/
theorem typeNames_shared (hx : x ∈ c.typeNames) (hx' : x ∈ c'.typeNames) :
    goPublic c.title = goPublic c'.title := by
  rcases mem_typeNames.1 hx with ⟨suffix, h, rfl⟩ | rfl <;>
    rcases mem_typeNames.1 hx' with ⟨suffix', h', heq⟩ | heq
  · exact ((typeName_eq_iff h h').1 heq).1
  · exact absurd heq.symm (implName_ne_typeName h)
  · exact absurd heq (implName_ne_typeName h')
  · exact goPrivate_impl_iff.1 heq

theorem mem_typeNames_of_goPublic_eq (h : goPublic c.title = goPublic c'.title) :
    x ∈ c.typeNames ↔ x ∈ c'.typeNames := by
  have himpl : c.implName = c'.implName := goPrivate_impl_iff.2 h
  have htype : ∀ suffix ∈ typeSuffixes, typeName c.title suffix = typeName c'.title suffix :=
    fun suffix hsuffix => (typeName_eq_iff hsuffix hsuffix).2 ⟨h, rfl⟩
  rw [mem_typeNames, mem_typeNames, himpl]
  constructor
  · rintro (⟨suffix, hsuffix, rfl⟩ | hx)
    · exact Or.inl ⟨suffix, hsuffix, htype suffix hsuffix⟩
    · exact Or.inr hx
  · rintro (⟨suffix, hsuffix, rfl⟩ | hx)
    · exact Or.inl ⟨suffix, hsuffix, (htype suffix hsuffix).symm⟩
    · exact Or.inr hx

theorem fileName_of_class (h : Class.ofNode? g id = .ok c) :
    fileName g id = fileStem c.title ++ ".go" := by
  obtain ⟨head, members, hobject, htitle, -⟩ := ofNode?_ok h
  rw [fileName, Graph.title, hobject, htitle]

/-- File names and type names of titles. A stem has the type names of its title exactly where no two
capitals are side by side; of such titles, those with one stem have one name for each of their
types, so a file that is there for a schema declares the types of all schemas that would be written
to it. The word that a title makes has the stem of the title exactly where parts show by their
capitals and nothing separates behind them; of such titles, those with one name for one of their
types have one stem, so no type is declared in two files. -/
theorem file_names_tell_types (s t : String) :
    (∀ suffix ∈ typeSuffixes, typeName (fileStem s) suffix = typeName s suffix ↔
      CapitalsApart s) ∧
    (CapitalsApart s → CapitalsApart t → fileStem s = fileStem t →
      ∀ suffix ∈ typeSuffixes, typeName s suffix = typeName t suffix) ∧
    (fileStem (String.ofList (camel true s.toList)) = fileStem s ↔ PartsShow s) ∧
    (PartsShow s → PartsShow t →
      ∀ suffix ∈ typeSuffixes, typeName s suffix = typeName t suffix → fileStem s = fileStem t) ∧
    ∀ g a b c c', Class.ofNode? g a = .ok c → Class.ofNode? g b = .ok c' →
      c.title = s → c'.title = t →
      (CapitalsApart s → CapitalsApart t → fileName g a = fileName g b →
        ∀ x, x ∈ c.typeNames ↔ x ∈ c'.typeNames) ∧
      (PartsShow s → PartsShow t → fileName g a ≠ fileName g b →
        ∀ x ∈ c.typeNames, x ∉ c'.typeNames) := by
  have hstem (hs : CapitalsApart s) (ht : CapitalsApart t) (h : fileStem s = fileStem t) :
      goPublic s = goPublic t := by
    rw [← (goPublic_fileStem s).2 hs, h, (goPublic_fileStem t).2 ht]
  refine ⟨?_, ?_, ?_, ?_, ?_⟩
  · intro suffix h
    rw [typeName_eq_iff h h, and_iff_left rfl]
    exact goPublic_fileStem s
  · intro hs ht heq suffix h
    exact (typeName_eq_iff h h).2 ⟨hstem hs ht heq, rfl⟩
  · rw [fileStem, fileStem, String.ofList_inj, String.toList_ofList]
    exact fileStemChars_camel s
  · intro hs ht suffix h heq
    exact fileStem_eq_of_goPublic_eq hs ht ((typeName_eq_iff h h).1 heq).1
  · rintro g a b c c' hc hc' rfl rfl
    rw [fileName_of_class hc, fileName_of_class hc']
    constructor
    · intro hs ht hfile x
      exact mem_typeNames_of_goPublic_eq (hstem hs ht ((String.append_left_inj _).1 hfile))
    · intro hs ht hfile x hx hx'
      apply hfile
      rw [fileStem_eq_of_goPublic_eq hs ht (typeNames_shared hx hx')]

/-- A title in one word and in two, which make one stem and one type of each kind, and the classes
of a curve and of its points, which share no type. -/
theorem file_names_tell_types_simple :
    (∀ suffix ∈ typeSuffixes, typeName "SimpleType" suffix = typeName "simple-type" suffix) ∧
    fileStem "SimpleType" = fileStem "simple-type" ∧
    fileName curveGraph 5 ≠ fileName curveGraph 1 ∧
    ∀ x ∈ curveClass.typeNames, x ∉ pointClass.typeNames := by
  obtain ⟨-, htypes, -, hstem, -⟩ := file_names_tell_types "SimpleType" "simple-type"
  obtain ⟨-, -, -, -, hfiles⟩ := file_names_tell_types "Curve" "Point"
  have hclass : typeName "SimpleType" "Class" = typeName "simple-type" "Class" := by decide
  have hstems : fileStem "SimpleType" = fileStem "simple-type" := by decide
  have hfile : fileName curveGraph 5 ≠ fileName curveGraph 1 := by
    rw [fileName_of_class ofNode?_curve, fileName_of_class ofNode?_point]
    decide
  have hdisjoint := (hfiles curveGraph 5 1 curveClass pointClass ofNode?_curve ofNode?_point rfl
    rfl).2 (by decide) (by decide) hfile
  exact ⟨htypes (by decide) (by decide) hstems,
    hstem (by decide) (by decide) "Class" (by decide) hclass, hfile, hdisjoint⟩

/-- Capitals side by side: one file for two names of a type. Parts that do not show: two files for
one name. -/
theorem file_names_lose_types :
    (fileStem "HTTPServer" = fileStem "Httpserver" ∧
      ∀ suffix ∈ typeSuffixes, typeName "HTTPServer" suffix ≠ typeName "Httpserver" suffix) ∧
    (∀ suffix ∈ typeSuffixes, typeName "AB" suffix = typeName "a-b" suffix) ∧
      fileStem "AB" ≠ fileStem "a-b" := by
  decide

end Go

end SchemaForge
