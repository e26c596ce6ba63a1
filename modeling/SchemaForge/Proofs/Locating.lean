import Mathlib.Data.List.Induction
import SchemaForge.Proofs.Path
/-!
Where references lead among texts in memory. Main statement: a reference is looked for in one place
after the other, and what is found is known by one path, however it was written.
-/
namespace SchemaForge

namespace Path

variable {dir p q : Path} {names : List String} {absolute : Bool}

/-- The names that a path leads through from a directory, once `..` has undone the name before
it. -/
def placesFrom (dir p : Path) : List String := (dir.join p).places

/-- A path from the root on without `.` and `..`. -/
structure Plain (f : Path) : Prop where
  absolute : f.isAbsolute = true
  segments : ∀ s ∈ splitOn '/' f.text.toList, s ≠ ['.'] ∧ s ≠ ['.', '.']

theorem join_of_isAbsolute (dir : Path) (h : p.isAbsolute = true) : dir.join p = p := if_pos h

theorem isAbsolute_join (h : dir.isAbsolute = true) (p : Path) :
    (dir.join p).isAbsolute = true := by
  by_cases hp : p.isAbsolute = true
  · rw [join_of_isAbsolute dir hp]
    exact hp
  · have hhead : dir.text.toList.head? = some '/' := eq_of_beq h
    unfold join
    rw [if_neg hp]
    split <;> simp [isAbsolute, List.head?_append, hhead]

theorem places_ofPlaces (h : ∀ s ∈ names, IsName s) : (ofPlaces absolute names).places = names := by
  have hwalk : ∀ (names' : List String) (names : List String),
      (names.map Component.name).foldl walk names' = names.reverse ++ names' := by
    intro names' names
    induction names generalizing names' with
    | nil => rfl
    | cons s names ih => simp [walk, ih]
  have hstart : ((if absolute then [Component.root] else []).foldl walk []) = [] := by
    cases absolute <;> rfl
  rw [places, components_ofPlaces h, List.foldl_append, hstart, hwalk, List.append_nil,
    List.reverse_reverse]

/-- What stands between the slashes of a path of names. -/
theorem segments_ofPlaces (h : ∀ s ∈ names, IsName s) :
    ∀ s ∈ splitOn '/' (ofPlaces absolute names).text.toList, s ≠ ['.'] ∧ s ≠ ['.', '.'] := by
  have hnames : ∀ s ∈ splitOn '/' (joinWith '/' (names.map String.toList)),
      s ≠ ['.'] ∧ s ≠ ['.', '.'] := by
    intro s hs
    by_cases hne : names = []
    · subst hne
      obtain rfl := List.mem_singleton.1 hs
      decide
    · rw [splitOn_names hne h] at hs
      obtain ⟨name, hname, rfl⟩ := List.mem_map.1 hs
      obtain ⟨hidle, hup, -⟩ := h name hname
      refine ⟨fun hdot => ?_, hup⟩
      rw [hdot] at hidle
      cases hidle
  cases absolute with
  | false => simpa [ofPlaces] using hnames
  | true =>
    have htext : (ofPlaces true names).text.toList =
        '/' :: joinWith '/' (names.map String.toList) := by
      simp [ofPlaces]
    rw [htext, splitOn, if_pos rfl]
    exact List.forall_mem_cons.2 ⟨by decide, hnames⟩

/-- A path of names is plain. -/
theorem plain_ofPlaces (h : ∀ s ∈ names, IsName s) : (ofPlaces true names).Plain where
  absolute := by simp [ofPlaces, isAbsolute]
  segments := segments_ofPlaces h

/-- A path of names leads to the same place from everywhere. -/
theorem placesFrom_ofPlaces (h : ∀ s ∈ names, IsName s) :
    dir.placesFrom (ofPlaces true names) = names := by
  rw [placesFrom, join_of_isAbsolute dir (plain_ofPlaces h).absolute, places_ofPlaces h]

theorem isName_of_mem_placesFrom {s : String} (h : s ∈ dir.placesFrom p) : IsName s :=
  isName_of_mem_places h

/-- Paths of names are the same only if they are of the same names. -/
theorem same_ofPlaces {names' : List String} (h : ∀ s ∈ names, IsName s)
    (h' : ∀ s ∈ names', IsName s) :
    (ofPlaces true names).Same (ofPlaces true names') ↔ names = names' := by
  refine ⟨fun hsame => ?_, fun heq => by rw [heq]; rfl⟩
  have hcomponents : (ofPlaces true names).components = (ofPlaces true names').components := hsame
  calc names = (ofPlaces true names).places := (places_ofPlaces h).symm
    _ = (ofPlaces true names').places := by rw [places, places, hcomponents]
    _ = names' := places_ofPlaces h'

end Path

namespace FileMap

variable {m : FileMap} {dir p q f : Path} {text : String} {texts : List (Path × String)}

/-- Texts that are added one after the other. -/
def ofTexts (dir : Path) (texts : List (Path × String)) : FileMap :=
  texts.foldl (fun m t => m.add t.1 t.2) ⟨dir, []⟩

/-- The text that was added last at the place to which a path leads. -/
def textAt? (dir : Path) (texts : List (Path × String)) (p : Path) : Option String :=
  (texts.reverse.find? fun t => dir.placesFrom t.1 = dir.placesFrom p).map Prod.snd

theorem resolve_eq (h : m.currentDir.isAbsolute = true) (p : Path) :
    m.resolve p = Path.ofPlaces true (m.currentDir.placesFrom p) := by
  rw [resolve, Path.normalize, Path.isAbsolute_join h]
  rfl

theorem resolve_eq_iff (h : m.currentDir.isAbsolute = true) :
    m.resolve p = m.resolve q ↔ m.currentDir.placesFrom p = m.currentDir.placesFrom q := by
  rw [resolve_eq h, resolve_eq h]
  refine ⟨fun heq => ?_, fun heq => by rw [heq]⟩
  refine (Path.same_ofPlaces (fun _ => Path.isName_of_mem_placesFrom)
    fun _ => Path.isName_of_mem_placesFrom).1 ?_
  rw [heq]
  rfl

theorem has_eq (m : FileMap) (p : Path) : m.has p = (m.files.lookup (m.resolve p)).isSome := by
  unfold has
  induction m.files with
  | nil => rfl
  | cons file files ih =>
    rw [List.map_cons, List.contains_cons, ih, List.lookup_cons]
    cases m.resolve p == file.1 <;> rfl

/-- What stands under another key is not needed. -/
theorem lookup_filter_ne {key other : Path} (h : key ≠ other) (files : List (Path × String)) :
    (files.filter (·.1 != other)).lookup key = files.lookup key := by
  induction files with
  | nil => rfl
  | cons file files ih =>
    by_cases hfile : file.1 = other
    · have hne : (key == file.1) = false := beq_eq_false_iff_ne.2 (hfile ▸ h)
      rw [List.filter_cons_of_neg (by simp [hfile]), ih, List.lookup_cons, hne]
    · rw [List.filter_cons_of_pos (by simp [hfile]), List.lookup_cons, List.lookup_cons, ih]

theorem lookup_add (m : FileMap) (q : Path) (text : String) (key : Path) :
    (m.add q text).files.lookup key =
      if key = m.resolve q then some text else m.files.lookup key := by
  have hfiles : (m.add q text).files =
      (m.resolve q, text) :: m.files.filter (·.1 != m.resolve q) := rfl
  rw [hfiles, List.lookup_cons]
  by_cases hkey : key = m.resolve q
  · simp [hkey]
  · rw [if_neg hkey, beq_eq_false_iff_ne.2 hkey]
    exact lookup_filter_ne hkey m.files

theorem ofTexts_concat (dir : Path) (texts : List (Path × String)) (t : Path × String) :
    ofTexts dir (texts ++ [t]) = (ofTexts dir texts).add t.1 t.2 :=
  List.foldl_append

theorem currentDir_ofTexts (dir : Path) (texts : List (Path × String)) :
    (ofTexts dir texts).currentDir = dir := by
  induction texts using List.reverseRecOn with
  | nil => rfl
  | append_singleton texts t ih =>
    rw [ofTexts_concat]
    exact ih

theorem textAt?_concat (dir : Path) (texts : List (Path × String)) (t : Path × String) (p : Path) :
    textAt? dir (texts ++ [t]) p =
      if dir.placesFrom p = dir.placesFrom t.1 then some t.2 else textAt? dir texts p := by
  rw [textAt?, List.reverse_append, List.reverse_singleton, List.singleton_append, List.find?_cons]
  by_cases h : dir.placesFrom p = dir.placesFrom t.1
  · simp [h]
  · rw [if_neg h]
    simp [Ne.symm h, textAt?]

/-- A file holds the text that was added last at its place. -/
theorem lookup_ofTexts (h : dir.isAbsolute = true) (texts : List (Path × String)) (p : Path) :
    (ofTexts dir texts).files.lookup ((ofTexts dir texts).resolve p) = textAt? dir texts p := by
  induction texts using List.reverseRecOn with
  | nil => rfl
  | append_singleton texts t ih =>
    have hdir := currentDir_ofTexts dir texts
    have habsolute : (ofTexts dir texts).currentDir.isAbsolute = true := by rwa [hdir]
    have hresolve :
      ((ofTexts dir texts).add t.1 t.2).resolve p = (ofTexts dir texts).resolve p := rfl
    rw [ofTexts_concat, hresolve, lookup_add, ih, textAt?_concat]
    simp only [resolve_eq_iff habsolute, hdir]

theorem has_ofTexts (h : dir.isAbsolute = true) (texts : List (Path × String)) (p : Path) :
    (ofTexts dir texts).has p = (textAt? dir texts p).isSome := by
  rw [has_eq, lookup_ofTexts h]

theorem read_ofTexts (h : dir.isAbsolute = true) (ht : textAt? dir texts p = some text) :
    (ofTexts dir texts).read p = .ok text := by
  rw [read, lookup_ofTexts h, ht]

theorem resolve_ofTexts (h : dir.isAbsolute = true) (texts : List (Path × String)) (p : Path) :
    (ofTexts dir texts).resolve p = Path.ofPlaces true (dir.placesFrom p) := by
  have hdir := currentDir_ofTexts dir texts
  rw [resolve_eq (by rwa [hdir]), hdir]

/-- The path by which a file is known leads to the same text. -/
theorem textAt?_ofPlaces (dir : Path) (texts : List (Path × String)) (p : Path) :
    textAt? dir texts (Path.ofPlaces true (dir.placesFrom p)) = textAt? dir texts p := by
  rw [textAt?, Path.placesFrom_ofPlaces fun _ => Path.isName_of_mem_placesFrom]
  rfl

end FileMap

/-- The first of a list that has a property. -/
def FirstOf {α : Type} (holds : α → Prop) (xs : List α) (x : α) : Prop :=
  ∃ before after, xs = before ++ x :: after ∧ holds x ∧ ∀ y ∈ before, ¬ holds y

theorem firstOf_iff {α : Type} {holds : α → Bool} {xs : List α} {x : α} :
    FirstOf (holds · = true) xs x ↔ xs.find? holds = some x := by
  rw [List.find?_eq_some_iff_append]
  constructor
  · rintro ⟨before, after, hxs, hx, hbefore⟩
    exact ⟨hx, before, after, hxs, fun y hy => by simpa using hbefore y hy⟩
  · rintro ⟨hx, before, after, hxs, hbefore⟩
    exact ⟨before, after, hxs, hx, fun y hy => by simpa using hbefore y hy⟩

namespace FirstOf

variable {α : Type} {holds : α → Bool} {xs : List α} {x y : α}

theorem mem (h : FirstOf (holds · = true) xs x) : x ∈ xs ∧ holds x = true := by
  obtain ⟨before, after, rfl, hx, -⟩ := h
  exact ⟨List.mem_append_right before List.mem_cons_self, hx⟩

theorem unique (h : FirstOf (holds · = true) xs x) (h' : FirstOf (holds · = true) xs y) : x = y :=
  Option.some.inj ((firstOf_iff.1 h).symm.trans (firstOf_iff.1 h'))

end FirstOf

namespace Library

variable {lib : Library} {referrer : Option Path} {reference rest : String} {dir f : Path}
  {texts : List (Path × String)} {includeDirs : List Path}

/-- Whether a reference leads nowhere out of its document. -/
def InDocument (word : String) : Prop := word = "" ∨ word.toList.head? = some '#'

theorem not_inDocument_file (rest : String) : ¬ InDocument ("file://" ++ rest) := by
  rintro (h | h)
  · simpa using congrArg String.length h
  · simp at h

theorem locate_inDocument (h : InDocument (Text.trim reference)) :
    lib.locate referrer reference = .error (.reference (.inDocument (Text.trim reference))) := by
  have hpath : referencePath reference =
      .error (.reference (.inDocument (Text.trim reference))) := by
    refine if_pos ?_
    simpa [InDocument] using h
  rw [locate, hpath]

theorem locate_scheme (h : ¬ InDocument (Text.trim reference))
    (hfile : ∀ rest, Text.trim reference ≠ "file://" ++ rest) :
    lib.locate referrer reference = .error (.reference (.scheme (Text.trim reference))) := by
  have hpath : referencePath reference = .error (.reference (.scheme (Text.trim reference))) := by
    refine (if_neg ?_).trans (if_neg ?_)
    · simpa [InDocument] using h
    · intro hprefix
      obtain ⟨rest, hrest⟩ := List.isPrefixOf_iff_prefix.1 hprefix
      refine hfile (String.ofList rest) (String.toList_inj.1 ?_)
      rw [← hrest]
      simp
  rw [locate, hpath]

theorem referencePath_file (h : Text.trim reference = "file://" ++ rest) :
    referencePath reference = .ok ⟨rest⟩ := by
  have hnot := not_inDocument_file rest
  rw [← h] at hnot
  refine (if_neg (by simpa [InDocument] using hnot)).trans ((if_pos ?_).trans ?_)
  · rw [h]
    exact List.isPrefixOf_iff_prefix.2 ⟨rest.toList, by simp⟩
  · rw [h]
    simp

theorem locate_found (h : Text.trim reference = "file://" ++ rest)
    (hfound : (lib.candidates referrer ⟨rest⟩).find? lib.has = some f) :
    lib.locate referrer reference = lib.identity f := by
  simp only [locate, referencePath_file h, hfound]

theorem locate_missing (h : Text.trim reference = "file://" ++ rest)
    (hnone : (lib.candidates referrer ⟨rest⟩).find? lib.has = none) :
    lib.locate referrer reference = .error (.reference (.missing (Text.trim reference)
      (lib.candidates referrer ⟨rest⟩))) := by
  simp only [locate, referencePath_file h, hnone]

theorem candidates_ofTexts (dir : Path) (texts : List (Path × String)) (includeDirs : List Path)
    (referrer : Option Path) (p : Path) :
    ((FileMap.ofTexts dir texts).library includeDirs).candidates referrer p =
      if p.isAbsolute then [p]
      else ((referrer.bind Path.parent?).getD dir).join p :: includeDirs.map (·.join p) := by
  have hdir : ((FileMap.ofTexts dir texts).library includeDirs).currentDir = dir :=
    FileMap.currentDir_ofTexts dir texts
  rw [candidates, hdir]
  rfl

/-- What a reference to a file finds among texts in memory. -/
theorem locate_ofTexts (hdir : dir.isAbsolute = true)
    (h : Text.trim reference = "file://" ++ rest) {searched : List Path}
    (hsearched : ((FileMap.ofTexts dir texts).library includeDirs).candidates referrer ⟨rest⟩ =
      searched) :
    let lib := (FileMap.ofTexts dir texts).library includeDirs
    (∃ c, FirstOf (fun c => (FileMap.textAt? dir texts c).isSome = true) searched c ∧
      lib.locate referrer reference = .ok (Path.ofPlaces true (dir.placesFrom c))) ∨
    (∀ c ∈ searched, FileMap.textAt? dir texts c = none) ∧
      lib.locate referrer reference =
        .error (.reference (.missing (Text.trim reference) searched)) := by
  intro lib
  subst hsearched
  have hhas : lib.has = fun c => (FileMap.textAt? dir texts c).isSome :=
    funext fun c => FileMap.has_ofTexts hdir texts c
  cases hfind : (lib.candidates referrer ⟨rest⟩).find? lib.has with
  | some c =>
    have hidentity : lib.identity c = .ok (Path.ofPlaces true (dir.placesFrom c)) :=
      congrArg Except.ok (FileMap.resolve_ofTexts hdir texts c)
    have hfound := locate_found h hfind
    rw [hhas] at hfind
    exact Or.inl ⟨c, firstOf_iff.2 hfind, hfound.trans hidentity⟩
  | none =>
    refine Or.inr ⟨fun c hc => ?_, locate_missing h hfind⟩
    rw [hhas] at hfind
    simpa using List.find?_eq_none.1 hfind c hc

/-- What is found is the path by which a place with a text is known. -/
theorem exists_text_of_locate (hdir : dir.isAbsolute = true)
    (h : ((FileMap.ofTexts dir texts).library includeDirs).locate referrer reference = .ok f) :
    ∃ c text, FileMap.textAt? dir texts c = some text ∧
      f = Path.ofPlaces true (dir.placesFrom c) := by
  by_cases hin : InDocument (Text.trim reference)
  · rw [locate_inDocument hin] at h
    cases h
  · by_cases hfile : ∃ rest, Text.trim reference = "file://" ++ rest
    · obtain ⟨rest, hrest⟩ := hfile
      obtain ⟨c, ⟨before, after, -, hc, -⟩, hfound⟩ | ⟨-, hmissing⟩ :=
        locate_ofTexts hdir hrest rfl
      · obtain ⟨text, htext⟩ := Option.isSome_iff_exists.1 hc
        exact ⟨c, text, htext, Except.ok.inj (h.symm.trans hfound)⟩
      · cases h.symm.trans hmissing
    · rw [locate_scheme hin (not_exists.1 hfile)] at h
      cases h

/-- A file is found again by the path by which it is known. -/
theorem locate_plain (hdir : dir.isAbsolute = true) {text : String} (hf : f.Plain)
    (hplaces : f = Path.ofPlaces true (dir.placesFrom f))
    (htext : FileMap.textAt? dir texts f = some text)
    (hend : ∀ c, f.text.toList.getLast? = some c → Text.isBlank c = false)
    (referrer : Option Path) :
    ((FileMap.ofTexts dir texts).library includeDirs).locate referrer ("file://" ++ f.text) =
      .ok f := by
  have hne : f.text.toList ≠ [] := by
    intro hnil
    have habsolute := hf.absolute
    rw [Path.isAbsolute, hnil] at habsolute
    cases habsolute
  have htrim : Text.trim ("file://" ++ f.text) = "file://" ++ f.text := by
    rw [Text.trim, Text.trimChars_eq, String.ofList_toList]
    · intro c hc
      have hfirst : 'f' = c := by simpa using hc
      exact hfirst ▸ rfl
    · intro c hc
      rw [String.toList_append, List.getLast?_append, List.getLast?_eq_some_getLast hne,
        Option.some_or, ← List.getLast?_eq_some_getLast hne] at hc
      exact hend c hc
  have hsearched := candidates_ofTexts dir texts includeDirs referrer f
  rw [if_pos hf.absolute] at hsearched
  obtain ⟨c, ⟨before, after, hsplit, -, -⟩, hfound⟩ | ⟨hnone, -⟩ :=
    locate_ofTexts hdir htrim hsearched
  · have hc : c = f := by
      have hmem : c ∈ [f] := hsplit ▸ List.mem_append_right before List.mem_cons_self
      exact List.mem_singleton.1 hmem
    rw [hfound, hc, ← hplaces]
  · rw [hnone f List.mem_cons_self] at htext
    cases htext

section outcomes

variable {e : Error} {searched : List Path}

theorem not_firstOf_of_none {c : Path}
    (hnone : ∀ c ∈ searched, FileMap.textAt? dir texts c = none) :
    ¬ FirstOf (fun c => (FileMap.textAt? dir texts c).isSome = true) searched c := by
  intro hc
  obtain ⟨hmem, hsome⟩ := hc.mem
  rw [hnone c hmem] at hsome
  cases hsome

theorem locate_ok_iff (hdir : dir.isAbsolute = true)
    (h : Text.trim reference = "file://" ++ rest)
    (hsearched : ((FileMap.ofTexts dir texts).library includeDirs).candidates referrer ⟨rest⟩ =
      searched) :
    ((FileMap.ofTexts dir texts).library includeDirs).locate referrer reference = .ok f ↔
      ∃ c, FirstOf (fun c => (FileMap.textAt? dir texts c).isSome = true) searched c ∧
        f = Path.ofPlaces true (dir.placesFrom c) := by
  obtain ⟨c, hc, hfound⟩ | ⟨hnone, hmissing⟩ := locate_ofTexts hdir h hsearched
  · rw [hfound, Except.ok.injEq]
    constructor
    · rintro rfl
      exact ⟨c, hc, rfl⟩
    · rintro ⟨c', hc', rfl⟩
      rw [hc'.unique hc]
  · rw [hmissing]
    refine ⟨nofun, ?_⟩
    rintro ⟨c, hc, -⟩
    exact absurd hc (not_firstOf_of_none hnone)

theorem locate_error_iff (hdir : dir.isAbsolute = true)
    (h : Text.trim reference = "file://" ++ rest)
    (hsearched : ((FileMap.ofTexts dir texts).library includeDirs).candidates referrer ⟨rest⟩ =
      searched) :
    ((FileMap.ofTexts dir texts).library includeDirs).locate referrer reference = .error e ↔
      e = .reference (.missing (Text.trim reference) searched) ∧
        ∀ c ∈ searched, FileMap.textAt? dir texts c = none := by
  obtain ⟨c, hc, hfound⟩ | ⟨hnone, hmissing⟩ := locate_ofTexts hdir h hsearched
  · rw [hfound]
    exact ⟨nofun, fun h => absurd hc (not_firstOf_of_none h.2)⟩
  · rw [hmissing, Except.error.injEq]
    exact ⟨fun h => ⟨h.symm, hnone⟩, fun h => h.1.symm⟩

theorem locate_inDocument_iff (hdir : dir.isAbsolute = true) :
    ((FileMap.ofTexts dir texts).library includeDirs).locate referrer reference =
        .error (.reference (.inDocument (Text.trim reference))) ↔
      InDocument (Text.trim reference) := by
  refine ⟨fun h => ?_, locate_inDocument⟩
  by_contra hin
  by_cases hfile : ∃ rest, Text.trim reference = "file://" ++ rest
  · obtain ⟨rest, hrest⟩ := hfile
    cases ((locate_error_iff hdir hrest rfl).1 h).1
  · cases h.symm.trans (locate_scheme hin (not_exists.1 hfile))

theorem locate_scheme_iff (hdir : dir.isAbsolute = true) :
    ((FileMap.ofTexts dir texts).library includeDirs).locate referrer reference =
        .error (.reference (.scheme (Text.trim reference))) ↔
      ¬ InDocument (Text.trim reference) ∧ ∀ rest, Text.trim reference ≠ "file://" ++ rest := by
  refine ⟨fun h => ⟨fun hin => ?_, fun rest hrest => ?_⟩, fun h => locate_scheme h.1 h.2⟩
  · cases h.symm.trans (locate_inDocument hin)
  · cases ((locate_error_iff hdir hrest rfl).1 h).1

end outcomes

/-- A file that is found is known by a plain path, can be read, and is found again by that path. -/
theorem known_of_locate (hdir : dir.isAbsolute = true)
    (h : ((FileMap.ofTexts dir texts).library includeDirs).locate referrer reference = .ok f) :
    f.Plain ∧
      (∃ text, ((FileMap.ofTexts dir texts).library includeDirs).read f = .ok text ∧
        FileMap.textAt? dir texts f = some text) ∧
      ((∀ c, f.text.toList.getLast? = some c → Text.isBlank c = false) → ∀ referrer',
        ((FileMap.ofTexts dir texts).library includeDirs).locate referrer' ("file://" ++ f.text) =
          .ok f) := by
  obtain ⟨c, text, htext, rfl⟩ := exists_text_of_locate hdir h
  have hnames : ∀ s ∈ dir.placesFrom c, Path.IsName s := fun _ => Path.isName_of_mem_placesFrom
  have hplain := Path.plain_ofPlaces hnames
  rw [← FileMap.textAt?_ofPlaces] at htext
  refine ⟨hplain, ⟨text, FileMap.read_ofTexts hdir htext, htext⟩, fun hend referrer' => ?_⟩
  exact locate_plain hdir hplain (by rw [Path.placesFrom_ofPlaces hnames]) htext hend referrer'

theorem eq_ofPlaces_of_identity (hdir : dir.isAbsolute = true) {p : Path}
    (h : ((FileMap.ofTexts dir texts).library includeDirs).identity p = .ok f) :
    f = Path.ofPlaces true (dir.placesFrom p) := by
  rw [← FileMap.resolve_ofTexts hdir texts]
  exact (Except.ok.inj h).symm

/-- Paths are known by the same path just if they lead along the same places. -/
theorem same_identity_iff (hdir : dir.isAbsolute = true) {p q g : Path}
    (hf : ((FileMap.ofTexts dir texts).library includeDirs).identity p = .ok f)
    (hg : ((FileMap.ofTexts dir texts).library includeDirs).identity q = .ok g) :
    (f.Same g ↔ dir.placesFrom p = dir.placesFrom q) ∧ (f = g ↔ f.Same g) := by
  rw [eq_ofPlaces_of_identity hdir hf, eq_ofPlaces_of_identity hdir hg]
  have hnames : ∀ p, ∀ s ∈ dir.placesFrom p, Path.IsName s :=
    fun _ _ => Path.isName_of_mem_placesFrom
  have hsame := Path.same_ofPlaces (hnames p) (hnames q)
  exact ⟨hsame, fun heq => by rw [heq]; rfl, fun h => by rw [hsame.1 h]⟩

/-- References are looked for among texts in memory. One that is empty or starts with `#` leads
nowhere, and so does one without the scheme of files. Any other leads to the first place that holds
a text, which is its path itself if that starts at the root, and else one in the directory of the
file that refers, or where that has none in the current one, or in one of the directories that are
searched, in their order; it fails only if no place holds one. A file is known by one path, which
is plain, can be read, and is found again by that path if no white space ends it. -/
theorem locate_first (hdir : dir.isAbsolute = true) (texts : List (Path × String))
    (includeDirs : List Path) (referrer : Option Path) (reference : String) :
    let lib := (FileMap.ofTexts dir texts).library includeDirs
    let word := Text.trim reference
    (lib.locate referrer reference = .error (.reference (.inDocument word)) ↔ InDocument word) ∧
    (lib.locate referrer reference = .error (.reference (.scheme word)) ↔
      ¬ InDocument word ∧ ∀ rest, word ≠ "file://" ++ rest) ∧
    (∀ rest, word = "file://" ++ rest →
      let p : Path := ⟨rest⟩
      let searched := if p.isAbsolute then [p]
        else ((referrer.bind Path.parent?).getD dir).join p :: includeDirs.map (·.join p)
      (∀ f, lib.locate referrer reference = .ok f ↔
        ∃ c, FirstOf (fun c => (FileMap.textAt? dir texts c).isSome = true) searched c ∧
          f = Path.ofPlaces true (dir.placesFrom c)) ∧
      ∀ e, lib.locate referrer reference = .error e ↔
        e = .reference (.missing word searched) ∧
          ∀ c ∈ searched, FileMap.textAt? dir texts c = none) ∧
    (∀ f, lib.locate referrer reference = .ok f →
      f.Plain ∧
      (∃ text, lib.read f = .ok text ∧ FileMap.textAt? dir texts f = some text) ∧
      ((∀ c, f.text.toList.getLast? = some c → Text.isBlank c = false) →
        ∀ referrer', lib.locate referrer' ("file://" ++ f.text) = .ok f)) ∧
    ∀ p q f g, lib.identity p = .ok f → lib.identity q = .ok g →
      (f.Same g ↔ dir.placesFrom p = dir.placesFrom q) ∧ (f = g ↔ f.Same g) := by
  intro lib word
  refine ⟨locate_inDocument_iff hdir, locate_scheme_iff hdir, fun rest hrest => ?_,
    fun f => known_of_locate hdir, fun p q f g => same_identity_iff hdir⟩
  have hsearched := candidates_ofTexts dir texts includeDirs referrer ⟨rest⟩
  exact ⟨fun f => locate_ok_iff hdir hrest hsearched,
    fun e => locate_error_iff hdir hrest hsearched⟩

/-- A reference from a file in a directory, to a file that only a searched directory has. -/
theorem locate_first_shared :
    (⟨"/abs"⟩ : Path).isAbsolute = true ∧
      ((FileMap.ofTexts ⟨"/abs"⟩
          [(⟨"dir/../dir/./sub.json"⟩, "1"), (⟨"/inc/shared.json"⟩, "2")]).library
        [⟨"/inc"⟩]).locate (some ⟨"/abs/dir/sub.json"⟩) " file://..//inc/shared.json " =
          .ok ⟨"/inc/shared.json"⟩ := by
  have hdir : (⟨"/abs"⟩ : Path).isAbsolute = true := by decide
  obtain ⟨-, -, hfile, -⟩ := locate_first hdir
    [(⟨"dir/../dir/./sub.json"⟩, "1"), (⟨"/inc/shared.json"⟩, "2")] [⟨"/inc"⟩]
    (some ⟨"/abs/dir/sub.json"⟩) " file://..//inc/shared.json "
  refine ⟨hdir, ((hfile "..//inc/shared.json" (by decide)).1 _).2 ?_⟩
  refine ⟨⟨"/inc/..//inc/shared.json"⟩, ⟨[⟨"/abs/dir/..//inc/shared.json"⟩], [], by decide,
    by decide, ?_⟩, by decide⟩
  decide

end Library

end SchemaForge
