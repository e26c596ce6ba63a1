import SchemaForge.Proofs.Locating
/-!
Paths without detours. Main statement: a path has one normal form, which may be taken before another
path is appended or after that, and texts in memory answer for the normal form of a path as they do
for the path.
-/
namespace SchemaForge

namespace Path

variable {names : List String} {absolute : Bool} {p q : Path}

/-- The steps behind the start of a path. -/
def steps (cs : List Char) : List Component := ((splitOn '/' cs).filter (!isIdle ·)).map component

theorem steps_append_slash (cs ds : List Char) :
    steps (cs ++ '/' :: ds) = steps cs ++ steps ds := by
  rw [steps, splitOn_append_cons, List.filter_append, List.map_append]
  rfl

/-- Nothing is walked at the start of a path. -/
theorem walk_components (p : Path) (names : List String) :
    p.components.foldl walk names = (steps p.text.toList).foldl walk names := by
  rw [components, List.foldl_append]
  congr 1
  split
  · rfl
  · split <;> rfl

/-- How a relative path is appended: to an empty path, behind a slash that is there, or behind one
that is put there. -/
theorem toList_join (hq : q.isAbsolute = false) :
    (p.text.toList = [] ∧ p.join q = q) ∨
    (∃ cs, p.text.toList = cs ++ ['/'] ∧ (p.join q).text.toList = cs ++ '/' :: q.text.toList) ∨
    p.text.toList ≠ [] ∧ (p.join q).text.toList = p.text.toList ++ '/' :: q.text.toList := by
  unfold join
  rw [if_neg (by simp [hq])]
  by_cases hempty : p.text = ""
  · exact Or.inl (by simp [hempty])
  · have hne : p.text.toList ≠ [] := by simpa using hempty
    right
    by_cases hslash : p.text.toList.getLast? = some '/'
    · obtain ⟨cs, hcs⟩ := List.getLast?_eq_some_iff.1 hslash
      exact Or.inl ⟨cs, hcs, by simp [hcs]⟩
    · exact Or.inr ⟨hne, by simp [hempty, hslash]⟩

/-- A relative path is walked from where the path leads to which it is appended. -/
theorem steps_join (hq : q.isAbsolute = false) :
    steps (p.join q).text.toList = steps p.text.toList ++ steps q.text.toList := by
  have hnil : steps [] = [] := rfl
  obtain ⟨hp, hjoin⟩ | ⟨cs, hp, hjoin⟩ | ⟨-, hjoin⟩ := toList_join (p := p) hq
  · rw [hjoin, hp, hnil, List.nil_append]
  · rw [hjoin, hp, steps_append_slash, steps_append_slash, hnil, List.append_nil]
  · rw [hjoin, steps_append_slash]

theorem isAbsolute_join_relative (hq : q.isAbsolute = false) :
    (p.join q).isAbsolute = p.isAbsolute := by
  obtain ⟨hp, hjoin⟩ | ⟨cs, hp, hjoin⟩ | ⟨hp, hjoin⟩ := toList_join (p := p) hq
  · rw [hjoin, hq, isAbsolute, hp]
    rfl
  · rw [isAbsolute, isAbsolute, hjoin, hp]
    cases cs <;> rfl
  · obtain ⟨c, cs, hcs⟩ := List.exists_cons_of_ne_nil hp
    rw [isAbsolute, isAbsolute, hjoin, hcs]
    rfl

theorem places_join (hq : q.isAbsolute = false) :
    (p.join q).places = (q.components.foldl walk p.places.reverse).reverse := by
  rw [places, places, walk_components, walk_components, walk_components, steps_join hq,
    List.foldl_append, List.reverse_reverse]

theorem isAbsolute_ofPlaces (h : ∀ s ∈ names, IsName s) :
    (ofPlaces absolute names).isAbsolute = absolute := by
  cases absolute with
  | true => exact (plain_ofPlaces h).absolute
  | false => simpa [ofPlaces, isAbsolute] using (start_names h).1

theorem isAbsolute_normalize (p : Path) : p.normalize.isAbsolute = p.isAbsolute :=
  isAbsolute_ofPlaces fun _ => isName_of_mem_places

theorem places_normalize (p : Path) : p.normalize.places = p.places :=
  places_ofPlaces fun _ => isName_of_mem_places

theorem normalize_normalize (p : Path) : p.normalize.normalize = p.normalize := by
  rw [normalize, isAbsolute_normalize, places_normalize, normalize]

/-- Detours of a path may be left out before another path is appended. -/
theorem normalize_join (p q : Path) : (p.join q).normalize = (p.normalize.join q).normalize := by
  cases hq : q.isAbsolute with
  | true => rw [join_of_isAbsolute p hq, join_of_isAbsolute p.normalize hq]
  | false =>
    rw [normalize, normalize, isAbsolute_join_relative hq, isAbsolute_join_relative hq,
      isAbsolute_normalize, places_join hq, places_join hq, places_normalize]

theorem components_normalize (p : Path) :
    p.normalize.components = (if p.isAbsolute then [.root] else []) ++ p.places.map .name :=
  components_ofPlaces fun _ => isName_of_mem_places

/-- What is left of a path is its root and names. -/
theorem mem_components_normalize {step : Component} (h : step ∈ p.normalize.components) :
    step ≠ .here ∧ step ≠ .up := by
  rw [components_normalize] at h
  rcases List.mem_append.1 h with h | h
  · split at h
    · rw [List.mem_singleton.1 h]
      exact ⟨nofun, nofun⟩
    · cases h
  · obtain ⟨name, -, rfl⟩ := List.mem_map.1 h
    exact ⟨nofun, nofun⟩

end Path

namespace FileMap

variable {m : FileMap} {p q : Path}

theorem isAbsolute_resolve (h : m.currentDir.isAbsolute = true) (p : Path) :
    (m.resolve p).isAbsolute = true := by
  rw [resolve, Path.isAbsolute_normalize]
  exact Path.isAbsolute_join h p

/-- A path by which a file is known is known by itself. -/
theorem resolve_resolve (h : m.currentDir.isAbsolute = true) (p : Path) :
    m.resolve (m.resolve p) = m.resolve p := by
  rw [resolve, Path.join_of_isAbsolute _ (isAbsolute_resolve h p)]
  exact Path.normalize_normalize _

theorem has_congr (h : m.resolve p = m.resolve q) : m.has p = m.has q := by rw [has, h, has]

theorem read_congr (h : m.resolve p = m.resolve q) : m.read p = m.read q := by rw [read, h, read]

/-- Paths have normal forms, without `.` and `..`, which have themselves as normal forms and start
at the root just where the path does. The normal form of a path may be taken before another path is
appended, where one that starts at the root replaces it. So texts in memory answer for the normal
form of a path, taken from the current directory, as they do for the path, and for all paths of one
normal form alike. -/
theorem answers_by_normal_form :
    (∀ p : Path,
      (∀ step ∈ p.normalize.components, step ≠ .here ∧ step ≠ .up) ∧
      (∀ s ∈ Path.splitOn '/' p.normalize.text.toList, s ≠ ['.'] ∧ s ≠ ['.', '.']) ∧
      p.normalize.normalize = p.normalize ∧
      p.normalize.isAbsolute = p.isAbsolute) ∧
    (∀ p q : Path,
      (q.isAbsolute = true → p.join q = q) ∧
      (p.join q).normalize = (p.normalize.join q).normalize) ∧
    ∀ (m : FileMap) (includeDirs : List Path), m.currentDir.isAbsolute = true → ∀ p : Path,
      let lib := m.library includeDirs
      let form := (m.currentDir.join p).normalize
      form.isAbsolute = true ∧
      lib.identity p = .ok form ∧ lib.identity form = .ok form ∧
      lib.has form = lib.has p ∧ lib.read form = lib.read p ∧
      ∀ q, (m.currentDir.join q).normalize.Same form →
        lib.identity q = lib.identity p ∧ lib.has q = lib.has p ∧ lib.read q = lib.read p := by
  refine ⟨fun p => ?_, fun p q => ?_, fun m includeDirs hdir p => ?_⟩
  · have hnames : ∀ s ∈ p.places, Path.IsName s := fun _ => Path.isName_of_mem_places
    exact ⟨fun _ => Path.mem_components_normalize, Path.segments_ofPlaces hnames,
      Path.normalize_normalize p, Path.isAbsolute_normalize p⟩
  · exact ⟨Path.join_of_isAbsolute p, Path.normalize_join p q⟩
  · intro lib form
    have hform : m.resolve form = m.resolve p := resolve_resolve hdir p
    refine ⟨isAbsolute_resolve hdir p, rfl, congrArg Except.ok hform, has_congr hform,
      read_congr hform, fun q hq => ?_⟩
    have hsame : m.resolve q = m.resolve p := Path.eq_of_same_normalize hq
    exact ⟨congrArg Except.ok hsame, has_congr hsame, read_congr hsame⟩

/-- Three ways of writing one path, of which the last is its normal form. -/
theorem answers_by_normal_form_detour :
    let m : FileMap := ⟨⟨"/abs"⟩, [(⟨"/abs/sub.json"⟩, "1")]⟩
    let lib := m.library []
    m.currentDir.isAbsolute = true ∧
      (m.currentDir.join ⟨".//sub.json"⟩).normalize.Same
        (m.currentDir.join ⟨"dir/../sub.json"⟩).normalize ∧
      lib.read ⟨".//sub.json"⟩ = lib.read ⟨"dir/../sub.json"⟩ ∧
      lib.read ⟨"/abs/sub.json"⟩ = lib.read ⟨"dir/../sub.json"⟩ ∧
      lib.read ⟨"/abs/sub.json"⟩ = .ok "1" := by
  intro m lib
  have hdir : m.currentDir.isAbsolute = true := by decide
  have hform : (m.currentDir.join ⟨"dir/../sub.json"⟩).normalize = ⟨"/abs/sub.json"⟩ := by decide
  have hother : (m.currentDir.join ⟨".//sub.json"⟩).normalize = ⟨"/abs/sub.json"⟩ := by decide
  have hsame : (m.currentDir.join ⟨".//sub.json"⟩).normalize.Same
      (m.currentDir.join ⟨"dir/../sub.json"⟩).normalize :=
    congrArg Path.components (hother.trans hform.symm)
  obtain ⟨-, -, hmaps⟩ := answers_by_normal_form
  obtain ⟨-, -, -, -, hread, hall⟩ := hmaps m [] hdir ⟨"dir/../sub.json"⟩
  rw [hform] at hread
  have htext : m.read ⟨"/abs/sub.json"⟩ = .ok "1" := by
    have hresolve : m.resolve ⟨"/abs/sub.json"⟩ = ⟨"/abs/sub.json"⟩ := by decide
    simp [m, read, hresolve]
  exact ⟨hdir, hsame, (hall _ hsame).2.2, hread, htext⟩

end FileMap

end SchemaForge
