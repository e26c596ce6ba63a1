import SchemaForge.Proofs.Registry
/-! Paths without detours: what they name tells how they are written. -/
namespace SchemaForge

namespace Path

variable {sep : Char} {part rest : List Char} {parts : List (List Char)} {absolute : Bool}
  {names : List String} {p q : Path}

theorem splitOn_of_not_mem (h : sep ∉ part) : splitOn sep part = [part] := by
  induction part with
  | nil => rfl
  | cons c cs ih =>
    obtain ⟨hc, hcs⟩ := List.ne_and_not_mem_of_not_mem_cons h
    rw [splitOn, if_neg (Ne.symm hc), ih hcs]

theorem splitOn_ne_nil (sep : Char) (cs : List Char) : splitOn sep cs ≠ [] := by
  cases cs with
  | nil => exact List.cons_ne_nil _ _
  | cons c cs =>
    rw [splitOn]
    split
    · exact List.cons_ne_nil _ _
    · split <;> exact List.cons_ne_nil _ _

/-- A separator divides the parts before it from those behind it. -/
theorem splitOn_append_cons (sep : Char) (cs ds : List Char) :
    splitOn sep (cs ++ sep :: ds) = splitOn sep cs ++ splitOn sep ds := by
  induction cs with
  | nil => simp [splitOn]
  | cons c cs ih =>
    rw [List.cons_append, splitOn, splitOn]
    by_cases hc : c = sep
    · rw [if_pos hc, if_pos hc, ih, List.cons_append]
    · obtain ⟨part, parts, hparts⟩ := List.exists_cons_of_ne_nil (splitOn_ne_nil sep cs)
      rw [if_neg hc, if_neg hc, ih, hparts]
      rfl

theorem splitOn_append (h : sep ∉ part) :
    splitOn sep (part ++ sep :: rest) = part :: splitOn sep rest := by
  rw [splitOn_append_cons, splitOn_of_not_mem h, List.singleton_append]

theorem splitOn_joinWith (hne : parts ≠ []) (h : ∀ part ∈ parts, sep ∉ part) :
    splitOn sep (joinWith sep parts) = parts := by
  induction parts with
  | nil => exact absurd rfl hne
  | cons part parts ih =>
    have hpart := h part List.mem_cons_self
    cases parts with
    | nil => exact splitOn_of_not_mem hpart
    | cons next parts =>
      have hrest := ih (List.cons_ne_nil _ _) fun p hp => h p (List.mem_cons_of_mem _ hp)
      rw [joinWith, splitOn_append hpart, hrest]
      exact List.cons_ne_nil _ _

theorem not_mem_of_mem_splitOn {cs : List Char} (h : part ∈ splitOn sep cs) : sep ∉ part := by
  induction cs generalizing part with
  | nil =>
    cases List.mem_singleton.1 h
    exact List.not_mem_nil
  | cons c cs ih =>
    rw [splitOn] at h
    split at h
    · rcases List.mem_cons.1 h with rfl | h
      · exact List.not_mem_nil
      · exact ih h
    · next hc =>
      have hnew : ∀ s, sep ∉ s → sep ∉ c :: s := by
        intro s hs
        exact List.not_mem_cons_of_ne_of_not_mem (Ne.symm hc) hs
      split at h
      · next s ss hsplit =>
        rw [hsplit] at ih
        rcases List.mem_cons.1 h with rfl | h
        · exact hnew s (ih List.mem_cons_self)
        · exact ih (List.mem_cons_of_mem _ h)
      · cases List.mem_singleton.1 h
        exact hnew [] List.not_mem_nil

/-- A name that a step of a path may have. -/
def IsName (s : String) : Prop :=
  isIdle s.toList = false ∧ s.toList ≠ ['.', '.'] ∧ '/' ∉ s.toList

theorem isName_of_mem_components {s : String} (h : .name s ∈ p.components) : IsName s := by
  unfold components at h
  rcases List.mem_append.1 h with h | h
  · split at h
    · cases List.mem_singleton.1 h
    · split at h
      · cases List.mem_singleton.1 h
      · cases h
  · obtain ⟨segment, hmem, hs⟩ := List.mem_map.1 h
    obtain ⟨hsplit, hidle⟩ := List.mem_filter.1 hmem
    unfold component at hs
    split at hs
    · cases hs
    · next hup =>
      cases hs
      refine ⟨by simpa using hidle, by simpa using hup, ?_⟩
      simpa using not_mem_of_mem_splitOn hsplit

/-- Walking keeps names and drops all else. -/
theorem isName_of_mem_walk (steps : List Component) (hsteps : ∀ s, .name s ∈ steps → IsName s)
    (hnames : ∀ s ∈ names, IsName s) : ∀ s ∈ steps.foldl walk names, IsName s := by
  induction steps generalizing names with
  | nil => exact hnames
  | cons step steps ih =>
    refine ih (fun s hs => hsteps s (List.mem_cons_of_mem _ hs)) ?_
    intro s hs
    cases step with
    | name t =>
      rcases List.mem_cons.1 hs with rfl | hs
      · exact hsteps s List.mem_cons_self
      · exact hnames s hs
    | up => exact hnames s (List.mem_of_mem_tail hs)
    | root | here => exact hnames s hs

theorem isName_of_mem_places {s : String} (h : s ∈ p.places) : IsName s :=
  isName_of_mem_walk p.components (fun _ => isName_of_mem_components) (by simp) s
    (List.mem_reverse.1 h)

theorem splitOn_names (hne : names ≠ []) (h : ∀ s ∈ names, IsName s) :
    splitOn '/' (joinWith '/' (names.map String.toList)) = names.map String.toList := by
  apply splitOn_joinWith
  · simpa using hne
  · intro segment hsegment
    obtain ⟨s, hs, rfl⟩ := List.mem_map.1 hsegment
    exact (h s hs).2.2

theorem steps_names (h : ∀ s ∈ names, IsName s) :
    ((splitOn '/' (joinWith '/' (names.map String.toList))).filter (!isIdle ·)).map component =
      names.map .name := by
  by_cases hne : names = []
  · subst hne
    rfl
  · rw [splitOn_names hne h, List.filter_eq_self.2, List.map_map]
    · apply List.map_congr_left
      intro s hs
      simp [component, (h s hs).2.1]
    · intro segment hsegment
      obtain ⟨s, hs, rfl⟩ := List.mem_map.1 hsegment
      simp [(h s hs).1]

/-- A row of names starts with neither a slash nor a dot of its own. -/
theorem start_names (h : ∀ s ∈ names, IsName s) :
    (joinWith '/' (names.map String.toList)).head? ≠ some '/' ∧
      (splitOn '/' (joinWith '/' (names.map String.toList))).head? ≠ some ['.'] := by
  cases names with
  | nil => exact ⟨by simp [joinWith], by simp [joinWith, splitOn]⟩
  | cons s names =>
    have hs := (h s List.mem_cons_self).1
    have hsplit := splitOn_names (List.cons_ne_nil s names) h
    refine ⟨?_, ?_⟩
    · intro hhead
      obtain ⟨cs, hcs⟩ := List.head?_eq_some_iff.1 hhead
      rw [hcs, splitOn, if_pos rfl, List.map_cons, List.cons.injEq] at hsplit
      rw [← hsplit.1] at hs
      cases hs
    · rw [hsplit, List.map_cons, List.head?_cons]
      intro hdot
      rw [Option.some.inj hdot] at hs
      cases hs

/-- The steps of a row of names are the names. -/
theorem components_ofPlaces (h : ∀ s ∈ names, IsName s) :
    (ofPlaces absolute names).components =
      (if absolute then [.root] else []) ++ names.map .name := by
  have hsteps := steps_names h
  obtain ⟨hslash, hdot⟩ := start_names h
  cases absolute with
  | true => simp [components, ofPlaces, isAbsolute, splitOn, isIdle, ← hsteps]
  | false => simp [components, ofPlaces, isAbsolute, hslash, hdot, ← hsteps]

theorem steps_inj {absolute' : Bool} {names' : List String}
    (h : (if absolute then [.root] else []) ++ names.map Component.name =
      (if absolute' then [.root] else []) ++ names'.map Component.name) :
    absolute = absolute' ∧ names = names' := by
  have hname : ∀ s t : String, Component.name s = Component.name t → s = t :=
    fun s t hst => Component.name.inj hst
  have hroot : ∀ names names' : List String,
      Component.root :: names.map Component.name ≠ names'.map Component.name := by
    intro names names' h
    cases names' with
    | nil => cases h
    | cons s names' => cases (List.cons.inj h).1
  cases absolute <;> cases absolute'
  · exact ⟨rfl, (List.map_inj_right hname).1 h⟩
  · exact absurd h.symm (hroot _ _)
  · exact absurd h (hroot _ _)
  · exact ⟨rfl, (List.map_inj_right hname).1 (List.cons.inj h).2⟩

/-- Paths without detours that name the same are the same. -/
theorem eq_of_same_normalize (h : p.normalize.Same q.normalize) : p.normalize = q.normalize := by
  unfold Same normalize at h
  rw [components_ofPlaces fun _ => isName_of_mem_places,
    components_ofPlaces fun _ => isName_of_mem_places] at h
  obtain ⟨habsolute, hplaces⟩ := steps_inj h
  rw [normalize, normalize, habsolute, hplaces]

end Path

/-- Texts in memory make a regular library. -/
theorem FileMap.regular_library (m : FileMap) (includeDirs : List Path) :
    (m.library includeDirs).Regular where
  eq_of_same := by
    rintro f g ⟨p, hp⟩ ⟨q, hq⟩ h
    cases hp
    cases hq
    exact Path.eq_of_same_normalize h
  identity_error := by
    intro p e h
    cases h
  read_error := by
    intro p e h
    change m.read p = _ at h
    unfold FileMap.read at h
    split at h
    · cases h
    · cases h
      simp

end SchemaForge
