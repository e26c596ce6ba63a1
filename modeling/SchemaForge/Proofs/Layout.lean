import Mathlib
import SchemaForge.Layout
/-! How often a text stands in the lines of a layout. -/
namespace SchemaForge

variable {pattern text pre post : List Char} {c : Char} {k : Nat} {s : String}

/-- How often a pattern stands in a text. -/
def occurrences (pattern : List Char) : List Char → Nat
  | [] => 0
  | c :: cs => (if pattern.isPrefixOf (c :: cs) then 1 else 0) + occurrences pattern cs

/-- A pattern stands no more often than any of its characters. -/
theorem occurrences_le_count_drop (h : pattern[k]? = some c) :
    occurrences pattern text ≤ (text.drop k).count c := by
  induction text with
  | nil => simp [occurrences]
  | cons d text ih =>
    by_cases hprefix : pattern.isPrefixOf (d :: text) = true
    · obtain ⟨rest, hrest⟩ := List.isPrefixOf_iff_prefix.1 hprefix
      have hget : (d :: text)[k]? = some c := by
        rw [← hrest, List.getElem?_append_left (List.getElem?_eq_some_iff.1 h).1, h]
      have hdrop : (d :: text).drop k = c :: text.drop k := by
        obtain ⟨hk, hget⟩ := List.getElem?_eq_some_iff.1 hget
        rw [List.drop_eq_getElem_cons hk, hget, List.drop_succ_cons]
      rw [occurrences, if_pos hprefix, hdrop, List.count_cons_self]
      omega
    · have hshift : (text.drop k).count c ≤ ((d :: text).drop k).count c := by
        rw [← List.drop_succ_cons (a := d)]
        exact (List.drop_sublist_drop_left _ (Nat.le_succ k)).count_le c
      rw [occurrences, if_neg hprefix]
      omega

theorem occurrences_le_count (h : c ∈ pattern) : occurrences pattern text ≤ text.count c := by
  obtain ⟨k, hk, hc⟩ := List.getElem_of_mem h
  have hget : pattern[k]? = some c := by rw [List.getElem?_eq_getElem hk, hc]
  exact (occurrences_le_count_drop hget).trans ((List.drop_sublist k text).count_le c)

theorem occurrences_eq_zero (h : c ∈ pattern) (hc : c ∉ text) : occurrences pattern text = 0 := by
  have hle : occurrences pattern text ≤ text.count c := occurrences_le_count h
  rw [List.count_eq_zero.2 hc] at hle
  exact Nat.le_zero.1 hle

theorem occurrences_pos (hne : pattern ≠ []) :
    1 ≤ occurrences pattern (pre ++ pattern ++ post) := by
  induction pre with
  | nil =>
    obtain ⟨c, cs, rfl⟩ := List.exists_cons_of_ne_nil hne
    have hprefix : (c :: cs).isPrefixOf (c :: cs ++ post) = true :=
      List.isPrefixOf_iff_prefix.2 (List.prefix_append _ _)
    rw [List.nil_append, List.cons_append, occurrences, ← List.cons_append, if_pos hprefix]
    omega
  | cons d pre ih =>
    rw [List.cons_append, List.cons_append, occurrences]
    omega

namespace Layout

theorem mem_indented (h : c ∈ (indented "" s).toList) : c ∈ s.toList := by
  unfold indented at h
  dsimp only at h
  split at h
  · simp at h
  · simpa only [String.empty_append] using h

theorem mem_trim (h : c ∈ (Text.trim s).toList) : c ∈ s.toList := by
  rw [Text.trim, String.toList_ofList, Text.trimChars, Text.dropBlankEnd, List.mem_reverse] at h
  exact (List.dropWhile_sublist _).mem (List.mem_reverse.1 ((List.dropWhile_sublist _).mem h))

theorem mem_opening {keyword expression bracket : String}
    (h : c ∈ (opening keyword expression bracket).toList) :
    c ∈ keyword.toList ∨ c ∈ expression.toList ∨ c ∈ bracket.toList ∨ c = ' ' := by
  simp only [opening, String.toList_append, List.mem_append] at h
  rcases h with ((h | h) | h) | h
  · exact Or.inl (mem_trim h)
  · right; right; right
    split at h
    · simp at h
    · simpa using h
  · exact Or.inr (Or.inl (mem_trim h))
  · exact Or.inr (Or.inr (Or.inl h))

/-- How often a pattern stands in the lines of a layout, from the left margin on. -/
def mentions (pattern : String) (parts : List Layout) : Nat :=
  ((linesOf "" "" parts).map fun line => occurrences pattern.toList line.toList).sum

variable {p keyword expression bracket closing : String} {parts parts' : List Layout}

@[simp] theorem mentions_nil : mentions p [] = 0 := rfl

theorem mentions_cons (p : String) (part : Layout) (parts : List Layout) :
    mentions p (part :: parts) = mentions p [part] + mentions p parts := by
  simp [mentions, linesOf]

theorem mentions_append : mentions p (parts ++ parts') = mentions p parts + mentions p parts' := by
  induction parts with
  | nil => simp
  | cons part parts ih =>
    rw [List.cons_append, mentions_cons, ih, mentions_cons p part parts, Nat.add_assoc]

/-- A line without one of the characters of a pattern does not have the pattern. -/
theorem mentions_line_eq_zero (h : c ∈ p.toList) (hs : c ∉ s.toList) :
    mentions p [.line s] = 0 := by
  simp [mentions, linesOf, lines, occurrences_eq_zero h (mt mem_indented hs)]

/-- A line has a pattern once that stands in it, if it has one of its characters once. -/
theorem mentions_line_eq_one (pre post : List Char) (h : c ∈ p.toList)
    (hblank : Text.isBlank c = false) (hs : s.toList = pre ++ p.toList ++ post)
    (hcount : s.toList.count c = 1) :
    mentions p [.line s] = 1 := by
  have hmem : c ∈ s.toList := List.count_pos_iff.1 (by omega)
  have hline : indented "" s = s := by
    have hseen : Text.isAllBlank s = false := by
      rw [Text.isAllBlank, List.all_eq_false]
      exact ⟨c, hmem, by simp [hblank]⟩
    simp [indented, hseen]
  have hle : occurrences p.toList s.toList ≤ 1 := hcount ▸ occurrences_le_count h
  have hge : 1 ≤ occurrences p.toList s.toList := by
    rw [hs]
    exact occurrences_pos (List.ne_nil_of_mem h)
  simp only [mentions, linesOf, lines, hline, List.append_nil, List.map_cons, List.map_nil,
    List.sum_cons, List.sum_nil]
  omega

/-- And a block has it as often as what is in the block, if it is not in what is around it. -/
theorem mentions_block {d : Char} (h : c ∈ p.toList) (hspace : c ≠ ' ')
    (hkeyword : c ∉ keyword.toList) (hexpression : c ∉ expression.toList) (hbracket : c ∉ bracket.toList) (hd : d ∈ p.toList)
    (hclosing : d ∉ closing.toList) :
    mentions p [.block keyword expression bracket closing parts] = mentions p parts := by
  have hopening : c ∉ (opening keyword expression bracket).toList := by
    intro hmem
    rcases mem_opening hmem with h | h | h | h
    exacts [hkeyword h, hexpression h, hbracket h, hspace h]
  simp [mentions, linesOf, lines, occurrences_eq_zero h (mt mem_indented hopening),
    occurrences_eq_zero hd (mt mem_indented hclosing)]

end Layout

end SchemaForge
