import Mathlib
import SchemaForge.Proofs.Go.References
/-!
Phrases of source text, and the packages that types and expressions refer to once they are rendered.
Names have to be words, and a name that a dot may follow has to be other than those of packages.
-/
namespace SchemaForge.Go

open Place

variable {P Q R : Place → Prop} {s t : String} {ps qs : List Package}

/-- A text leads from places of a kind to places of a kind, and refers to some packages. -/
def Spans (P Q : Place → Prop) (s : String) (ps : List Package) : Prop := Scans P Q s.toList ps

theorem Spans.append (h : Spans P Q s ps) (h' : Spans Q R t qs) :
    Spans P R (s ++ t) (ps ++ qs) := by
  unfold Spans
  rw [String.toList_append]
  exact Scans.append h h'

/-- What comes next refers to nothing. -/
theorem Spans.followed (h : Spans P Q s ps) (h' : Spans Q R t []) : Spans P R (s ++ t) ps := by
  have := h.append h'
  rwa [List.append_nil] at this

/-- Code that refers to some packages, where a word may begin. -/
def Phrase (s : String) (ps : List Package) : Prop := Spans Ready Settled s ps

theorem spans_leads (hP : ∀ a, P a → Idle a) (h : leads t.toList = true) : Spans P Ready t [] :=
  fun a ha => scans_leads h a (hP a ha)

theorem spans_closes (hP : ∀ a, P a → Idle a) (h : closes s.toList = true) :
    Spans P Settled s [] := by
  intro a ha
  obtain ⟨hplace, hrefs⟩ := scans_closes h a (hP a ha)
  exact ⟨hplace ▸ .code, hrefs⟩

theorem spans_quiet (h : t.toList.all isQuiet = true) : Spans Idle Idle t [] :=
  scans_quiet (List.all_eq_true.1 h)

/-- Words and marks before code. -/
theorem spans_lead (h : leads s.toList = true) : Spans Ready Ready s [] :=
  spans_leads (fun _ => .ready) h

/-- Words and marks between code. -/
theorem spans_glue (h : leads t.toList = true) : Spans Settled Ready t [] :=
  spans_leads (fun _ => Settled.idle) h

/-- Words and marks behind code. -/
theorem spans_close (h : closes t.toList = true) : Spans Settled Settled t [] :=
  spans_closes (fun _ => Settled.idle) h

theorem phrase_closes (h : closes s.toList = true) : Phrase s [] :=
  spans_closes (fun _ => .ready) h

def isNameChar (c : Char) : Bool := c.isAlphanum || c == '_'

/-- Words that identifiers are made of. -/
def isName (x : String) : Bool := !x.toList.isEmpty && x.toList.all isNameChar

/-- Identifiers other than the names of packages. -/
def isLocal (x : String) : Bool := isName x && (package? x.toList).isNone

variable {x : String}

theorem isName_iff : isName x = true ↔ x.toList ≠ [] ∧ ∀ c ∈ x.toList, isNameChar c = true := by
  simp [isName]

theorem areWord_of_isName (h : isName x = true) : areWord x.toList = true := by
  obtain ⟨hne, hall⟩ := isName_iff.1 h
  refine areWord_iff.2 ⟨hne, fun c hc => ?_⟩
  have hchar : c.isAlphanum || c == '_' := hall c hc
  rw [isWordChar, hchar, Bool.true_or]

theorem isName_of_isLocal (h : isLocal x = true) : isName x = true := (Bool.and_eq_true_iff.1 h).1

theorem phrase_local (h : isLocal x = true) : Phrase x [] := by
  intro a ha
  obtain ⟨hname, hpackage⟩ := Bool.and_eq_true_iff.1 h
  obtain ⟨hplace, hrefs⟩ := scans_word (areWord_of_isName hname) a ha
  exact ⟨hplace ▸ .plain (Option.isNone_iff_eq_none.1 hpackage), hrefs⟩

theorem spans_name (h : isName x = true) : Spans Ready (· = word x.toList false) x [] :=
  scans_word (areWord_of_isName h)

theorem spans_name_idle (h : isName x = true) : Spans Ready Idle x [] := by
  intro a ha
  obtain ⟨hplace, hrefs⟩ := spans_name h a ha
  exact ⟨hplace ▸ .word _ _, hrefs⟩

/-- A word that words and marks set off from what comes next. -/
theorem spans_name_leads (h : isName x = true) (ht : leads t.toList = true) :
    Spans Ready Ready (x ++ t) [] :=
  (spans_name h).append (spans_leads (by rintro _ rfl; exact .word _ _) ht)

theorem phrase_name_closes (h : isName x = true) (ht : closes t.toList = true) :
    Phrase (x ++ t) [] :=
  (spans_name h).append (spans_closes (by rintro _ rfl; exact .word _ _) ht)

theorem Spans.mono_right (h : Spans P Q s ps) (hQ : ∀ a, Q a → R a) : Spans P R s ps :=
  fun a ha => ⟨hQ _ (h a ha).1, (h a ha).2⟩

theorem spans_dot : Spans Settled (· = .dot) "." [] := scans_dot

theorem spans_selected (h : isName x = true) : Spans Settled Settled ("." ++ x) [] :=
  spans_dot.append <| Spans.mono_right (scans_selected (areWord_of_isName h)) <| by
    rintro _ rfl
    exact .selected _

/-- What opens an assertion of a type. -/
theorem spans_assert : Spans Settled Ready ".(" [] := by
  intro a ha
  have hparen : Scans (· = dot) Ready ['('] [] := by
    rintro _ rfl
    exact ⟨.code, .nil⟩
  exact scans_dot.append hparen a ha

theorem phrase_qualified (p : Package) (h : isName x = true) :
    Phrase (p.name ++ "." ++ x) [p] := by
  unfold Phrase Spans
  rw [String.append_assoc, String.toList_append, String.toList_append]
  exact scans_qualified p (areWord_of_isName h)

theorem phrase_quote (s : String) : Phrase (Json.quote s) [] := by
  unfold Phrase Spans
  rw [Json.quote, String.toList_ofList]
  exact fun a ha => ⟨(scans_quote s.toList a ha).1 ▸ .code, (scans_quote s.toList a ha).2⟩

theorem phrase_intText (i : Int) : Phrase (Decimal.intText i) [] :=
  Spans.mono_right (scans_intText i) fun _ => InNumber.settled

theorem phrase_rune {c : Char} (hc : c ≠ '\x27') (hescape : c ≠ '\\') :
    Phrase (String.ofList ['\x27', c, '\x27']) [] := by
  unfold Phrase Spans
  rw [String.toList_ofList]
  exact fun a ha => ⟨(scans_rune hc hescape a ha).1 ▸ .code, (scans_rune hc hescape a ha).2⟩

/-- Whether a text begins, or ends, with something other than white space. -/
def begins (s : String) : Bool := s.toList.head?.any (!Text.isBlank ·)

def ends (s : String) : Bool := s.toList.getLast?.any (!Text.isBlank ·)

theorem begins_append (h : begins s = true) : begins (s ++ t) = true := by
  unfold begins at *
  rw [String.toList_append]
  cases hs : s.toList with
  | nil => simp [hs] at h
  | cons c cs => simpa [hs] using h

theorem ends_append (h : ends t = true) : ends (s ++ t) = true := by
  unfold ends at *
  rw [String.toList_append]
  rcases List.eq_nil_or_concat' t.toList with ht | ⟨cs, c, ht⟩
  · simp [ht] at h
  · simpa [ht, ← List.append_assoc] using h

theorem head_of_begins (h : begins s = true) :
    ∀ c, s.toList.head? = some c → Text.isBlank c = false := by
  intro c hc
  rw [begins, hc] at h
  simpa using h

theorem last_of_ends (h : ends s = true) :
    ∀ c, s.toList.getLast? = some c → Text.isBlank c = false := by
  intro c hc
  rw [ends, hc] at h
  simpa using h

theorem trim_eq (hbegins : begins s = true) (hends : ends s = true) : Text.trim s = s := by
  rw [Text.trim, Text.trimChars_eq (head_of_begins hbegins) (last_of_ends hends),
    String.ofList_toList]

theorem isBlank_of_isNameChar {c : Char} (hc : isNameChar c = true) : Text.isBlank c = false := by
  by_cases hunder : c = '_'
  · rw [hunder]
    decide
  · have hcases : (48 ≤ c.toNat ∧ c.toNat ≤ 57) ∨ (65 ≤ c.toNat ∧ c.toNat ≤ 90) ∨
        (97 ≤ c.toNat ∧ c.toNat ≤ 122) := by
      simp only [isNameChar, Char.isAlphanum, Char.isAlpha, Char.isUpper, Char.isLower,
        Char.isDigit, beq_false_of_ne hunder, Bool.or_false, Bool.or_eq_true, Bool.and_eq_true,
        decide_eq_true_eq, UInt32.le_iff_toNat_le] at hc
      simp only [Char.toNat]
      grind
    simp only [Text.isBlank, Bool.or_eq_false_iff, Bool.and_eq_false_iff,
      decide_eq_false_iff_not, beq_eq_false_iff_ne]
    omega

theorem begins_name (h : isName x = true) : begins x = true := by
  obtain ⟨hne, hall⟩ := isName_iff.1 h
  unfold begins
  cases hx : x.toList with
  | nil => exact absurd hx hne
  | cons c cs =>
    have hc := isBlank_of_isNameChar (hall c (by simp [hx]))
    simp [hc]

theorem ends_name (h : isName x = true) : ends x = true := by
  obtain ⟨hne, hall⟩ := isName_iff.1 h
  unfold ends
  rcases List.eq_nil_or_concat' x.toList with hx | ⟨cs, c, hx⟩
  · exact absurd hx hne
  · have hc := isBlank_of_isNameChar (hall c (by simp [hx]))
    simp [hx, hc]

/-- Code without white space at its ends that refers to nothing. -/
structure Inert (s : String) : Prop where
  phrase : Phrase s []
  begins : begins s = true
  ends : ends s = true

theorem isName_natText (n : Nat) : isName (Decimal.natText n) = true := by
  rw [isName_iff, Decimal.natText, String.toList_ofList]
  refine ⟨Decimal.digits_ne_nil n, fun c hc => ?_⟩
  simp [isNameChar, Char.isAlphanum, Decimal.isDigit_of_mem_digits hc]

theorem begins_intText (i : Int) : begins (Decimal.intText i) = true := by
  unfold Decimal.intText
  split
  · exact begins_append (s := "-") (by decide)
  · exact begins_name (isName_natText _)

theorem begins_quote (s : String) : begins (Json.quote s) = true := by
  rw [Json.quote, begins, String.toList_ofList]
  rfl

theorem head?_decimal (d : Decimal) : ∃ c, d.text.head? = some c ∧ c.isDigit = true := by
  have hdigits : ∀ c ∈ Decimal.digits d.coefficient, c.isDigit = true :=
    fun _ => Decimal.isDigit_of_mem_digits
  cases hds : Decimal.digits d.coefficient with
  | nil => exact absurd hds (Decimal.digits_ne_nil _)
  | cons c cs =>
    have hc : c.isDigit = true := hdigits c (by simp [hds])
    unfold Decimal.text
    simp only [hds]
    split
    · exact ⟨c, by simp, hc⟩
    split
    · next hpoint =>
      obtain ⟨k, hk⟩ : ∃ k, ((c :: cs).length + d.exponent : Int).toNat = k + 1 :=
        Nat.exists_eq_add_one.2 (by omega)
      rw [hk]
      exact ⟨c, rfl, hc⟩
    split
    · exact ⟨'0', by simp, by decide⟩
    · cases cs with
      | nil => exact ⟨c, by simp, hc⟩
      | cons c' cs => exact ⟨c, by simp, hc⟩

theorem begins_number (n : Number) : begins n.toText = true := by
  have hdigit {c : Char} (hc : c.isDigit = true) : Text.isBlank c = false :=
    isBlank_of_isNameChar (by simp [isNameChar, Char.isAlphanum, hc])
  unfold begins Number.toText
  rw [String.toList_ofList]
  cases n with
  | integer i => exact begins_intText i
  | float x =>
    have hmagnitude : ∃ c, (if x.isZero then ['0', '.', '0']
        else (Decimal.shortest x.units).text).head? = some c ∧ c.isDigit = true := by
      split
      · exact ⟨'0', rfl, by decide⟩
      · exact head?_decimal _
    obtain ⟨c, hhead, hc⟩ := hmagnitude
    simp only [Number.text, Binary64.text]
    split
    · rfl
    · rw [hhead]
      simp [hdigit hc]

namespace GoType

/-- Whether all names in a type are words. -/
def Clean : GoType → Prop
  | named name => Inert name
  | slice items => items.Clean
  | pointer target => target.Clean
  | imported _ x => isName x = true
  | applied _ x arg => isName x = true ∧ arg.Clean

theorem phrase_text : ∀ {t : GoType}, t.Clean → Phrase t.text t.packages
  | named _, h => h.phrase
  | slice items, h => (spans_lead (s := "[]") (by decide)).append (phrase_text (t := items) h)
  | pointer target, h =>
    (spans_lead (s := "*") (by decide)).append (phrase_text (t := target) h)
  | imported p _, h => phrase_qualified p h
  | applied p _ arg, ⟨hx, harg⟩ =>
    (((phrase_qualified p hx).followed (spans_glue (t := "[") (by decide))).append
      (phrase_text (t := arg) harg)).followed (spans_close (t := "]") (by decide))

theorem begins_text : ∀ {t : GoType}, t.Clean → begins t.text = true
  | named _, h => h.begins
  | slice _, _ => begins_append (s := "[]") (by decide)
  | pointer _, _ => begins_append (s := "*") (by decide)
  | imported p _, _ => begins_append (begins_append (by cases p <;> decide))
  | applied p _ _, _ =>
    begins_append (begins_append (begins_append (begins_append (begins_append
      (by cases p <;> decide)))))

theorem ends_text : ∀ {t : GoType}, t.Clean → ends t.text = true
  | named _, h => h.ends
  | slice items, h => ends_append (ends_text (t := items) h)
  | pointer target, h => ends_append (ends_text (t := target) h)
  | imported _ _, h => ends_append (ends_name h)
  | applied _ _ _, _ => ends_append (t := "]") (by decide)

end GoType

namespace Expr

mutual

/-- Whether all names in an expression are words, and none that a dot may follow is the name of a
package. -/
def Clean : Expr → Prop
  | name x => isLocal x = true
  | field e f => e.Clean ∧ isName f = true
  | index e i | binary _ e i => e.Clean ∧ i.Clean
  | deref e | not e | paren e | address e => e.Clean
  | number _ | text _ => True
  | letter c => c ≠ '\x27' ∧ c ≠ '\\'
  | default v => Phrase v.compact [] ∧ begins v.compact = true
  | call f args => f.Clean ∧ CleanAll args
  | imported _ x => isName x = true
  | applied _ x arg => isName x = true ∧ arg.Clean
  | convert type e | assert e type | makeSlice type e => type.Clean ∧ e.Clean
  | empty type => type.Clean
  | build type fields => isName type = true ∧ CleanFields fields

def CleanAll : List Expr → Prop
  | [] => True
  | e :: es => e.Clean ∧ CleanAll es

def CleanFields : List (String × Expr) → Prop
  | [] => True
  | (f, e) :: rest => isName f = true ∧ e.Clean ∧ CleanFields rest

end

mutual

/-- An expression refers to its packages. -/
theorem phrase_render : ∀ {e : Expr}, e.Clean → Phrase e.render e.packages
  | name _, h => phrase_local h
  | field e _, ⟨he, hf⟩ => by
    have := (phrase_render (e := e) he).followed (spans_selected hf)
    rwa [← String.append_assoc] at this
  | index e i, ⟨he, hi⟩ =>
    (((phrase_render (e := e) he).followed (spans_glue (t := "[") (by decide))).append
      (phrase_render (e := i) hi)).followed (spans_close (t := "]") (by decide))
  | binary op e i, ⟨he, hi⟩ =>
    ((((phrase_render (e := e) he).followed (spans_glue (t := " ") (by decide))).followed
      (spans_lead (s := op.text) (by cases op <;> decide))).followed
        (spans_lead (s := " ") (by decide))).append (phrase_render (e := i) hi)
  | deref e, h => (spans_lead (s := "*") (by decide)).append (phrase_render (e := e) h)
  | not e, h => (spans_lead (s := "!") (by decide)).append (phrase_render (e := e) h)
  | paren e, h =>
    ((spans_lead (s := "(") (by decide)).append (phrase_render (e := e) h)).followed
      (spans_close (t := ")") (by decide))
  | address e, h => (spans_lead (s := "&") (by decide)).append (phrase_render (e := e) h)
  | number n, _ => phrase_intText n
  | text s, _ => phrase_quote s
  | letter _, ⟨hc, hescape⟩ => phrase_rune hc hescape
  | default _, h => h.1
  | call f args, ⟨hf, hargs⟩ => by
    have := ((phrase_render (e := f) hf).followed (spans_glue (t := "(") (by decide))).append
      (spans_renderArgs hargs)
    rwa [← String.append_assoc] at this
  | imported p _, h => phrase_qualified p h
  | applied p x arg, ⟨hx, harg⟩ =>
    GoType.phrase_text (t := .applied p x arg) ⟨hx, harg⟩
  | convert type e, ⟨ht, he⟩ =>
    (((GoType.phrase_text ht).followed (spans_glue (t := "(") (by decide))).append
      (phrase_render (e := e) he)).followed (spans_close (t := ")") (by decide))
  | assert e type, ⟨ht, he⟩ =>
    -- the type stands behind the value in the text
    Scans.perm ((((phrase_render (e := e) he).followed spans_assert).append
      (GoType.phrase_text ht)).followed (spans_close (t := ")") (by decide))) List.perm_append_comm
  | makeSlice type e, ⟨ht, he⟩ =>
    ((((spans_lead (s := "make(") (by decide)).append (GoType.phrase_text ht)).followed
      (spans_glue (t := ", 0, ") (by decide))).append (phrase_render (e := e) he)).followed
        (spans_close (t := ")") (by decide))
  | empty type, h => (GoType.phrase_text h).followed (spans_close (by decide))
  | build type fields, ⟨ht, hfields⟩ => by
    have htype := (spans_lead (s := "&") (by decide)).append
      (spans_name_leads (t := "\x7b") ht (by decide))
    rw [← String.append_assoc] at htype
    exact (htype.append (spans_renderFields hfields)).followed (phrase_closes (by decide))

/-- The arguments of a call, to the end of the call. -/
theorem spans_renderArgs : ∀ {l : List Expr}, CleanAll l →
    Phrase (renderArgs l ++ ")") (packagesOf l)
  | [], _ => phrase_closes (by decide)
  | [e], ⟨he, _⟩ => by
    rw [packagesOf, packagesOf, List.append_nil]
    exact (phrase_render (e := e) he).followed (spans_close (t := ")") (by decide))
  | e :: e' :: es, ⟨he, hes⟩ => by
    have := ((phrase_render (e := e) he).followed (spans_glue (t := ", ") (by decide))).append
      (spans_renderArgs (l := e' :: es) hes)
    rwa [← String.append_assoc] at this

theorem spans_renderFields : ∀ {fields : List (String × Expr)}, CleanFields fields →
    Spans Ready Ready (renderFields fields) (packagesOfFields fields)
  | [], _ => Scans.nil
  | (_, e) :: _, ⟨hf, he, hrest⟩ =>
    (((spans_name_leads (t := ": ") hf (by decide)).append (phrase_render (e := e) he)).followed
      (spans_glue (t := ", ") (by decide))).append (spans_renderFields hrest)

end

theorem begins_render : ∀ {e : Expr}, e.Clean → begins e.render = true
  | name _, h => begins_name (isName_of_isLocal h)
  | field e _, h => begins_append (begins_append (begins_render (e := e) h.1))
  | index e _, h => begins_append (begins_append (begins_append (begins_render (e := e) h.1)))
  | binary _ e _, h => begins_append (begins_append (begins_append (begins_append
    (begins_render (e := e) h.1))))
  | call f _, h => begins_append (begins_append (begins_append (begins_render (e := f) h.1)))
  | assert e _, h => begins_append (begins_append (begins_append (begins_render (e := e) h.2)))
  | convert _ _, h => begins_append (begins_append (begins_append (GoType.begins_text h.1)))
  | empty _, h => begins_append (GoType.begins_text h)
  | imported p _, h => GoType.begins_text (t := .imported p _) h
  | applied p _ _, h => GoType.begins_text (t := .applied p _ _) h
  | default _, h => h.2
  | number i, _ => begins_intText i
  | text s, _ => begins_quote s
  | letter _, _ => by
    rw [render, begins, String.toList_ofList]
    rfl
  | deref _, _ => begins_append (s := "*") (by decide)
  | not _, _ => begins_append (s := "!") (by decide)
  | paren _, _ => begins_append (begins_append (s := "(") (by decide))
  | address _, _ => begins_append (s := "&") (by decide)
  | makeSlice _ _, _ =>
    begins_append (begins_append (begins_append (begins_append (s := "make(") (by decide))))
  | build _ _, _ =>
    begins_append (begins_append (begins_append (begins_append (s := "&") (by decide))))

end Expr

end SchemaForge.Go
