import Mathlib
import SchemaForge.Go.Syntax
import SchemaForge.Proofs.Literal
/-!
The packages that Go source text refers to, read from the text itself: names of packages outside
literals and comments that stand before a dot and not behind one.
-/
namespace SchemaForge.Go

/-- Where a reader of source text stands. -/
inductive Place where
  | code
  /-- In a word, which may stand behind a dot. -/
  | word (letters : List Char) (selected : Bool)
  /-- In the white space behind a word. -/
  | behind (letters : List Char) (selected : Bool)
  | dot
  | slash
  | lineComment
  | blockComment
  /-- In a comment, behind a star. -/
  | star
  | text
  | textEscape
  | raw
  | rune
  | runeEscape
  deriving DecidableEq

namespace Place

def isWordChar (c : Char) : Bool := c.isAlphanum || c == '_' || 0x80 ≤ c.toNat

/-- White space within a line. -/
def isGap (c : Char) : Bool := c == ' ' || c == '\t' || c == '\r'

/-- Where a character leads that does not go on with what stands before it. -/
def start (c : Char) : Place :=
  if isWordChar c then word [c] false
  else match c with
    | '.' => dot
    | '"' => text
    | '\x60' => raw
    | '\x27' => rune
    | '/' => slash
    | _ => code

def next : Place → Char → Place
  | code, c => start c
  | word letters selected, c =>
    if isWordChar c then word (letters ++ [c]) selected
    else if isGap c then behind letters selected else start c
  | behind letters selected, c => if isGap c then behind letters selected else start c
  | dot, c =>
    if isWordChar c then word [c] true else if isGap c || c == '\n' then dot else start c
  | slash, c => if c == '/' then lineComment else if c == '*' then blockComment else start c
  | lineComment, c => if c == '\n' then code else lineComment
  | blockComment, c => if c == '*' then star else blockComment
  | star, c => if c == '/' then code else if c == '*' then star else blockComment
  | text, c => if c == '"' then code else if c == '\\' then textEscape else text
  | textEscape, _ => text
  | raw, c => if c == '\x60' then code else raw
  | rune, c => if c == '\x27' then code else if c == '\\' then runeEscape else rune
  | runeEscape, _ => rune

/-- The package of a name. -/
def package? (letters : List Char) : Option Package :=
  Package.all.find? fun p => p.name.toList == letters

/-- The package that a character shows to be referred to. -/
def reference? : Place → Char → Option Package
  | word letters false, '.' | behind letters false, '.' => package? letters
  | _, _ => none

/-- The packages that a text refers to, read from a place on. -/
def references : Place → List Char → List Package
  | _, [] => []
  | place, c :: cs => (reference? place c).toList ++ references (place.next c) cs

end Place

/-- The packages that a source text refers to. -/
def references (source : String) : List Package := Place.references .code source.toList

namespace Place

variable {a b : Place} {c : Char} {cs ds letters : List Char} {ps qs : List Package}
  {P Q R : Place → Prop}

theorem references_append (a : Place) (cs ds : List Char) :
    references a (cs ++ ds) = references a cs ++ references (cs.foldl next a) ds := by
  induction cs generalizing a with
  | nil => rfl
  | cons c cs ih => simp [references, ih]

theorem reference?_eq_none (hc : c ≠ '.') : reference? a c = none := by
  unfold reference?
  split
  · exact absurd rfl hc
  · exact absurd rfl hc
  · rfl

/-- Without a dot nothing is referred to. -/
theorem references_eq_nil (h : '.' ∉ cs) : references a cs = [] := by
  induction cs generalizing a with
  | nil => rfl
  | cons c cs ih =>
    have hc : c ≠ '.' := fun heq => h (heq ▸ List.mem_cons_self)
    have hcs : '.' ∉ cs := fun hmem => h (List.mem_cons_of_mem _ hmem)
    rw [references, reference?_eq_none hc, ih hcs]
    rfl

/-- Characters lead from places of a kind to places of a kind, and refer to some packages. -/
def Scans (P Q : Place → Prop) (cs : List Char) (ps : List Package) : Prop :=
  ∀ a, P a → Q (cs.foldl next a) ∧ (references a cs).Perm ps

theorem Scans.nil : Scans P P [] [] := fun _ ha => ⟨ha, .nil⟩

theorem Scans.append (h : Scans P Q cs ps) (h' : Scans Q R ds qs) :
    Scans P R (cs ++ ds) (ps ++ qs) := by
  intro a ha
  obtain ⟨hb, hps⟩ := h a ha
  obtain ⟨hc, hqs⟩ := h' _ hb
  rw [List.foldl_append, references_append]
  exact ⟨hc, hps.append hqs⟩

theorem Scans.perm (h : Scans P Q cs ps) (hps : ps.Perm qs) : Scans P Q cs qs :=
  fun a ha => ⟨(h a ha).1, (h a ha).2.trans hps⟩

/-- Places where a word may begin. -/
inductive Ready : Place → Prop where
  | code : Ready code
  | behind (letters : List Char) (selected : Bool) : Ready (behind letters selected)

/-- Places behind finished code, where a dot refers to nothing. -/
inductive Settled : Place → Prop where
  | code : Settled code
  | selected (letters : List Char) : Settled (word letters true)
  | plain {letters : List Char} (h : package? letters = none) : Settled (word letters false)

/-- Characters that stand for themselves. -/
def isMark (c : Char) : Bool := start c == code

theorem start_of_isMark (hc : isMark c = true) : start c = code := beq_iff_eq.1 hc

theorem isWordChar_of_isMark (hc : isMark c = true) : isWordChar c = false := by
  by_contra hword
  rw [Bool.not_eq_false] at hword
  have hcode := start_of_isMark hc
  have hword : start c = word [c] false := if_pos hword
  rw [hword] at hcode
  cases hcode

theorem ne_dot_of_isMark (hc : isMark c = true) : c ≠ '.' := by
  rintro rfl
  exact absurd hc (by decide)

/-- Places where a mark ends what stands before. -/
inductive Idle : Place → Prop where
  | ready {a : Place} (h : Ready a) : Idle a
  | word (letters : List Char) (selected : Bool) : Idle (word letters selected)

theorem Settled.idle (h : Settled a) : Idle a := by
  cases h with
  | code => exact .ready .code
  | selected letters => exact .word letters true
  | plain => exact .word _ false

/-- A mark ends a word; behind white space the word is still there. -/
theorem next_mark (ha : Idle a) (hc : isMark c = true) :
    Ready (a.next c) ∧ (isGap c = false → a.next c = code) := by
  have hstart := start_of_isMark hc
  have hword := isWordChar_of_isMark hc
  have inCode : Ready (start c) ∧ (isGap c = false → start c = code) :=
    ⟨by rw [hstart]; exact .code, fun _ => hstart⟩
  have behindWord (letters : List Char) (selected : Bool) :
      Ready (if isGap c then behind letters selected else start c) ∧
        (isGap c = false → (if isGap c then behind letters selected else start c) = code) := by
    by_cases hgap : isGap c = true
    · rw [if_pos hgap]
      exact ⟨.behind _ _, fun h => absurd hgap (by simp [h])⟩
    · rwa [if_neg hgap]
  rcases ha with (_ | ⟨letters, selected⟩) | ⟨letters, selected⟩
  · exact inCode
  · exact behindWord letters selected
  · simpa [next, hword] using behindWord letters selected

theorem isGap_of_isWordChar (hc : isWordChar c = true) : isGap c = false := by
  by_contra hgap
  simp only [isGap, Bool.not_eq_false, Bool.or_eq_true, beq_iff_eq] at hgap
  rcases hgap with (rfl | rfl) | rfl <;> exact absurd hc (by decide)

theorem ne_dot_of_isWordChar (hc : isWordChar c = true) : c ≠ '.' := by
  rintro rfl
  exact absurd hc (by decide)

theorem scans_mark (hc : isMark c = true) : Scans Idle Ready [c] [] := by
  intro a ha
  rw [references_eq_nil (by simpa using (ne_dot_of_isMark hc).symm)]
  exact ⟨(next_mark ha hc).1, .nil⟩

theorem scans_marks (h : ∀ c ∈ cs, isMark c = true) : Scans Ready Ready cs [] := by
  induction cs with
  | nil => exact .nil
  | cons c cs ih =>
    obtain ⟨hc, hcs⟩ := List.forall_mem_cons.1 h
    exact Scans.append (fun a ha => scans_mark hc a (.ready ha)) (ih hcs)

/-- Characters of words, and those that stand for themselves. -/
def isQuiet (c : Char) : Bool := isMark c || isWordChar c

theorem next_wordChar (ha : Idle a) (hc : isWordChar c = true) : Idle (a.next c) := by
  have hstart : start c = word [c] false := if_pos hc
  rcases ha with (_ | ⟨letters, selected⟩) | ⟨letters, selected⟩
  · rw [next, hstart]
    exact .word [c] false
  · have hnext : next (behind letters selected) c = start c := by
      simp [next, isGap_of_isWordChar hc]
    rw [hnext, hstart]
    exact .word [c] false
  · have hnext : next (word letters selected) c = word (letters ++ [c]) selected := if_pos hc
    rw [hnext]
    exact .word _ _

theorem scans_quiet (h : ∀ c ∈ cs, isQuiet c = true) : Scans Idle Idle cs [] := by
  induction cs with
  | nil => exact .nil
  | cons c cs ih =>
    obtain ⟨hc, hcs⟩ := List.forall_mem_cons.1 h
    have hstep : Scans Idle Idle [c] [] := by
      intro a ha
      rcases Bool.or_eq_true_iff.1 hc with hmark | hword
      · exact ⟨.ready (next_mark ha hmark).1, (scans_mark hmark a ha).2⟩
      · rw [references_eq_nil (by simpa using (ne_dot_of_isWordChar hword).symm)]
        exact ⟨next_wordChar ha hword, .nil⟩
    exact hstep.append (ih hcs)

/-- Words and marks, behind which a word may begin. -/
def leads (cs : List Char) : Bool := cs.all isQuiet && cs.getLast?.any isMark

/-- Words and marks, behind which code is finished. -/
def closes (cs : List Char) : Bool := leads cs && cs.getLast?.any (!isGap ·)

theorem leads_concat (h : leads (cs ++ [c]) = true) :
    (∀ d ∈ cs, isQuiet d = true) ∧ isMark c = true := by
  simp only [leads, List.all_append, List.all_cons, List.getLast?_concat, Option.any_some,
    Bool.and_eq_true, List.all_eq_true] at h
  exact ⟨h.1.1, h.2⟩

theorem scans_leads (h : leads cs = true) : Scans Idle Ready cs [] := by
  rcases List.eq_nil_or_concat' cs with rfl | ⟨init, c, rfl⟩
  · cases h
  · obtain ⟨hinit, hc⟩ := leads_concat h
    exact (scans_quiet hinit).append (scans_mark hc)

theorem scans_closes (h : closes cs = true) : Scans Idle (· = code) cs [] := by
  obtain ⟨hleads, hlast⟩ := Bool.and_eq_true_iff.1 h
  rcases List.eq_nil_or_concat' cs with rfl | ⟨init, c, rfl⟩
  · cases hlast
  · obtain ⟨hinit, hc⟩ := leads_concat hleads
    have hgap : isGap c = false := by simpa using hlast
    have hlast : Scans Idle (· = code) [c] [] := fun a ha =>
      ⟨(next_mark ha hc).2 hgap, (scans_mark hc a ha).2⟩
    exact (scans_quiet hinit).append hlast

/-- The characters of a word go on with it. -/
theorem scans_wordChars (selected : Bool) (h : ∀ c ∈ cs, isWordChar c = true) :
    Scans (· = word letters selected) (· = word (letters ++ cs) selected) cs [] := by
  induction cs generalizing letters with
  | nil => rw [List.append_nil]; exact .nil
  | cons c cs ih =>
    obtain ⟨hc, hcs⟩ := List.forall_mem_cons.1 h
    have hstep :
        Scans (· = word letters selected) (· = word (letters ++ [c]) selected) [c] [] := by
      rintro _ rfl
      refine ⟨if_pos hc, ?_⟩
      rw [references_eq_nil]
      rintro hdot
      rw [← List.mem_singleton.1 hdot] at hc
      exact absurd hc (by decide)
    have := hstep.append (ih hcs)
    rwa [List.append_assoc] at this

/-- Words: at least one character, and all of them letters, digits or the like. -/
def areWord (cs : List Char) : Bool := !cs.isEmpty && cs.all isWordChar

theorem areWord_iff : areWord cs = true ↔ cs ≠ [] ∧ ∀ c ∈ cs, isWordChar c = true := by
  simp [areWord]

/-- A character that may begin something begins it. -/
theorem scans_start (hgap : isGap c = false) (hdot : c ≠ '.') :
    Scans Ready (· = start c) [c] [] := by
  intro a ha
  rw [references_eq_nil (by simpa using hdot.symm)]
  cases ha with
  | code => exact ⟨rfl, .nil⟩
  | behind letters selected => exact ⟨if_neg (by simp [hgap]), .nil⟩

theorem scans_letter (hc : isWordChar c = true) : Scans Ready (· = word [c] false) [c] [] := by
  have hstart : start c = word [c] false := if_pos hc
  exact hstart ▸ scans_start (isGap_of_isWordChar hc) (ne_dot_of_isWordChar hc)

theorem scans_word (h : areWord cs = true) : Scans Ready (· = word cs false) cs [] := by
  cases cs with
  | nil => cases h
  | cons c cs =>
    obtain ⟨hc, hcs⟩ := List.forall_mem_cons.1 (areWord_iff.1 h).2
    exact (scans_letter hc).append (scans_wordChars false hcs)

/-- Behind a dot stands a word that refers to nothing. -/
theorem scans_selected (h : areWord cs = true) : Scans (· = dot) (· = word cs true) cs [] := by
  cases cs with
  | nil => cases h
  | cons c cs =>
    obtain ⟨hc, hcs⟩ := List.forall_mem_cons.1 (areWord_iff.1 h).2
    have hletter : Scans (· = dot) (· = word [c] true) [c] [] := by
      rintro _ rfl
      rw [references_eq_nil (by simpa using (ne_dot_of_isWordChar hc).symm)]
      exact ⟨if_pos hc, .nil⟩
    exact hletter.append (scans_wordChars true hcs)

/-- A dot behind finished code. -/
theorem scans_dot : Scans Settled (· = dot) ['.'] [] := by
  intro a ha
  cases ha with
  | code => exact ⟨rfl, .nil⟩
  | selected letters => exact ⟨rfl, .nil⟩
  | plain h => exact ⟨rfl, by simp [references, reference?, h]⟩

theorem package?_name (p : Package) : package? p.name.toList = some p := by
  cases p <;> decide

/-- A package and a name of it. -/
theorem scans_qualified (p : Package) (h : areWord cs = true) :
    Scans Ready Settled (p.name.toList ++ '.' :: cs) [p] := by
  have hname : areWord p.name.toList = true := by cases p <;> decide
  have hdot : Scans (· = word p.name.toList false) (· = dot) ['.'] [p] := by
    rintro _ rfl
    exact ⟨rfl, by simp [references, reference?, package?_name]⟩
  intro a ha
  obtain ⟨hplace, hrefs⟩ := ((scans_word hname).append hdot).append (scans_selected h) a ha
  rw [List.append_assoc] at hplace hrefs
  exact ⟨hplace ▸ .selected cs, hrefs⟩

theorem scans_textChar (hc : next text c = text) : Scans (· = text) (· = text) [c] [] := by
  rintro _ rfl
  exact ⟨hc, .nil⟩

theorem next_text_hexDigit {n : Nat} (hn : n < 16) : next text (Text.hexDigit n) = text := by
  have hall : ∀ d : Fin 16, next text (Text.hexDigit d) = text := by decide
  exact hall ⟨n, hn⟩

theorem scans_escape (c : Char) : Scans (· = text) (· = text) (Json.escape c) [] := by
  fun_cases Json.escape c
  case case8 hlow =>
    have hzeros : Scans (· = text) (· = text) ['\\', 'u', '0', '0'] [] := by
      rintro _ rfl
      exact ⟨rfl, .nil⟩
    have hhigh := next_text_hexDigit (n := c.toNat / 16) (by omega)
    have hdigit := next_text_hexDigit (n := c.toNat % 16) (by omega)
    exact (hzeros.append (scans_textChar hhigh)).append (scans_textChar hdigit)
  case case9 =>
    apply scans_textChar
    simp_all [next]
  all_goals
    rintro _ rfl
    exact ⟨rfl, .nil⟩

theorem scans_escapes (cs : List Char) :
    Scans (· = text) (· = text) (cs.flatMap Json.escape) [] := by
  induction cs with
  | nil => exact .nil
  | cons c cs ih =>
    rw [List.flatMap_cons]
    exact (scans_escape c).append ih

/-- What stands between quotes refers to nothing. -/
theorem scans_quote (cs : List Char) : Scans Ready (· = code) (Json.quoteChars cs) [] := by
  have hopen : Scans Ready (· = text) ['"'] [] := scans_start (by decide) (by decide)
  have hclose : Scans (· = text) (· = code) ['"'] [] := by
    rintro _ rfl
    exact ⟨rfl, .nil⟩
  exact (hopen.append (scans_escapes cs)).append hclose

/-- What stands between backquotes refers to nothing, unless it holds one. -/
theorem scans_raw (h : '\x60' ∉ cs) :
    Scans Ready (· = code) ('\x60' :: cs ++ ['\x60']) [] := by
  have hopen : Scans Ready (· = raw) ['\x60'] [] := scans_start (by decide) (by decide)
  have hclose : Scans (· = raw) (· = code) ['\x60'] [] := by
    rintro _ rfl
    exact ⟨rfl, .nil⟩
  have hinner : Scans (· = raw) (· = raw) cs [] := by
    clear hopen hclose
    induction cs with
    | nil => exact .nil
    | cons c cs ih =>
      have hc : c ≠ '\x60' := fun heq => h (heq ▸ List.mem_cons_self)
      have hstep : Scans (· = raw) (· = raw) [c] [] := by
        rintro _ rfl
        exact ⟨if_neg (by simpa using hc), .nil⟩
      exact hstep.append (ih fun hmem => h (List.mem_cons_of_mem _ hmem))
  exact (hopen.append hinner).append hclose

theorem scans_rune (hc : c ≠ '\x27') (hescape : c ≠ '\\') :
    Scans Ready (· = code) ['\x27', c, '\x27'] [] := by
  have hopen : Scans Ready (· = rune) ['\x27'] [] := scans_start (by decide) (by decide)
  have hinner : Scans (· = rune) (· = rune) [c] [] := by
    rintro _ rfl
    exact ⟨by simp [next, hc, hescape], .nil⟩
  have hclose : Scans (· = rune) (· = code) ['\x27'] [] := by
    rintro _ rfl
    exact ⟨rfl, .nil⟩
  exact (hopen.append hinner).append hclose

/-- What stands in a comment refers to nothing. -/
theorem scans_comment (h : '\n' ∉ cs) : Scans Ready Ready ('/' :: '/' :: cs ++ ['\n']) [] := by
  have hfirst : Scans Ready (· = slash) ['/'] [] := scans_start (by decide) (by decide)
  have hsecond : Scans (· = slash) (· = lineComment) ['/'] [] := by
    rintro _ rfl
    exact ⟨rfl, .nil⟩
  have hinner : Scans (· = lineComment) (· = lineComment) cs [] := by
    clear hfirst hsecond
    induction cs with
    | nil => exact .nil
    | cons c cs ih =>
      have hc : c ≠ '\n' := fun heq => h (heq ▸ List.mem_cons_self)
      have hstep : Scans (· = lineComment) (· = lineComment) [c] [] := by
        rintro _ rfl
        exact ⟨if_neg (by simpa using hc), .nil⟩
      exact hstep.append (ih fun hmem => h (List.mem_cons_of_mem _ hmem))
  have hend : Scans (· = lineComment) Ready ['\n'] [] := by
    rintro _ rfl
    exact ⟨.code, .nil⟩
  exact ((hfirst.append hsecond).append hinner).append hend

/-- A character of a number that goes on with a word. -/
def IsFigure (c : Char) : Prop := c.isDigit = true ∨ c = 'e'

/-- Places in a number, where it may end. -/
inductive InNumber : Place → Prop where
  | mk {letters : List Char} (selected : Bool) (h : ∀ c ∈ letters, IsFigure c) :
    InNumber (word letters selected)

theorem isWordChar_of_isFigure (hc : IsFigure c) : isWordChar c = true := by
  rcases hc with hc | rfl
  · simp [isWordChar, Char.isAlphanum, hc]
  · decide

theorem package?_figures (h : ∀ c ∈ letters, IsFigure c) : package? letters = none := by
  cases hp : package? letters with
  | none => rfl
  | some p =>
    have hname : p.name.toList = letters := by simpa using List.find?_some hp
    have hother : p.name.toList.any (fun c => !c.isDigit && c != 'e') = true := by
      cases p <;> decide
    obtain ⟨c, hc, hfigure⟩ := List.any_eq_true.1 hother
    have := h c (hname ▸ hc)
    simp_all [IsFigure]

theorem InNumber.settled (h : InNumber a) : Settled a := by
  obtain ⟨selected, h⟩ := h
  cases selected with
  | true => exact .selected _
  | false => exact .plain (package?_figures h)

theorem scans_figures (h : ∀ c ∈ cs, IsFigure c) : Scans InNumber InNumber cs [] := by
  rintro _ ⟨selected, hletters⟩
  obtain ⟨hplace, hrefs⟩ :=
    scans_wordChars selected (fun c hc => isWordChar_of_isFigure (h c hc)) _ rfl
  refine ⟨?_, hrefs⟩
  rw [hplace]
  exact .mk _ (List.forall_mem_append.2 ⟨hletters, h⟩)

variable {n : Nat}

theorem isFigure_digits (hc : c ∈ Decimal.digits n) : IsFigure c :=
  Or.inl (Decimal.isDigit_of_mem_digits hc)

/-- Digits where a number begins. -/
theorem scans_whole (hne : cs ≠ []) (h : ∀ c ∈ cs, IsFigure c) : Scans Ready InNumber cs [] := by
  have hword : areWord cs = true :=
    areWord_iff.2 ⟨hne, fun c hc => isWordChar_of_isFigure (h c hc)⟩
  intro a ha
  obtain ⟨hplace, hrefs⟩ := scans_word hword a ha
  exact ⟨hplace ▸ .mk _ h, hrefs⟩

/-- The point of a number and the digits behind it. -/
theorem scans_fraction (hne : cs ≠ []) (h : ∀ c ∈ cs, IsFigure c) :
    Scans InNumber InNumber ('.' :: cs) [] := by
  have hword : areWord cs = true :=
    areWord_iff.2 ⟨hne, fun c hc => isWordChar_of_isFigure (h c hc)⟩
  intro a ha
  obtain ⟨hplace, hrefs⟩ := scans_dot.append (scans_selected hword) a ha.settled
  refine ⟨?_, hrefs⟩
  rw [List.singleton_append] at hplace
  rw [hplace]
  exact .mk _ h

theorem scans_exponent {sign : Char} (hsign : isMark sign = true) (n : Nat) :
    Scans InNumber InNumber ('e' :: sign :: Decimal.digits n) [] := by
  have he : Scans InNumber InNumber ['e'] [] := scans_figures (by simp [IsFigure])
  have hmark : Scans InNumber Ready [sign] [] := fun a ha => scans_mark hsign a ha.settled.idle
  have hdigits := scans_whole (Decimal.digits_ne_nil n) fun _ => isFigure_digits
  exact (he.append hmark).append hdigits

theorem scans_zero : Scans Ready InNumber ['0'] [] := scans_whole (by simp) (by simp [IsFigure])

theorem scans_zeroFraction : Scans InNumber InNumber ['.', '0'] [] :=
  scans_fraction (by simp) (by simp [IsFigure])

theorem scans_decimal (d : Decimal) : Scans Ready InNumber d.text [] := by
  have hne := Decimal.digits_ne_nil d.coefficient
  have hdigits : ∀ c ∈ Decimal.digits d.coefficient, IsFigure c := fun _ => isFigure_digits
  have hzeros (n : Nat) : ∀ c ∈ List.replicate n '0', IsFigure c := by
    intro c hc
    rw [List.eq_of_mem_replicate hc]
    exact Or.inl rfl
  have hwhole := scans_whole hne hdigits
  unfold Decimal.text
  dsimp only
  split
  · exact (hwhole.append (scans_figures (hzeros _))).append scans_zeroFraction
  split
  · next hfirst hpoint =>
    generalize hds : Decimal.digits d.coefficient = ds at *
    generalize hk : ((ds.length : Int) + d.exponent).toNat = k
    have hwhole : Scans Ready InNumber (ds.take k) [] := scans_whole
      (List.ne_nil_of_length_pos (by rw [List.length_take]; omega))
      fun c hc => hdigits c (List.mem_of_mem_take hc)
    exact hwhole.append <| scans_fraction
      (List.ne_nil_of_length_pos (by rw [List.length_drop]; omega))
      fun c hc => hdigits c (List.mem_of_mem_drop hc)
  split
  · have hmore (n : Nat) : ∀ c ∈ List.replicate n '0' ++ Decimal.digits d.coefficient,
        IsFigure c := List.forall_mem_append.2 ⟨hzeros n, hdigits⟩
    exact scans_zero.append (scans_fraction (by simp [hne]) (hmore _))
  · have hsign : isMark (if ((Decimal.digits d.coefficient).length + d.exponent : Int) - 1 < 0
        then '-' else '+') = true := by split <;> decide
    cases hds : Decimal.digits d.coefficient with
    | nil => exact absurd hds hne
    | cons c rest =>
      rw [hds] at hwhole hdigits hsign
      cases rest with
      | nil => exact hwhole.append (scans_exponent hsign _)
      | cons c' rest =>
        obtain ⟨hc, hrest⟩ := List.forall_mem_cons.1 hdigits
        have hfirst : Scans Ready InNumber [c] [] :=
          scans_whole (by simp) (by simpa using hc)
        have hfraction := scans_fraction (by simp) hrest
        exact (hfirst.append hfraction).append (scans_exponent hsign _)

theorem scans_natural (n : Nat) : Scans Ready InNumber (Decimal.digits n) [] :=
  scans_whole (Decimal.digits_ne_nil n) fun _ => isFigure_digits

theorem scans_minus (h : Scans Ready InNumber cs []) : Scans Ready InNumber ('-' :: cs) [] :=
  Scans.append (fun a ha => scans_mark (by decide) a (.ready ha)) h

theorem scans_intText (i : Int) : Scans Ready InNumber (Decimal.intText i).toList [] := by
  rw [Decimal.toList_intText]
  split
  · exact scans_minus (scans_natural _)
  · exact scans_natural _

/-- Numbers refer to nothing. -/
theorem scans_number (x : Number) : Scans Ready InNumber x.text [] := by
  cases x with
  | integer i => exact scans_intText i
  | float x =>
    have hmagnitude : Scans Ready InNumber
        (if x.isZero then ['0', '.', '0'] else (Decimal.shortest x.units).text) [] := by
      split
      · exact scans_zero.append scans_zeroFraction
      · exact scans_decimal _
    simp only [Number.text, Binary64.text]
    split
    · exact scans_minus hmagnitude
    · exact hmagnitude

end Place

end SchemaForge.Go
