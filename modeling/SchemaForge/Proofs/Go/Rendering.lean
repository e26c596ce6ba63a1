import Mathlib
import SchemaForge.Proofs.Go.Phrases
/-!
Rendered statements and declarations refer to the packages of the code, line by line and however
deep they stand.
-/
namespace SchemaForge.Go

open Place

variable {P Q R : Place → Prop} {s t : String} {ps qs : List Package}

/-- What lines are indented with: white space, or other characters that stand for themselves. -/
def isIndent (s : String) : Bool := s.toList.all isMark

theorem spans_indent (h : isIndent s = true) : Spans Ready Ready s [] :=
  scans_marks (List.all_eq_true.1 h)

theorem isIndent_append (hs : isIndent s = true) (ht : isIndent t = true) :
    isIndent (s ++ t) = true := by
  simp_all [isIndent]

/-- Lines that refer to some packages, each on its own. -/
def Lines (ls : List String) (ps : List Package) : Prop :=
  Spans Ready Ready (Layout.ofLines ls) ps

variable {ls ls' : List String}

theorem ofLines_append : Layout.ofLines (ls ++ ls') = Layout.ofLines ls ++ Layout.ofLines ls' := by
  simp [Layout.ofLines, String.join_append]

theorem Lines.nil : Lines [] [] := Scans.nil

theorem Lines.append (h : Lines ls ps) (h' : Lines ls' qs) : Lines (ls ++ ls') (ps ++ qs) := by
  unfold Lines
  rw [ofLines_append]
  exact Spans.append h h'

theorem Lines.single (h : Spans Ready Ready (s ++ "\n") ps) : Lines [s] ps := by
  unfold Lines Layout.ofLines
  simpa using h

theorem lines_empty : Lines [""] [] := Lines.single (spans_lead (by decide))

/-- A line of code behind its indentation. -/
theorem lines_indented {indent : String} (hindent : isIndent indent = true) (h : Phrase s ps) :
    Lines [Layout.indented indent s] ps := by
  have hline : Spans Ready Settled (indent ++ s) ps := (spans_indent hindent).append h
  unfold Layout.indented
  dsimp only
  split
  · next hblank =>
    -- a blank line stays empty, and has no dot that could refer to anything
    have hdot : '.' ∉ (indent ++ s).toList := by
      intro hmem
      exact absurd (List.all_eq_true.1 hblank _ hmem) (by decide)
    have hperm := (hline .code .code).2
    rw [references_eq_nil hdot] at hperm
    rw [← hperm.nil_eq]
    exact lines_empty
  · exact Lines.single (hline.followed (spans_glue (by decide)))

/-- Parts of a layout that refer to some packages, however deep they stand. -/
structure Reads (parts : List Layout) (ps : List Package) : Prop where
  lines : ∀ {step indent : String}, isIndent step = true → isIndent indent = true →
    Lines (Layout.linesOf step indent parts) ps

variable {parts parts' : List Layout}

theorem linesOf_append (step indent : String) (parts parts' : List Layout) :
    Layout.linesOf step indent (parts ++ parts') =
      Layout.linesOf step indent parts ++ Layout.linesOf step indent parts' := by
  induction parts with
  | nil => rfl
  | cons part parts ih => simp [Layout.linesOf, ih]

namespace Reads

theorem nil : Reads [] [] := ⟨fun _ _ => Lines.nil⟩

theorem append (h : Reads parts ps) (h' : Reads parts' qs) :
    Reads (parts ++ parts') (ps ++ qs) where
  lines hstep hindent := by
    rw [linesOf_append]
    exact (h.lines hstep hindent).append (h'.lines hstep hindent)

theorem cons {part : Layout} (h : Reads [part] ps) (h' : Reads parts qs) :
    Reads (part :: parts) (ps ++ qs) :=
  append h h'

/-- The lines of one part. -/
theorem single {part : Layout} (h : ∀ {step indent : String}, isIndent step = true →
      isIndent indent = true → Lines (part.lines step indent) ps) : Reads [part] ps := by
  refine ⟨fun hstep hindent => ?_⟩
  rw [Layout.linesOf, Layout.linesOf, List.append_nil]
  exact h hstep hindent

theorem line (h : Phrase s ps) : Reads [.line s] ps :=
  single fun _ hindent => lines_indented hindent h

theorem blank : Reads [.blank] [] := single fun _ _ => lines_empty

theorem nest (h : Reads parts ps) : Reads [.nest parts] ps :=
  single fun hstep hindent => h.lines hstep (isIndent_append hindent hstep)

/-- A line, lines one level deeper, and a line that refers to nothing. -/
theorem lines_around {opening step indent : String} (closing : String)
    (hopening : Phrase opening qs) (h : Reads parts ps) (hclosing : Phrase closing [])
    (hstep : isIndent step = true) (hindent : isIndent indent = true) :
    Lines (Layout.indented indent opening :: Layout.linesOf step (indent ++ step) parts ++
      [Layout.indented indent closing]) (qs ++ ps) := by
  have hinner := h.lines hstep (isIndent_append hindent hstep)
  have := ((lines_indented hindent hopening).append hinner).append
    (lines_indented hindent hclosing)
  rwa [List.append_nil] at this

theorem block {keyword expression bracket closing : String}
    (hopening : Phrase (Layout.opening keyword expression bracket) qs) (h : Reads parts ps)
    (hclosing : Phrase closing []) :
    Reads [.block keyword expression bracket closing parts] (qs ++ ps) :=
  single fun hstep hindent => lines_around _ hopening h hclosing hstep hindent

/-- The line of a condition. -/
theorem phrase_cond (hs : Phrase s ps) : Phrase ("if " ++ s ++ " \x7b") ps :=
  ((spans_lead (s := "if ") (by decide)).append hs).followed (spans_close (by decide))

theorem cond (hs : Phrase s qs) (h : Reads parts ps) : Reads [.cond s parts] (qs ++ ps) :=
  single fun hstep hindent =>
    lines_around "\x7d" (phrase_cond hs) h (phrase_closes (by decide)) hstep hindent

theorem condElse (hs : Phrase s qs) (h : Reads parts ps) {ps' : List Package}
    (h' : Reads parts' ps') : Reads [.condElse s parts parts'] (qs ++ ps ++ ps') :=
  single fun hstep hindent => by
    have hfirst := lines_around "\x7d else \x7b" (phrase_cond hs) h
      (phrase_closes (by decide)) hstep hindent
    have hrest := (h'.lines hstep (isIndent_append hindent hstep)).append
      (lines_indented hindent (phrase_closes (s := "\x7d") (by decide)))
    have := hfirst.append hrest
    simpa [Layout.lines, List.append_assoc] using this

/-- A keyword that a space follows. -/
structure Keyword (keyword : String) : Prop where
  spans : Spans Ready Ready (keyword ++ " ") []
  begins : begins keyword = true
  ends : ends keyword = true

/-- The line that opens a block, with a keyword. -/
theorem phrase_opening {keyword expression : String} (bracket : String) (hkeyword : Keyword keyword)
    (h : Spans Ready Idle expression ps) (hbegins : begins expression = true)
    (hends : ends expression = true) (hbracket : closes bracket.toList = true) :
    Phrase (Layout.opening keyword expression bracket) ps := by
  have hne {x : String} (hx : Go.begins x = true) : x.isEmpty = false := by
    rw [Bool.eq_false_iff]
    intro hempty
    rw [String.isEmpty_iff.1 hempty] at hx
    exact absurd hx (by decide)
  unfold Layout.opening
  dsimp only
  rw [trim_eq hkeyword.begins hkeyword.ends, trim_eq hbegins hends, hne hkeyword.begins,
    hne hbegins]
  exact (hkeyword.spans.append h).followed (spans_closes (fun _ => id) hbracket)

theorem phrase_opening_bare {bracket : String} (h : closes bracket.toList = true) :
    Phrase (Layout.opening "" "" bracket) [] :=
  phrase_closes (s := bracket) h

end Reads

namespace Stmt

mutual

/-- Whether all names in a statement are words. -/
def Clean : Stmt → Prop
  | run e | ret e => e.Clean
  | define names e => (names ≠ [] ∧ ∀ x ∈ names, isName x = true) ∧ e.Clean
  | declare name type => isName name = true ∧ type.Clean
  | assign target e => target.Clean ∧ e.Clean
  | cond test body => test.Clean ∧ CleanAll body
  | condDefine names e test body =>
    (names ≠ [] ∧ ∀ x ∈ names, isName x = true) ∧ e.Clean ∧ test.Clean ∧ CleanAll body
  | condElse test body otherwise => test.Clean ∧ CleanAll body ∧ CleanAll otherwise
  | chain test body arms => test.Clean ∧ CleanAll body ∧ CleanArms arms
  | loop index slice body => isName index = true ∧ slice.Clean ∧ CleanAll body
  | block body => CleanAll body
  | typeSwitch source target cases otherwise =>
    source.Clean ∧ isName target = true ∧ CleanCases cases ∧ CleanAll otherwise

def CleanAll : List Stmt → Prop
  | [] => True
  | s :: ss => s.Clean ∧ CleanAll ss

def CleanArms : List (Expr × List Stmt) → Prop
  | [] => True
  | (test, body) :: arms => test.Clean ∧ CleanAll body ∧ CleanArms arms

def CleanCases : List (GoType × Expr) → Prop
  | [] => True
  | (type, e) :: cases => type.Clean ∧ e.Clean ∧ CleanCases cases

end

/-- Names with commas between, and what sets them off. -/
theorem spans_names {names : List String} (hne : names ≠ []) (h : ∀ x ∈ names, isName x = true)
    (ht : leads t.toList = true) : Spans Ready Ready (", ".intercalate names ++ t) [] := by
  induction names with
  | nil => exact absurd rfl hne
  | cons x names ih =>
    obtain ⟨hx, hnames⟩ := List.forall_mem_cons.1 h
    cases names with
    | nil => simpa using spans_name_leads hx ht
    | cons y names =>
      rw [String.intercalate_cons_cons, String.append_assoc]
      exact (spans_name_leads hx (by decide)).append (ih (by simp) hnames)

theorem spans_newNames {names : List String} (hne : names ≠ [])
    (h : ∀ x ∈ names, isName x = true) : Spans Ready Ready (newNames names ++ " ") [] := by
  rw [newNames, String.append_assoc]
  exact spans_names hne h (by decide)

theorem begins_newNames {names : List String} (hne : names ≠ [])
    (h : ∀ x ∈ names, isName x = true) : begins (newNames names) = true := by
  apply begins_append
  cases names with
  | nil => exact absurd rfl hne
  | cons x names =>
    have hx := begins_name (List.forall_mem_cons.1 h).1
    cases names with
    | nil => simpa using hx
    | cons y names =>
      rw [String.intercalate_cons_cons]
      exact begins_append (begins_append hx)

theorem keyword_newNames {names : List String} (h : names ≠ [] ∧ ∀ x ∈ names, isName x = true) :
    Reads.Keyword (newNames names) where
  spans := spans_newNames h.1 h.2
  begins := begins_newNames h.1 h.2
  ends := ends_append (t := " :=") (by decide)

theorem keyword_return : Reads.Keyword "return" :=
  ⟨spans_lead (s := "return ") (by decide), by decide, by decide⟩

/-- The fields of a new value, each on a line. -/
theorem reads_fields : ∀ {fields : List (String × Expr)}, Expr.CleanFields fields →
    Reads (fields.map fun f => .line (f.1 ++ ": " ++ f.2.render ++ ","))
      (Expr.packagesOfFields fields)
  | [], _ => Reads.nil
  | (_, _) :: _, ⟨hf, he, hrest⟩ =>
    (Reads.line (((spans_name_leads (t := ": ") hf (by decide)).append
      (Expr.phrase_render he)).followed (spans_close (t := ",") (by decide)))).cons
        (reads_fields hrest)

theorem reads_headed {keyword : String} {e : Expr} (hkeyword : Reads.Keyword keyword)
    (he : e.Clean) : Reads [headed keyword e] e.packages := by
  unfold headed
  split
  · next type fields =>
    obtain ⟨htype, hfields⟩ := he
    have hopening := Reads.phrase_opening "\x7b" hkeyword
      ((spans_lead (s := "&") (by decide)).append (spans_name_idle htype))
      (begins_append (by decide)) (ends_append (ends_name htype)) (by decide)
    exact Reads.block hopening (reads_fields hfields) (phrase_closes (by decide))
  · next f type fields =>
    obtain ⟨hf, ⟨htype, hfields⟩, -⟩ := he
    have hexpression := ((Expr.phrase_render hf).followed
      (spans_glue (t := "(&") (by decide))).followed (spans_name_idle htype)
    have hopening := Reads.phrase_opening "\x7b" hkeyword hexpression
      (begins_append (begins_append (Expr.begins_render hf))) (ends_append (ends_name htype))
      (by decide)
    have := Reads.block hopening (reads_fields hfields) (phrase_closes (s := "\x7d)") (by decide))
    simpa [Expr.packages, Expr.packagesOf] using this
  · exact Reads.line (hkeyword.spans.append (Expr.phrase_render he))

theorem spans_typeOf : Spans Settled Settled ".(type) \x7b" [] :=
  spans_assert.followed (phrase_closes (s := "type) \x7b") (by decide))

/-- The line of a loop over the items of a slice. -/
theorem spans_loop {index : String} {slice : Expr} (hindex : isName index = true)
    (hslice : slice.Clean) :
    Phrase (index ++ " := 0; " ++ index ++ " < len(" ++ slice.render ++ "); " ++ index ++ "++")
      slice.packages := by
  have hstart := spans_name_leads (t := " := 0; ") hindex (by decide)
  have hlimit := spans_name_leads (t := " < len(") hindex (by decide)
  have hnext := phrase_name_closes (t := "++") hindex (by decide)
  have := (((hstart.append hlimit).append (Expr.phrase_render hslice)).followed
    (spans_glue (t := "); ") (by decide))).followed hnext
  simpa only [Phrase, String.append_assoc, List.nil_append] using this

theorem keyword_for : Reads.Keyword "for" :=
  ⟨spans_lead (s := "for ") (by decide), by decide, by decide⟩

theorem reads_layoutCases {target : String} (htarget : isName target = true) :
    ∀ {cases : List (GoType × Expr)}, CleanCases cases →
      Reads (layoutCases target cases) (packagesOfCases cases)
  | [], _ => Reads.nil
  | (_, _) :: _, ⟨htype, he, hcases⟩ => by
    have hcase := ((spans_lead (s := "case ") (by decide)).append
      (GoType.phrase_text htype)).followed (spans_close (t := ":") (by decide))
    have hvalue := (spans_name_leads (t := " = ") htarget (by decide)).append
      (Expr.phrase_render he)
    have := (Reads.line hcase).cons
      ((Reads.nest (Reads.line hvalue)).cons (reads_layoutCases htarget hcases))
    simpa only [layoutCases, packagesOfCases, List.nil_append, List.append_assoc] using this

mutual

/-- A statement refers to its packages. -/
theorem reads_layout : ∀ {s : Stmt}, s.Clean → Reads s.layout s.packages
  | run _, h => Reads.line (Expr.phrase_render h)
  | define _ _, ⟨hnames, he⟩ => reads_headed (keyword_newNames hnames) he
  | declare _ _, ⟨hname, htype⟩ =>
    Reads.line ((((spans_lead (s := "var ") (by decide)).followed
      (spans_name_idle hname)).followed (spans_leads (t := " ") (fun _ => id) (by decide))).append
        (GoType.phrase_text htype))
  | assign _ _, ⟨htarget, he⟩ =>
    Reads.line (((Expr.phrase_render htarget).followed (spans_glue (t := " = ") (by decide))).append
      (Expr.phrase_render he))
  | ret _, h => reads_headed keyword_return h
  | cond _ body, ⟨htest, hbody⟩ => Reads.cond (Expr.phrase_render htest) (reads_layouts hbody)
  | condDefine _ _ _ body, ⟨hnames, he, htest, hbody⟩ =>
    Reads.cond ((((spans_newNames hnames.1 hnames.2).append (Expr.phrase_render he)).followed
      (spans_glue (t := "; ") (by decide))).append (Expr.phrase_render htest)) (reads_layouts hbody)
  | condElse _ _ _, ⟨htest, hbody, hotherwise⟩ =>
    Reads.condElse (Expr.phrase_render htest) (reads_layouts hbody) (reads_layouts hotherwise)
  | chain _ _ _, ⟨htest, hbody, harms⟩ => by
    have := (Reads.line (Reads.phrase_cond (Expr.phrase_render htest))).cons
      ((Reads.nest (reads_layouts hbody)).cons (reads_layoutArms harms))
    simpa only [layout, packages, List.append_assoc] using this
  | loop _ _ _, ⟨hindex, hslice, hbody⟩ =>
    have hopening := Reads.phrase_opening " \x7b" keyword_for
      (Spans.mono_right (spans_loop hindex hslice) fun _ => Settled.idle)
      (begins_append (begins_append (begins_append (begins_append (begins_append (begins_append
        (begins_append (begins_name hindex)))))))) (ends_append (by decide)) (by decide)
    Reads.block hopening (reads_layouts hbody) (phrase_closes (by decide))
  | block _, h =>
    Reads.block (Reads.phrase_opening_bare (by decide)) (reads_layouts h)
      (phrase_closes (by decide))
  | typeSwitch _ _ _ _, ⟨hsource, htarget, hcases, hotherwise⟩ => by
    have hswitch := ((spans_lead (s := "switch x := ") (by decide)).append
      (Expr.phrase_render hsource)).followed spans_typeOf
    have hdefault := (Reads.line (phrase_closes (s := "default:") (by decide))).cons
      ((Reads.nest (reads_layouts hotherwise)).cons
        (Reads.line (phrase_closes (s := "\x7d") (by decide))))
    have := ((Reads.line hswitch).cons (reads_layoutCases htarget hcases)).append hdefault
    simpa only [layout, packages, List.append_nil, List.nil_append] using this

theorem reads_layouts : ∀ {ss : List Stmt}, CleanAll ss → Reads (layouts ss) (packagesOf ss)
  | [], _ => Reads.nil
  | _ :: _, ⟨hs, hss⟩ => (reads_layout hs).append (reads_layouts hss)

theorem reads_layoutArms : ∀ {arms : List (Expr × List Stmt)}, CleanArms arms →
    Reads (layoutArms arms) (packagesOfArms arms)
  | [], _ => Reads.line (phrase_closes (by decide))
  | (_, _) :: _, ⟨htest, hbody, harms⟩ => by
    have harm := ((spans_lead (s := "\x7d else if ") (by decide)).append
      (Expr.phrase_render htest)).followed (spans_close (t := " \x7b") (by decide))
    have := (Reads.line harm).cons
      ((Reads.nest (reads_layouts hbody)).cons (reads_layoutArms harms))
    simpa only [layoutArms, packagesOfArms, List.nil_append, List.append_assoc] using this

end

end Stmt

/-- Whether all names in a signature are words. -/
structure Signature.Clean (s : Signature) : Prop where
  name : isName s.name = true
  params : ∀ p ∈ s.params, isName p.1 = true ∧ p.2.Clean
  result : ∀ t ∈ s.result, t.Clean

namespace Signature

theorem spans_params {params : List (String × GoType)}
    (h : ∀ p ∈ params, isName p.1 = true ∧ p.2.Clean) :
    Phrase (", ".intercalate (params.map fun p => p.1 ++ " " ++ p.2.text) ++ ")")
      (params.flatMap (·.2.packages)) := by
  induction params with
  | nil => exact phrase_closes (by decide)
  | cons p params ih =>
    obtain ⟨⟨hname, htype⟩, hparams⟩ := List.forall_mem_cons.1 h
    have hparam := (spans_name_leads (t := " ") hname (by decide)).append (GoType.phrase_text htype)
    cases params with
    | nil =>
      have := hparam.followed (spans_close (t := ")") (by decide))
      simpa only [Phrase, List.map_cons, List.map_nil, String.intercalate_singleton,
        List.flatMap_cons, List.flatMap_nil, List.append_nil, List.nil_append] using this
    | cons q params =>
      have := (hparam.followed (spans_glue (t := ", ") (by decide))).append (ih hparams)
      simpa only [Phrase, List.map_cons, String.intercalate_cons_cons, List.flatMap_cons,
        List.nil_append, String.append_assoc] using this

theorem phrase_render {s : Signature} (h : s.Clean) : Phrase s.render s.packages := by
  have hparams := (spans_name_leads (t := "(") h.name (by decide)).append (spans_params h.params)
  unfold render packages
  cases hresult : s.result with
  | none =>
    simpa only [Phrase, String.append_assoc, String.append_empty, Option.map_none, Option.getD_none,
      List.append_nil, List.nil_append] using hparams
  | some t =>
    have := (hparams.followed (spans_glue (t := " ") (by decide))).append
      (GoType.phrase_text (h.result t hresult))
    simpa only [Phrase, String.append_assoc, Option.map_some, Option.getD_some,
      List.nil_append] using this

theorem begins_render {s : Signature} (h : s.Clean) : begins s.render = true :=
  begins_append (begins_append (begins_append (begins_append (begins_name h.name))))

theorem ends_render {s : Signature} (h : s.Clean) : ends s.render = true := by
  unfold render
  cases hresult : s.result with
  | none =>
    dsimp only
    rw [String.append_empty]
    exact ends_append (by decide)
  | some t => exact ends_append (ends_append (GoType.ends_text (h.result t hresult)))

end Signature

/-- Whether the names of a field are words; its tag refers to nothing. -/
structure StructField.Clean (f : StructField) : Prop where
  name : isName f.name = true
  type : f.type.Clean
  tag : f.tag = "" ∨ Phrase f.tag []

namespace Decl

/-- Whether all names in a declaration are words. -/
def Clean : Decl → Prop
  | interfaceType name methods => isName name = true ∧ ∀ m ∈ methods, m.Clean
  | structType name fields => isName name = true ∧ ∀ f ∈ fields, f.Clean
  | function signature body => signature.Clean ∧ Stmt.CleanAll body
  | method receiver type signature body =>
    isName receiver = true ∧ isName type = true ∧ signature.Clean ∧ Stmt.CleanAll body

theorem keyword_type : Reads.Keyword "type" :=
  ⟨spans_lead (s := "type ") (by decide), by decide, by decide⟩

theorem keyword_func : Reads.Keyword "func" :=
  ⟨spans_lead (s := "func ") (by decide), by decide, by decide⟩

/-- The block of a type, whatever its kind. -/
theorem reads_typeBlock {name kind : String} {parts : List Layout} (hname : isName name = true)
    (hkind : Spans Idle Idle kind []) (hends : ends kind = true) (h : Reads parts ps) :
    Reads [.block "type" (name ++ kind) " \x7b" "\x7d" parts] ps :=
  Reads.block (Reads.phrase_opening " \x7b" keyword_type ((spans_name_idle hname).append hkind)
    (begins_append (begins_name hname)) (ends_append hends) (by decide)) h
    (phrase_closes (by decide))

theorem reads_signatures {methods : List Signature} (h : ∀ m ∈ methods, m.Clean) :
    Reads (methods.map fun m => .line m.render) (methods.flatMap Signature.packages) := by
  induction methods with
  | nil => exact Reads.nil
  | cons m methods ih =>
    obtain ⟨hm, hmethods⟩ := List.forall_mem_cons.1 h
    exact (Reads.line (Signature.phrase_render hm)).cons (ih hmethods)

theorem reads_fieldLine {f : StructField} (h : f.Clean) : Reads [fieldLine f] f.type.packages := by
  have hfield := (spans_name_leads (t := " ") h.name (by decide)).append (GoType.phrase_text h.type)
  unfold fieldLine
  apply Reads.line
  split
  · simpa only [Phrase, String.append_empty, List.nil_append] using hfield
  · next hempty =>
    have htag : Phrase f.tag [] := by
      rcases h.tag with htag | htag
      · exact absurd (String.isEmpty_iff.2 htag) hempty
      · exact htag
    have := hfield.followed ((spans_glue (t := " ") (by decide)).followed htag)
    simpa only [Phrase, List.nil_append] using this

theorem reads_fieldLines {fields : List StructField} (h : ∀ f ∈ fields, f.Clean) :
    Reads (fields.map fieldLine) (fields.flatMap (·.type.packages)) := by
  induction fields with
  | nil => exact Reads.nil
  | cons f fields ih =>
    obtain ⟨hf, hfields⟩ := List.forall_mem_cons.1 h
    exact (reads_fieldLine hf).cons (ih hfields)

theorem reads_functionLayout {signature : String} {body : List Stmt} (h : Phrase signature qs)
    (hbegins : begins signature = true) (hends : ends signature = true)
    (hbody : Stmt.CleanAll body) :
    Reads [functionLayout signature body] (qs ++ Stmt.packagesOf body) :=
  Reads.block (Reads.phrase_opening " \x7b" keyword_func (h.mono_right fun _ => Settled.idle)
    hbegins hends (by decide)) (Stmt.reads_layouts hbody) (phrase_closes (by decide))

/-- A declaration refers to its packages. -/
theorem reads_layout : ∀ {d : Decl}, d.Clean → Reads [d.layout] d.packages
  | interfaceType _ _, ⟨hname, hmethods⟩ =>
    reads_typeBlock hname (spans_quiet (by decide)) (by decide)
      (reads_signatures hmethods)
  | structType _ _, ⟨hname, hfields⟩ =>
    reads_typeBlock hname (spans_quiet (by decide)) (by decide)
      (reads_fieldLines hfields)
  | function _ _, ⟨hsignature, hbody⟩ =>
    reads_functionLayout (Signature.phrase_render hsignature) (Signature.begins_render hsignature)
      (Signature.ends_render hsignature) hbody
  | method receiver type signature body, ⟨hreceiver, htype, hsignature, hbody⟩ => by
    have hhead := (((spans_lead (s := "(") (by decide)).append
      (spans_name_leads (t := " *") hreceiver (by decide))).append
        (spans_name_leads (t := ") ") htype (by decide))).append
          (Signature.phrase_render hsignature)
    have hphrase : Phrase ("(" ++ receiver ++ " *" ++ type ++ ") " ++ signature.render)
        signature.packages := by
      simpa only [Phrase, String.append_assoc, List.nil_append] using hhead
    exact reads_functionLayout hphrase
      (begins_append (begins_append (begins_append (begins_append (begins_append (s := "(")
        (by decide)))))) (ends_append (Signature.ends_render hsignature)) hbody

theorem reads_layouts {decls : List Decl} (h : ∀ d ∈ decls, d.Clean) :
    Reads (layouts decls) (decls.flatMap packages) := by
  induction decls with
  | nil => exact Reads.nil
  | cons d decls ih =>
    obtain ⟨hd, hdecls⟩ := List.forall_mem_cons.1 h
    have hdecl := (reads_layout hd).append Reads.blank
    rw [List.append_nil] at hdecl
    exact hdecl.append (ih hdecls)

end Decl

end SchemaForge.Go
