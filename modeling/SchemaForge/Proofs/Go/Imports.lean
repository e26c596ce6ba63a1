import Mathlib
import SchemaForge.Proofs.Go.Uses
/-! Go files import the packages that their text refers to, and no others. -/
namespace SchemaForge.Go

open Place

variable {c : Class} {f : Field} {g : Graph} {id : NodeId} {p : Package} {s t : String}
  {ls : List String} {style : Style}

section text

theorem trimEnd_eq (h : ends s = true) : Text.trimEnd s = s := by
  rw [Text.trimEnd, Text.dropBlankEnd_eq (last_of_ends h), String.ofList_toList]

theorem trimEnd_lineEnd (s : String) : Text.trimEnd (s ++ "\n") = Text.trimEnd s := by
  have hblank : Text.dropBlankEnd (s.toList ++ ['\n']) = Text.dropBlankEnd s.toList := by
    simp [Text.dropBlankEnd, List.dropWhile_cons_of_pos, show Text.isBlank '\n' = true by decide]
  unfold Text.trimEnd
  rw [String.toList_append]
  exact congrArg String.ofList hblank

theorem ofLines_concat (ls : List String) (s : String) :
    Layout.ofLines (ls ++ [s]) = Layout.ofLines ls ++ s ++ "\n" := by
  rw [ofLines_append, String.append_assoc]
  simp [Layout.ofLines]

theorem trimEnd_ofLines (ls : List String) (h : ends s = true) :
    Text.trimEnd (Layout.ofLines (ls ++ [s])) = Layout.ofLines ls ++ s := by
  rw [ofLines_concat, trimEnd_lineEnd, trimEnd_eq (ends_append h)]

/-- A function ends with a closed block. -/
theorem linesOf_function (step signature : String) (body : List Stmt) :
    ∃ ls, Layout.linesOf step "" [Decl.functionLayout signature body, .blank] =
      ls ++ ["\x7d"] ++ [""] := by
  refine ⟨Layout.indented "" (Layout.opening "func" signature " \x7b") ::
    Layout.linesOf step ("" ++ step) (Stmt.layouts body), ?_⟩
  simp only [Layout.linesOf, Decl.functionLayout, Layout.lines, List.append_nil]
  rfl

/-- The code of a class ends with a closed block and an empty line. -/
theorem render_decls (step : String) (c : Class) :
    ∃ ls, Layout.render step (Decl.layouts c.decls) = ls ++ ["\x7d"] ++ [""] := by
  have hlast : c.decls.getLast? = some c.fromMapDecl := by
    simp [Class.decls, Class.factoryDecls]
  have htail : ∃ ls, Layout.linesOf step "" [c.fromMapDecl.layout, .blank] =
      ls ++ ["\x7d"] ++ [""] := linesOf_function step _ _
  obtain ⟨ls, hls⟩ := htail
  rw [← List.dropLast_append_getLast? c.fromMapDecl hlast]
  simp only [Decl.layouts, List.flatMap_append, List.flatMap_cons, List.flatMap_nil,
    Layout.render, linesOf_append, List.append_nil, hls]
  exact ⟨_, by rw [← List.append_assoc, ← List.append_assoc]⟩

/-- The package clause. -/
def clause (settings : CodeSettings) : String :=
  if settings.packageName.isEmpty then "package" else "package " ++ settings.packageName

/-- The lines before the package clause. -/
def preamble (style : Style) (g : Graph) (id : NodeId) : List String :=
  let provenance := CodeUnit.provenance style g id
  provenance ++ if provenance.isEmpty then [] else [""]

/-- The imports of a file. -/
def importLines (indent : String) (imports : List Package) : List String :=
  imports.map fun p => indent ++ Json.quote p.path

/-- The lines before the code. -/
def headLines (style : Style) (g : Graph) (id : NodeId) (imports : List Package) : List String :=
  preamble style g id ++ [clause style.settings, "", "import ("] ++
    importLines style.settings.indent imports ++ [")", ""]

/-- The lines of a file, with the imports between the package clause and the code. -/
theorem contents_eq (style : Style) (g : Graph) (id : NodeId) (c : Class) :
    ∃ ls, Layout.render style.settings.indent (Decl.layouts c.decls) = ls ++ [""] ∧
      contents style g id c =
        Layout.ofLines (headLines style g id (Decl.imports c.decls) ++ ls) := by
  obtain ⟨ls, hls⟩ := render_decls style.settings.indent c
  refine ⟨_, hls, ?_⟩
  have hbody : Text.trimEnd (Layout.ofLines (ls ++ ["\x7d"] ++ [""])) ++ "\n" =
      Layout.ofLines (ls ++ ["\x7d"]) := by
    rw [ofLines_concat, String.append_empty, trimEnd_lineEnd, trimEnd_ofLines ls (by decide),
      ofLines_concat]
  have hheader (before : List String) : Text.trimEnd (Layout.ofLines (before ++ [")"])) ++ "\n" =
      Layout.ofLines (before ++ [")"]) := by
    rw [trimEnd_ofLines before (by decide), ofLines_concat]
  have hne (before : List String) :
      (Text.trimEnd (Layout.ofLines (before ++ [")"]))).isEmpty = false := by
    rw [trimEnd_ofLines before (by decide), Bool.eq_false_iff, Ne, String.isEmpty_iff]
    intro h
    exact absurd (String.append_eq_empty_iff.1 h).2 (by decide)
  have hlines : CodeUnit.provenance style g id ++
      (if (CodeUnit.provenance style g id).isEmpty then [] else [""]) ++
        header style.settings (Decl.imports c.decls) = preamble style g id ++
          [clause style.settings, "", "import ("] ++
            importLines style.settings.indent (Decl.imports c.decls) ++ [")"] := by
    simp [preamble, header, clause, importLines]
  unfold contents CodeUnit.joinParts
  dsimp only
  rw [hlines, hls, hne, if_neg Bool.false_ne_true, String.append_assoc, hbody,
    show "\n\n" = "\n" ++ "\n" from rfl, ← String.append_assoc, hheader]
  simp only [headLines, Layout.ofLines, List.map_append, List.map_cons, List.map_nil,
    String.join_append, String.join_cons, String.join_nil, String.append_assoc,
    String.empty_append, String.append_empty]

end text

/-- The import block of a file: a line for each package. -/
def importBlock (indent : String) (imports : List Package) : String :=
  "\n\nimport (\n" ++ Layout.ofLines (importLines indent imports) ++ ")\n\n"

/-- The import block stands right behind the package clause. -/
theorem contents_importBlock (style : Style) (g : Graph) (id : NodeId) (c : Class) :
    ∃ after, contents style g id c = Layout.ofLines (preamble style g id) ++
      clause style.settings ++ importBlock style.settings.indent (Decl.imports c.decls) ++
        after := by
  obtain ⟨ls, -, hcontents⟩ := contents_eq style g id c
  refine ⟨Layout.ofLines ls, ?_⟩
  have hopening : Layout.ofLines [clause style.settings, "", "import ("] =
      clause style.settings ++ "\n\nimport (\n" := by
    simp only [Layout.ofLines, List.map_cons, List.map_nil, String.join_cons, String.join_nil,
      String.append_assoc]
    rfl
  have hclosing : Layout.ofLines [")", ""] = ")\n\n" := rfl
  rw [hcontents]
  simp only [headLines, ofLines_append, hopening, hclosing, importBlock, String.append_assoc]

/-- Settings that leave the code of a file as it is: white space to indent with, a package clause
without dots, quotes and comments, and a comment at the head that ends with its lines. -/
structure Style.Tame (style : Style) (g : Graph) (id : NodeId) : Prop where
  indent : isIndent style.settings.indent = true
  packageName : style.settings.packageName.toList.all isQuiet = true
  provenance : ∀ l ∈ CodeUnit.provenance style g id, '\n' ∉ l.toList

theorem lines_forall (h : ∀ l ∈ ls, Lines [l] []) : Lines ls [] := by
  induction ls with
  | nil => exact Lines.nil
  | cons l ls ih =>
    obtain ⟨hl, hls⟩ := List.forall_mem_cons.1 h
    have := Lines.append hl (ih hls)
    rwa [List.append_nil] at this

theorem lines_comment {cs : List Char} (hs : s.toList = '/' :: '/' :: cs) (h : '\n' ∉ s.toList) :
    Lines [s] [] := by
  apply Lines.single
  unfold Spans
  rw [String.toList_append, hs]
  exact scans_comment fun hmem => h (by simp [hs, hmem])

theorem lines_preamble (h : Style.Tame style g id) : Lines (preamble style g id) [] := by
  have hprovenance : Lines (CodeUnit.provenance style g id) [] := by
    refine lines_forall fun l hl => ?_
    have hend := h.provenance l hl
    unfold CodeUnit.provenance at hl
    split at hl
    · simp only [provenanceLines, List.mem_cons, List.not_mem_nil, or_false] at hl
      rcases hl with rfl | rfl | rfl | rfl
      · exact lines_comment (by rw [String.toList_append]; rfl) hend
      · exact lines_comment (by rw [String.toList_append]; rfl) hend
      · exact lines_comment (by rw [String.toList_append]; rfl) hend
      · exact lines_comment rfl hend
    · cases hl
  have hgap : Lines (if (CodeUnit.provenance style g id).isEmpty then [] else [""]) [] := by
    split
    · exact Lines.nil
    · exact lines_empty
  exact hprovenance.append hgap

theorem lines_quiet (h : s.toList.all isQuiet = true) : Lines [s] [] := by
  apply Lines.single
  have hstart : Spans Ready Idle s [] := fun a ha => spans_quiet h a (.ready ha)
  exact hstart.append (spans_leads (fun _ => id) (by decide))

theorem lines_clause (h : Style.Tame style g id) : Lines [clause style.settings] [] := by
  apply lines_quiet
  unfold clause
  split
  · decide
  · rw [String.toList_append, List.all_append, Bool.and_eq_true]
    exact ⟨by decide, h.packageName⟩

theorem lines_importLines {indent : String} (h : isIndent indent = true) (imports : List Package) :
    Lines (importLines indent imports) [] := by
  refine lines_forall fun l hl => ?_
  obtain ⟨p, -, rfl⟩ := List.mem_map.1 hl
  exact Lines.single (((spans_indent h).append (phrase_quote p.path)).followed
    (spans_glue (by decide)))

theorem lines_headLines (h : Style.Tame style g id) (imports : List Package) :
    Lines (headLines style g id imports) [] := by
  have hclause := (lines_clause h).append ((lines_quiet (s := "") (by decide)).append
    (lines_quiet (s := "import (") (by decide)))
  have hblock := (lines_importLines h.indent imports).append
    ((lines_quiet (s := ")") (by decide)).append lines_empty)
  have := (lines_preamble h).append (hclause.append hblock)
  simpa only [headLines, List.append_assoc, List.cons_append, List.nil_append] using this

/-- The line end that closes the code is no reference. -/
theorem references_contents (style : Style) (g : Graph) (id : NodeId) (c : Class) :
    references (contents style g id c) = references (Layout.ofLines
      (headLines style g id (Decl.imports c.decls) ++
        Layout.render style.settings.indent (Decl.layouts c.decls))) := by
  obtain ⟨ls, hls, hcontents⟩ := contents_eq style g id c
  rw [hls, ← List.append_assoc, ofLines_concat, String.append_empty, ← hcontents]
  unfold references
  rw [String.toList_append, Place.references_append,
    references_eq_nil (by decide : '.' ∉ "\n".toList), List.append_nil]

/-- What comes next takes no reference away. -/
theorem mem_references_of_lines {ps qs : List Package} (h : Lines ls ps)
    (hs : Spans Ready Settled s qs) (hp : p ∈ qs) (rest : List String) :
    p ∈ references (Layout.ofLines (ls ++ (s ++ t) :: rest)) := by
  have hline : Layout.ofLines (ls ++ (s ++ t) :: rest) =
      Layout.ofLines ls ++ s ++ (t ++ "\n" ++ Layout.ofLines rest) := by
    rw [ofLines_append]
    simp [Layout.ofLines, String.append_assoc]
  have hrefs := ((Spans.append h hs) .code .code).2
  rw [hline, references, String.toList_append, Place.references_append]
  exact List.mem_append_left _ (hrefs.mem_iff.2 (List.mem_append_right _ hp))

/-- What a file refers to is what its code refers to. -/
theorem mem_references (h : Style.Tame style g id) (hc : c.Readable) :
    p ∈ references (contents style g id c) ↔ c.Uses p := by
  have hcode : Lines (Layout.render style.settings.indent (Decl.layouts c.decls))
      (c.decls.flatMap Decl.packages) :=
    (Decl.reads_layouts (clean_decls hc)).lines h.indent (by decide)
  have hlines := (lines_headLines h (Decl.imports c.decls)).append hcode
  rw [references_contents, references, (hlines .code .code).2.mem_iff, List.nil_append,
    mem_packages_decls]

section acceptance

variable {head : ObjectHead} {members : List Member}

/-- What lists hold in the end, if it is a literal. -/
def leafOf? (g : Graph) (node : NodeId) : Option Leaf :=
  match (g.arrayChain? node).bind (g.property? ·.leaf) with
  | some ⟨_, .leaf l⟩ => some l
  | _ => none

theorem leaf_ofLeaf (l : Leaf) : (ValueType.ofLeaf l).leaf = ValueType.ofLeaf l := by
  cases l <;> rfl

theorem leaf_eq_iff {title member : String} {node : NodeId} {type t : ValueType}
    (h : memberType? g title member node = .ok type) (ht : ∀ x, t ≠ .object x) :
    type.leaf = t ↔ (leafOf? g node).map ValueType.ofLeaf = some t := by
  unfold memberType? at h
  unfold leafOf?
  cases hchain : g.arrayChain? node with
  | none => simp [hchain] at h
  | some chain =>
    simp only [hchain] at h
    rw [Option.bind_some]
    split at h
    · next l hleaf =>
      cases h
      rw [hleaf]
      simp [ValueType.leaf_nested, leaf_ofLeaf]
    · next obj first rest hobject =>
      rw [hobject]
      split at h
      · cases h
      · cases h
        have := ht obj.titleText
        simpa [ValueType.leaf_nested, ValueType.leaf] using fun heq => this heq.symm
    · cases h

theorem exists_leaf_iff {t : ValueType} {fields : List Field}
    (hfields : List.Forall₂ (fun m f => field? g c.title m = .ok f) members fields)
    (ht : ∀ x, t ≠ .object x) : (∃ f ∈ fields, f.type.leaf = t) ↔
      ∃ m ∈ members, (leafOf? g m.node).map ValueType.ofLeaf = some t := by
  constructor
  · rintro ⟨f, hf, hleaf⟩
    obtain ⟨m, hm, hfield⟩ := Generation.forall₂_left hfields.flip hf
    exact ⟨m, hm, (leaf_eq_iff (field?_ok hfield).2.2.1 ht).1 hleaf⟩
  · rintro ⟨m, hm, hleaf⟩
    obtain ⟨f, hf, hfield⟩ := Generation.forall₂_left hfields hm
    exact ⟨f, hf, (leaf_eq_iff (field?_ok hfield).2.2.1 ht).2 hleaf⟩

theorem readable_of_ofNode? (h : Class.ofNode? g id = .ok c)
    (hobject : g.object? id = some (head, members))
    (htags : ∀ m ∈ members, '\x60' ∉ m.name.toList) : c.Readable := by
  obtain ⟨_, _, hobject', -, hfault, hfields⟩ := ofNode?_ok h
  rw [hobject] at hobject'
  cases hobject'
  have hmember {f : Field} (hf : f ∈ c.fields) : ∃ m ∈ members, f.name = m.name := by
    obtain ⟨m, hm, hfield⟩ := Generation.forall₂_left (Generation.forall₂_of_mapM hfields).flip hf
    exact ⟨m, hm, (field?_ok hfield).1⟩
  constructor
  · intro f hf
    obtain ⟨m, hm, hname⟩ := hmember hf
    have := (MemberNames.nodup_of_faultAmong?_none hfault).2 m.name (List.mem_map_of_mem hm)
    rw [Field.publicName, hname]
    exact this.1
  · exact fun f hf d hd => clean_literal (ofJson_of_default h hf hd)
  · intro f hf
    obtain ⟨m, hm, hname⟩ := hmember hf
    rw [hname]
    exact htags m hm

/-- A class has a file. -/
theorem exists_unit (style : Style) (h : Class.ofNode? g id = .ok c) :
    ∃ u, unit? style g id = .ok u ∧ u.contents = contents style g id c := by
  have hunit : unit? style g id = .ok ⟨fileName g id, contents style g id c,
      (g.children id).filterMap g.memberObject?, g.source id⟩ := by
    rw [unit?, h]
    rfl
  exact ⟨_, hunit, by dsimp only⟩

/-- A file imports the packages that it refers to. They stand in its import block in the order of
their paths, each once: the writer of hashes and the optional values always, attributes and errors
for a class with members, the comparison of texts and the format of numbers for members that
hold such in the end. -/
theorem imports_exact {u : CodeUnit} (hobject : g.object? id = some (head, members))
    (h : unit? style g id = .ok u) :
    ∃ imports : List Package,
      (∃ after, u.contents = Layout.ofLines (preamble style g id) ++ clause style.settings ++
        importBlock style.settings.indent imports ++ after) ∧
      (imports.map Package.path).Pairwise (· < ·) ∧
      (Package.io ∈ imports ∧ Package.options ∈ imports) ∧
      (Package.attributes ∈ imports ↔ members ≠ []) ∧
      (Package.fmt ∈ imports ↔ members ≠ []) ∧
      (Package.strings ∈ imports ↔
        ∃ m ∈ members, (leafOf? g m.node).map ValueType.ofLeaf = some .string) ∧
      (Package.strconv ∈ imports ↔
        ∃ m ∈ members, (leafOf? g m.node).map ValueType.ofLeaf = some .number) ∧
      (Style.Tame style g id → (∀ m ∈ members, '\x60' ∉ m.name.toList) →
        ∀ p, p ∈ references u.contents ↔ p ∈ imports) := by
  obtain ⟨c, hc, hu⟩ := Generation.bind_ok h
  have hcontents : u.contents = contents style g id c := by rw [← Except.ok.inj hu]
  rw [hcontents]
  obtain ⟨_, _, hobject', -, hfields⟩ := forall₂_fields hc
  rw [hobject] at hobject'
  cases hobject'
  have hmembers : c.fields ≠ [] ↔ members ≠ [] := by
    rw [← List.length_pos_iff, ← List.length_pos_iff, hfields.length_eq]
  refine ⟨Decl.imports c.decls, contents_importBlock style g id c, imports_sorted c.decls,
    ⟨mem_imports.2 trivial, mem_imports.2 trivial⟩, mem_imports.trans hmembers,
    mem_imports.trans hmembers, mem_imports.trans (exists_leaf_iff hfields (by simp)),
    mem_imports.trans (exists_leaf_iff hfields (by simp)), ?_⟩
  intro htame htags p
  rw [mem_imports, mem_references htame (readable_of_ofNode? hc hobject htags)]

end acceptance

section examples

/-- A point, whose member is an integer, needs no comparison of texts and no format of numbers. -/
theorem imports_exact_point : ∃ u, unit? ⟨.standard, ""⟩ curveGraph 1 = .ok u ∧
    ∀ p, p ∈ references u.contents ↔ p ∈ [.fmt, .io, .options, .attributes] := by
  obtain ⟨u, hu, -⟩ := exists_unit ⟨.standard, ""⟩ ofNode?_point
  have htame : Style.Tame ⟨.standard, ""⟩ curveGraph 1 :=
    ⟨by decide, by decide, by simp [CodeUnit.provenance, CodeSettings.standard]⟩
  obtain ⟨imports, -, -, ⟨hio, hoptions⟩, hattributes, hfmt, hstrings, hstrconv, hexact⟩ :=
    imports_exact (g := curveGraph) rfl hu
  refine ⟨u, hu, fun p => (hexact htame (by decide) p).trans ?_⟩
  cases p with
  | io => simpa using hio
  | options => simpa using hoptions
  | attributes => simpa using hattributes.2 (by decide)
  | fmt => simpa using hfmt.2 (by decide)
  | strings => simpa using mt hstrings.1 (by decide)
  | strconv => simpa using mt hstrconv.1 (by decide)

/-- A truth value whose name ends the tag that it stands in. -/
def quotedGraph : Graph where
  nodes := #[
    ⟨⟨⟨none, none⟩, .leaf (.boolean none)⟩, some 1, none, false⟩,
    ⟨⟨⟨none, none⟩, .object ⟨none, none, some "Quoted", true, none⟩
      [⟨"a\x60;B strings.Reader\x60", 0, false, 0, none⟩]⟩, none, none, false⟩]

def quotedClass : Class := ⟨"Quoted", [⟨"a\x60;B strings.Reader\x60", .boolean, false, none⟩]⟩

theorem publicName_quoted : Naming.goPublic "a\x60;B strings.Reader\x60" = "ABStringsReader" := by
  decide

theorem ofNode?_quoted : Class.ofNode? quotedGraph 1 = .ok quotedClass := by
  have hfault :
      MemberNames.fault? "Quoted" Naming.goPublic ["a\x60;B strings.Reader\x60"] = none := by
    simp [MemberNames.fault?, MemberNames.faultAmong?, publicName_quoted, List.lookup]
  have hobject : quotedGraph.object? 1 = some (⟨none, none, some "Quoted", true, none⟩,
      [⟨"a\x60;B strings.Reader\x60", 0, false, 0, none⟩]) := rfl
  exact ofNode?_of_parts hobject rfl hfault rfl

/-- The field that is read and written as JSON. -/
theorem layout_quoted : quotedClass.jsonDecl.layout =
    Layout.block "type" "QuotedJson struct" " \x7b" "\x7d"
      [.line "ABStringsReader bool \x60json:\"a\x60;B strings.Reader\x60\"\x60"] := by
  have htag : (⟨"a\x60;B strings.Reader\x60", .boolean, false, none⟩ : Field).tag =
      "\x60json:\"a\x60;B strings.Reader\x60\"\x60" := by decide
  have htype : typeName "Quoted" "Json" = "QuotedJson" := by decide
  simp [Class.jsonDecl, quotedClass, htype, htag, Decl.layout, Decl.fieldLine, Field.publicName,
    publicName_quoted, ValueType.jsonType, ValueType.goType, GoType.text]

/-- The name ends the tag, and what comes behind it is code. -/
theorem spans_quotedTag :
    Spans Ready Settled
      ("  ABStringsReader bool " ++ "\x60json:\"a\x60" ++ ";B " ++ "strings.Reader")
      [.strings] := by
  have hraw : Phrase "\x60json:\"a\x60" [] := fun a ha => by
    have hscans : Scans Ready (· = code) ('\x60' :: "json:\"a".toList ++ ['\x60']) [] :=
      scans_raw (by decide)
    obtain ⟨hplace, hrefs⟩ := hscans a ha
    exact ⟨hplace ▸ .code, hrefs⟩
  have hfield := (spans_lead (s := "  ABStringsReader bool ") (by decide)).append hraw
  have hreader : Phrase "strings.Reader" [.strings] :=
    phrase_qualified (x := "Reader") .strings (by decide)
  exact (hfield.followed (spans_glue (t := ";B ") (by decide))).append hreader

theorem mem_references_quoted :
    Package.strings ∈ references (contents ⟨.standard, ""⟩ quotedGraph 1 quotedClass) := by
  have hpublic : ∀ f ∈ quotedClass.fields, isName f.publicName = true := by
    simp only [quotedClass, List.forall_mem_singleton, Field.publicName, publicName_quoted]
    decide
  obtain ⟨rest, hdecls⟩ : ∃ rest, Decl.layouts quotedClass.decls =
      Decl.layouts [quotedClass.interfaceDecl, quotedClass.paramDecl] ++
        quotedClass.jsonDecl.layout :: rest := ⟨_, rfl⟩
  have hbefore : Reads (Decl.layouts [quotedClass.interfaceDecl, quotedClass.paramDecl]) _ :=
    Decl.reads_layouts (by simp [clean_interfaceDecl hpublic, clean_paramDecl hpublic])
  have hopening : Phrase (Layout.opening "type" "QuotedJson struct" " \x7b") [] :=
    Reads.phrase_opening _ Decl.keyword_type (fun a ha => spans_quiet (by decide) a (.ready ha))
      (by decide) (by decide) (by decide)
  have htame : Style.Tame ⟨.standard, ""⟩ quotedGraph 1 :=
    ⟨by decide, by decide, by simp [CodeUnit.provenance, CodeSettings.standard]⟩
  have hlines := ((lines_headLines htame (Decl.imports quotedClass.decls)).append
    (hbefore.lines htame.indent (by decide : isIndent "" = true))).append
      (lines_indented (by decide : isIndent "" = true) hopening)
  have hfield : Layout.indented "  "
      "ABStringsReader bool \x60json:\"a\x60;B strings.Reader\x60\"\x60" =
      "  ABStringsReader bool " ++ "\x60json:\"a\x60" ++ ";B " ++ "strings.Reader" ++
        "\x60\"\x60" := by decide
  have hrender : Layout.render "  " (Decl.layouts [quotedClass.interfaceDecl,
      quotedClass.paramDecl] ++ Layout.block "type" "QuotedJson struct" " \x7b" "\x7d"
        [.line "ABStringsReader bool \x60json:\"a\x60;B strings.Reader\x60\"\x60"] :: rest) =
      Layout.linesOf "  " "" (Decl.layouts [quotedClass.interfaceDecl, quotedClass.paramDecl]) ++
        Layout.indented "" (Layout.opening "type" "QuotedJson struct" " \x7b") ::
          ("  ABStringsReader bool " ++ "\x60json:\"a\x60" ++ ";B " ++ "strings.Reader" ++
            "\x60\"\x60") ::
            Layout.indented "" "\x7d" :: Layout.linesOf "  " "" rest := by
    rw [← hfield, Layout.render, linesOf_append]
    rfl
  have hmem := mem_references_of_lines hlines spans_quotedTag (List.mem_singleton_self _)
    (t := "\x60\"\x60") (Layout.indented "" "\x7d" :: Layout.linesOf "  " "" rest)
  rw [references_contents, hdecls, layout_quoted]
  unfold CodeSettings.standard at *
  dsimp only at *
  rw [hrender]
  simpa only [List.append_assoc, List.cons_append, List.nil_append] using hmem

/-- A backquote in the name of a member ends the tag of its field: the file of that class refers to
a package that it does not import. -/
theorem imports_miss_quoted : ∃ u imports after,
    unit? ⟨.standard, ""⟩ quotedGraph 1 = .ok u ∧
      u.contents = "package please_set_this" ++ importBlock "  " imports ++ after ∧
      Package.strings ∈ references u.contents ∧ Package.strings ∉ imports := by
  obtain ⟨u, hu, hcontents⟩ := exists_unit ⟨.standard, ""⟩ ofNode?_quoted
  obtain ⟨after, hblock⟩ := contents_importBlock ⟨.standard, ""⟩ quotedGraph 1 quotedClass
  have hclause : Layout.ofLines (preamble ⟨.standard, ""⟩ quotedGraph 1) ++
      clause CodeSettings.standard = "package please_set_this" := by
    decide
  refine ⟨u, Decl.imports quotedClass.decls, after, hu, ?_, hcontents ▸ mem_references_quoted, ?_⟩
  · rw [hcontents, hblock, hclause]
    rfl
  · intro hmem
    obtain ⟨f, hf, hleaf⟩ := mem_imports.1 hmem
    rw [List.mem_singleton.1 hf] at hleaf
    cases hleaf

end examples

end SchemaForge.Go
