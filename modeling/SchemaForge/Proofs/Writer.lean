import SchemaForge.Layout
/-!
Layouts as writers put them down, line by line, into lines that they share. Main statement: each
writer puts the lines of a layout behind those there are, and a level of nesting puts a step of
indentation in front of them and does no more.
-/
namespace SchemaForge

/-- Where a line is written: by which step lines are indented, and how far they are. The lines
themselves belong to no writer. -/
structure Writer where
  step : String
  indent : String

namespace Writer

/-- A writer one level deeper. -/
def deeper (w : Writer) : Writer := { w with indent := w.indent ++ w.step }

/-- A writer so many levels from the left margin. -/
def atDepth (step : String) : Nat → Writer
  | 0 => ⟨step, ""⟩
  | depth + 1 => (atDepth step depth).deeper

def writeLine (w : Writer) (text : String) : StateM (List String) Unit :=
  modify (· ++ [Layout.indented w.indent text])

mutual

/-- Writes a layout; what stands in a block is written one level deeper. -/
def write (w : Writer) : Layout → StateM (List String) Unit
  | .line text => w.writeLine text
  | .blank => modify (· ++ [""])
  | .nest parts => w.deeper.writeAll parts
  | .block keyword expression bracket closing parts => do
    w.writeLine (Layout.opening keyword expression bracket)
    w.deeper.writeAll parts
    w.writeLine closing
  | .cond expression parts => do
    w.writeLine ("if " ++ expression ++ " \x7b")
    w.deeper.writeAll parts
    w.writeLine "\x7d"
  | .condElse expression parts otherwise => do
    w.writeLine ("if " ++ expression ++ " \x7b")
    w.deeper.writeAll parts
    w.writeLine "\x7d else \x7b"
    w.deeper.writeAll otherwise
    w.writeLine "\x7d"

def writeAll (w : Writer) : List Layout → StateM (List String) Unit
  | [] => pure ()
  | part :: parts => do
    w.write part
    w.writeAll parts

end

end Writer

variable {step indent : String}

namespace Layout

/-- A line with a step more in front of it; an empty one stays empty. -/
def shifted (step line : String) : String := if line.isEmpty then line else step ++ line

theorem isAllBlank_append (a b : String) :
    Text.isAllBlank (a ++ b) = (Text.isAllBlank a && Text.isAllBlank b) := by
  simp [Text.isAllBlank]

/-- Whether a line is blank does not depend on a blank step in its indentation. -/
theorem indented_shifted (hstep : Text.isAllBlank step = true)
    (hindent : indent ++ step = step ++ indent) (text : String) :
    indented (indent ++ step) text = shifted step (indented indent text) := by
  have hblank : Text.isAllBlank (indent ++ step ++ text) = Text.isAllBlank (indent ++ text) := by
    simp [isAllBlank_append, hstep]
  unfold indented
  simp only [hblank]
  cases hline : Text.isAllBlank (indent ++ text) with
  | true => rfl
  | false =>
    have hne : (indent ++ text).isEmpty = false := by
      rw [Bool.eq_false_iff, ne_eq, String.isEmpty_iff]
      intro hempty
      rw [hempty] at hline
      cases hline
    simp [shifted, hne, hindent, String.append_assoc]

theorem commutes_append (h : indent ++ step = step ++ indent) :
    indent ++ step ++ step = step ++ (indent ++ step) := by
  rw [h, String.append_assoc, h]

mutual

/-- Deeper by a step, a layout has the same lines with the step in front of them. -/
theorem lines_deeper (hstep : Text.isAllBlank step = true) : (part : Layout) → {indent : String} →
    indent ++ step = step ++ indent →
    part.lines step (indent ++ step) = (part.lines step indent).map (shifted step)
  | .line text, _, hindent => by simp [lines, indented_shifted hstep hindent]
  | .blank, _, _ => by simp [lines, shifted]
  | .nest parts, _, hindent => linesOf_deeper hstep parts (commutes_append hindent)
  | .block keyword expression bracket closing parts, _, hindent => by
    have hinner := linesOf_deeper hstep parts (commutes_append hindent)
    simp [lines, indented_shifted hstep hindent, hinner]
  | .cond expression parts, _, hindent => by
    have hinner := linesOf_deeper hstep parts (commutes_append hindent)
    simp [lines, indented_shifted hstep hindent, hinner]
  | .condElse expression parts otherwise, _, hindent => by
    have hinner := linesOf_deeper hstep parts (commutes_append hindent)
    have hinner' := linesOf_deeper hstep otherwise (commutes_append hindent)
    simp [lines, indented_shifted hstep hindent, hinner, hinner']

theorem linesOf_deeper (hstep : Text.isAllBlank step = true) :
    (parts : List Layout) → {indent : String} → indent ++ step = step ++ indent →
    linesOf step (indent ++ step) parts = (linesOf step indent parts).map (shifted step)
  | [], _, _ => rfl
  | part :: parts, _, hindent => by
    rw [linesOf, linesOf, List.map_append, lines_deeper hstep part hindent,
      linesOf_deeper hstep parts hindent]

end

/-- A line that is written is empty or not blank. -/
def Tidy (line : String) : Prop := Text.isAllBlank line = true → line = ""

theorem tidy_indented (indent text : String) : Tidy (indented indent text) := by
  unfold indented
  dsimp only
  split
  · exact fun _ => rfl
  · next h => exact fun hblank => absurd hblank h

mutual

theorem tidy_of_mem_lines : (part : Layout) → {indent : String} →
    ∀ line ∈ part.lines step indent, Tidy line
  | .line text, _ => by simp [lines, tidy_indented]
  | .blank, _ => by simp [lines, Tidy]
  | .nest parts, _ => tidy_of_mem_linesOf parts
  | .block _ _ _ _ parts, _ => by
    simpa [lines, or_imp, forall_and, tidy_indented] using tidy_of_mem_linesOf parts
  | .cond _ parts, _ => by
    simpa [lines, or_imp, forall_and, tidy_indented] using tidy_of_mem_linesOf parts
  | .condElse _ parts otherwise, _ => by
    simpa [lines, or_imp, forall_and, tidy_indented] using
      ⟨tidy_of_mem_linesOf parts, tidy_of_mem_linesOf otherwise⟩

theorem tidy_of_mem_linesOf : (parts : List Layout) → {indent : String} →
    ∀ line ∈ linesOf step indent parts, Tidy line
  | [], _ => by simp [linesOf]
  | part :: parts, _ => by
    rw [linesOf, List.forall_mem_append]
    exact ⟨tidy_of_mem_lines part, tidy_of_mem_linesOf parts⟩

end

end Layout

/-- Whatever lines there are, an action puts some more behind them. -/
def Appends (action : StateM (List String) Unit) (lines : List String) : Prop :=
  ∀ shared, action.run shared = ((), shared ++ lines)

theorem Appends.andThen {first second : StateM (List String) Unit} {lines lines' : List String}
    (h : Appends first lines) (h' : Appends second lines') :
    Appends (do first; second) (lines ++ lines') := by
  intro shared
  have hsecond := h' (shared ++ lines)
  rw [List.append_assoc] at hsecond
  rw [StateT.run_bind, h shared]
  exact hsecond

theorem Appends.unique {action : StateM (List String) Unit} {lines lines' : List String}
    (h : Appends action lines) (h' : Appends action lines') : lines = lines' :=
  congrArg Prod.snd ((h []).symm.trans (h' []))

namespace Writer

theorem appends_writeLine (w : Writer) (text : String) :
    Appends (w.writeLine text) [Layout.indented w.indent text] := fun _ => rfl

mutual

/-- A writer puts down the lines of a layout. -/
theorem appends_write : (part : Layout) → (w : Writer) →
    Appends (w.write part) (part.lines w.step w.indent)
  | .line text, w => w.appends_writeLine text
  | .blank, _ => fun _ => rfl
  | .nest parts, w => appends_writeAll parts w.deeper
  | .block _ _ _ _ parts, w =>
    (w.appends_writeLine _).andThen
      ((appends_writeAll parts w.deeper).andThen (w.appends_writeLine _))
  | .cond _ parts, w =>
    (w.appends_writeLine _).andThen
      ((appends_writeAll parts w.deeper).andThen (w.appends_writeLine _))
  | .condElse _ parts otherwise, w => by
    have hparts := appends_writeAll parts w.deeper
    have hotherwise := appends_writeAll otherwise w.deeper
    rw [Layout.lines, List.cons_append, List.cons_append, List.append_assoc]
    exact (w.appends_writeLine _).andThen (hparts.andThen ((w.appends_writeLine _).andThen
      (hotherwise.andThen (w.appends_writeLine _))))

theorem appends_writeAll : (parts : List Layout) → (w : Writer) →
    Appends (w.writeAll parts) (Layout.linesOf w.step w.indent parts)
  | [], _ => fun shared => by
    rw [Layout.linesOf, List.append_nil]
    rfl
  | part :: parts, w => (appends_write part w).andThen (appends_writeAll parts w)

end

theorem step_atDepth (step : String) (depth : Nat) : (atDepth step depth).step = step := by
  induction depth with
  | zero => rfl
  | succ depth ih => exact ih

theorem indent_atDepth_succ (step : String) (depth : Nat) :
    (atDepth step (depth + 1)).indent = (atDepth step depth).indent ++ step := by
  rw [atDepth, deeper, step_atDepth]

/-- Indentation is made of steps, so it does not matter at which end a step more is put. -/
theorem indent_atDepth_commutes (step : String) (depth : Nat) :
    (atDepth step depth).indent ++ step = step ++ (atDepth step depth).indent := by
  induction depth with
  | zero => rw [atDepth, String.empty_append, String.append_empty]
  | succ depth ih =>
    rw [indent_atDepth_succ]
    exact Layout.commutes_append ih

/-- Each writer puts the lines of a layout behind the lines there are, whatever they are and
whoever has put them there, and one after the other puts its own behind those of the one before. A
writer one level deeper puts the same lines, with a blank step of indentation in front of those
that are not empty. No line that is put is blank unless it is empty. -/
theorem nesting_indents (parts : List Layout) :
    (∀ w : Writer, Appends (w.writeAll parts) (Layout.linesOf w.step w.indent parts)) ∧
    (∀ step, Text.isAllBlank step = true → ∀ depth lines,
      Appends ((atDepth step depth).writeAll parts) lines →
      Appends ((atDepth step (depth + 1)).writeAll parts) (lines.map (Layout.shifted step))) ∧
    (∀ (parts' : List Layout) (w w' : Writer) (lines lines' : List String),
      Appends (w.writeAll parts) lines → Appends (w'.writeAll parts') lines' →
      Appends (do w.writeAll parts; w'.writeAll parts') (lines ++ lines')) ∧
    ∀ (w : Writer) (lines : List String), Appends (w.writeAll parts) lines →
      ∀ line ∈ lines, Text.isAllBlank line = true → line = "" := by
  refine ⟨appends_writeAll parts, fun step hstep depth lines hlines => ?_,
    fun _ _ _ _ _ h h' => h.andThen h', fun w lines hlines => ?_⟩
  · have hhere := appends_writeAll parts (atDepth step depth)
    have hdeeper := appends_writeAll parts (atDepth step (depth + 1))
    rw [step_atDepth] at hhere hdeeper
    rw [indent_atDepth_succ, Layout.linesOf_deeper hstep parts (indent_atDepth_commutes step depth)]
      at hdeeper
    rwa [hlines.unique hhere]
  · rw [hlines.unique (appends_writeAll parts w)]
    exact Layout.tidy_of_mem_linesOf parts

/-- A line of blanks in a loop stays empty one level deeper. -/
theorem nesting_indents_loop :
    Appends ((atDepth "  " 1).writeAll
        [.block "for" "x of xs" " \x7b" "\x7d" [.line "y(x);", .line " "], .blank])
      ["  for x of xs \x7b", "    y(x);", "", "  \x7d", ""] := by
  have hnest := nesting_indents
    [.block "for" "x of xs" " \x7b" "\x7d" [.line "y(x);", .line " "], .blank]
  have hhere := hnest.1 (atDepth "  " 0)
  have hlines : Layout.linesOf "  " ""
      [.block "for" "x of xs" " \x7b" "\x7d" [.line "y(x);", .line " "], .blank] =
      ["for x of xs \x7b", "  y(x);", "", "\x7d", ""] := by decide
  exact hnest.2.1 "  " (by decide) 0 _ (hlines ▸ hhere)

end Writer

end SchemaForge
