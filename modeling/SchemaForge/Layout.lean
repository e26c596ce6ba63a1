import SchemaForge.Text.Blank
/-!
Lines of text, nested by indentation. Nothing here knows the grammar of the text: keywords,
expressions and brackets are given in full.
-/
namespace SchemaForge

/-- Lines that stand one below the other, in blocks. -/
inductive Layout where
  | line (text : String)
  | blank
  /-- Parts that lie one level deeper. -/
  | nest (parts : List Layout)
  /-- Lines between `keyword expression open` and `close`, one level deeper. -/
  | block (keyword expression opening closing : String) (parts : List Layout)
  | cond (expression : String) (parts : List Layout)
  | condElse (expression : String) (parts otherwise : List Layout)

namespace Layout

/-- One line behind its indentation; a line of white space alone is empty. -/
def indented (indent text : String) : String :=
  let line := indent ++ text
  if Text.isAllBlank line then "" else line

/-- The line that opens a block: its keyword and its expression without the white space around
them, and a space between the two if both are there. -/
def opening (keyword expression bracket : String) : String :=
  let keyword := Text.trim keyword
  let expression := Text.trim expression
  let space := if keyword.isEmpty || expression.isEmpty then "" else " "
  keyword ++ space ++ expression ++ bracket

mutual

/-- The lines of a layout behind an indentation, which grows by a step for each level. -/
def lines (step indent : String) : Layout → List String
  | line text => [indented indent text]
  | blank => [""]
  | nest parts => linesOf step (indent ++ step) parts
  | block keyword expression bracket closing parts =>
    indented indent (opening keyword expression bracket) ::
      linesOf step (indent ++ step) parts ++ [indented indent closing]
  | cond expression parts =>
    indented indent ("if " ++ expression ++ " \x7b") ::
      linesOf step (indent ++ step) parts ++ [indented indent "\x7d"]
  | condElse expression parts otherwise =>
    indented indent ("if " ++ expression ++ " \x7b") ::
      linesOf step (indent ++ step) parts ++
      indented indent "\x7d else \x7b" ::
      linesOf step (indent ++ step) otherwise ++ [indented indent "\x7d"]

def linesOf (step indent : String) : List Layout → List String
  | [] => []
  | part :: parts => lines step indent part ++ linesOf step indent parts

end

/-- A text of lines, each with an end. -/
def ofLines (lines : List String) : String := String.join (lines.map (· ++ "\n"))

/-- The lines of a text's parts from the left margin. -/
def render (step : String) (parts : List Layout) : List String := linesOf step "" parts

end Layout

end SchemaForge
