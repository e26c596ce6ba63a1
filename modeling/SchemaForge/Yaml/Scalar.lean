import SchemaForge.Json.Token
import SchemaForge.Yaml.Lines
/-!
Values of YAML documents, and reading scalars. Each reader takes one character at a time and keeps
the white space it has met since the last one that counts.
-/
namespace SchemaForge

/-- How a scalar is written. -/
inductive Yaml.ScalarStyle where
  | plain
  | quoted
  | literal
  | folded
  deriving DecidableEq

/-- A node of a YAML document. Nodes that others stand for are written out. -/
inductive Yaml where
  /-- The tag is empty if none is given. -/
  | scalar (tag : String) (style : Yaml.ScalarStyle) (text : String)
  | sequence (items : List Yaml)
  | mapping (entries : List (Yaml × Yaml))
  /-- Stands for a node that it is itself a part of. -/
  | loop

namespace Yaml

/-- White space inside a scalar. -/
structure Gap where
  /-- White space before the end of the first line. -/
  spaces : List Char
  /-- Whether a line has ended. -/
  ended : Bool
  /-- The end of the first line, unless it is escaped. -/
  first : Option Char
  /-- The ends of empty lines. -/
  more : List Char
  /-- How much white space the last line starts with. -/
  column : Nat

namespace Gap

def empty : Gap := ⟨[], false, none, [], 0⟩

/-- What has been met since an escaped end of a line. -/
def escaped : Gap := ⟨[], true, none, [], 0⟩

def space (g : Gap) (c : Char) : Gap :=
  if g.ended then { g with column := g.column + 1 } else { g with spaces := g.spaces ++ [c] }

def lineEnd (g : Gap) (c : Char) : Gap :=
  if g.ended then { g with more := g.more ++ [c], column := 0 }
  else { g with ended := true, first := some c, column := 0 }

def isEmpty (g : Gap) : Bool := g.spaces.isEmpty && !g.ended

/-- Whether the next character starts a line. -/
def atLineStart (g : Gap) : Bool := g.ended && g.column == 0

/-- What white space stands for: one line feed folds into a space, and of several the first is
dropped. -/
def folded (g : Gap) : List Char :=
  if g.ended then
    match g.first, g.more with
    | some '\n', [] => [' ']
    | some '\n', more => more
    | some c, more => c :: more
    | none, more => more
  else g.spaces

end Gap

/-- A scalar so far, and the white space after it. -/
structure Draft where
  text : List Char
  gap : Gap

namespace Draft

def empty : Draft := ⟨[], .empty⟩

/-- The text with the white space after it. -/
def closed (d : Draft) : List Char := d.text ++ d.gap.folded

def push (d : Draft) (c : Char) : Draft := ⟨d.closed ++ [c], .empty⟩

def space (d : Draft) (c : Char) : Draft := { d with gap := d.gap.space c }

def lineEnd (d : Draft) (c : Char) : Draft := { d with gap := d.gap.lineEnd c }

def escapedEnd (d : Draft) : Draft := ⟨d.closed, .escaped⟩

end Draft

/-- Where plain scalars stand: inside brackets or not, and how far lines must be indented. -/
structure PlainContext where
  inFlow : Bool
  margin : Nat

/-- Whether a plain scalar ends before a character. -/
def endsPlain (x : PlainContext) (g : Gap) (c : Char) (rest : List Char) : Bool :=
  (c == ':' && endsWord rest) || (x.inFlow && isFlowMark c) || (c == '#' && !g.isEmpty) ||
    (g.ended && !x.inFlow && g.column < x.margin) ||
    (g.atLineStart && startsDocumentMark (c :: rest))

/-- Reads a plain scalar. Tabs do not indent it, and inside brackets no bracket, comma or question
mark may follow a colon. -/
def plain? (x : PlainContext) (d : Draft) : List Char → Option (Draft × List Char)
  | [] => some (d, [])
  | c :: rest =>
    if isBreak c then plain? x (d.lineEnd c) rest
    else if isSpace c then
      if c = '\t' ∧ d.gap.ended ∧ d.gap.column < x.margin then none else plain? x (d.space c) rest
    else if endsPlain x d.gap c rest then some (d, c :: rest)
    else if x.inFlow ∧ c = ':' ∧ rest.head?.any fun c => isFlowMark c || c == '?' then none
    else plain? x (d.push c) rest

/-- Reads a scalar after its single quote, which is written twice inside. -/
def single? (d : Draft) : List Char → Option (List Char × List Char)
  | [] => none
  | '\x27' :: '\x27' :: rest => single? (d.push '\x27') rest
  | '\x27' :: rest => some (d.closed, rest)
  | c :: rest =>
    if isBreak c then single? (d.lineEnd c) rest
    else if isSpace c then single? (d.space c) rest
    else if d.gap.atLineStart ∧ startsDocumentMark (c :: rest) then none
    else single? (d.push c) rest

/-- What a reader of escapes has met. -/
inductive Escape where
  | none
  /-- A backslash. -/
  | backslash
  /-- Digits of a character, with how many are still to come. -/
  | digits (left value : Nat)

/-- The character that one letter after a backslash names. -/
def named? : Char → Option Char
  | '0' => some '\x00'
  | 'a' => some '\x07'
  | 'b' => some '\x08'
  | 't' => some '\t'
  | '\t' => some '\t'
  | 'n' => some '\n'
  | 'v' => some '\x0b'
  | 'f' => some '\x0c'
  | 'r' => some '\r'
  | 'e' => some '\x1b'
  | ' ' => some ' '
  | '"' => some '"'
  | '/' => some '/'
  | '\\' => some '\\'
  | 'N' => some '\u0085'
  | '_' => some '\u00a0'
  | 'L' => some '\u2028'
  | 'P' => some '\u2029'
  | _ => none

/-- How many digits of a character follow a letter. -/
def digitCount? : Char → Option Nat
  | 'x' => some 2
  | 'u' => some 4
  | 'U' => some 8
  | _ => none

/-- Reads a scalar after its double quote. -/
def double? (d : Draft) (escape : Escape) : List Char → Option (List Char × List Char)
  | [] => none
  | c :: rest =>
    match escape with
    | .none =>
      if c = '"' then some (d.closed, rest)
      else if c = '\\' then double? d .backslash rest
      else if isBreak c then double? (d.lineEnd c) .none rest
      else if isSpace c then double? (d.space c) .none rest
      else if d.gap.atLineStart ∧ startsDocumentMark (c :: rest) then none
      else double? (d.push c) .none rest
    | .backslash =>
      if isBreak c then double? d.escapedEnd .none rest
      else match named? c, digitCount? c with
        | some c, _ => double? (d.push c) .none rest
        | none, some n => double? d (.digits n 0) rest
        | none, none => none
    | .digits left value =>
      match Json.Token.hexValue? c with
      | none => none
      | some digit =>
        let value := value * 16 + digit
        if 1 < left then double? d (.digits (left - 1) value) rest
        else if value.isValidChar then double? (d.push (Char.ofNat value)) .none rest
        else none

/-- What happens to the line ends after a block scalar. -/
inductive Chomping where
  /-- None is kept. -/
  | strip
  /-- The first is kept. -/
  | clip
  | keep

/-- What stands after the mark of a block scalar. -/
structure BlockHeader where
  chomping : Chomping
  /-- By how much the lines are indented, if it is said. -/
  increment : Option Nat

def chomping? : Char → Option Chomping
  | '+' => some .keep
  | '-' => some .strip
  | _ => none

/-- One digit, not zero. -/
def increment? (c : Char) : Option Nat :=
  if c.isDigit && c != '0' then some (c.toNat - 48) else none

/-- Reads the rest of a line: white space, and a comment. -/
def lineRest? (cs : List Char) : Option (List Char) :=
  let cs := cs.dropWhile isSpace
  let cs := if cs.head? = some '#' then cs.dropWhile (!isBreak ·) else cs
  match cs with
  | [] => some []
  | c :: rest => if isBreak c then some rest else none

/-- Reads the first line of a block scalar after its mark. -/
def blockHeader? (cs : List Char) : Option (BlockHeader × List Char) :=
  let (header, rest) : BlockHeader × List Char :=
    match cs with
    | [] => (⟨.clip, none⟩, [])
    | a :: rest =>
      match chomping? a, increment? a with
      | some chomping, _ =>
        match rest with
        | b :: after => match increment? b with
          | some n => (⟨chomping, some n⟩, after)
          | none => (⟨chomping, none⟩, rest)
        | [] => (⟨chomping, none⟩, [])
      | none, some n =>
        match rest with
        | b :: after => match chomping? b with
          | some chomping => (⟨chomping, some n⟩, after)
          | none => (⟨.clip, some n⟩, rest)
        | [] => (⟨.clip, some n⟩, [])
      | none, none => (⟨.clip, none⟩, cs)
  (lineRest? rest).map fun rest => (header, rest)

/-- A block scalar so far. -/
structure BlockDraft where
  text : List Char
  /-- The end of the last line with text. -/
  lineEnd : List Char
  /-- The ends of empty lines after it. -/
  emptyEnds : List Char
  /-- Whether the last line with text starts with white space. -/
  spaced : Bool
  /-- The indentation of lines, once it is known. -/
  indent : Option Nat
  /-- The most spaces that a line has started with. -/
  deepest : Nat
  /-- How many spaces the current line starts with, if it has no text yet. -/
  column : Option Nat

namespace BlockDraft

def start (indent : Option Nat) : BlockDraft := ⟨[], [], [], false, indent, 0, some 0⟩

/-- What the line ends before a line with text stand for. In folded scalars one line feed between
lines that do not start with white space becomes a space, and of several the first is dropped. -/
def between (literal : Bool) (d : BlockDraft) (c : Char) : List Char :=
  if !literal && d.lineEnd == ['\n'] && !d.spaced && !isSpace c then
    if d.emptyEnds.isEmpty then [' '] else d.emptyEnds
  else d.lineEnd ++ d.emptyEnds

/-- Starts a line with text. -/
def startLine (literal : Bool) (d : BlockDraft) (c : Char) : BlockDraft :=
  { d with
    text := d.text ++ d.between literal c ++ [c]
    lineEnd := []
    emptyEnds := []
    spaced := isSpace c
    column := none }

def chomped (chomping : Chomping) (d : BlockDraft) : List Char :=
  match chomping with
  | .strip => d.text
  | .clip => d.text ++ d.lineEnd
  | .keep => d.text ++ d.lineEnd ++ d.emptyEnds

end BlockDraft

/-- Reads the lines of a block scalar. Without a given indentation they are indented as far as the
first one with text, or as an empty one before it that reaches further. -/
def block? (literal : Bool) (margin : Nat) (d : BlockDraft) :
    List Char → Option (BlockDraft × List Char)
  | [] => some (d, [])
  | c :: rest =>
    match d.column with
    | none =>
      if isBreak c then block? literal margin { d with lineEnd := [c], column := some 0 } rest
      else block? literal margin { d with text := d.text ++ [c] } rest
    | some column =>
      let indenting := d.indent.all (column < ·)
      if indenting && c == ' ' then
        let deepest := max d.deepest (column + 1)
        block? literal margin { d with deepest, column := some (column + 1) } rest
      else if indenting && c == '\t' then none
      else if isBreak c then
        block? literal margin { d with emptyEnds := d.emptyEnds ++ [c], column := some 0 } rest
      else
        let indent := d.indent.getD (max d.deepest (max margin 1))
        let d := { d with indent := some indent }
        if column = indent then block? literal margin (d.startLine literal c) rest
        else some (d, c :: rest)

/-- Reads a block scalar after its mark. -/
def blockScalar? (literal : Bool) (margin : Nat) (cs : List Char) :
    Option (List Char × List Char) := do
  let (header, rest) ← blockHeader? cs
  let indent := header.increment.map (margin - 1 + ·)
  let (d, rest) ← block? literal margin (.start indent) rest
  return (d.chomped header.chomping, rest)

end Yaml

end SchemaForge
