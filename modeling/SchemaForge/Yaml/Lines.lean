/-!
The characters of YAML text, its lines, and places in it.
-/
namespace SchemaForge.Yaml

/-- Whether a character may occur in YAML text. -/
def isAllowed (c : Char) : Bool :=
  let n := c.toNat
  n == 9 || n == 0xA || n == 0xD || (0x20 ≤ n && n ≤ 0x7E) || n == 0x85 ||
    (0xA0 ≤ n && n ≤ 0xFFFD) || 0x10000 ≤ n

def nextLine : Char := '\u0085'

/-- Writes every line end of the old kinds as a line feed. -/
def unifyBreaks : List Char → List Char
  | [] => []
  | '\r' :: '\n' :: rest => '\n' :: unifyBreaks rest
  | c :: rest => (if c = '\r' ∨ c = nextLine then '\n' else c) :: unifyBreaks rest

def isSpace (c : Char) : Bool := c == ' ' || c == '\t'

/-- Ends of lines, once the old kinds are unified. -/
def isBreak (c : Char) : Bool := c == '\n' || c == '\u2028' || c == '\u2029'

/-- Whether a word cannot go on. -/
def endsWord : List Char → Bool
  | [] => true
  | c :: _ => isSpace c || isBreak c

/-- Characters of names. -/
def isWordChar (c : Char) : Bool := c.isAlphanum || c == '-' || c == '_'

def isFlowMark (c : Char) : Bool := c == ',' || c == '[' || c == ']' || c == '{' || c == '}'

/-- Whether a text starts with a mark that is written three times, `---` or `...`. -/
def startsTriple (mark : Char) : List Char → Bool
  | a :: b :: c :: rest => a == mark && b == mark && c == mark && endsWord rest
  | _ => false

/-- Whether a text, taken from the start of a line, starts or ends a document. -/
def startsDocumentMark (cs : List Char) : Bool := startsTriple '-' cs || startsTriple '.' cs

/-- How much of a text has been read. -/
structure Place where
  index : Nat
  line : Nat
  column : Nat

namespace Place

def start : Place := ⟨0, 0, 0⟩

def next (p : Place) (c : Char) : Place :=
  if isBreak c then ⟨p.index + 1, p.line + 1, 0⟩ else ⟨p.index + 1, p.line, p.column + 1⟩

def after (p : Place) (cs : List Char) : Place := cs.foldl next p

end Place

end SchemaForge.Yaml
