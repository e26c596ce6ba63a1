import SchemaForge.Error
import SchemaForge.Json.Printer
import SchemaForge.Text.Capital
/-!
Identifiers and file names made from the titles and member names of schemas. All of them are
about ASCII letters and digits; every other character only separates. Each member of an object needs
an identifier of its own.
-/
namespace SchemaForge.Naming

/-- Keywords of Go, and names of its types that are better left alone. -/
def goReserved : List String :=
  ["break", "default", "func", "interface", "select", "case", "defer", "go", "map", "struct",
    "chan", "else", "goto", "package", "switch", "const", "fallthrough", "if", "range", "type",
    "continue", "for", "import", "return", "var", "error", "string", "bool", "uint8", "uint16",
    "uint32", "uint64", "int8", "int16", "int32", "int64", "float32", "float64", "complex64",
    "complex128", "byte", "rune"]

def tsReserved : List String :=
  ["break", "as", "any", "switch", "case", "if", "throw", "else", "var", "number", "string",
    "get", "module", "type", "instanceof", "typeof", "public", "private", "enum", "export",
    "finally", "for", "while", "void", "null", "super", "this", "new", "in", "return", "true",
    "false", "extends", "static", "let", "package", "implements", "interface", "function", "try",
    "yield", "const", "continue", "do", "catch"]

/-- Joins the runs of letters and digits, each with a capital; `start` says whether one begins. -/
def camel (start : Bool) : List Char → List Char
  | [] => []
  | c :: cs =>
    if c.isAlphanum then (if start then c.toUpper else c) :: camel false cs else camel true cs

def goPublicChars (name : List Char) : List Char :=
  match camel true name with
  | [] => []
  | c :: cs => if c.isUpper then c :: cs else 'X' :: '_' :: c :: cs

/-- An exported Go identifier: a name that cannot start with a capital gets `X_` in front, and
one without letters and digits yields nothing. -/
def goPublic (name : String) : String := String.ofList (goPublicChars name.toList)

/-- A Go identifier that is not exported and not reserved. -/
def goPrivate (name : String) : String :=
  let lowered := String.ofList <|
    match goPublicChars name.toList with
    | [] => []
    | c :: cs => c.toLower :: cs
  if goReserved.contains lowered then "_" ++ lowered else lowered

/-- Puts one `_` for each run of characters that are not kept; `inRun` says whether one goes on. -/
def squash (keep : Char → Bool) (inRun : Bool) : List Char → List Char
  | [] => []
  | c :: cs =>
    if keep c then c :: squash keep false cs
    else if inRun then squash keep true cs
    else '_' :: squash keep true cs

def isTsChar (c : Char) : Bool := c.isAlphanum || c == '_' || c == '$'

/-- An exported TypeScript identifier; a reserved word comes in quotes. -/
def tsPublic (name : String) : String :=
  let trimmed := String.ofList ((squash isTsChar false name.toList).dropWhile (· == '_'))
  if tsReserved.contains trimmed then Json.quote trimmed else trimmed

/-- A TypeScript identifier behind `_`. -/
def tsPrivate (name : String) : String :=
  String.ofList ('_' :: squash isTsChar false name.toList)

/-- Puts `_` before each run of capitals; `inRun` says whether one goes on. -/
def markCapitals (inRun : Bool) : List Char → List Char
  | [] => []
  | c :: cs =>
    if c.isUpper then
      if inRun then c :: markCapitals true cs else '_' :: c :: markCapitals true cs
    else c :: markCapitals false cs

def fileStemChars (title : List Char) : List Char :=
  let start := (markCapitals false title).dropWhile (!·.isAlphanum)
  (squash Char.isAlphanum false start).map Char.toLower

/-- The name of a file for a title, without extension: lower case, with `_` between words. -/
def fileStem (title : String) : String := String.ofList (fileStemChars title.toList)

end SchemaForge.Naming

namespace SchemaForge.MemberNames

/-- The first fault among names, given the identifiers that are taken and by which names. -/
def faultAmong? (title : String) (identifier : String → String)
    (taken : List (String × String)) : List String → Option ShapeFault
  | [] => none
  | name :: names =>
    let id := identifier name
    if id.isEmpty then some (.unnamedMember title name)
    else match taken.lookup id with
      | some other => some (.identifierTaken title name id other)
      | none => faultAmong? title identifier ((id, name) :: taken) names

/-- The first name without an identifier of its own. -/
def fault? (title : String) (identifier : String → String) (names : List String) :
    Option ShapeFault :=
  faultAmong? title identifier [] names

end SchemaForge.MemberNames
