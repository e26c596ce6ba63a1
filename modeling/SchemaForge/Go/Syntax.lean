import SchemaForge.Json.Printer
import SchemaForge.Layout
/-!
The part of Go that generated code is written in, and its text.
-/
namespace SchemaForge.Go

/-- Packages that generated code refers to. -/
inductive Package where
  | fmt
  /-- Optional values and results. -/
  | options
  /-- Attributes of builders, and the literals that are hashed. -/
  | attributes
  | io
  | strconv
  | strings
  deriving DecidableEq

namespace Package

/-- All packages, in the order of their paths. -/
def all : List Package := [fmt, options, attributes, io, strconv, strings]

def path : Package → String
  | fmt => "fmt"
  | options => "github.com/mabels/wueste/entity-generator/rusty"
  | attributes => "github.com/mabels/wueste/entity-generator/wueste"
  | io => "io"
  | strconv => "strconv"
  | strings => "strings"

def name : Package → String
  | fmt => "fmt"
  | options => "rusty"
  | attributes => "wueste"
  | io => "io"
  | strconv => "strconv"
  | strings => "strings"

end Package

inductive GoType where
  | named (name : String)
  | slice (items : GoType)
  | pointer (target : GoType)
  /-- A type of another package. -/
  | imported (package : Package) (name : String)
  /-- A generic type of another package. -/
  | applied (package : Package) (name : String) (arg : GoType)
  deriving DecidableEq

namespace GoType

/-- Any value at all. -/
def any : GoType := named "interface\x7b\x7d"

/-- Values of any type by their names. -/
def anyMap : GoType := named "map[string]interface\x7b\x7d"

def optional (t : GoType) : GoType := applied .options "Optional" t

def result (t : GoType) : GoType := applied .options "Result" t

def text : GoType → String
  | named name => name
  | slice items => "[]" ++ items.text
  | pointer target => "*" ++ target.text
  | imported package x => package.name ++ "." ++ x
  | applied package x arg => package.name ++ "." ++ x ++ "[" ++ arg.text ++ "]"

def packages : GoType → List Package
  | named _ => []
  | slice items => items.packages
  | pointer target => target.packages
  | imported package _ => [package]
  | applied package _ arg => package :: arg.packages

end GoType

inductive BinaryOp where
  | less
  | greater
  | and
  deriving DecidableEq

def BinaryOp.text : BinaryOp → String
  | less => "<"
  | greater => ">"
  | and => "&&"

inductive Expr where
  | name (x : String)
  | field (e : Expr) (name : String)
  | index (e i : Expr)
  | deref (e : Expr)
  | not (e : Expr)
  | paren (e : Expr)
  | binary (op : BinaryOp) (left right : Expr)
  | number (n : Int)
  | text (s : String)
  /-- A literal of one character. -/
  | letter (c : Char)
  /-- A default value. -/
  | default (v : Json)
  | call (function : Expr) (args : List Expr)
  /-- A name of another package. -/
  | imported (package : Package) (name : String)
  /-- A generic name of another package, with the type it is used at. -/
  | applied (package : Package) (name : String) (arg : GoType)
  | convert (type : GoType) (e : Expr)
  /-- The value of an interface at a type, if it has that type. -/
  | assert (e : Expr) (type : GoType)
  /-- An empty slice with room for some items. -/
  | makeSlice (type : GoType) (room : Expr)
  /-- A value of a type without anything in it. -/
  | empty (type : GoType)
  | address (e : Expr)
  /-- The address of a new value of a type, field by field. -/
  | build (type : String) (fields : List (String × Expr))

namespace Expr

mutual

def render : Expr → String
  | name x => x
  | field e f => e.render ++ "." ++ f
  | index e i => e.render ++ "[" ++ i.render ++ "]"
  | deref e => "*" ++ e.render
  | not e => "!" ++ e.render
  | paren e => "(" ++ e.render ++ ")"
  | binary op l r => l.render ++ " " ++ op.text ++ " " ++ r.render
  | number n => Decimal.intText n
  | text s => Json.quote s
  | letter c => String.ofList ['\x27', c, '\x27']
  | default v => v.compact
  | call f args => f.render ++ "(" ++ renderArgs args ++ ")"
  | imported package x => package.name ++ "." ++ x
  | applied package x arg => package.name ++ "." ++ x ++ "[" ++ arg.text ++ "]"
  | convert type e => type.text ++ "(" ++ e.render ++ ")"
  | assert e type => e.render ++ ".(" ++ type.text ++ ")"
  | makeSlice type room => "make(" ++ type.text ++ ", 0, " ++ room.render ++ ")"
  | empty type => type.text ++ "\x7b\x7d"
  | address e => "&" ++ e.render
  | build type fields => "&" ++ type ++ "\x7b" ++ renderFields fields ++ "\x7d"

def renderArgs : List Expr → String
  | [] => ""
  | [e] => e.render
  | e :: es => e.render ++ ", " ++ renderArgs es

def renderFields : List (String × Expr) → String
  | [] => ""
  | (f, e) :: rest => f ++ ": " ++ e.render ++ ", " ++ renderFields rest

end

mutual

def packages : Expr → List Package
  | name _ | number _ | text _ | letter _ | default _ => []
  | field e _ | deref e | not e | paren e | address e => e.packages
  | index e i | binary _ e i => e.packages ++ i.packages
  | call f args => f.packages ++ packagesOf args
  | imported package _ => [package]
  | applied package _ arg => package :: arg.packages
  | convert type e | assert e type | makeSlice type e => type.packages ++ e.packages
  | empty type => type.packages
  | build _ fields => packagesOfFields fields

def packagesOf : List Expr → List Package
  | [] => []
  | e :: es => e.packages ++ packagesOf es

def packagesOfFields : List (String × Expr) → List Package
  | [] => []
  | (_, e) :: rest => e.packages ++ packagesOfFields rest

end

/-- The length of a slice. -/
def len (e : Expr) : Expr := call (name "len") [e]

end Expr

inductive Stmt where
  | run (e : Expr)
  /-- Names that are new with a value. -/
  | define (names : List String) (e : Expr)
  | declare (name : String) (type : GoType)
  | assign (target e : Expr)
  | ret (e : Expr)
  | cond (test : Expr) (body : List Stmt)
  /-- A condition on names that are new with a value. -/
  | condDefine (names : List String) (e test : Expr) (body : List Stmt)
  | condElse (test : Expr) (body otherwise : List Stmt)
  /-- Bodies behind conditions, of which the first that holds counts. -/
  | chain (test : Expr) (body : List Stmt) (arms : List (Expr × List Stmt))
  /-- Runs for each index of a slice. -/
  | loop (index : String) (slice : Expr) (body : List Stmt)
  | block (body : List Stmt)
  /-- Gives a name a value by the type of another, or runs the last body. -/
  | typeSwitch (source : Expr) (target : String) (cases : List (GoType × Expr))
      (otherwise : List Stmt)

namespace Stmt

/-- Lines of `keyword e`; a new value field by field takes a line for each field. -/
def headed (keyword : String) (e : Expr) : Layout :=
  let field (f : String × Expr) : Layout := .line (f.1 ++ ": " ++ f.2.render ++ ",")
  match e with
  | .build type fields => .block keyword ("&" ++ type) "\x7b" "\x7d" (fields.map field)
  | .call f [.build type fields] =>
    .block keyword (f.render ++ "(&" ++ type) "\x7b" "\x7d)" (fields.map field)
  | e => .line (keyword ++ " " ++ e.render)

def newNames (names : List String) : String := ", ".intercalate names ++ " :="

mutual

def layout : Stmt → List Layout
  | run e => [.line e.render]
  | define names e => [headed (newNames names) e]
  | declare name type => [.line ("var " ++ name ++ " " ++ type.text)]
  | assign target e => [.line (target.render ++ " = " ++ e.render)]
  | ret e => [headed "return" e]
  | cond test body => [.cond test.render (layouts body)]
  | condDefine names e test body =>
    [.cond (newNames names ++ " " ++ e.render ++ "; " ++ test.render) (layouts body)]
  | condElse test body otherwise => [.condElse test.render (layouts body) (layouts otherwise)]
  | chain test body arms =>
    .line ("if " ++ test.render ++ " \x7b") :: .nest (layouts body) :: layoutArms arms
  | loop index slice body =>
    [.block "for" (index ++ " := 0; " ++ index ++ " < len(" ++ slice.render ++ "); " ++ index ++
      "++") " \x7b" "\x7d" (layouts body)]
  | block body => [.block "" "" "\x7b" "\x7d" (layouts body)]
  | typeSwitch source target cases otherwise =>
    .line ("switch x := " ++ source.render ++ ".(type) \x7b") :: layoutCases target cases ++
      [.line "default:", .nest (layouts otherwise), .line "\x7d"]

def layouts : List Stmt → List Layout
  | [] => []
  | s :: ss => s.layout ++ layouts ss

def layoutArms : List (Expr × List Stmt) → List Layout
  | [] => [.line "\x7d"]
  | (test, body) :: arms =>
    .line ("\x7d else if " ++ test.render ++ " \x7b") :: .nest (layouts body) :: layoutArms arms

def layoutCases (target : String) : List (GoType × Expr) → List Layout
  | [] => []
  | (type, e) :: cases =>
    .line ("case " ++ type.text ++ ":") :: .nest [.line (target ++ " = " ++ e.render)] ::
      layoutCases target cases

end

mutual

def packages : Stmt → List Package
  | run e | define _ e | ret e => e.packages
  | declare _ type => type.packages
  | assign target e => target.packages ++ e.packages
  | cond test body => test.packages ++ packagesOf body
  | condDefine _ e test body => e.packages ++ test.packages ++ packagesOf body
  | condElse test body otherwise => test.packages ++ packagesOf body ++ packagesOf otherwise
  | chain test body arms => test.packages ++ packagesOf body ++ packagesOfArms arms
  | loop _ slice body => slice.packages ++ packagesOf body
  | block body => packagesOf body
  | typeSwitch source _ cases otherwise =>
    source.packages ++ packagesOfCases cases ++ packagesOf otherwise

def packagesOf : List Stmt → List Package
  | [] => []
  | s :: ss => s.packages ++ packagesOf ss

def packagesOfArms : List (Expr × List Stmt) → List Package
  | [] => []
  | (test, body) :: arms => test.packages ++ packagesOf body ++ packagesOfArms arms

def packagesOfCases : List (GoType × Expr) → List Package
  | [] => []
  | (type, e) :: cases => type.packages ++ e.packages ++ packagesOfCases cases

end

end Stmt

/-- The name, parameters and result of a function. -/
structure Signature where
  name : String
  params : List (String × GoType)
  result : Option GoType

def Signature.render (s : Signature) : String :=
  let param (p : String × GoType) := p.1 ++ " " ++ p.2.text
  let result := match s.result with
    | some t => " " ++ t.text
    | none => ""
  s.name ++ "(" ++ ", ".intercalate (s.params.map param) ++ ")" ++ result

def Signature.packages (s : Signature) : List Package :=
  s.params.flatMap (·.2.packages) ++ (s.result.map GoType.packages).getD []

/-- A field of a type, perhaps with the tag that tells its JSON name. -/
structure StructField where
  name : String
  type : GoType
  tag : String

inductive Decl where
  | interfaceType (name : String) (methods : List Signature)
  | structType (name : String) (fields : List StructField)
  | function (signature : Signature) (body : List Stmt)
  /-- A function of a pointer to a type. -/
  | method (receiver type : String) (signature : Signature) (body : List Stmt)

namespace Decl

def fieldLine (f : StructField) : Layout :=
  .line (f.name ++ " " ++ f.type.text ++ (if f.tag.isEmpty then "" else " " ++ f.tag))

def functionLayout (signature : String) (body : List Stmt) : Layout :=
  .block "func" signature " \x7b" "\x7d" (Stmt.layouts body)

def layout : Decl → Layout
  | interfaceType name methods =>
    .block "type" (name ++ " interface") " \x7b" "\x7d" (methods.map fun m => .line m.render)
  | structType name fields =>
    .block "type" (name ++ " struct") " \x7b" "\x7d" (fields.map fieldLine)
  | function signature body => functionLayout signature.render body
  | method receiver type signature body =>
    functionLayout ("(" ++ receiver ++ " *" ++ type ++ ") " ++ signature.render) body

def packages : Decl → List Package
  | interfaceType _ methods => methods.flatMap Signature.packages
  | structType _ fields => fields.flatMap (·.type.packages)
  | function signature body | method _ _ signature body =>
    signature.packages ++ Stmt.packagesOf body

/-- Declarations, each with an empty line behind it. -/
def layouts (decls : List Decl) : List Layout := decls.flatMap fun d => [d.layout, .blank]

/-- Packages that declarations refer to, in the order of their paths. -/
def imports (decls : List Decl) : List Package :=
  Package.all.filter fun p => (decls.flatMap packages).contains p

end Decl

end SchemaForge.Go
