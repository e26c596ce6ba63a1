import SchemaForge.Layout
import SchemaForge.TypeScript.Code
/-!
The part of TypeScript that generated modules are written in, and its lines.
-/
namespace SchemaForge.TypeScript

inductive Stmt where
  /-- `const name: type = value;` -/
  | constant (name : String) (type : Option Code) (value : Code)
  | assign (target value : Code)
  | run (e : Code)
  | ret (e : Code)
  /-- Returns what a call makes of an object, which takes a line for each field. -/
  | retObject (head : Code) (fields : List (String × Code))
  /-- Sets a target to what a call makes of its arguments, each on a line. -/
  | assignCall (target head : Code) (args : List Code)
  | cond (test : Code) (body : List Stmt)
  | forOf (name : String) (source : Code) (body : List Stmt)
  /-- Runs for each result of an iterator. -/
  | iterate (name iterator : String) (body : List Stmt)
  | block (body : List Stmt)
  /-- Returns what a call makes of a function with one parameter. -/
  | retFunction (head : Code) (param : String) (body : List Stmt)

namespace Stmt

def braces (keyword expression : String) (parts : List Layout) : Layout :=
  .block keyword expression " \x7b" "\x7d" parts

mutual

def layout : Stmt → Layout
  | constant name type value =>
    let type := match type with
      | some t => ": " ++ t.render
      | none => ""
    .line ("const " ++ name ++ type ++ " = " ++ value.render ++ ";")
  | assign target value => .line (target.render ++ " = " ++ value.render ++ ";")
  | run e => .line (e.render ++ ";")
  | ret e => .line ("return " ++ e.render ++ ";")
  | retObject head fields =>
    .block "return" (head.render ++ "(") "\x7b" "\x7d);" <|
      fields.map fun f => .line (f.1 ++ ": " ++ f.2.render ++ ",")
  | assignCall target head args =>
    .block "" (target.render ++ " = " ++ head.render) "(" ");" <|
      args.map fun a => .line (a.render ++ ",")
  | cond test body => braces "if" ("(" ++ test.render ++ ")") (layouts body)
  | forOf name source body =>
    braces "for" ("(const " ++ name ++ " of " ++ source.render ++ ")") (layouts body)
  | iterate name iterator body =>
    braces "for" ("(let " ++ name ++ " = " ++ iterator ++ ".next(); !" ++ name ++ ".done; " ++
      name ++ " = " ++ iterator ++ ".next())") (layouts body)
  | block body => .block "" "" "\x7b" "\x7d" (layouts body)
  | retFunction head param body =>
    .block "return" (head.render ++ "((" ++ param ++ ") =>") " \x7b" "\x7d);" (layouts body)

def layouts : List Stmt → List Layout
  | [] => []
  | s :: ss => s.layout :: layouts ss

end

mutual

def symbols : Stmt → List Symbol
  | constant _ type value => (type.map Code.symbols).getD [] ++ value.symbols
  | assign target value => target.symbols ++ value.symbols
  | run e => e.symbols
  | ret e => e.symbols
  | retObject head fields => head.symbols ++ fields.flatMap (·.2.symbols)
  | assignCall target head args => target.symbols ++ head.symbols ++ args.flatMap Code.symbols
  | cond test body => test.symbols ++ symbolsOf body
  | forOf _ source body => source.symbols ++ symbolsOf body
  | iterate _ _ body => symbolsOf body
  | block body => symbolsOf body
  | retFunction head _ body => head.symbols ++ symbolsOf body

def symbolsOf : List Stmt → List Symbol
  | [] => []
  | s :: ss => s.symbols ++ symbolsOf ss

end

end Stmt

/-- A literal over several lines. -/
inductive Literal where
  | value (e : Code)
  | object (fields : List (String × Literal))
  | array (items : List Literal)

namespace Literal

mutual

/-- The lines of a literal behind a keyword, with something behind its end. -/
def layout (keyword ending : String) : Literal → Layout
  | value e => .line (keyword ++ " " ++ e.render ++ ending)
  | object fields =>
    let bracket := if keyword.isEmpty then "\x7b" else " \x7b"
    .block keyword "" bracket ("\x7d" ++ ending) (layoutFields fields)
  | array items => .block keyword "" " [" ("]" ++ ending) (layoutItems items)

def layoutFields : List (String × Literal) → List Layout
  | [] => []
  | (name, l) :: rest => layout (name ++ ":") "," l :: layoutFields rest

def layoutItems : List Literal → List Layout
  | [] => []
  | l :: ls => layout "" "," l :: layoutItems ls

end

mutual

def symbols : Literal → List Symbol
  | value e => e.symbols
  | object fields => symbolsOfFields fields
  | array items => symbolsOf items

def symbolsOfFields : List (String × Literal) → List Symbol
  | [] => []
  | (_, l) :: rest => l.symbols ++ symbolsOfFields rest

def symbolsOf : List Literal → List Symbol
  | [] => []
  | l :: ls => l.symbols ++ symbolsOf ls

end

end Literal

inductive ClassMember where
  | field (name : String) (type : Code)
  /-- What makes a value of the class. -/
  | init (params : Code) (body : List Stmt)
  /-- A method by its name, its parameters and its result. -/
  | method (name : String) (params : Code) (result : Option Code) (body : List Stmt)
  /-- A method of the class, not of its values. -/
  | static (name : String) (params : Code) (result : Option Code) (body : List Stmt)
  | blank

namespace ClassMember

def head (name : String) (params : Code) (result : Option Code) : String :=
  let result := match result with
    | some t => ": " ++ t.render
    | none => ""
  name ++ "(" ++ params.render ++ ")" ++ result

def layout : ClassMember → Layout
  | field name type => .line ("readonly " ++ name ++ ": " ++ type.render ++ ";")
  | init params body => Stmt.braces "constructor" ("(" ++ params.render ++ ")") (Stmt.layouts body)
  | method name params result body =>
    Stmt.braces "" (head name params result) (Stmt.layouts body)
  | static name params result body =>
    Stmt.braces "static" (head name params result) (Stmt.layouts body)
  | blank => .blank

def symbols : ClassMember → List Symbol
  | field _ type => type.symbols
  | init params body => params.symbols ++ Stmt.symbolsOf body
  | method _ params result body | static _ params result body =>
    params.symbols ++ (result.map Code.symbols).getD [] ++ Stmt.symbolsOf body
  | blank => []

end ClassMember

/-- A member of an interface. -/
structure Slot where
  name : String
  /-- Whether it may be missing. -/
  loose : Bool
  type : Code

/-- A declaration of a module; `shared` says whether other modules see it. -/
inductive Decl where
  | interface (shared : Bool) (name : String) (slots : List Slot)
  | alias (name : String) (type : Code)
  | function (shared : Bool) (name : String) (params result : Code) (body : List Stmt)
  | literal (shared : Bool) (name : String) (type : Code) (value : Literal)
  /-- A class with what follows its name. -/
  | class (name : String) (heritage : Code) (members : List ClassMember)
  | constant (name : String) (value : Code)

namespace Decl

def slotLine (s : Slot) : Layout :=
  .line ("readonly " ++ s.name ++ (if s.loose then "?" else "") ++ ": " ++ s.type.render ++ ";")

def layout : Decl → Layout
  | interface shared name slots =>
    Stmt.braces (if shared then "export interface" else "interface") name (slots.map slotLine)
  | «alias» name type => .line ("export type " ++ name ++ " = " ++ type.render ++ ";")
  | function shared name params result body =>
    Stmt.braces (if shared then "export" else "")
      ("function " ++ name ++ "(" ++ params.render ++ "): " ++ result.render) (Stmt.layouts body)
  | literal shared name type value =>
    let keyword := if shared then "export const " else "const "
    value.layout (keyword ++ name ++ ": " ++ type.render ++ " =") ";"
  | «class» name heritage members =>
    Stmt.braces "export" ("class " ++ name ++ " " ++ heritage.render)
      (members.map ClassMember.layout)
  | constant name value => .line ("export const " ++ name ++ " = " ++ value.render ++ ";")

def symbols : Decl → List Symbol
  | interface _ _ slots => slots.flatMap (·.type.symbols)
  | «alias» _ type => type.symbols
  | function _ _ params result body => params.symbols ++ result.symbols ++ Stmt.symbolsOf body
  | literal _ _ type value => type.symbols ++ value.symbols
  | «class» _ heritage members => heritage.symbols ++ members.flatMap ClassMember.symbols
  | constant _ value => value.symbols

/-- The name that other modules see, if there is one. -/
def exported? : Decl → Option String
  | interface shared name _ | function shared name _ _ _ | literal shared name _ _ =>
    if shared then some name else none
  | «alias» name _ | «class» name _ _ | constant name _ => some name

/-- Declarations, each with an empty line behind it. -/
def layouts (decls : List Decl) : List Layout := decls.flatMap fun d => [d.layout, .blank]

end Decl

end SchemaForge.TypeScript
