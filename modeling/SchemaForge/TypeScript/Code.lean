import SchemaForge.Configuration
import SchemaForge.Json.Printer
import SchemaForge.Naming
/-!
TypeScript text that knows which of its names come from other modules.
-/
namespace SchemaForge.TypeScript

/-- A name that another module exports. -/
inductive Symbol where
  /-- A name of the runtime. -/
  | runtime (name : String)
  /-- The type of results. -/
  | result
  /-- A name that the module of an object exports: that of the object and a suffix. -/
  | object (name suffix : String)
  deriving DecidableEq

namespace Symbol

/-- The name in the text. -/
def text : Symbol → String
  | runtime name => name
  | result => "WuesteResult"
  | object name suffix => name ++ suffix

/-- The module of an object, as other modules refer to it. -/
def modulePath (name : String) : String := "./" ++ Naming.fileStem name

/-- Where a module of its own imports the name from, and by which clause; it does not import from
itself. -/
def import? (settings : CodeSettings) (own : String) : Symbol → Option (String × String)
  | runtime name => some (settings.runtimePath, name)
  | result => some (settings.resultPath, "Result as WuesteResult")
  | object name suffix =>
    if Naming.fileStem own = Naming.fileStem name then none
    else some (modulePath name, name ++ suffix)

end Symbol

inductive Code where
  | text (s : String)
  | symbol (s : Symbol)
  | join (parts : List Code)

namespace Code

instance : Coe String Code := ⟨text⟩

def runtime (name : String) : Code := symbol (.runtime name)

def result : Code := symbol .result

mutual

def render : Code → String
  | text s => s
  | symbol s => s.text
  | join parts => renderAll parts

def renderAll : List Code → String
  | [] => ""
  | c :: cs => c.render ++ renderAll cs

end

mutual

def symbols : Code → List Symbol
  | text _ => []
  | symbol s => [s]
  | join parts => symbolsOf parts

def symbolsOf : List Code → List Symbol
  | [] => []
  | c :: cs => c.symbols ++ symbolsOf cs

end

/-- A literal of a text. -/
def quote (s : String) : Code := text (Json.quote s)

/-- Parts with a text between them. -/
def separated (separator : String) : List Code → Code
  | [] => join []
  | [c] => c
  | c :: cs => join [c, separator, separated separator cs]

/-- A generic type at its arguments. -/
def generic (type : Code) (args : List Code) : Code := join [type, "<", separated ", " args, ">"]

/-- A literal of an object, on one line. -/
def object (fields : List (String × Code)) : Code :=
  join ["\x7b ", separated ", " (fields.map fun f => join [f.1, ": ", f.2]), " \x7d"]

end Code

end SchemaForge.TypeScript
