import SchemaForge.Decimal.Digits
import SchemaForge.Kind
import SchemaForge.Path
import SchemaForge.Text.Quoted
/-!
What can go wrong, and the words for it.
-/
namespace SchemaForge

/-- Why a value cannot serve as a default or bound. -/
inductive CoercionFault where
  /-- A default of a kind (in the words for JSON values) that the schema cannot take. -/
  | unusable (found : String) (kind : Kind)
  | unreadable (text : String) (kind : Kind)
  | boundNotNumber (found : String)
  deriving DecidableEq

def CoercionFault.message : CoercionFault → String
  | unusable found kind => s!"cannot use {found} as {kind.name} default"
  | unreadable text kind => s!"cannot parse {kind.name} default: {Text.quoted text}"
  | boundNotNumber found => s!"bound must be a number, found {found}"

/-- A fault in the structure of one schema document. -/
inductive Fault where
  | typeMissing
  | typeNotString (found : String)
  | typeUnknown (name : String)
  | requiredNotArray (found : String)
  | requiredNotString (index : Nat) (found : String)
  | propertiesNotObject (found : String)
  | memberNotObject (found : String)
  | idMissing
  | itemsMissing
  | formatUnknown (kind : Kind) (format : String)
  | coercion (fault : CoercionFault)
  /-- A fault of the schema of a member. -/
  | within (member : String) (fault : Fault)
  deriving DecidableEq

def Fault.message : Fault → String
  | typeMissing => "missing type"
  | typeNotString found => s!"type must be a string, found {found}"
  | typeUnknown name => s!"unknown type: {name}"
  | requiredNotArray found => s!"required must be an array, found {found}"
  | requiredNotString index found =>
    s!"required[{Decimal.natText index}] must be a string, found {found}"
  | propertiesNotObject found => s!"properties must be an object, found {found}"
  | memberNotObject found => s!"must be an object, found {found}"
  | idMissing => "object with properties needs a non-empty $id"
  | itemsMissing => "array without items"
  | formatUnknown kind format => s!"unknown {kind.name} format: {format}"
  | coercion fault => fault.message
  | within member fault => s!"{member}: {fault.message}"

/-- Why a file did not yield a schema document. -/
inductive LoadFault where
  | noSuchFile
  | unreadable
  | malformed
  /-- The text is a JSON value of another kind. -/
  | notAnObject (found : String)
  deriving DecidableEq

def LoadFault.message : LoadFault → String
  | noSuchFile => "no such file"
  | unreadable => "cannot be read"
  | malformed => "not a JSON text"
  | notAnObject found => s!"expected a JSON object, found {found}"

/-- Why a reference leads nowhere. -/
inductive ReferenceFault where
  | inDocument (reference : String)
  | scheme (reference : String)
  | missing (reference : String) (searched : List Path)
  | circular (reference : String)
  deriving DecidableEq

def ReferenceFault.message : ReferenceFault → String
  | inDocument reference => s!"local ref not supported: {Text.quoted reference}"
  | scheme reference => s!"only file:// ref supported: {Text.quoted reference}"
  | missing reference searched =>
    let paths := ", ".intercalate (searched.map Path.text)
    s!"cannot find {Text.quoted reference} (searched: {paths})"
  | circular reference => s!"{Text.quoted reference} only refers back to itself"

/-- Why no code can be written for a schema. -/
inductive ShapeFault where
  | rootNotObject (found : Kind)
  | notObject (node : Nat) (found : Kind)
  /-- An object whose title should name types of a language. -/
  | untitled (id language : String)
  | untitledMember (title member id : String)
  | noProperties (title member : String)
  | unnamedMember (title member : String)
  | identifierTaken (title member identifier other : String)
  | builderMethod (title member : String)
  | stringFormat (title member format : String)
  /-- Arrays of arrays that never come to an item. -/
  | endlessArray (title member : String)
  deriving DecidableEq

def ShapeFault.message : ShapeFault → String
  | rootNotObject found => s!"root schema must be an object, found {found.name}"
  | notObject node found => s!"#{Decimal.natText node} is a {found.name}, not an object"
  | untitled id language => s!"object {Text.quoted id} needs a title to name {language} types"
  | untitledMember title member id => s!"{title}.{member}: object {Text.quoted id} needs a title"
  | noProperties title member => s!"{title}.{member}: object without properties"
  | unnamedMember title member => s!"{title}.{member}: member name yields an empty identifier"
  | identifierTaken title member identifier other =>
    s!"{title}.{member}: identifier {identifier} is already used by member {Text.quoted other}"
  | builderMethod title member => s!"{title}.{member}: member name collides with a builder method"
  | stringFormat title member format =>
    s!"{title}.{member}: string format {format} is not supported"
  | endlessArray title member => s!"{title}.{member}: array without end"

/-- What is wrong with the settings of a run. -/
inductive ConfigFault where
  | emptyIndent
  | emptyPackage
  | noInput
  | valueMissing (flag : String)
  | languageUnknown (name : String)
  | optionUnknown (flag : String)
  | malformed (path : Path)
  deriving DecidableEq

def ConfigFault.message : ConfigFault → String
  | emptyIndent => "entity.indent must not be empty"
  | emptyPackage => "entity.package_name is required for go output"
  | noInput => "no input file given (use --input-file or --write-test-schema)"
  | valueMissing flag => s!"{flag} expects a value"
  | languageUnknown name => s!"unknown language: {name}"
  | optionUnknown flag => s!"unknown option: {flag}"
  | malformed path => s!"Failed to parse {path.text}: YAML error: not a configuration"

inductive Error where
  | load (path : Path) (fault : LoadFault)
  | reference (fault : ReferenceFault)
  /-- Every fault found in one schema document; the context names the document. -/
  | structural (context : String) (faults : List Fault)
  | shape (fault : ShapeFault)
  | config (fault : ConfigFault)
  | files
  | yaml
  | unknownCommand
  deriving DecidableEq

def Error.message : Error → String
  | load path fault => s!"Load error: {path.text}: {fault.message}"
  | reference fault => s!"Resolution error: {fault.message}"
  | structural context faults =>
    let messages := "\n".intercalate (faults.map Fault.message)
    s!"Structural errors in {context}:\n{messages}"
  | shape fault => s!"Unsupported schema shape: {fault.message}"
  | config fault => s!"Config error: {fault.message}"
  | files => "IO error: a file cannot be read or written"
  | yaml => "YAML error: not a configuration"
  | unknownCommand => "Unknown command"

end SchemaForge
