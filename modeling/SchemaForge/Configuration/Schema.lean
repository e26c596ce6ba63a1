import SchemaForge.Configuration.Decoding
import SchemaForge.Json.Printer
/-!
The JSON schema of configurations.
-/
namespace SchemaForge

/-- Settings of code as JSON, in the order of their names. -/
def CodeSettings.json (s : CodeSettings) : Json :=
  .object (settingNames.zip [.string s.language.name, .string s.indent, .string s.packageName,
    .string s.runtimePath, .string s.resultPath, .bool s.provenance])

namespace Configuration.Schema

/-- Describes a setting: in words, by the schema of its values, and by its standard value. -/
def described (description : String) (shape : Members) (standard : Json) : Json :=
  .object (("description", .string description) :: shape ++ [("default", standard)])

def type (name : String) : String × Json := ("type", .string name)

/-- Refers to one of the definitions. -/
def defined (name : String) : String × Json := ("$ref", .string ("#/$defs/" ++ name))

def texts : Members := [type "array", ("items", .object [type "string"])]

def codeSettings : Json :=
  let s := CodeSettings.standard
  .object [
    ("description", .string "Settings for the emitted code"),
    type "object",
    ("properties", .object [
      ("language", described "Target language" [defined "Language"] (.string s.language.name)),
      ("indent", described "One indentation step" [type "string"] (.string s.indent)),
      ("package_name", described "Go package name" [type "string"] (.string s.packageName)),
      ("from_wueste", described "TypeScript import path of the wueste runtime" [type "string"]
        (.string s.runtimePath)),
      ("from_result", described "TypeScript import path of the \x60Result\x60 type" [type "string"]
        (.string s.resultPath)),
      ("provenance", described "Head every file with its schema source, hash and generation time"
        [type "boolean"] (.bool s.provenance))])]

def language : Json :=
  .object [
    ("description", .string "Target language"),
    type "string",
    ("enum", .array ([Language.go, .typeScript].map fun l => .string l.name))]

def configuration : Json :=
  let c := Configuration.standard
  let paths (ps : List Path) := Json.array (ps.map fun p => .string p.text)
  .object [
    ("$schema", .string "https://json-schema.org/draft/2020-12/schema"),
    ("title", .string "GeneratorConfig"),
    ("description", .string "One generation run"),
    type "object",
    ("properties", .object [
      ("include_dirs", described
        "Directories searched for \x60file://\x60 refs after the referencing file's own" texts
        (paths c.includeDirs)),
      ("output_dir", described "Where generated files are written" [type "string"]
        (.string c.outputDir.text)),
      ("input_files", described "Root schema files, each generated separately" texts
        (paths c.inputFiles)),
      ("write_test_schema", described
        "Write the built-in \x60SimpleType\x60 schema into the output directory" [type "boolean"]
        (.bool c.writeSample)),
      ("entity", .object [defined "EntityConfig", ("default", c.code.json)])]),
    ("$defs", .object [("EntityConfig", codeSettings), ("Language", language)])]

end Configuration.Schema

/-- The schema of configurations as text. -/
def Configuration.schemaText : String := Schema.configuration.pretty

end SchemaForge
