import SchemaForge.Configuration
import SchemaForge.Json
import SchemaForge.Yaml.Reader
/-!
Configurations as JSON and YAML write them. Absent settings keep their standard values, unknown
ones are passed over, and everything else must be as it should.
-/
namespace SchemaForge

/-- How a format writes what configurations are made of. -/
structure SettingFormat (Value : Type) where
  text? : Value → Option String
  flag? : Value → Option Bool
  language? : Value → Option Language
  list? : Value → Option (List Value)
  /-- The settings of a record, out of those with the given names. A record may also be written as
  a list of settings in the order of the names. -/
  record? : List String → Value → Option (List (String × Value))

namespace Language

/-- The language that a configuration means by a word. -/
def ofSetting? (word : String) : Option Language :=
  if word = "go" then some go
  else if word = "ts" ∨ word = "typescript" then some typeScript
  else none

end Language

/-- Gives the names to the values in order; fails if there are more values than names. -/
def nameInOrder? {Value : Type} (names : List String) (values : List Value) :
    Option (List (String × Value)) :=
  if values.length ≤ names.length then some (names.zip values) else none

/-- The value of a setting, or the standard one. -/
def setting {Value α : Type} (settings : List (String × Value)) (name : String) (standard : α)
    (read : Value → Option α) : Option α :=
  match settings.lookup name with
  | some v => read v
  | none => some standard

namespace CodeSettings

def settingNames : List String :=
  ["language", "indent", "package_name", "from_wueste", "from_result", "provenance"]

def decode? {Value : Type} (n : SettingFormat Value) (v : Value) : Option CodeSettings := do
  let settings ← n.record? settingNames v
  let text name value := setting settings name value n.text?
  return {
    language := ← setting settings "language" standard.language n.language?
    indent := ← text "indent" standard.indent
    packageName := ← text "package_name" standard.packageName
    runtimePath := ← text "from_wueste" standard.runtimePath
    resultPath := ← text "from_result" standard.resultPath
    provenance := ← setting settings "provenance" standard.provenance n.flag? }

end CodeSettings

namespace SettingFormat

def path? {Value : Type} (n : SettingFormat Value) (v : Value) : Option Path := (n.text? v).map Path.mk

def paths? {Value : Type} (n : SettingFormat Value) (v : Value) : Option (List Path) := do
  (← n.list? v).mapM n.path?

end SettingFormat

namespace Configuration

def settingNames : List String :=
  ["include_dirs", "output_dir", "input_files", "write_test_schema", "entity"]

def decode? {Value : Type} (n : SettingFormat Value) (v : Value) : Option Configuration := do
  let settings ← n.record? settingNames v
  return {
    includeDirs := ← setting settings "include_dirs" standard.includeDirs n.paths?
    outputDir := ← setting settings "output_dir" standard.outputDir n.path?
    inputFiles := ← setting settings "input_files" standard.inputFiles n.paths?
    writeSample := ← setting settings "write_test_schema" standard.writeSample n.flag?
    code := ← setting settings "entity" standard.code (CodeSettings.decode? n) }

end Configuration

namespace Json

def list? : Json → Option (List Json)
  | array items => some items
  | _ => none

def flag? : Json → Option Bool
  | bool b => some b
  | _ => none

/-- A language stands alone, or as a name without a value. -/
def language? : Json → Option Language
  | string s => Language.ofSetting? s
  | object [(name, null)] => Language.ofSetting? name
  | _ => none

def record? (names : List String) : Json → Option (List (String × Json))
  | object members => some (members.filter fun (name, _) => names.contains name)
  | array items => nameInOrder? names items
  | _ => none

/-- Settings in JSON. -/
def settings : SettingFormat Json := ⟨string?, flag?, language?, list?, record?⟩

end Json

namespace Yaml

/-- Every scalar is a text. -/
def text? : Yaml → Option String
  | scalar _ _ text => some text
  | _ => none

def isNothing : Yaml → Bool
  | scalar _ style text => style == .plain && text.isEmpty
  | _ => false

def boolTag : String := "tag:yaml.org,2002:bool"

def flag? : Yaml → Option Bool
  | scalar tag style text =>
    if style = .plain ∨ (style = .literal ∧ tag = boolTag) then
      if ["true", "True", "TRUE"].contains text then some true
      else if ["false", "False", "FALSE"].contains text then some false
      else none
    else none
  | _ => none

/-- A language stands alone, or as a tag of nothing. -/
def language? : Yaml → Option Language
  | scalar tag style text =>
    match tag.toList with
    | '!' :: name =>
      if style = .plain ∧ ["", "~", "null", "Null", "NULL"].contains text then
        Language.ofSetting? (String.ofList name)
      else none
    | _ => Language.ofSetting? text
  | _ => none

def list? : Yaml → Option (List Yaml)
  | sequence items => some items
  | v => if v.isNothing then some [] else none

/-- The known settings of a mapping. Its keys are texts, and no known one occurs twice. -/
def known? (names : List String) : List (Yaml × Yaml) → Option (List (String × Yaml))
  | [] => some []
  | (key, value) :: rest => do
    let key ← key.text?
    let found ← known? names rest
    if !names.contains key then found
    else if (found.lookup key).isSome then none
    else return (key, value) :: found

def record? (names : List String) : Yaml → Option (List (String × Yaml))
  | mapping entries => known? names entries
  | sequence items => nameInOrder? names items
  | v => if v.isNothing then some [] else none

/-- Settings in YAML. -/
def settings : SettingFormat Yaml := ⟨text?, flag?, language?, list?, record?⟩

end Yaml

namespace Configuration

def ofJson? (v : Json) : Option Configuration := decode? Json.settings v

/-- The configuration that a YAML text writes. An empty text leaves everything standard. -/
def ofYaml? (text : String) : Option Configuration :=
  match Yaml.read? text with
  | some (some v) => decode? Yaml.settings v
  | some none => some standard
  | none => none

end Configuration

end SchemaForge
