import SchemaForge.Configuration
/-!
Settings on the command line. Some stand alone, each of the others is followed by a value.
-/
namespace SchemaForge.CommandLine

inductive Setting where
  | writeSample
  | provenance
  | verbose
  | config (file : Path)
  | inputFile (file : Path)
  | includeDir (dir : Path)
  | outputDir (dir : Path)
  | language (language : Language)
  | indent (text : String)
  | packageName (name : String)
  | runtimePath (path : String)
  | resultPath (path : String)
  deriving DecidableEq

namespace Setting

/-- The setting that a flag without a value means. -/
def ofSwitch? (flag : String) : Option Setting :=
  if flag = "--write-test-schema" then some writeSample
  else if flag = "--provenance" then some provenance
  else if flag = "--verbose" then some verbose
  else none

def ofLanguage (value : String) : Except ConfigFault Setting :=
  match Language.ofName? value with
  | some l => .ok (language l)
  | none => .error (.languageUnknown value)

/-- The setting that a flag with a value means. -/
def ofOption (flag value : String) : Except ConfigFault Setting :=
  if flag = "--config" then .ok (config ⟨value⟩)
  else if flag = "--input-file" then .ok (inputFile ⟨value⟩)
  else if flag = "--include-dir" then .ok (includeDir ⟨value⟩)
  else if flag = "--output-dir" then .ok (outputDir ⟨value⟩)
  else if flag = "--eg-language" then ofLanguage value
  else if flag = "--eg-indent" then .ok (indent value)
  else if flag = "--eg-package" then .ok (packageName value)
  else if flag = "--eg-from-wueste" then .ok (runtimePath value)
  else if flag = "--eg-from-result" then .ok (resultPath value)
  else .error (.optionUnknown flag)

/-- Splits arguments into settings; fails at the first one that is none. -/
def read : List String → Except ConfigFault (List Setting)
  | [] => .ok []
  | flag :: rest =>
    match ofSwitch? flag, rest with
    | some s, rest => return s :: (← read rest)
    | none, [] => .error (.valueMissing flag)
    | none, value :: rest => return (← ofOption flag value) :: (← read rest)

/-- Changes a configuration. The file of a configuration has been read by then. -/
def apply (c : Configuration) : Setting → Configuration
  | writeSample => { c with writeSample := true }
  | provenance => { c with code.provenance := true }
  | verbose => c
  | config _ => c
  | inputFile file => { c with inputFiles := c.inputFiles ++ [file] }
  | includeDir dir => { c with includeDirs := c.includeDirs ++ [dir] }
  | outputDir dir => { c with outputDir := dir }
  | language l => { c with code.language := l }
  | indent text => { c with code.indent := text }
  | packageName name => { c with code.packageName := name }
  | runtimePath path => { c with code.runtimePath := path }
  | resultPath path => { c with code.resultPath := path }

/-- Changes a configuration by the settings in arguments. -/
def applyAll (c : Configuration) (args : List String) : Except ConfigFault Configuration :=
  return (← read args).foldl apply c

/-- What follows the first occurrence of a flag, wherever it stands. -/
def valueOf? (flag : String) : List String → Except ConfigFault (Option String)
  | [] => .ok none
  | arg :: rest =>
    if arg = flag then
      match rest with
      | [] => .error (.valueMissing flag)
      | value :: _ => .ok (some value)
    else valueOf? flag rest

end Setting

end SchemaForge.CommandLine
