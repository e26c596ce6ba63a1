import SchemaForge.Error
import SchemaForge.Language
import SchemaForge.Text.Blank
/-!
The settings of a run.
-/
namespace SchemaForge

/-- How the written code looks. -/
structure CodeSettings where
  language : Language
  /-- One step of indentation. -/
  indent : String
  /-- The package of Go code. -/
  packageName : String
  /-- Where TypeScript code finds its runtime. -/
  runtimePath : String
  /-- Where TypeScript code finds the type of results. -/
  resultPath : String
  /-- Whether a unit starts with the source of its schema, its digest and the time. -/
  provenance : Bool
  deriving DecidableEq

def CodeSettings.standard : CodeSettings :=
  ⟨.typeScript, "  ", "please_set_this", "wueste/wueste", "wueste/result", false⟩

structure Configuration where
  includeDirs : List Path
  outputDir : Path
  /-- Schema files, each with a run of its own. -/
  inputFiles : List Path
  /-- Whether the simple sample is written to the output directory. -/
  writeSample : Bool
  code : CodeSettings
  deriving DecidableEq

namespace Configuration

def standard : Configuration := ⟨[], ⟨"./"⟩, [], false, .standard⟩

/-- The first reason why no code can be written, if there is one. -/
def fault? (c : Configuration) : Option ConfigFault :=
  if c.code.indent.isEmpty then some .emptyIndent
  else if c.code.language = .go ∧ Text.isAllBlank c.code.packageName then some .emptyPackage
  else if c.inputFiles.isEmpty ∧ c.writeSample = false then some .noInput
  else none

end Configuration

end SchemaForge
