import SchemaForge.CommandLine.Setting
import SchemaForge.Configuration.Schema
import SchemaForge.Run
/-!
The program: one command, followed by its arguments.
-/
namespace SchemaForge.CommandLine

def programName : String := "wueste-gen"

def version : String := "0.1.0"

inductive Command where
  | generate
  | schema
  | version
  | help
  | unknown (name : String)

def Command.ofName (name : String) : Command :=
  if name = "generate" then generate
  else if name = "schema" then schema
  else if ["version", "--version", "-v"].contains name then version
  else if ["help", "--help", "-h"].contains name then help
  else unknown name

/-- What a program leaves behind besides files. -/
structure Outcome where
  code : Nat
  output : String
  complaint : String

def usage : String :=
  "\n".intercalate [
    "",
    programName ++ " - Generate entity builders from JSON schemas",
    "",
    "USAGE:",
    "    " ++ programName ++ " <COMMAND> [OPTIONS]",
    "",
    "COMMANDS:",
    "    generate [OPTIONS]               Generate code for the given schema files",
    "    schema                           Print JSON schema of the config file",
    "    version                          Print version",
    "",
    "GENERATE OPTIONS:",
    "    --config <file.yaml>             Read settings from a YAML file (flags override it)",
    "    --input-file <file>              Root schema file (repeatable)",
    "    --include-dir <dir>              Extra directory searched for file:// refs (repeatable)",
    "    --output-dir <dir>               Output directory (default: ./)",
    "    --write-test-schema              Write the built-in SimpleType schema and generate it",
    "    --eg-language <ts|go>            Target language (default: ts)",
    "    --eg-indent <text>               Indentation step (default: two spaces)",
    "    --eg-package <name>              Go package name",
    "    --eg-from-wueste <path>          TypeScript import path of the wueste runtime",
    "    --eg-from-result <path>          TypeScript import path of the Result type",
    "    --provenance                     Head files with source, schema hash and timestamp",
    "    --verbose                        Debug logging (RUST_LOG overrides)",
    "",
    "EXAMPLES:",
    "    " ++ programName ++
      " generate --input-file schema/base.schema.json --output-dir src/generated",
    "    " ++ programName ++
      " generate --eg-language go --eg-package entity --input-file user.schema.json",
    "    " ++ programName ++ " generate --write-test-schema --output-dir /tmp/out",
    "",
    ""]

def Outcome.ofError (e : Error) : Outcome := ⟨1, "", "Error: " ++ e.message ++ "\n"⟩

variable {m : Type → Type} [Monad m]

/-- The configuration of a run: that of a file, if one is given, changed by all settings. -/
def configuration (disk : Disk m) (args : List String) : ExceptT Error m Configuration := do
  let file ← match Setting.valueOf? "--config" args with
    | .ok file => pure file
    | .error fault => throw (.config fault)
  let c ← match file with
    | some file => Run.configuration disk ⟨file⟩
    | none => pure .standard
  match Setting.applyAll c args with
  | .ok c => return c
  | .error fault => throw (.config fault)

def generate (disk : Disk m) (args : List String) : ExceptT Error m (List Path) := do
  Run.all disk (← configuration disk args)

def run (disk : Disk m) : List String → m Outcome
  | [] => return ⟨1, usage, ""⟩
  | name :: args =>
    match Command.ofName name with
    | .generate => do
      match ← (generate disk args).run with
      | .ok _ => return ⟨0, "", ""⟩
      | .error e => return .ofError e
    | .schema => return ⟨0, Configuration.schemaText ++ "\n", ""⟩
    | .version => return ⟨0, programName ++ " " ++ version ++ "\n", ""⟩
    | .help => return ⟨0, usage, ""⟩
    | .unknown name =>
      let failed := Outcome.ofError .unknownCommand
      let complaint := "Unknown command: " ++ name ++ "\n" ++ failed.complaint
      return { failed with output := usage, complaint }

end SchemaForge.CommandLine
