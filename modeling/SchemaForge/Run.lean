import SchemaForge.Configuration.Decoding
import SchemaForge.Disk
import SchemaForge.Generation
import SchemaForge.Samples
/-!
Runs: each input file is loaded, and the units of its schema are written to the output directory.
All inputs share one registry, so no file is written for twice.
-/
namespace SchemaForge.Run

variable {m : Type → Type} [Monad m]

/-- Fails unless an operation on files worked. -/
def require (worked : m Bool) : ExceptT Error m Unit := do
  if !(← worked) then throw .files

/-- The name of the file of the simple sample. -/
def sampleFile : String := "simple_type.schema.json"

/-- Writes the simple sample to a directory. -/
def writeSample (disk : Disk m) (dir : Path) : ExceptT Error m Path := do
  require (disk.makeDirs dir)
  let file := dir.join ⟨sampleFile⟩
  require (disk.write file Samples.simpleType.pretty)
  return file

/-- Writes a unit to a directory. -/
def writeUnit (disk : Disk m) (dir : Path) (unit : CodeUnit) : ExceptT Error m Path := do
  require (disk.makeDirs dir)
  require (disk.replace dir unit.fileName unit.contents)
  return dir.join ⟨unit.fileName⟩

/-- Writes the units of an input file. -/
def writeInput (disk : Disk m) (c : Configuration) (w : Workspace) (input : Path) :
    ExceptT Error m (List Path × Workspace) := do
  let target := "file://" ++ input.text
  let lib ← disk.library c.includeDirs target
  let (root, w) := (Build.load lib target).run w
  let root ← root
  let style : Style := ⟨c.code, ← disk.time⟩
  let (units, registry) := Generation.units style c.code.language w.graph w.registry root
  let written ← (← units).mapM (writeUnit disk c.outputDir)
  return (written, { w with registry })

def writeInputs (disk : Disk m) (c : Configuration) (w : Workspace) :
    List Path → ExceptT Error m (List Path)
  | [] => pure []
  | input :: rest => do
    let (written, w) ← writeInput disk c w input
    return written ++ (← writeInputs disk c w rest)

/-- Writes the sample if that is wanted; it is an input then if there is no other. -/
def inputs (disk : Disk m) (c : Configuration) : ExceptT Error m (List Path) := do
  if c.writeSample then
    let file ← writeSample disk c.outputDir
    return if c.inputFiles.isEmpty then [file] else c.inputFiles
  else return c.inputFiles

/-- Writes all units; the result is the paths of their files. -/
def all (disk : Disk m) (c : Configuration) : ExceptT Error m (List Path) := do
  match c.fault? with
  | some fault => throw (.config fault)
  | none => writeInputs disk c .empty (← inputs disk c)

/-- Reads a configuration from a YAML file. -/
def configuration (disk : Disk m) (p : Path) : ExceptT Error m Configuration := do
  match ← disk.read p with
  | none => throw .files
  | some text =>
    match Configuration.ofYaml? text with
    | some c => return c
    | none => throw (.config (.malformed p))

end SchemaForge.Run
