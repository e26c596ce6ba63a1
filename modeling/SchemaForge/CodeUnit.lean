import SchemaForge.Configuration
import SchemaForge.Digest
import SchemaForge.Graph.Document
import SchemaForge.Layout
/-!
Units of generated code, and where their schemas came from.
-/
namespace SchemaForge

namespace Graph

/-- The file of a node, with its title if it is only a part of the file. -/
def source (g : Graph) (id : NodeId) : String :=
  match g.file? id with
  | some file =>
    if g.isFileRoot id || (g.parent? id).isNone then file.text else file.text ++ "#" ++ g.title id
  | none => g.title id

/-- The digest of a schema. -/
def digest (g : Graph) (id : NodeId) : String := Digest.sha256 (g.document id).compact

end Graph

/-- The lines that tell where a unit came from and when it was written. -/
def provenanceLines (g : Graph) (id : NodeId) (time : String) : List String :=
  ["// GENERATED FROM: " ++ g.source id, "// SCHEMA HASH: " ++ g.digest id,
    "// GENERATED: " ++ time, "// DO NOT EDIT"]

/-- One file of generated code. -/
structure CodeUnit where
  /-- The name of the file in the output directory. -/
  fileName : String
  contents : String
  /-- Objects that the unit refers to. -/
  discovered : List NodeId
  /-- Where its schema came from. -/
  source : String

/-- What a unit is written with: the settings, and the time that it tells. -/
structure Style where
  settings : CodeSettings
  time : String

namespace CodeUnit

/-- Lines that stand at the head of a unit, if it is to tell where it came from. -/
def provenance (style : Style) (g : Graph) (id : NodeId) : List String :=
  if style.settings.provenance then provenanceLines g id style.time else []

/-- Parts of a unit with an empty line between them, without white space at the end of either. -/
def joinParts (header body : List String) : String :=
  let body := Text.trimEnd (Layout.ofLines body)
  let header := Text.trimEnd (Layout.ofLines header)
  if header.isEmpty then body ++ "\n" else header ++ "\n\n" ++ body ++ "\n"

end CodeUnit

end SchemaForge
