import SchemaForge.CodeUnit
import SchemaForge.TypeScript.Factory
/-!
TypeScript modules: one for each object, with all of its types and values, and with the imports that
its declarations need, sorted.
-/
namespace SchemaForge.TypeScript

/-- Puts a name in its place among sorted names, unless it is there. -/
def insertSorted (name : String) : List String → List String
  | [] => [name]
  | n :: ns =>
    if name < n then name :: n :: ns else if name = n then n :: ns else n :: insertSorted name ns

/-- Names in order, each once. -/
def sorted (names : List String) : List String := names.foldr insertSorted []

/-- One module and the names that are imported from it. -/
structure Import where
  source : String
  names : List String

/-- The imports that declarations of a module need. -/
def imports (settings : CodeSettings) (own : String) (decls : List Decl) : List Import :=
  let pairs := (decls.flatMap Decl.symbols).filterMap (·.import? settings own)
  (sorted (pairs.map Prod.fst)).map fun source =>
    ⟨source, sorted ((pairs.filter (·.1 == source)).map Prod.snd)⟩

/-- Names that each take a line, with commas between them. -/
def nameLines (indent : String) : List String → List String
  | [] => []
  | [n] => [indent ++ n]
  | n :: ns => (indent ++ n ++ ",") :: nameLines indent ns

/-- Up to three names stand on one line. -/
def Import.lines (indent : String) (i : Import) : List String :=
  if i.names.length ≤ 3 then
    ["import \x7b " ++ ", ".intercalate i.names ++ " \x7d from " ++ Json.quote i.source ++ ";"]
  else
    "import \x7b" :: nameLines indent i.names ++ ["\x7d from " ++ Json.quote i.source ++ ";"]

def Class.decls (c : Class) : List Decl :=
  [c.viewDecl, c.paramDecl, c.wireDecl, c.toObjectDecl, c.getterDecl, c.schemaDecl, c.resultsDecl,
    c.coerceTypeDecl] ++ c.fields.filterMap c.coercionDecl? ++
    [c.builderDecl, c.namesDecl, c.factoryClassDecl, c.factoryDecl]

def fileName (g : Graph) (id : NodeId) : String := Naming.fileStem (g.objectName id) ++ ".ts"

def contents (style : Style) (g : Graph) (id : NodeId) (c : Class) : String :=
  let provenance := CodeUnit.provenance style g id
  let gap := if provenance.isEmpty then [] else [""]
  let lines := (imports style.settings c.name c.decls).flatMap (·.lines style.settings.indent)
  CodeUnit.joinParts (provenance ++ gap ++ lines)
    (Layout.render style.settings.indent (Decl.layouts c.decls))

/-- The TypeScript module of an object. -/
def unit? (style : Style) (g : Graph) (id : NodeId) : Except ShapeFault CodeUnit := do
  let c ← Class.ofNode? g id
  return {
    fileName := fileName g id
    contents := contents style g id c
    discovered := (g.children id).filterMap g.memberObject?
    source := g.source id }

end SchemaForge.TypeScript
