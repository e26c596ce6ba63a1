import SchemaForge.CodeUnit
import SchemaForge.Go.Mapping
/-!
Go files: one for each object, with all of its types and functions.
-/
namespace SchemaForge.Go

def Class.decls (c : Class) : List Decl :=
  c.typeDecls ++ c.builderDecls ++ [c.cloneDecl, c.lessDecl, c.hashDecl, c.asMapDecl] ++
    c.factoryDecls

/-- The lines of the package clause and of the imports. -/
def header (settings : CodeSettings) (packages : List Package) : List String :=
  let imports := packages.map fun p => settings.indent ++ Json.quote p.path
  let clause :=
    if settings.packageName.isEmpty then "package" else "package " ++ settings.packageName
  [clause, "", "import ("] ++ imports ++ [")"]

def fileName (g : Graph) (id : NodeId) : String := Naming.fileStem (g.title id) ++ ".go"

def contents (style : Style) (g : Graph) (id : NodeId) (c : Class) : String :=
  let provenance := CodeUnit.provenance style g id
  let gap := if provenance.isEmpty then [] else [""]
  CodeUnit.joinParts (provenance ++ gap ++ header style.settings (Decl.imports c.decls))
    (Layout.render style.settings.indent (Decl.layouts c.decls))

/-- The Go file of an object. -/
def unit? (style : Style) (g : Graph) (id : NodeId) : Except ShapeFault CodeUnit := do
  let c ← Class.ofNode? g id
  return {
    fileName := fileName g id
    contents := contents style g id c
    discovered := (g.children id).filterMap g.memberObject?
    source := g.source id }

end SchemaForge.Go
