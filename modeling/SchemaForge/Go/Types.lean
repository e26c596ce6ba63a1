import SchemaForge.Go.Class
/-!
The types of a class: its interface, its parameters, its JSON form and its implementation.
-/
namespace SchemaForge.Go.Class

open SchemaForge.Go.Expr

/-- The writer that a hash is written to. -/
def writerType : GoType := .imported .io "Writer"

def cloneSignature (c : Class) : Signature := ⟨"Clone", [], some c.goType⟩

def lessSignature (c : Class) : Signature := ⟨"Less", [("other", c.goType)], some (.named "bool")⟩

def hashSignature : Signature := ⟨"Hash", [("w", writerType)], none⟩

def asMapSignature : Signature := ⟨"AsMap", [], some .anyMap⟩

def getterSignature (f : Field) : Signature := ⟨f.publicName, [], some f.goType⟩

def interfaceDecl (c : Class) : Decl :=
  .interfaceType c.className <|
    c.fields.map getterSignature ++
      [c.cloneSignature, c.lessSignature, hashSignature, asMapSignature]

def paramDecl (c : Class) : Decl :=
  .structType (typeName c.title "Param") (c.fields.map fun f => ⟨f.publicName, f.goType, ""⟩)

/-- Optional values are behind pointers in JSON. -/
def jsonDecl (c : Class) : Decl :=
  .structType (typeName c.title "Json") <| c.fields.map fun f =>
    ⟨f.publicName, if f.optional then .pointer f.type.jsonType else f.type.jsonType, f.tag⟩

def implDecl (c : Class) : Decl :=
  .structType c.implName (c.fields.map fun f => ⟨f.privateName, f.goType, ""⟩)

/-- A function of the implementation. -/
def implMethod (c : Class) (signature : Signature) (body : List Stmt) : Decl :=
  .method "my" c.implName signature body

/-- A field of the implementation. -/
def own (f : Field) : Expr := field (name "my") f.privateName

def getterDecl (c : Class) (f : Field) : Decl :=
  c.implMethod (getterSignature f) [.ret (own f)]

def cloneDecl (c : Class) : Decl :=
  c.implMethod c.cloneSignature
    [.ret (build c.implName (c.fields.map fun f => (f.privateName, own f)))]

def typeDecls (c : Class) : List Decl :=
  [c.interfaceDecl, c.paramDecl, c.jsonDecl, c.implDecl] ++ c.fields.map c.getterDecl

end SchemaForge.Go.Class
