import SchemaForge.Go.Types
/-!
Builders: an attribute for each field, which a setter fills. A class comes out once no attribute
is unset.
-/
namespace SchemaForge.Go

open SchemaForge.Go.Expr

/-- The call of a method. -/
def Expr.send (e : Expr) (method : String) (args : List Expr) : Expr := call (field e method) args

/-- A value of an optional type. -/
def Expr.present (type : GoType) (e : Expr) : Expr := call (applied .options "Some" type) [e]

namespace Field

def attributeType (f : Field) : GoType := .applied .attributes "Attribute" f.goType

/-- The attribute that a builder starts with. An optional field without default has a value from
the start, namely none; every other one waits for its value. -/
def initial (f : Field) : Expr :=
  let start := if f.optional && f.default.isNone then "MustAttribute" else "OptionalAttribute"
  call (applied .attributes start f.goType) []

/-- What a builder gives the field at the start. -/
def seed? (f : Field) : Option Expr :=
  f.default.map fun v =>
    if f.optional then present f.type.goType (Expr.default v) else Expr.default v

/-- Whether the field must be set. -/
def isNeeded (f : Field) : Bool := !f.optional && f.default.isNone

/-- The attribute of the field in a builder. -/
def slot (f : Field) : Expr := field (.name "b") f.privateName

end Field

namespace Class

def builderType (c : Class) : GoType := .pointer (.named c.builderName)

def builderDecl (c : Class) : Decl :=
  .structType c.builderName (c.fields.map fun f => ⟨f.privateName, f.attributeType, ""⟩)

def newBuilderDecl (c : Class) : Decl :=
  .function ⟨"New" ++ c.builderName, [], some c.builderType⟩ <|
    .define ["b"] (build c.builderName (c.fields.map fun f => (f.privateName, f.initial))) ::
      c.fields.filterMap (fun f => f.seed?.map fun e => .run (f.slot.send "Set" [e])) ++
      [.ret (name "b")]

def builderMethod (c : Class) (signature : Signature) (body : List Stmt) : Decl :=
  .method "b" c.builderName signature body

def setterDecl (c : Class) (f : Field) : Decl :=
  c.builderMethod ⟨f.publicName, [("v", f.goType)], some c.builderType⟩
    [.run (f.slot.send "Set" [name "v"]), .ret (name "b")]

def errorType : GoType := .named "error"

/-- The value of an optional. -/
def contents (e : Expr) : Expr := deref (e.send "Value" [])

/-- Reports the attribute of a field if it is not valid. -/
def check (c : Class) (f : Field) : Stmt :=
  let message := text (c.title ++ "." ++ f.name ++ ": %s")
  let cause := (paren (contents (name "valid"))).send "Error" []
  .condDefine ["valid"] (f.slot.send "IsValid" []) ((name "valid").send "IsSome" []) <|
    [.ret (present errorType (call (imported .fmt "Errorf") [message, cause]))]

def isValidDecl (c : Class) : Decl :=
  c.builderMethod ⟨"IsValid", [], some (.optional errorType)⟩ <|
    (c.fields.filter Field.isNeeded).map c.check ++
      [.ret (call (applied .options "None" errorType) [])]

/-- The failed result of an error. -/
def failed (c : Class) (e : Expr) : Expr := call (applied .options "Err" c.goType) [e]

def toClassDecl (c : Class) : Decl :=
  c.builderMethod ⟨"ToClass", [], some (.result c.goType)⟩
    [.condDefine ["valid"] ((name "b").send "IsValid" []) ((name "valid").send "IsSome" [])
        [.ret (c.failed (contents (name "valid")))],
      .ret (call (applied .options "Ok" c.goType)
        [build c.implName (c.fields.map fun f => (f.privateName, f.slot.send "Get" []))])]

def builderDecls (c : Class) : List Decl :=
  [c.builderDecl, c.newBuilderDecl] ++ c.fields.map c.setterDecl ++
    [c.isValidDecl, c.toClassDecl]

end Class

end SchemaForge.Go
