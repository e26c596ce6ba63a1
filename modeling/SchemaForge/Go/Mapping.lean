import SchemaForge.Go.Hash
/-!
Maps from names to values of any type: how a class becomes one, and how a factory reads one back.
-/
namespace SchemaForge.Go

open SchemaForge.Go.Expr

/-- What a value is in a map, and what has to run before. Objects become maps; lists that lead to
objects are copied. -/
def mapValue (e : Expr) (level : Nat) : ValueType → List Stmt × Expr
  | .object _ => ([], e.send "AsMap" [])
  | .list items =>
    if items.leadsToObject then
      let m := levelName "m" level
      let i := levelName "i" level
      let (before, item) := mapValue (index e (name i)) (level + 1) items
      ([.define [m] (makeSlice (.slice .any) (len e)),
        .loop i e (before ++ [.assign (name m) (call (name "append") [name m, item])])],
        name m)
    else ([], e)
  | _ => ([], e)

/-- Puts a field into the map. -/
def mapField (f : Field) : List Stmt :=
  let target := index (name "res") (text f.name)
  if f.optional then
    let (before, e) := mapValue (name "v") 0 f.type
    [.cond ((Class.own f).send "IsSome" [])
      (.define ["v"] (Class.contents (Class.own f)) :: before ++ [.assign target e])]
  else
    match mapValue (Class.own f) 0 f.type with
    | ([], e) => [.assign target e]
    | (before, e) => [.block (before ++ [.assign target e])]

def Class.asMapDecl (c : Class) : Decl :=
  c.implMethod Class.asMapSignature <|
    .define ["res"] (empty .anyMap) :: c.fields.flatMap mapField ++ [.ret (name "res")]

/-- Returns that a value has not the type that a path should have. -/
def wrongType (c : Class) (source : Expr) (path expected : String) : Stmt :=
  let message := text (path ++ ": expected " ++ expected ++ ", got %T")
  .ret (c.failed (call (imported .fmt "Errorf") [message, source]))

/-- Gives a name the value of an interface at a type, or returns that it has not that type. -/
def assertType (c : Class) (target : String) (source : Expr) (type : GoType)
    (path expected : String) : List Stmt :=
  [.define [target, "ok"] (assert source type),
    .cond (not (name "ok")) [wrongType c source path expected]]

/-- Gives a name the value of a number of any of the types that maps hold. -/
def convertNumber (c : Class) (target : String) (source : Expr) (type : GoType)
    (cases : List String) (path expected : String) : List Stmt :=
  let conversion (t : String) : GoType × Expr :=
    (.named t, if .named t = type then name "x" else convert type (name "x"))
  [.declare target type,
    .typeSwitch source target (cases.map conversion) [wrongType c source path expected]]

/-- What has to run to read a value of a type from an interface, and the value. -/
def readValue (c : Class) (source : Expr) (path : String) (level : Nat) :
    ValueType → List Stmt × Expr
  | .string =>
    let v := levelName "c" level
    (assertType c v source (.named "string") path "string", name v)
  | .boolean =>
    let v := levelName "c" level
    (assertType c v source (.named "bool") path "bool", name v)
  | .integer =>
    let v := levelName "c" level
    (convertNumber c v source (.named "int64") ["int64", "int", "float64"] path "integer", name v)
  | .number =>
    let v := levelName "c" level
    (convertNumber c v source (.named "float64") ["float64", "int64", "int"] path "number", name v)
  | .object title =>
    let m := levelName "m" level
    let o := levelName "o" level
    let factory := call (name ("New" ++ typeName title "Factory")) []
    (assertType c m source .anyMap path "object" ++
      [.define [o] (factory.send "FromMap" [name m]),
        .cond ((name o).send "IsErr" []) [.ret (c.failed ((name o).send "Err" []))]],
      (name o).send "Ok" [])
  | .list items =>
    let r := levelName "r" level
    let s := levelName "s" level
    let i := levelName "i" level
    let (before, item) := readValue c (index (name r) (name i)) path (level + 1) items
    (assertType c r source (.slice .any) path "array" ++
      [.define [s] (makeSlice (.slice items.goType) (len (name r))),
        .loop i (name r) (before ++ [.assign (name s) (call (name "append") [name s, item])])],
      name s)

/-- Reads a field from the map if it is there. -/
def readField (c : Class) (f : Field) : Stmt :=
  let (before, e) := readValue c (name "val") (c.title ++ "." ++ f.name) 0 f.type
  let value := if f.optional then present f.type.goType e else e
  .condDefine ["val", "found"] (index (name "m") (text f.name)) (name "found") <|
    before ++ [.run ((name "b").send f.publicName [value])]

namespace Class

def factoryMethod (c : Class) (signature : Signature) (body : List Stmt) : Decl :=
  .method "f" c.factoryName signature body

def fromMapDecl (c : Class) : Decl :=
  c.factoryMethod ⟨"FromMap", [("m", .anyMap)], some (.result c.goType)⟩ <|
    .define ["b"] ((name "f").send "Builder" []) :: c.fields.map (readField c) ++
      [.ret ((name "b").send "ToClass" [])]

def factoryDecls (c : Class) : List Decl :=
  [.structType c.factoryName [],
    .function ⟨"New" ++ c.factoryName, [], some (.pointer (.named c.factoryName))⟩
      [.ret (address (empty (.named c.factoryName)))],
    c.factoryMethod ⟨"Builder", [], some c.builderType⟩
      [.ret (call (name ("New" ++ c.builderName)) [])],
    c.fromMapDecl]

end Class

end SchemaForge.Go
