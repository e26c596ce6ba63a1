import SchemaForge.TypeScript.Types
/-!
What a module says of its own schema: a description of it, and a walk through the values that are
described.
-/
namespace SchemaForge.TypeScript

/-- A part of a literal that stands only if there is a value. -/
def givenText (key : String) (value : Option String) : List (String × Literal) :=
  (value.map fun s => (key, Literal.value (.quote s))).toList

def nonempty (s : String) : Option String := if s.isEmpty then none else some s

/-- The description of an object, apart from its members. -/
def headFields (head : ObjectHead) : List (String × Literal) :=
  let required := head.required.getD []
  givenText "id" (nonempty head.idText) ++ [("type", .value (.quote "object"))] ++
    givenText "schema" head.schema ++ givenText "title" (nonempty head.titleText) ++
    if required.isEmpty then []
    else [("required", .value (.join ["[", .separated ", " (required.map .quote), "]"]))]

/-- The description of values of a type. Objects with members have their own; lists go by the path
that leads to them. -/
def describe (path : String) : ValueType → Literal
  | .object name => .value (.symbol (.object name "Schema"))
  | .record head => .object (headFields head)
  | .list items =>
    .object [("id", .value (.quote path)), ("type", .value (.quote "array")),
      ("items", describe path items)]
  | .string f => leaf "string" (ValueType.string f)
  | .integer f => leaf "integer" (ValueType.integer f)
  | .number f => leaf "number" (ValueType.number f)
  | .boolean => leaf "boolean" .boolean
where
  leaf (name : String) (t : ValueType) : Literal :=
    .object (("type", .value (.quote name)) :: givenText "format" t.format?)

def describeField (title : String) (f : Field) : Literal :=
  .object [("type", .value (.quote "objectitem")), ("name", .value (.quote f.name)),
    ("property", describe (title ++ "." ++ f.name) f.type)]

/-- Hands a value and its place to a function, or leaves it to the module of its object. -/
def visit (v : String) (place : Code) (level : Nat) : ValueType → Stmt
  | .object name =>
    .run (.join [.symbol (.object name "Getter"), "(", v, ", ", place, ").Apply(fn)"])
  | .list items =>
    let e := levelName "e" level
    .forOf e v [visit e place (level + 1) items]
  | _ => .run (.join ["fn(", place, ", ", v, ")"])

namespace Class

def schemaDecl (c : Class) : Decl :=
  let properties :=
    if c.fields.isEmpty then []
    else [("properties", Literal.array (c.fields.map (describeField c.head.titleText)))]
  .literal true (c.named "Schema") (.runtime "WuestenReflectionObject")
    (.object (headFields c.head ++ properties))

/-- Visits a field, if it has a value; its place is known by its index. -/
def visitField (c : Class) (f : Field) (index : Nat) : Stmt :=
  let place : Code :=
    .join ["[...base, ", c.symbol "Schema", ", items[", Decimal.natText index, "]]"]
  let visited := visit (f.of "v") place 0 f.type
  if f.optional then .cond (.join ["typeof ", f.of "v", " !== \"undefined\""]) [visited]
  else visited

def getterDecl (c : Class) : Decl :=
  .function true (c.named "Getter")
    (.join ["v: ", c.symbol "", ", base: ", .runtime "WuestenReflection", "[] = []"])
    (.runtime "WuestenGetterBuilder")
    [.retFunction (.join ["new ", .runtime "WuestenGetterBuilder"]) "fn" <|
      .constant "items" none (.join [c.symbol "Schema", ".properties ?? []"]) ::
        c.fields.zipIdx.map fun (f, i) => c.visitField f i]

end Class

end SchemaForge.TypeScript
