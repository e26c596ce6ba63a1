import SchemaForge.TypeScript.Class
/-!
The types of a module: what is read, what is given, what is on the wire and what a builder
collects. On the wire, moments become texts, and objects become what their own modules make of them.
-/
namespace SchemaForge.TypeScript

namespace Class

/-- What is read from a value. -/
def viewDecl (c : Class) : Decl :=
  .interface true c.name <| c.fields.map fun f =>
    ⟨f.publicName, f.optional, f.orUndefined f.type.viewType⟩

/-- What is given for a value. What has a default may be missing. -/
def paramDecl (c : Class) : Decl :=
  .interface true (c.named "Param") <| c.fields.map fun f =>
    ⟨f.publicName, f.optional || f.default.isSome, f.type.coerceType⟩

/-- What is on the wire. -/
def wireDecl (c : Class) : Decl :=
  .interface true (c.named "Object") <| c.fields.map fun f =>
    ⟨Json.quote f.name, f.optional, f.type.wireType⟩

/-- What a builder has for each field. -/
def resultsDecl (c : Class) : Decl :=
  .interface false (c.named "Results") <| c.fields.map fun f =>
    ⟨f.privateName, false, .generic .result [f.orUndefined f.type.viewType]⟩

/-- All that can become a value. -/
def coerceTypeDecl (c : Class) : Decl :=
  let partly (suffix : String) : Code := .generic "Partial" [c.symbol suffix]
  .alias (c.named "CoerceType")
    (.separated " | " [partly "", partly "Param", partly "Object"])

end Class

/-- The name of a variable of a level. -/
def levelName (letter : String) (level : Nat) : String := letter ++ Decimal.natText level

/-- What a value is on the wire, and what has to run before. Lists of values that change are
copied. -/
def wireValue (v : String) (level : Nat) : ValueType → List Stmt × Code
  | .string f => ([], if (ValueType.string f).isDateTime then .join [v, ".toISOString()"] else v)
  | .object name => ([], .join [.symbol (.object name "Factory"), ".ToObject(", v, ")"])
  | .list items =>
    if items.isConverted then
      let o := levelName "o" level
      let e := levelName "e" level
      let (before, item) := wireValue e (level + 1) items
      ([.constant o (some (.join [items.wireType, "[]"])) "[]",
        .forOf e v (before ++ [.run (.join [o, ".push(", item, ")"])])],
        o)
    else ([], v)
  | _ => ([], v)

/-- Puts a field into the object on the wire, if it has a value. -/
def wireField (f : Field) : Stmt :=
  let (before, value) := wireValue (f.of "v0") 0 f.type
  let set : Stmt := .assign (.join ["ret[", .quote f.name, "]"]) value
  if f.optional then .cond (.join ["typeof ", f.of "v0", " !== \"undefined\""]) (before ++ [set])
  else if before.isEmpty then set
  else .block (before ++ [set])

def Class.toObjectDecl (c : Class) : Decl :=
  .function true (c.named "ToObject") (.join ["v0: ", c.symbol ""]) (c.symbol "Object") <|
    .constant "ret" (some "Record<string, unknown>") "\x7b\x7d" :: c.fields.map wireField ++
      [.ret (.join ["ret as unknown as ", c.symbol "Object"])]

end SchemaForge.TypeScript
