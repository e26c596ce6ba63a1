import SchemaForge.Graph.Arrays
import SchemaForge.Naming
import SchemaForge.TypeScript.Syntax
/-!
Objects as TypeScript modules see them: their name, and the names and types of their members.
-/
namespace SchemaForge

namespace Graph

/-- The titles from a node outwards to the root of its file, through at most so many nodes. -/
def titlesOutwards (g : Graph) : Nat → NodeId → List String
  | 0, _ => []
  | limit + 1, id =>
    let own := if (g.title id).isEmpty then [] else [g.title id]
    let outer :=
      if g.isFileRoot id then []
      else match g.parent? id with
        | some parent => g.titlesOutwards limit parent
        | none => []
    own ++ outer

/-- The name of an object: the titles of the objects around it and its own. -/
def objectName (g : Graph) (id : NodeId) : String :=
  Naming.tsPublic ("$".intercalate (g.titlesOutwards (g.size + 1) id).reverse)

end Graph

namespace TypeScript

inductive ValueType where
  | string (format : Option StringFormat)
  | integer (format : Option IntegerFormat)
  | number (format : Option NumberFormat)
  | boolean
  | list (items : ValueType)
  /-- An object without members. -/
  | record (head : ObjectHead)
  /-- An object with members, by its name. -/
  | object (name : String)

structure Field where
  name : String
  type : ValueType
  optional : Bool
  default : Option Json

structure Class where
  /-- The name that the module is about. -/
  name : String
  head : ObjectHead
  fields : List Field

namespace ValueType

/-- Lists around a type. -/
def nested (leaf : ValueType) : Nat → ValueType
  | 0 => leaf
  | depth + 1 => list (nested leaf depth)

def ofLeaf : Leaf → ValueType
  | .string _ format => string format
  | .integer _ format .. => integer format
  | .number _ format .. => number format
  | .boolean _ => boolean

/-- What lists hold in the end, and through how many of them. -/
def innermost : ValueType → ValueType × Nat
  | list items => (items.innermost.1, items.innermost.2 + 1)
  | t => (t, 0)

end ValueType

/-- Names that builders have in any case. -/
def builderMethods : List String :=
  ["param", "CoerceAttribute", "Coerce", "Get", "ToObject", "ToPayload"]

/-- The type of a member. Objects with members need a title, and texts with a date or a time alone
have no type. -/
def memberType? (g : Graph) (title member : String) (node : NodeId) :
    Except ShapeFault ValueType :=
  match g.arrayChain? node with
  | none => .error (.endlessArray title member)
  | some chain =>
    match g.property? chain.leaf with
    | some ⟨_, .leaf (.string _ (some .date))⟩ =>
      .error (.stringFormat title member StringFormat.date.name)
    | some ⟨_, .leaf (.string _ (some .time))⟩ =>
      .error (.stringFormat title member StringFormat.time.name)
    | some ⟨_, .leaf l⟩ => .ok ((ValueType.ofLeaf l).nested chain.depth)
    | some ⟨_, .object head []⟩ => .ok ((ValueType.record head).nested chain.depth)
    | some ⟨_, .object head (_ :: _)⟩ =>
      if head.titleText.isEmpty then .error (.untitledMember title member head.idText)
      else .ok ((ValueType.object (g.objectName chain.leaf)).nested chain.depth)
    | _ => .error (.endlessArray title member)

def field? (g : Graph) (title : String) (m : Member) : Except ShapeFault Field :=
  if builderMethods.contains (Naming.tsPublic m.name) then .error (.builderMethod title m.name)
  else match memberType? g title m.name m.node with
    | .ok type => .ok ⟨m.name, type, m.optional, (g.property? m.node).bind Property.default?⟩
    | .error e => .error e

/-- The class of an object. -/
def Class.ofNode? (g : Graph) (id : NodeId) : Except ShapeFault Class := do
  match g.object? id with
  | none => throw (.notObject id (g.kind id))
  | some (head, members) =>
    let title := head.titleText
    if title.isEmpty then throw (.untitled head.idText "typescript")
    match MemberNames.fault? title Naming.tsPublic (members.map Member.name) with
    | some fault => throw fault
    | none => pure ()
    let fields ← members.mapM (field? g title)
    return ⟨g.objectName id, head, fields⟩

namespace ValueType

def isDateTime : ValueType → Bool
  | string (some .dateTime) => true
  | _ => false

/-- The format of a value, unless it holds other values. -/
def format? : ValueType → Option String
  | string f => f.map StringFormat.name
  | integer f => f.map IntegerFormat.name
  | number f => f.map NumberFormat.name
  | _ => none

/-- Objects without members. -/
def recordType : Code := .runtime "WuestenObject"

/-- The type of values that are read. -/
def viewType : ValueType → Code
  | string f => if (string f).isDateTime then "Date" else "string"
  | integer _ | number _ => "number"
  | boolean => "boolean"
  | list items => .join [items.viewType, "[]"]
  | record _ => recordType
  | object name => .symbol (.object name "")

/-- The type of values that can become values of the type. -/
def coerceType : ValueType → Code
  | string f =>
    .runtime (if (string f).isDateTime then "WuesteCoerceTypeDate" else "WuesteCoerceTypestring")
  | integer _ | number _ => .runtime "WuesteCoerceTypenumber"
  | boolean => .runtime "WuesteCoerceTypeboolean"
  | list items => .join [items.coerceType, "[]"]
  | record _ => recordType
  | object name => .symbol (.object name "CoerceType")

/-- The type of values on the wire. -/
def wireType : ValueType → Code
  | string _ => "string"
  | integer _ | number _ => "number"
  | boolean => "boolean"
  | list items => .join [items.wireType, "[]"]
  | record _ => recordType
  | object name => .symbol (.object name "Object")

/-- Whether values are other values on the wire. -/
def isConverted : ValueType → Bool
  | list items => items.isConverted
  | object _ => true
  | t => t.isDateTime

def isList : ValueType → Bool
  | list _ => true
  | _ => false

end ValueType

namespace Field

def publicName (f : Field) : String := Naming.tsPublic f.name

def privateName (f : Field) : String := Naming.tsPrivate f.name

/-- What a type becomes for an optional field. -/
def orUndefined (f : Field) (type : Code) : Code :=
  if f.optional then .join [type, " | undefined"] else type

/-- The field of an object. -/
def of (f : Field) (object : String) : String :=
  if f.publicName.toList.head? == some '"' then object ++ "[" ++ f.publicName ++ "]"
  else object ++ "." ++ f.publicName

end Field

namespace Class

/-- A name that the module declares. -/
def named (c : Class) (suffix : String) : String := c.name ++ suffix

/-- A name that the module declares, as a symbol. -/
def symbol (c : Class) (suffix : String) : Code := .symbol (.object c.name suffix)

end Class

end TypeScript

end SchemaForge
