import SchemaForge.Go.Syntax
import SchemaForge.Graph.Arrays
import SchemaForge.Naming
/-!
Objects as Go code sees them: their title, and the names and types of their members.
-/
namespace SchemaForge.Go

inductive ValueType where
  | string
  | integer
  | number
  | boolean
  | list (items : ValueType)
  /-- An object with members, by its title. -/
  | object (title : String)
  deriving DecidableEq

structure Field where
  name : String
  type : ValueType
  optional : Bool
  default : Option Json

structure Class where
  title : String
  fields : List Field

namespace ValueType

/-- Lists around a type. -/
def nested (leaf : ValueType) : Nat → ValueType
  | 0 => leaf
  | depth + 1 => list (nested leaf depth)

def ofLeaf : Leaf → ValueType
  | .string .. => string
  | .integer .. => integer
  | .number .. => number
  | .boolean _ => boolean

/-- Whether a type is an object or lists that hold objects in the end. -/
def leadsToObject : ValueType → Bool
  | object _ => true
  | list items => items.leadsToObject
  | _ => false

end ValueType

/-- The type of a member; objects need members and a title. -/
def memberType? (g : Graph) (title member : String) (node : NodeId) :
    Except ShapeFault ValueType :=
  match g.arrayChain? node with
  | none => .error (.endlessArray title member)
  | some chain =>
    match g.property? chain.leaf with
    | some ⟨_, .leaf l⟩ => .ok ((ValueType.ofLeaf l).nested chain.depth)
    | some ⟨_, .object head (_ :: _)⟩ =>
      if head.titleText.isEmpty then .error (.untitledMember title member head.idText)
      else .ok ((ValueType.object head.titleText).nested chain.depth)
    | _ => .error (.noProperties title member)

def field? (g : Graph) (title : String) (m : Member) : Except ShapeFault Field :=
  match memberType? g title m.name m.node with
  | .ok type => .ok ⟨m.name, type, m.optional, (g.property? m.node).bind Property.default?⟩
  | .error e => .error e

/-- The class of an object. Go code can compare and hash it only if everything in it has a name. -/
def Class.ofNode? (g : Graph) (id : NodeId) : Except ShapeFault Class := do
  match g.object? id with
  | none => throw (.notObject id (g.kind id))
  | some (head, members) =>
    let title := head.titleText
    if title.isEmpty then throw (.untitled head.idText "go")
    match MemberNames.fault? title Naming.goPublic (members.map Member.name) with
    | some fault => throw fault
    | none => pure ()
    let fields ← members.mapM (field? g title)
    return ⟨title, fields⟩

/-- The name of a type for a title. -/
def typeName (title suffix : String) : String := Naming.goPublic (title ++ suffix)

namespace ValueType

/-- The Go type of values. -/
def goType : ValueType → GoType
  | string => .named "string"
  | integer => .named "int64"
  | number => .named "float64"
  | boolean => .named "bool"
  | list items => .slice items.goType
  | object title => .named (typeName title "Class")

/-- The Go type of values in JSON. -/
def jsonType : ValueType → GoType
  | list items => .slice items.jsonType
  | object title => .named (typeName title "Json")
  | t => t.goType

end ValueType

namespace Field

def publicName (f : Field) : String := Naming.goPublic f.name

def privateName (f : Field) : String := Naming.goPrivate f.name

/-- The type of the field: an optional value is wrapped. -/
def goType (f : Field) : GoType := if f.optional then .optional f.type.goType else f.type.goType

/-- The tag of the field in JSON, between backquotes. -/
def tag (f : Field) : String :=
  let name := if f.optional then f.name ++ ",omitempty" else f.name
  "\x60json:" ++ Json.quote name ++ "\x60"

end Field

namespace Class

def className (c : Class) : String := typeName c.title "Class"

def builderName (c : Class) : String := typeName c.title "Builder"

def factoryName (c : Class) : String := typeName c.title "Factory"

def implName (c : Class) : String := Naming.goPrivate (c.title ++ "Impl")

def goType (c : Class) : GoType := .named c.className

end Class

end SchemaForge.Go
