import SchemaForge.Json.Printer
import SchemaForge.Kind
/-!
What one schema says, apart from the schemas it refers to.
-/
namespace SchemaForge

/-- The place of a node in a graph. -/
abbrev NodeId := Nat

/-- A reference as it is written at the place of its use. -/
structure RefSite where
  reference : String
  description : Option String
  deriving DecidableEq

/-- What a schema of any kind may carry. -/
structure Info where
  description : Option String
  /-- A reference beside a type, which is kept but not followed. -/
  reference : Option String
  deriving DecidableEq

/-- A schema without schemas inside it. Numbers keep their spelling. -/
inductive Leaf where
  | string (default : Option String) (format : Option StringFormat)
  | integer (default : Option Int) (format : Option IntegerFormat) (minimum maximum : Option Int)
  | number (default : Option Number) (format : Option NumberFormat)
      (minimum maximum : Option Number)
  | boolean (default : Option Bool)
  deriving DecidableEq

namespace Leaf

def kind : Leaf → Kind
  | string .. => .string
  | integer .. => .integer
  | number .. => .number
  | boolean _ => .boolean

/-- The default as a JSON value. -/
def default? : Leaf → Option Json
  | string d _ => d.map .string
  | integer d .. => d.map (.number <| .integer ·)
  | number d .. => d.map .number
  | boolean d => d.map .bool

end Leaf

/-- What an object schema says beside its members. -/
structure ObjectHead where
  id : Option String
  schema : Option String
  title : Option String
  /-- Whether the document has `properties` at all. -/
  declaresProperties : Bool
  required : Option (List String)
  deriving DecidableEq

namespace ObjectHead

def empty : ObjectHead := ⟨none, none, none, false, none⟩

def idText (h : ObjectHead) : String := h.id.getD ""

def titleText (h : ObjectHead) : String := h.title.getD ""

def requires (h : ObjectHead) (name : String) : Bool := (h.required.getD []).contains name

end ObjectHead

/-- One named member of an object. -/
structure Member where
  name : String
  /-- Its position among the members of the document. -/
  index : Nat
  optional : Bool
  node : NodeId
  /-- The reference that it was declared with. -/
  site : Option RefSite
  deriving DecidableEq

inductive Shape where
  | leaf (leaf : Leaf)
  | array (items : NodeId) (site : Option RefSite)
  | object (head : ObjectHead) (members : List Member)
  deriving DecidableEq

structure Property where
  info : Info
  shape : Shape
  deriving DecidableEq

namespace Property

def kind (p : Property) : Kind :=
  match p.shape with
  | .leaf l => l.kind
  | .array .. => .array
  | .object .. => .object

/-- The default as a JSON value. -/
def default? (p : Property) : Option Json :=
  match p.shape with
  | .leaf l => l.default?
  | _ => none

/-- The nodes it refers to, in the order of declaration. -/
def children (p : Property) : List NodeId :=
  match p.shape with
  | .leaf _ => []
  | .array items _ => [items]
  | .object _ members => members.map Member.node

/-- What stands at a place whose schema is yet to come. -/
def reserved : Property := ⟨⟨none, none⟩, .object .empty []⟩

end Property

end SchemaForge
