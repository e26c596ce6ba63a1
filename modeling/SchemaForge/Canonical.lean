import SchemaForge.Document
import SchemaForge.Property
/-!
The canonical form of a schema document: the members that say something, in a fixed order.
-/
namespace SchemaForge.Canonical

/-- A member that stands only if it has a value. -/
def given (key : String) (value : Option Json) : Members := (value.map (key, ·)).toList

def text (key : String) (value : Option String) : Members := given key (value.map .string)

def number (key : String) (value : Option Number) : Members := given key (value.map .number)

def type (kind : Kind) : Members := [("type", .string kind.name)]

def description (info : Info) : Members := text "description" info.description

def reference (info : Info) : Members := text "$ref" info.reference

/-- A reference at the place of its use. -/
def site (s : RefSite) : Json :=
  .object ([("$ref", .string s.reference)] ++ text "description" s.description)

def leaf (info : Info) (l : Leaf) : Members :=
  type l.kind ++ description info ++
    (match l with
      | .string default format =>
        text "format" (format.map StringFormat.name) ++ text "default" default
      | .integer default format minimum maximum =>
        text "format" (format.map IntegerFormat.name) ++
          number "default" (default.map .integer) ++ number "minimum" (minimum.map .integer) ++
          number "maximum" (maximum.map .integer)
      | .number default format minimum maximum =>
        text "format" (format.map NumberFormat.name) ++ number "default" default ++
          number "minimum" minimum ++ number "maximum" maximum
      | .boolean default => given "default" (default.map .bool)) ++
    reference info

def array (info : Info) (items : Json) : Members :=
  type .array ++ description info ++ [("items", items)] ++ reference info

/-- Members of an object by their names; of two of one name the first gives the place, the last
the value. -/
def properties (members : List (String × Json)) : Members :=
  members.foldl (fun ms m => Members.insert ms m.1 m.2) []

def object (info : Info) (head : ObjectHead) (members : List (String × Json)) : Members :=
  text "$id" head.id ++ text "$schema" head.schema ++ text "title" head.title ++ type .object ++
    description info ++
    (if head.declaresProperties then [("properties", .object (properties members))] else []) ++
    given "required" (head.required.map fun names => .array (names.map .string)) ++
    reference info

end SchemaForge.Canonical
