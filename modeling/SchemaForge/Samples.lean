import SchemaForge.Document
/-!
Sample schemas. `simpleType` has members of every kind without schemas inside, with and without
defaults; `nestedType` adds nested arrays and objects; `base`, `baseSub` and `sub2` are files that
refer to each other.
-/
namespace SchemaForge.Samples

def text (s : String) : Json := .string s

def texts (ss : List String) : Json := .array (ss.map text)

/-- The binary64 number nearest to `coefficient · 10 ^ exponent`. -/
def decimal (coefficient : Nat) (exponent : Int) : Json :=
  match Binary64.ofDecimal? false coefficient exponent with
  | some x => .number (.float x)
  | none => .null

def typed (kind : String) (more : Members) : Json := .object (("type", text kind) :: more)

def sub : Document where
  members := [
    ("$id", text "https://Sub"),
    ("title", text "Sub"),
    ("description", text "Description"),
    ("properties", .object [("Test", typed "string" []), ("opt-Test", typed "string" [])]),
    ("required", texts ["Test"]),
    ("type", text "object")]

/-- What the simple and the nested sample require. -/
def simpleRequired : List String :=
  ["string", "createdAt", "default-string", "default-createdAt", "float64", "default-float64",
    "int64", "default-int64", "uint64", "default-uint64", "default-bool", "bool", "sub"]

def simpleProperties : Members :=
  let hello := ("default", text "hallo")
  let dateTime := ("format", text "date-time")
  let endOfYear := ("default", text "2023-12-31T23:59:59Z")
  let float32 := ("format", text "float32")
  let format (name : String) := ("format", text name)
  let whole (n : Int) := ("default", Json.number (.integer n))
  let yes := ("default", Json.bool true)
  [("string", typed "string" []),
    ("default-string", typed "string" [hello]),
    ("optional-string", typed "string" []),
    ("optional-default-string", typed "string" [hello]),
    ("createdAt", typed "string" [dateTime]),
    ("default-createdAt", typed "string" [endOfYear, dateTime]),
    ("optional-createdAt", typed "string" [dateTime]),
    ("optional-default-createdAt", typed "string" [dateTime, endOfYear]),
    ("float64", typed "number" []),
    ("default-float64", typed "number" [float32, ("default", decimal 47114 (-1))]),
    ("optional-float32", typed "number" [float32]),
    ("optional-default-float32", typed "number" [("default", decimal 492 (-1)), float32]),
    ("int64", typed "integer" [format "int64"]),
    ("default-int64", typed "integer" [whole 64, format "int64"]),
    ("optional-int32", typed "integer" [format "int32"]),
    ("optional-default-int32", typed "integer" [whole 32, format "int32"]),
    ("bool", typed "boolean" []),
    ("default-bool", typed "boolean" [yes]),
    ("optional-bool", typed "boolean" []),
    ("optional-default-bool", typed "boolean" [yes]),
    ("sub", sub.toJson),
    ("opt-sub", sub.toJson)]

def simpleType : Document where
  members := [
    ("$id", text "https://SimpleType"),
    ("title", text "SimpleType"),
    ("type", text "object"),
    ("description", text "Jojo SimpleType"),
    ("properties", .object simpleProperties),
    ("required", texts simpleRequired)]

/-- Arrays around items, as many as the depth. -/
def nest (items : Json) : Nat → Json
  | 0 => items
  | depth + 1 => typed "array" [("items", nest items depth)]

def nestedProperties : Members :=
  [("arrayarrayBool", nest (typed "boolean" []) 4),
    ("opt-arrayarrayBool", nest (typed "boolean" []) 4),
    ("arrayString", nest (typed "string" []) 1),
    ("opt-arrayString", nest (typed "string" []) 1),
    ("arrayNumber", nest (typed "number" []) 1),
    ("opt-arrayNumber", nest (typed "number" []) 1),
    ("arrayInteger", nest (typed "integer" []) 1),
    ("opt-arrayInteger", nest (typed "integer" []) 1),
    ("arrayBool", nest (typed "boolean" []) 1),
    ("opt-arrayBool", nest (typed "boolean" []) 1),
    ("arrayarrayFlatSchema", nest sub.toJson 4),
    ("opt-arrayarrayFlatSchema", nest sub.toJson 4),
    ("sub-flat", sub.toJson),
    ("opt-sub-flat", sub.toJson),
    ("arraySubType", nest sub.toJson 1),
    ("opt-arraySubType", nest sub.toJson 1)]

def nestedType : Document where
  members := [
    ("$id", text "https://NestedType"),
    ("title", text "NestedType"),
    ("type", text "object"),
    ("description", text "Jojo NestedType"),
    ("properties", .object nestedProperties),
    ("required", texts <|
      ["arrayarrayBool", "sub", "arrayString", "arrayNumber", "arrayInteger", "arrayBool",
        "arraySubType", "arrayarrayFlatSchema"] ++ simpleRequired)]

/-- A document of the chain of files. -/
def linked (file title : String) (properties : Members) (required : List String) : Document where
  members := [
    ("$id", text s!"http://example.com/{file}.schema.json"),
    ("$schema", text "http://json-schema.org/draft-07/schema#"),
    ("title", text title),
    ("type", text "object"),
    ("description", text s!"{title} description"),
    ("properties", .object properties),
    ("required", texts required)]

def refer (target : String) : Json := .object [("$ref", text target)]

/-- Refers to `sub.schema.json`. -/
def base : Document :=
  linked "base" "Base" [("foo", typed "string" []), ("sub", refer "file://sub.schema.json")]
    ["foo", "sub"]

/-- Refers to `sub2.schema.json`. -/
def baseSub : Document :=
  linked "sub" "Sub" [("sub", typed "string" []), ("sub-down", refer "file://sub2.schema.json")]
    ["bar", "sub-down"]

def sub2 : Document := linked "sub2" "Sub2" [("bar", typed "string" [])] ["bar"]

/-- The samples by their names. -/
def named? (name : String) : Option Document :=
  [("sub", sub), ("simple_type", simpleType), ("nested_type", nestedType), ("base", base),
    ("base_sub", baseSub), ("sub2", sub2)].lookup name

end SchemaForge.Samples
