import SchemaForge.TypeScript.ListCoercion
/-!
Builders: an attribute for each field, which a setter or a whole value fills, and the results that
come out of them.
-/
namespace SchemaForge.TypeScript

/-- How messages name the object that a builder is for. -/
def notObject : Code :=
  "\x60Attribute[$\x7bWuestenAttributeName(this.param)\x7d] is not an object:$\x7bvalue\x7d\x60"

/-- Returns a complaint unless the value is an object. -/
def requireObject : Stmt :=
  .cond "!(typeof value === \"object\" && value !== null)"
    [.ret (.join [.result, ".Err(", notObject, ")"])]

namespace Field

/-- What an attribute is told about the field. -/
def attributeParam (f : Field) : Code :=
  let varname := String.ofList (f.publicName.toList.filter (· != '"'))
  let default := (f.default.map fun v => ("default", Code.text v.compact)).toList
  let format := (f.type.format?.map fun s => ("format", Code.quote s)).toList
  .object <|
    [("jsonname", .quote f.name), ("varname", .quote varname), ("base", .text "baseName")] ++
      default ++ format

/-- A new attribute for values of a type that is no list. -/
def newAttribute (f : Field) (optional : Bool) (type : ValueType) : Code :=
  let make (kind : String) (types more : List Code) : Code :=
    let name : Code :=
      .join [.runtime "wuesten", ".Attribute", kind, if optional then "Optional" else ""]
    .join [if types.isEmpty then name else .generic name types, "(",
      .separated ", " (f.attributeParam :: more), ")"]
  match type with
  | .string format =>
    make (if (ValueType.string format).isDateTime then "DateTime" else "String") [] []
  | .integer _ => make "Integer" [] []
  | .number _ => make "Number" [] []
  | .boolean => make "Boolean" [] []
  | .record _ =>
    make "Object" [ValueType.recordType, ValueType.recordType, ValueType.recordType]
      [.runtime "WuestenObjectFactory"]
  | .object name =>
    make "Object" [type.viewType, type.coerceType, type.wireType]
      [.symbol (.object name "Factory")]
  | .list _ => ""

/-- The attribute of the field in a builder. -/
def slot (f : Field) : Code := .join ["this.", f.privateName]

end Field

/-- Makes the attribute of a field. A list has an attribute for its items beside its own. -/
def Class.initField (c : Class) (f : Field) : List Stmt :=
  match f.type with
  | .list items =>
    let item := f.privateName ++ "Item"
    let coerce : Code := .join ["\x7b coerce: (v: unknown) => ", c.coercionName f, "(", item, ", v) \x7d"]
    let own : Code := .join ["new ",
      .generic (.runtime "WuestenAttr") [f.type.viewType, "unknown"], "(", f.attributeParam, ", ",
      coerce, ")"]
    [.constant item none (f.newAttribute false items.innermost.1),
      .assign f.slot <|
        if f.optional then .join ["new ", .runtime "WuestenAttrOptional", "(", own, ")"] else own]
  | t => [.assign f.slot (f.newAttribute f.optional t)]

namespace Class

/-- A generic type of the runtime at the values of the class and what becomes one. -/
def atClass (c : Class) (name : String) : Code :=
  .generic (.runtime name) [c.symbol "", c.symbol "CoerceType"]

def resultOf (c : Class) (suffix : String) : Code := .generic .result [c.symbol suffix]

def constructorMember (c : Class) : ClassMember :=
  let names : Code := .object
    [("jsonname", .quote c.head.titleText), ("varname", .quote c.name), ("base", .quote "")]
  .init (.join ["param?: ", c.atClass "WuestenFactoryParam"]) <|
    .assignCall "this.param" (c.atClass "WuestenFactoryAttributeMerge")
        [names, .join ["param as ", c.atClass "WuestenAttributeParameter"]] ::
      .constant "baseName" none (.join [.runtime "WuestenAttributeName", "(this.param)"]) ::
      c.fields.flatMap c.initField

def coerceAttributeMember (c : Class) : ClassMember :=
  .method "CoerceAttribute" "value: unknown" (some (c.resultOf ""))
    [requireObject,
      .constant "rec" none "value as Record<string, unknown>",
      .constant "jsVal" none "rec[this.param.jsonname] ?? rec[this.param.varname]",
      .ret (.join ["this.Coerce(jsVal as ", c.symbol "CoerceType", ")"])]

def coerceMember (c : Class) : ClassMember :=
  .method "Coerce" (.join ["value: ", c.symbol "CoerceType"]) (some (c.resultOf "")) <|
    requireObject ::
      c.fields.map (fun f => .run (.join [f.slot, ".CoerceAttribute(value)"])) ++
      [.ret "this.Get()"]

def getMember (c : Class) : ClassMember :=
  .method "Get" "" (some (c.resultOf ""))
    [.retObject (.join [c.symbol "Builder", "._fromResults"]) <|
      c.fields.map fun f => (f.privateName, .join [f.slot, ".Get()"])]

/-- Returns the failure of a result if it is one. -/
def passFailure (name : String) : Stmt :=
  .cond (.join [name, ".is_err()"]) [.ret (.join [.result, ".Err(", name, ".unwrap_err())"])]

def toObjectMember (c : Class) : ClassMember :=
  .method "ToObject" "" (some (c.resultOf "Object"))
    [.constant "res" none "this.Get()",
      passFailure "res",
      .ret (.join [.result, ".Ok(", c.symbol "ToObject", "(res.unwrap()))"])]

/-- Collects the failures of all fields, or makes a value. -/
def fromResultsMember (c : Class) : ClassMember :=
  let got (f : Field) : Code := .join ["results.", f.privateName]
  .static "_fromResults" (.join ["results: ", c.symbol "Results"]) (some (c.resultOf "")) <|
    .constant "errors" (some "string[]") "[]" ::
      c.fields.map (fun f => .cond (.join [got f, ".is_err()"])
        [.run (.join ["errors.push(", got f, ".unwrap_err().message)"])]) ++
      [.cond "errors.length" [.ret (.join [.result, ".Err(errors.join(\"\\n\"))"])],
        .retObject (.join [.result, ".Ok<", c.symbol "", ">"]) <|
          c.fields.map fun f => (f.publicName, .join [got f, ".unwrap()"])]

def toPayloadMember (c : Class) : ClassMember :=
  .method "ToPayload" "encoder = this.param.encoder"
    (some (.generic .result [.runtime "WuestePayload"]))
    [.constant "res" none "this.Get()",
      passFailure "res",
      .ret (.join [c.symbol "Factory", ".ToPayload(res.unwrap(), encoder)"])]

/-- A field is set to a value, or to what a function makes of the value it has. -/
def setterMember (c : Class) (f : Field) : ClassMember :=
  let getter : Code := .generic (.runtime "WuestenFNGetBuilder") [f.type.viewType]
  .method f.publicName
    (.join ["v: ", f.orUndefined f.type.coerceType, " | ", getter])
    (some (c.symbol "Builder"))
    [.cond "typeof v === \"function\""
        [.constant "val" none (.join [f.slot, ".Get()"]),
          .constant "ret" none "v(val.is_ok() ? val.unwrap() : undefined)",
          .cond (.join ["!(ret instanceof ", .runtime "WuestenRetValType", ")"]) [.ret "this"],
          .assign "v" (.join ["ret.Val as ", f.type.viewType])],
      .run (.join [f.slot, ".Coerce(v)"]),
      .ret "this"]

/-- What the attribute of a field takes. -/
def attributeInput (f : Field) : Code := if f.type.isList then "unknown" else f.type.coerceType

def attributeMember (f : Field) : ClassMember :=
  .field f.privateName <| .generic (.runtime "WuestenAttribute")
    [f.orUndefined f.type.viewType, f.orUndefined (attributeInput f)]

def builderDecl (c : Class) : Decl :=
  let methods := [c.constructorMember, c.coerceAttributeMember, c.coerceMember, c.getMember,
    c.toObjectMember, c.fromResultsMember, c.toPayloadMember] ++ c.fields.map c.setterMember
  .class (c.named "Builder") (.join ["implements ", c.atClass "WuestenBuilder"]) <|
    .field "param" (c.atClass "WuestenAttributeBase") :: c.fields.map attributeMember ++
      methods.flatMap fun m => [.blank, m]

end Class

end SchemaForge.TypeScript
