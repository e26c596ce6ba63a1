import SchemaForge.TypeScript.Builder
/-!
Factories: what a module offers for values as a whole, under the names that they go by.
-/
namespace SchemaForge.TypeScript.Class

/-- The names of a schema, each once. -/
def distinctNames (c : Class) : List String :=
  [c.head.idText, c.head.titleText, c.name].foldl
    (fun names name => if name.isEmpty || names.contains name then names else names ++ [name]) []

def namesName (c : Class) : String := "_" ++ c.named "Names"

def namesDecl (c : Class) : Decl :=
  .literal false c.namesName (.runtime "WuestenNames") <| .object
    [("id", .value (.quote c.head.idText)), ("title", .value (.quote c.head.titleText)),
      ("names", .value (.join ["[", .separated ", " (c.distinctNames.map .quote), "]"])),
      ("varname", .value (.quote c.name))]

def payloadType : Code := .runtime "WuestePayload"

def namesMember (c : Class) : ClassMember :=
  .method "Names" "" (some (.runtime "WuestenNames")) [.ret (.text c.namesName)]

def newBuilderMember (c : Class) : ClassMember :=
  .method "Builder" (.join ["param?: ", c.atClass "WuestenFactoryParam"])
    (some (c.symbol "Builder"))
    [.ret (.join ["new ", c.symbol "Builder", "(", .runtime "WuestenFactoryAttributeMerge",
      "(this._params, param as ",
      .generic (.runtime "WuestenAttributeParameter") ["unknown", "unknown"], "))"])]

def fromPayloadMember (c : Class) : ClassMember :=
  let complaint : Code := .join
    ["new Error(\x60", c.symbol "Factory", ": invalid Payload Type:$\x7bval.Type\x7d\x60)"]
  .method "FromPayload"
    (.join ["val: ", payloadType, ", decoder = this._params.decoder"]) (some (c.resultOf ""))
    [.cond (.join ["!", c.namesName, ".names.includes(val.Type)"])
        [.ret (.join [.result, ".Err(", complaint, ")"])],
      .constant "data" none "decoder(val.Data)",
      passFailure "data",
      .ret (.join ["this.Builder().Coerce(data.unwrap() as ", c.symbol "CoerceType", ")"])]

def payloadMember (c : Class) : ClassMember :=
  .method "ToPayload" (.join ["typ: ", c.symbol "", ", encoder = this._params.encoder"])
    (some (.generic .result [payloadType]))
    [.constant "data" none (.join ["encoder(", c.symbol "ToObject", "(typ))"]),
      passFailure "data",
      .retObject (.join [.result, ".Ok"])
        [("Type", .join [c.namesName, ".id"]),
          ("Data", "data.unwrap() as unknown as Record<string, unknown>")]]

def wireMember (c : Class) : ClassMember :=
  .method "ToObject" (.join ["typ: ", c.symbol ""]) (some (c.symbol "Object"))
    [.ret (.join [c.symbol "ToObject", "(typ)"])]

def cloneMember (c : Class) : ClassMember :=
  .method "Clone" (.join ["typ: ", c.symbol ""]) (some (c.resultOf "")) <|
    .constant "builder" none "this.Builder()" ::
      c.fields.map (fun f => .run (.join [f.of "builder", "(", f.of "typ", ")"])) ++
      [.ret "builder.Get()"]

def schemaMember (c : Class) : ClassMember :=
  .method "Schema" "" (some (.runtime "WuestenReflection")) [.ret (c.symbol "Schema")]

def getterMember (c : Class) : ClassMember :=
  .method "Getter"
    (.join ["typ: ", c.symbol "", ", base: ", .runtime "WuestenReflection", "[] = []"])
    (some (.runtime "WuestenGetterBuilder"))
    [.ret (.join [c.symbol "Getter", "(typ, base)"])]

/-- Members with an empty line between them. -/
def spaced : List ClassMember → List ClassMember
  | [] => []
  | [m] => [m]
  | m :: ms => m :: .blank :: spaced ms

def factoryClassDecl (c : Class) : Decl :=
  let factory : Code :=
    .generic (.runtime "WuestenFactory") [c.symbol "", c.symbol "CoerceType", c.symbol "Object"]
  .class (c.named "FactoryImpl") (.join ["extends ", factory]) <| spaced
    [c.namesMember, c.newBuilderMember, c.fromPayloadMember, c.payloadMember, c.wireMember,
      c.cloneMember, c.schemaMember, c.getterMember]

/-- The factory is known to the runtime by its names. -/
def factoryDecl (c : Class) : Decl :=
  let registry := Code.runtime "WuestenTypeRegistry"
  .constant (c.named "Factory") <|
    .join [registry, ".Register(new ", c.symbol "FactoryImpl", "(", registry,
      ".cloneAttributeBase()))"]

end SchemaForge.TypeScript.Class
