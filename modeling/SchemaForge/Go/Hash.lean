import SchemaForge.Go.Order
/-!
The bytes that are hashed: each field by its name and its value, with marks around lists and one
for an absent value.
-/
namespace SchemaForge.Go

open SchemaForge.Go.Expr

/-- Writes the bytes of a text. -/
def writeBytes (e : Expr) : Stmt :=
  .run ((name "w").send "Write" [convert (.slice (.named "byte")) e])

/-- Writes a value as a literal of the runtime. -/
def writeLiteral (kind : String) (e : Expr) : Stmt :=
  writeBytes (deref (send (call (imported .attributes kind) [e]) "String" []))

/-- Writes a value of a type. -/
def hashValue (e : Expr) (level : Nat) : ValueType → List Stmt
  | .string => [writeLiteral "StringLiteral" e]
  | .integer => [writeLiteral "IntegerLiteral" e]
  | .boolean => [writeLiteral "BoolLiteral" e]
  | .number =>
    [writeBytes (call (imported .strconv "FormatFloat") [e, letter 'g', number (-1), number 64])]
  | .object _ => [.run (e.send "Hash" [name "w"])]
  | .list items =>
    let i := levelName "i" level
    [writeBytes (text "["),
      .loop i e <|
        .cond (binary .greater (name i) (number 0)) [writeBytes (text ",")] ::
          hashValue (index e (name i)) (level + 1) items,
      writeBytes (text "]")]

def hashField (f : Field) : List Stmt :=
  let value :=
    if f.optional then
      [.condElse ((Class.own f).send "IsSome" [])
        (.define ["h"] (Class.contents (Class.own f)) :: hashValue (name "h") 0 f.type)
        [writeBytes (text "-")]]
    else hashValue (Class.own f) 0 f.type
  writeBytes (text (Json.quote f.name ++ ":")) :: value ++ [writeBytes (text ",")]

def Class.hashDecl (c : Class) : Decl :=
  c.implMethod Class.hashSignature (c.fields.flatMap hashField)

end SchemaForge.Go
