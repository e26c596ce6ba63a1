import SchemaForge.TypeScript.Reflection
/-!
Reading nested lists: a loop for each level, and in the innermost the coercion of an item.
-/
namespace SchemaForge.TypeScript

/-- Lists around a type, as many as the dimensions. -/
def arrayOf (leaf : Code) : Nat → Code
  | 0 => leaf
  | dims + 1 => .join [arrayOf leaf dims, "[]"]

/-- Reads the list of a level from a source, with some levels below it; `body` puts one item into
the list that comes out. -/
def readList (leaf : ValueType) (level below : Nat) (source : String) (body : List Stmt) :
    List Stmt :=
  let r := levelName "r" level
  let s := levelName "s" level
  let t := levelName "t" level
  let complaint : Code := .join [
    "\x60it's not iterable on level ", Decimal.natText level, ":$\x7b", r,
    ".unwrap_err()\x7d\x60"]
  [.constant r none (.join [.runtime "WuesteToIterator", "<unknown>(", source, ")"]),
    .cond (.join [r, ".is_err()"]) [.ret (.join [.result, ".Err(", complaint, ")"])],
    .constant s (some (arrayOf leaf.viewType (below + 1))) "[]",
    .constant t none (.join [r, ".unwrap()"]),
    .iterate (levelName "i" level) t body]

/-- Reads lists from a level on. The innermost list is of what the attribute of an item makes of
each item; `full` is the type of the outermost one. -/
def readLists (leaf : ValueType) (full : Code) (level : Nat) (source : String) :
    Nat → List Stmt
  | 0 =>
    readList leaf level 0 source
      [.constant "attrRes" none
          (.join ["itemAttr.Coerce(", levelName "i" level, ".value as ", leaf.coerceType, ")"]),
        .cond "attrRes.is_err()"
          [.ret (.join ["attrRes as unknown as ", .generic .result [full]])],
        .run (.join [levelName "s" level, ".push(attrRes.unwrap())"])]
  | below + 1 =>
    readList leaf level (below + 1) source <|
      readLists leaf full (level + 1) (levelName "i" level ++ ".value") below ++
        [.run (.join [levelName "s" level, ".push(", levelName "s" (level + 1), ")"])]

/-- The name of the function that reads the list of a field. -/
def Class.coercionName (c : Class) (f : Field) : String :=
  Naming.tsPublic (c.name ++ "$" ++ f.name ++ "Coerce")

/-- The function that reads the list of a field, if it holds one. -/
def Class.coercionDecl? (c : Class) (f : Field) : Option Decl :=
  match f.type with
  | .list items =>
    let (leaf, below) := items.innermost
    let full := arrayOf leaf.viewType (below + 1)
    some <| .function false (c.coercionName f)
      (.join ["itemAttr: ",
        .generic (.runtime "WuestenAttribute") [leaf.viewType, leaf.coerceType], ", c0: unknown"])
      (.generic .result [full])
      (readLists leaf full 0 "c0" below ++ [.ret (.join [.result, ".Ok(s0)"])])
  | _ => none

end SchemaForge.TypeScript
