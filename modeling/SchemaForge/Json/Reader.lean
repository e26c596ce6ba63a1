import SchemaForge.Json.Token
/-!
Reading JSON text. A reader takes one token at a time; the arrays and objects that are still open
lie on a stack, which holds 127 at most.
-/
namespace SchemaForge.Json

/-- An array or object that is still open, with what it holds so far. -/
inductive Frame where
  | array (items : List Json)
  /-- The last name has no value yet. -/
  | object (members : Members) (key : String)

/-- What may come next. -/
inductive Expect where
  | value
  /-- The first item of an array, or its end. -/
  | itemOrEnd
  /-- The first name of an object, or its end. -/
  | keyOrEnd (members : Members)
  | key (members : Members)
  | colon (members : Members) (key : String)
  /-- A comma, or the end of the innermost array or object. -/
  | commaOrEnd
  /-- The end of the text. -/
  | done (value : Json)

structure Reader where
  stack : List Frame
  expect : Expect

/-- How deep arrays and objects nest at most. -/
def maxDepth : Nat := 127

namespace Reader

def start : Reader := ⟨[], .value⟩

/-- Hands a finished value to the innermost open array or object. -/
def finish (stack : List Frame) (v : Json) : Reader :=
  match stack with
  | [] => ⟨[], .done v⟩
  | .array items :: rest => ⟨.array (items ++ [v]) :: rest, .commaOrEnd⟩
  | .object members key :: rest => ⟨.object (members.insert key v) key :: rest, .commaOrEnd⟩

/-- Starts a value. -/
def begin? (stack : List Frame) : Token → Option Reader
  | .scalar v => some (finish stack v)
  | .openArray =>
    if stack.length < maxDepth then some ⟨.array [] :: stack, .itemOrEnd⟩ else none
  | .openObject =>
    if stack.length < maxDepth then some ⟨stack, .keyOrEnd []⟩ else none
  | _ => none

def step? (r : Reader) (t : Token) : Option Reader :=
  match r.expect, t, r.stack with
  | .value, t, stack => begin? stack t
  | .itemOrEnd, .closeArray, .array items :: rest => some (finish rest (.array items))
  | .itemOrEnd, t, stack => begin? stack t
  | .keyOrEnd members, .closeObject, stack => some (finish stack (.object members))
  | .keyOrEnd members, .scalar (.string key), stack => some ⟨stack, .colon members key⟩
  | .key members, .scalar (.string key), stack => some ⟨stack, .colon members key⟩
  | .colon members key, .colon, stack => some ⟨.object members key :: stack, .value⟩
  | .commaOrEnd, .comma, .array items :: rest => some ⟨.array items :: rest, .value⟩
  | .commaOrEnd, .closeArray, .array items :: rest => some (finish rest (.array items))
  | .commaOrEnd, .comma, .object members _ :: rest => some ⟨rest, .key members⟩
  | .commaOrEnd, .closeObject, .object members _ :: rest => some (finish rest (.object members))
  | _, _, _ => none

/-- Reads tokens to the end. -/
def run? (r : Reader) : List Token → Option Json
  | [] => match r.expect with
    | .done v => some v
    | _ => none
  | t :: ts => (r.step? t).bind (·.run? ts)

end Reader

/-- The value that a text writes, `none` if it is not JSON. -/
def read? (s : String) : Option Json := (Token.scan? s.toList).bind Reader.start.run?

end SchemaForge.Json
