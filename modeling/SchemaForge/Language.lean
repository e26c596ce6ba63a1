/-!
The languages that code is written in.
-/
namespace SchemaForge

inductive Language where
  | go
  | typeScript
  deriving DecidableEq

namespace Language

def name : Language → String
  | go => "go"
  | typeScript => "ts"

/-- The language that a word names, in upper or lower case. -/
def ofName? (s : String) : Option Language :=
  let word := String.ofList (s.toList.map Char.toLower)
  if word = "go" ∨ word = "golang" then some go
  else if word = "ts" ∨ word = "typescript" then some typeScript
  else none

end Language

end SchemaForge
