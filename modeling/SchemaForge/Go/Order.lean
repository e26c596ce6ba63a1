import SchemaForge.Go.Builder
/-!
Comparison: the first field that differs decides, an absent value comes after a present one, and a
shorter list before a longer one.
-/
namespace SchemaForge.Go

open SchemaForge.Go.Expr

/-- The name of a variable of a level. -/
def levelName (letter : String) (level : Nat) : String := letter ++ Decimal.natText level

/-- Returns if one of two values comes before the other. -/
def decideBy (before after : Expr) : List Stmt :=
  [.cond before [.ret (name "true")], .cond after [.ret (name "false")]]

/-- Returns as soon as two values of a type differ. -/
def compareValues (mine other : Expr) (level : Nat) : ValueType → List Stmt
  | .string =>
    let compare := call (imported .strings "Compare") [mine, other]
    decideBy (binary .less compare (number 0)) (binary .greater compare (number 0))
  | .integer | .number => decideBy (binary .less mine other) (binary .greater mine other)
  | .boolean => decideBy (binary .and (not mine) other) (binary .and mine (not other))
  | .object _ => decideBy (mine.send "Less" [other]) (other.send "Less" [mine])
  | .list items =>
    let i := levelName "i" level
    decideBy (binary .less (len mine) (len other)) (binary .greater (len mine) (len other)) ++
      [.loop i mine <|
        compareValues (index mine (name i)) (index other (name i)) (level + 1) items]

/-- Returns if the values of a field differ. -/
def compareField (f : Field) : List Stmt :=
  let mine := Class.own f
  let other := call (field (name "other") f.publicName) []
  let has (e : Expr) := e.send "IsSome" []
  let lacks (e : Expr) := e.send "IsNone" []
  if f.optional then
    [.chain (binary .and (has mine) (has other))
      (.define ["a"] (Class.contents mine) :: .define ["b"] (Class.contents other) ::
        compareValues (name "a") (name "b") 0 f.type)
      [(binary .and (has mine) (lacks other), [.ret (name "true")]),
        (binary .and (lacks mine) (has other), [.ret (name "false")])]]
  else compareValues mine other 0 f.type

def Class.lessDecl (c : Class) : Decl :=
  c.implMethod c.lessSignature (c.fields.flatMap compareField ++ [.ret (name "false")])

end SchemaForge.Go
