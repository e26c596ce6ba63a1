import SchemaForge.Go.Types
/-! The values that generated code computes with. -/
namespace SchemaForge.Go

/-- A number of the type `float64`. -/
inductive Float64 where
  | finite (x : Binary64)
  | infinite (negative : Bool)
  | nan
  deriving DecidableEq

namespace Float64

/-- Where a number stands, in units of `2 ^ (-1074)`. Infinities stand at `± 2 ^ 1024`, which no
finite number reaches. -/
def place : Float64 → Int
  | finite x => if x.negative then -(x.units : Int) else x.units
  | infinite negative => if negative then -(twoTo 2098 : Int) else twoTo 2098
  | nan => 0

/-- The comparison `<`. -/
def less (x y : Float64) : Bool := x ≠ nan ∧ y ≠ nan ∧ x.place < y.place

/-- The comparison `==`: the two zeros are equal, and `nan` equals nothing. -/
def same (x y : Float64) : Bool := x ≠ nan ∧ y ≠ nan ∧ x.place = y.place

def ofInt (i : Int) : Float64 :=
  match Binary64.ofInt? i with
  | some x => finite x
  | none => infinite (decide (i < 0))

def ofNumber : Number → Float64
  | .integer i => ofInt i
  | .float x => finite x

end Float64

inductive Value where
  | string (s : String)
  | bool (b : Bool)
  | int64 (n : Int64)
  | float64 (x : Float64)
  /-- A number of the type `int`. -/
  | int (n : Int)
  /-- A number that has no type yet. -/
  | constant (n : Number)
  | bytes (b : ByteArray)
  | slice (items : GoType) (values : List Value)
  /-- Values of any type by their names. -/
  | map (entries : List (String × Value))
  /-- The address of a struct, with its fields. -/
  | struct (type : String) (fields : List (String × Value))
  /-- An optional value that is there. -/
  | present (v : Value)
  | absent
  | ok (v : Value)
  | err (v : Value)
  /-- An attribute of a builder that waits for a value of a type. -/
  | unset (type : GoType)
  | set (type : GoType) (v : Value)
  | pointer (target : Value)
  | literal (text : String)
  | error (text : String)
  | writer
  /-- What an interface holds before it holds a value. -/
  | nil

namespace GoType

/-- The value of a type that nobody has given a value. -/
def zero : GoType → Value
  | named name =>
    if name = "string" then .string ""
    else if name = "bool" then .bool false
    else if name = "int64" then .int64 0
    else if name = "float64" then .float64 (.finite (.zero false))
    else if named name = anyMap then .map []
    else .nil
  | slice items => .slice items []
  | applied .options "Optional" _ => .absent
  | _ => .nil

end GoType

namespace Value

/-- The type of what an interface holds. -/
def type? : Value → Option GoType
  | string _ => some (.named "string")
  | bool _ => some (.named "bool")
  | int64 _ => some (.named "int64")
  | float64 _ => some (.named "float64")
  | int _ => some (.named "int")
  | slice items _ => some (.slice items)
  | map _ => some .anyMap
  | struct type _ => some (.pointer (.named type))
  | _ => none

/-- Gives a number that has no type yet the type that it is used at. Such numbers are exact, so
their zero has no sign. -/
def as (type : GoType) : Value → Value
  | constant (.integer i) =>
    if type = .named "int64" then int64 (.ofInt i) else float64 (.ofInt i)
  | constant (.float x) => float64 (.finite (if x.units = 0 then .zero false else x))
  | v => v

/-- The value of a literal in the code. -/
def ofJson : Json → Option Value
  | .string s => some (string s)
  | .bool b => some (bool b)
  | .number n => some (constant n)
  | _ => none

end Value

end SchemaForge.Go
