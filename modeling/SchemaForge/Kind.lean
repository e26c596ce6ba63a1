/-!
The kinds of schema, and the formats that refine them.
-/
namespace SchemaForge

inductive Kind where
  | string
  | integer
  | number
  | boolean
  | array
  | object
  deriving DecidableEq

namespace Kind

def name : Kind → String
  | string => "string"
  | integer => "integer"
  | number => "number"
  | boolean => "boolean"
  | array => "array"
  | object => "object"

def ofName? (s : String) : Option Kind :=
  [string, integer, number, boolean, array, object].find? (·.name == s)

end Kind

inductive StringFormat where
  | dateTime
  | date
  | time
  | other (name : String)
  deriving DecidableEq

namespace StringFormat

def ofName (s : String) : StringFormat :=
  if s = "date-time" then dateTime
  else if s = "date" then date
  else if s = "time" then time
  else other s

def name : StringFormat → String
  | dateTime => "date-time"
  | date => "date"
  | time => "time"
  | other s => s

end StringFormat

inductive IntegerFormat where
  | int
  | int8
  | int16
  | int32
  | int64
  deriving DecidableEq

namespace IntegerFormat

def name : IntegerFormat → String
  | int => "int"
  | int8 => "int8"
  | int16 => "int16"
  | int32 => "int32"
  | int64 => "int64"

def ofName? (s : String) : Option IntegerFormat :=
  [int, int8, int16, int32, int64].find? (·.name == s)

end IntegerFormat

inductive NumberFormat where
  | float32
  | float64
  deriving DecidableEq

namespace NumberFormat

def name : NumberFormat → String
  | float32 => "float32"
  | float64 => "float64"

def ofName? (s : String) : Option NumberFormat := [float32, float64].find? (·.name == s)

end NumberFormat

end SchemaForge
