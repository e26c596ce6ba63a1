import SchemaForge.Binary64
/-!
JSON values whose objects keep the order of their members.
-/
namespace SchemaForge

/-- A JSON number: a whole number of 64 bits, or a finite binary64 number. The two stay apart, so
that `64` is not written back as `64.0`. -/
inductive Number where
  | integer (value : Int)
  | float (value : Binary64)
  deriving DecidableEq

namespace Number

/-- Whole numbers of 64 bits, with or without sign. -/
def InRange : Number → Prop
  | integer i => -(twoTo 63 : Int) ≤ i ∧ i < twoTo 64
  | float _ => True

/-- Numbers are the same when both are whole or both are not, and their values are equal. -/
def same : Number → Number → Bool
  | integer i, integer j => i == j
  | float x, float y => x.sameValue y
  | _, _ => false

end Number

inductive Json where
  | null
  | bool (value : Bool)
  | number (value : Number)
  | string (value : String)
  | array (items : List Json)
  | object (members : List (String × Json))

/-- Named values in order. -/
abbrev Members := List (String × Json)

namespace Members

/-- Gives a name a value: in its place if it has one, else at the end. -/
def insert : Members → String → Json → Members
  | [], key, value => [(key, value)]
  | (k, v) :: rest, key, value =>
    if k = key then (key, value) :: rest else (k, v) :: insert rest key value

def get? (members : Members) (key : String) : Option Json := members.lookup key

def keys (members : Members) : List String := members.map (·.1)

end Members

namespace Json

/-- The word for the kind of a value. -/
def kind : Json → String
  | null => "null"
  | bool _ => "boolean"
  | number _ => "number"
  | string _ => "string"
  | array _ => "array"
  | object _ => "object"

def string? : Json → Option String
  | string s => some s
  | _ => none

mutual

/-- Equality that ignores the order of members. -/
def same : Json → Json → Bool
  | null, null => true
  | bool a, bool b => a == b
  | number a, number b => a.same b
  | string a, string b => a == b
  | array a, array b => sameItems a b
  | object a, object b => a.length == b.length && sameMembers a b
  | _, _ => false

def sameItems : List Json → List Json → Bool
  | [], [] => true
  | a :: as, b :: bs => same a b && sameItems as bs
  | _, _ => false

/-- Whether every member of the first list has the same value in the second. -/
def sameMembers : Members → Members → Bool
  | [], _ => true
  | (k, v) :: rest, other =>
    (match other.lookup k with
      | some w => same v w
      | none => false) && sameMembers rest other

end

end Json

end SchemaForge
