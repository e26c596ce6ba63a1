import SchemaForge.Error
import SchemaForge.Json.Printer
import SchemaForge.Json.Token
import SchemaForge.Text.Blank
/-!
Defaults and bounds. Authors write them loosely (`"yes"` for a boolean, `"4711.4"` for a number);
each kind of schema takes a few spellings and refuses the others.
-/
namespace SchemaForge.Coercion

open CoercionFault

/-- What a text for a number says. -/
inductive Reading where
  | finite (value : Binary64)
  | infinite (negative : Bool)
  | notANumber

def lower (cs : List Char) : List Char := cs.map Char.toLower

/-- Reads digits with a point among them or at either end, and an exponent if any. A number too
large for a finite one reads as infinite. -/
def readDecimal? (negative : Bool) (cs : List Char) : Option Reading :=
  let (whole, rest) := Json.Token.digitsOf cs
  let (fraction, rest) := match rest with
    | '.' :: rest => Json.Token.digitsOf rest
    | rest => ([], rest)
  if whole.isEmpty && fraction.isEmpty then none
  else (Json.Token.exponent? rest).map fun exponent =>
    let coefficient := Decimal.value (whole ++ fraction)
    match Binary64.ofDecimal? negative coefficient (exponent.getD 0 - fraction.length) with
    | some x => .finite x
    | none => .infinite negative

/-- Reads the text of a number: a sign if any, and a decimal, `inf`, `infinity` or `nan`. -/
def reading? (cs : List Char) : Option Reading :=
  let (negative, cs) := match cs with
    | '-' :: rest => (true, rest)
    | '+' :: rest => (false, rest)
    | cs => (false, cs)
  if lower cs = "inf".toList ∨ lower cs = "infinity".toList then some (.infinite negative)
  else if lower cs = "nan".toList then some .notANumber
  else readDecimal? negative cs

def int64Min : Int := -(twoTo 63 : Int)

def int64Max : Int := (twoTo 63 : Int) - 1

/-- The nearest whole number of 64 bits with sign. -/
def clamp (i : Int) : Int := max int64Min (min int64Max i)

/-- The whole part of a reading, at the nearest end of the range if it lies outside; zero if there
is none. -/
def Reading.toInt : Reading → Int
  | finite x => clamp x.truncate
  | infinite negative => if negative then int64Min else int64Max
  | notANumber => 0

/-- The whole part of a number, at the nearest end of the range if it lies outside. -/
def numberToInt : Number → Int
  | .integer i => clamp i
  | .float x => clamp x.truncate

def stringDefault : Json → Except CoercionFault String
  | .string s => .ok s
  | .bool b => .ok (if b then "true" else "false")
  | .number n => .ok n.toText
  | other => .error (unusable other.kind .string)

def isYes (s : String) : Bool :=
  ["true", "on", "yes"].contains (String.ofList (lower (Text.trimChars s.toList)))

def booleanDefault : Json → Except CoercionFault Bool
  | .bool b => .ok b
  | .string s => .ok (isYes s)
  | .number (.integer i) => .ok (i != 0)
  | .number (.float x) => .ok (!x.isZero)
  | other => .error (unusable other.kind .boolean)

def boolNumber (b : Bool) : Int := if b then 1 else 0

def integerDefault : Json → Except CoercionFault Int
  | .number n => .ok (numberToInt n)
  | .string s =>
    match reading? (Text.trimChars s.toList) with
    | some r => .ok r.toInt
    | none => .error (unreadable s .integer)
  | .bool b => .ok (boolNumber b)
  | other => .error (unusable other.kind .integer)

def numberDefault : Json → Except CoercionFault Number
  | .number n => .ok n
  | .string s =>
    match reading? (Text.trimChars s.toList) with
    | some (.finite x) => .ok (.float x)
    | _ => .error (unreadable s .number)
  | .bool b => .ok (.integer (boolNumber b))
  | other => .error (unusable other.kind .number)

/-- The whole part of a bound. -/
def integerBound : Json → Except CoercionFault Int
  | .number n => .ok (numberToInt n)
  | other => .error (boundNotNumber other.kind)

def numberBound : Json → Except CoercionFault Number
  | .number n => .ok n
  | other => .error (boundNotNumber other.kind)

end SchemaForge.Coercion
