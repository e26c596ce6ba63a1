/-!
Finite binary64 numbers as exact whole multiples of the least positive one, `2 ^ (-1074)`, and
the number nearest to a fraction.
-/
namespace SchemaForge

/-- The `n`-th power of two. -/
def twoTo (n : Nat) : Nat := Nat.pow 2 n

/-- The `n`-th power of ten. -/
def tenTo (n : Nat) : Nat := Nat.pow 10 n

/-- How many bits of a magnitude lie below its leading 53. -/
def spareBits (units : Nat) : Nat := units.log2 - 52

/-- Magnitudes of finite binary64 numbers, in units of `2 ^ (-1074)`: at most 53 bits of
precision, and below `2 ^ 1024`. -/
def FitsBinary64 (units : Nat) : Prop := units % twoTo (spareBits units) = 0 ∧ units.log2 < 2098

instance (units : Nat) : Decidable (FitsBinary64 units) := inferInstanceAs (Decidable (_ ∧ _))

/-- A finite binary64 number; zero has a sign. -/
structure Binary64 where
  negative : Bool
  /-- The magnitude in units of `2 ^ (-1074)`. -/
  units : Nat
  fits : FitsBinary64 units
  deriving DecidableEq

/-- The whole number nearest to a quotient; a half goes to the even one. -/
def nearestEven (num den : Nat) : Nat :=
  let q := num / den
  let r := num % den
  if 2 * r < den then q
  else if den < 2 * r then q + 1
  else if q % 2 = 0 then q else q + 1

/-- The nearest multiple of a power of two with 53 leading bits. -/
def nearestUnits (num den : Nat) : Nat :=
  let spare := spareBits (num / den)
  nearestEven num (den * twoTo spare) * twoTo spare

namespace Binary64

def zero (negative : Bool) : Binary64 := ⟨negative, 0, by decide⟩

/-- The binary64 number nearest to `± num / den`, `none` when it lies beyond all finite ones. -/
def ofRatio? (negative : Bool) (num den : Nat) : Option Binary64 :=
  let units := nearestUnits (num * twoTo 1074) den
  if h : FitsBinary64 units then some ⟨negative, units, h⟩ else none

/-- The binary64 number nearest to `± coefficient · 10 ^ exponent`. Exponents far outside the
range are settled without computing the power. -/
def ofDecimal? (negative : Bool) (coefficient : Nat) (exponent : Int) : Option Binary64 :=
  let magnitude := exponent + (coefficient.log2 : Int) / 4
  if coefficient = 0 then some (zero negative)
  else if 400 < magnitude then none
  else if magnitude + (coefficient.log2 : Int) < -400 then some (zero negative)
  else if 0 ≤ exponent then ofRatio? negative (coefficient * tenTo exponent.toNat) 1
  else ofRatio? negative coefficient (tenTo (-exponent).toNat)

def ofInt? (i : Int) : Option Binary64 := ofRatio? (decide (i < 0)) i.natAbs 1

def isZero (x : Binary64) : Bool := x.units == 0

/-- The number without its fraction. -/
def truncate (x : Binary64) : Int :=
  let whole : Int := (x.units / twoTo 1074 : Nat)
  if x.negative then -whole else whole

/-- Equality of values: the two zeros are equal. -/
def sameValue (x y : Binary64) : Bool := (x.isZero && y.isZero) || x == y

end Binary64

end SchemaForge
