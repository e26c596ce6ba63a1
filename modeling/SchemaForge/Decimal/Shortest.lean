import SchemaForge.Binary64
import SchemaForge.Decimal.Digits
/-!
The shortest decimal that reads back as a binary64 number. What is chosen of candidates is said
apart from the powers of two that decide what reads back.
-/
namespace SchemaForge

/-- A positive decimal `coefficient · 10 ^ exponent`. -/
structure Decimal where
  coefficient : Nat
  exponent : Int
  deriving DecidableEq

namespace Decimal

/-- The decimal as a quotient of whole numbers. -/
def ratio (d : Decimal) : Nat × Nat :=
  if 0 ≤ d.exponent then (d.coefficient * tenTo d.exponent.toNat, 1)
  else (d.coefficient, tenTo (-d.exponent).toNat)

/-- The nearest multiple of the least positive binary64 number. -/
def toUnits (d : Decimal) : Nat :=
  let (num, den) := d.ratio
  nearestUnits (num * twoTo 1074) den

/-- Twice the distance between a magnitude and a decimal, up to a factor that depends on the
exponent of the decimal only. -/
def distance (units : Nat) (d : Decimal) : Nat :=
  let (num, den) := d.ratio
  (units * den - num * twoTo 1074) + (num * twoTo 1074 - units * den)

/-- How many digits the whole part of a magnitude has, or, below one, how many zeros follow the
point, counted downwards. -/
def leadingPosition (units : Nat) : Int :=
  if twoTo 1074 ≤ units then (digits (units / twoTo 1074)).length
  else -(((List.range 330).takeWhile fun n => units * tenTo (n + 1) < twoTo 1074).length : Int)

/-- The two neighbours of a magnitude among the decimals whose last digit stands at a position. -/
def neighbours (units : Nat) (exponent : Int) : Decimal × Decimal :=
  let below :=
    if 0 ≤ exponent then units / (twoTo 1074 * tenTo exponent.toNat)
    else units * tenTo (-exponent).toNat / twoTo 1074
  (⟨below, exponent⟩, ⟨below + 1, exponent⟩)

/-- Of two decimals the one that reads back; of both the nearer, of two equally near the even one. -/
def preferred? (reads : Decimal → Bool) (away : Decimal → Nat) (pair : Decimal × Decimal) :
    Option Decimal :=
  let (low, high) := pair
  match reads low, reads high with
  | true, true =>
    let toLow := away low
    let toHigh := away high
    if toLow < toHigh then some low
    else if toHigh < toLow then some high
    else if low.coefficient % 2 = 0 then some low else some high
  | true, false => some low
  | false, true => some high
  | false, false => none

/-- The neighbour that reads back as a magnitude. -/
def closest? (units : Nat) (exponent : Int) : Option Decimal :=
  preferred? (·.toUnits == units) (distance units) (neighbours units exponent)

/-- The `n`-th power of five. -/
def fiveTo (n : Nat) : Nat := Nat.pow 5 n

/-- The decimal that equals a magnitude. -/
def exact (units : Nat) : Decimal := ⟨units * fiveTo 1074, -1074⟩

/-- A decimal without trailing zeros. -/
def strip (d : Decimal) : Decimal :=
  if h : d.coefficient ≠ 0 ∧ d.coefficient % 10 = 0 then
    strip ⟨d.coefficient / 10, d.exponent + 1⟩
  else d
termination_by d.coefficient
decreasing_by omega

/-- The first decimal that a search finds at one of the 17 positions behind one. -/
def firstBehind? (search : Int → Option Decimal) (position : Int) : Option Decimal :=
  (List.range 17).findSome? fun n => search (position - (n + 1 : Nat))

/-- The decimal of fewest digits that reads back as a positive magnitude. -/
def shortest (units : Nat) : Decimal :=
  ((firstBehind? (closest? units) (leadingPosition units)).map strip).getD (exact units)

end Decimal

end SchemaForge
