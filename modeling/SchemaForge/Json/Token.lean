import SchemaForge.Decimal.Digits
import SchemaForge.Json
/-!
Tokens of JSON text.
-/
namespace SchemaForge.Json

inductive Token where
  | openArray
  | closeArray
  | openObject
  | closeObject
  | comma
  | colon
  /-- A value that holds no other: a text, a number, `true`, `false` or `null`. -/
  | scalar (value : Json)

namespace Token

def isSpace (c : Char) : Bool := c == ' ' || c == '\t' || c == '\n' || c == '\r'

def hexValue? (c : Char) : Option Nat :=
  if c.isDigit then some (c.toNat - 48)
  else if 'a' ≤ c ∧ c ≤ 'f' then some (c.toNat - 87)
  else if 'A' ≤ c ∧ c ≤ 'F' then some (c.toNat - 55)
  else none

/-- The UTF-16 unit that four hexadecimal digits name. -/
def unit? (a b c d : Char) : Option Nat := do
  return (((← hexValue? a) * 16 + (← hexValue? b)) * 16 + (← hexValue? c)) * 16 + (← hexValue? d)

def isHighSurrogate (n : Nat) : Bool := 0xD800 ≤ n && n ≤ 0xDBFF

def isLowSurrogate (n : Nat) : Bool := 0xDC00 ≤ n && n ≤ 0xDFFF

/-- The character that one letter after a backslash names. -/
def named? : Char → Option Char
  | '"' => some '"'
  | '\\' => some '\\'
  | '/' => some '/'
  | 'b' => some '\x08'
  | 'f' => some '\x0c'
  | 'n' => some '\n'
  | 'r' => some '\r'
  | 't' => some '\t'
  | _ => none

/-- Splits a text after its opening quote into what it stands for and what follows its closing
quote. Control characters must be escaped, and surrogates must come in pairs. -/
def text? : List Char → Option (List Char × List Char)
  | [] => none
  | '"' :: rest => some ([], rest)
  | '\\' :: 'u' :: a :: b :: c :: d :: rest =>
    match unit? a b c d with
    | none => none
    | some unit =>
      if isHighSurrogate unit then
        match rest with
        | '\\' :: 'u' :: e :: f :: g :: h :: rest =>
          match unit? e f g h with
          | none => none
          | some low =>
            if isLowSurrogate low then
              let code := 0x10000 + (unit - 0xD800) * 0x400 + (low - 0xDC00)
              (text? rest).map fun (cs, after) => (Char.ofNat code :: cs, after)
            else none
        | _ => none
      else if isLowSurrogate unit then none
      else (text? rest).map fun (cs, after) => (Char.ofNat unit :: cs, after)
  | '\\' :: c :: rest =>
    match named? c with
    | some c => (text? rest).map fun (cs, after) => (c :: cs, after)
    | none => none
  | c :: rest =>
    if c == '\\' || c.toNat < 0x20 then none
    else (text? rest).map fun (cs, after) => (c :: cs, after)

theorem length_text? {cs s rest : List Char} (h : text? cs = some (s, rest)) :
    rest.length < cs.length := by
  fun_induction text? cs generalizing s rest <;>
    simp_all only [Option.map_eq_some_iff, Prod.mk.injEq, reduceCtorEq, Option.some.injEq,
      List.length_cons, Prod.exists] <;> grind

/-- The parts of a number: its sign, its whole digits, its digits after the point, and its
exponent. -/
structure Literal where
  negative : Bool
  whole : List Char
  fraction : Option (List Char)
  exponent : Option Int

def digitsOf (cs : List Char) : List Char × List Char :=
  (cs.takeWhile Char.isDigit, cs.dropWhile Char.isDigit)

/-- Reads `E`, a sign if any, and at least one digit, to the end. -/
def exponent? : List Char → Option (Option Int)
  | [] => some none
  | c :: rest =>
    if c == 'e' || c == 'E' then
      let (negative, ds) := match rest with
        | '-' :: ds => (true, ds)
        | '+' :: ds => (false, ds)
        | ds => (false, ds)
      if ds.isEmpty || !ds.all Char.isDigit then none
      else
        let n : Int := Decimal.value ds
        some (some (if negative then -n else n))
    else none

/-- Reads a number to the end: no leading zeros, and digits on both sides of a point. -/
def literal? (cs : List Char) : Option Literal :=
  let (negative, cs) := match cs with
    | '-' :: rest => (true, rest)
    | cs => (false, cs)
  let (whole, rest) := digitsOf cs
  if whole.isEmpty || (whole.length > 1 && whole.head? == some '0') then none
  else match rest with
    | '.' :: rest =>
      let (fraction, rest) := digitsOf rest
      if fraction.isEmpty then none
      else (exponent? rest).map fun e => ⟨negative, whole, some fraction, e⟩
    | rest => (exponent? rest).map fun e => ⟨negative, whole, none, e⟩

/-- A literal without point and exponent is a whole number if 64 bits hold it; every other one is
a binary64 number, and so is minus zero. None is infinite. -/
def Literal.number? (l : Literal) : Option Number :=
  match l.fraction, l.exponent with
  | none, none =>
    let n := Decimal.value l.whole
    if !l.negative && n < twoTo 64 then some (.integer n)
    else if l.negative && n ≠ 0 && n ≤ twoTo 63 then some (.integer (-n))
    else (Binary64.ofDecimal? l.negative n 0).map .float
  | fraction, exponent =>
    let fraction := fraction.getD []
    let exponent := exponent.getD 0 - fraction.length
    (Binary64.ofDecimal? l.negative (Decimal.value (l.whole ++ fraction)) exponent).map .float

def number? (cs : List Char) : Option Number := (literal? cs).bind Literal.number?

def isNumberChar (c : Char) : Bool :=
  c.isDigit || c == '-' || c == '+' || c == '.' || c == 'e' || c == 'E'

def word? (cs : List Char) : Option Json :=
  if cs = ['n', 'u', 'l', 'l'] then some .null
  else if cs = ['t', 'r', 'u', 'e'] then some (.bool true)
  else if cs = ['f', 'a', 'l', 's', 'e'] then some (.bool false)
  else none

theorem length_dropWhile_le (p : Char → Bool) (cs : List Char) :
    (cs.dropWhile p).length ≤ cs.length := (List.dropWhile_sublist p).length_le

/-- Splits a text into tokens. -/
def scan? (cs : List Char) : Option (List Token) :=
  match cs with
  | [] => some []
  | c :: rest =>
    if isSpace c then scan? rest
    else match c with
      | '[' => (scan? rest).map (openArray :: ·)
      | ']' => (scan? rest).map (closeArray :: ·)
      | '{' => (scan? rest).map (openObject :: ·)
      | '}' => (scan? rest).map (closeObject :: ·)
      | ',' => (scan? rest).map (comma :: ·)
      | ':' => (scan? rest).map (colon :: ·)
      | '"' =>
        match _ : text? rest with
        | some (s, after) => (scan? after).map (scalar (.string (String.ofList s)) :: ·)
        | none => none
      | c =>
        if c.isAlpha then
          match word? (c :: rest.takeWhile Char.isAlpha) with
          | some v => (scan? (rest.dropWhile Char.isAlpha)).map (scalar v :: ·)
          | none => none
        else if isNumberChar c then
          match number? (c :: rest.takeWhile isNumberChar) with
          | some n => (scan? (rest.dropWhile isNumberChar)).map (scalar (.number n) :: ·)
          | none => none
        else none
termination_by cs.length
decreasing_by
  all_goals simp only [List.length_cons]
  all_goals first
    | omega
    | exact Nat.lt_succ_of_lt (length_text? ‹_›)
    | exact Nat.lt_succ_of_le (length_dropWhile_le _ _)

end Token

end SchemaForge.Json
