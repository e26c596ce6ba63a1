import SchemaForge.Decimal.Shortest
import SchemaForge.Json
import SchemaForge.Text.Quoted
/-!
JSON text of values, on one line or indented by two spaces.
-/
namespace SchemaForge

/-- A number stands positionally from `10 ^ (-5)` up to below `10 ^ 16`, with at least one digit
after the point, and else with an exponent that has a sign. -/
def Decimal.text (d : Decimal) : List Char :=
  let ds := Decimal.digits d.coefficient
  let length : Int := ds.length
  let point := length + d.exponent
  if 0 ≤ d.exponent ∧ point ≤ 16 then
    ds ++ List.replicate d.exponent.toNat '0' ++ ['.', '0']
  else if 0 < point ∧ point ≤ 16 then
    ds.take point.toNat ++ '.' :: ds.drop point.toNat
  else if -5 < point ∧ point ≤ 0 then
    ['0', '.'] ++ List.replicate (-point).toNat '0' ++ ds
  else
    let sign := if point - 1 < 0 then '-' else '+'
    let exponent := sign :: Decimal.digits (point - 1).natAbs
    match ds with
    | [d] => d :: 'e' :: exponent
    | d :: rest => d :: '.' :: rest ++ 'e' :: exponent
    | [] => []

def Binary64.text (x : Binary64) : List Char :=
  let magnitude := if x.isZero then ['0', '.', '0'] else (Decimal.shortest x.units).text
  if x.negative then '-' :: magnitude else magnitude

def Number.text : Number → List Char
  | .integer i => (Decimal.intText i).toList
  | .float x => x.text

def Number.toText (n : Number) : String := String.ofList n.text

namespace Json

/-- Quotes, backslashes and control characters are escaped; all else stands for itself. -/
def escape (c : Char) : List Char :=
  match c with
  | '"' => ['\\', '"']
  | '\\' => ['\\', '\\']
  | '\x08' => ['\\', 'b']
  | '\x0c' => ['\\', 'f']
  | '\n' => ['\\', 'n']
  | '\r' => ['\\', 'r']
  | '\t' => ['\\', 't']
  | c =>
    if c.toNat < 0x20 then
      ['\\', 'u', '0', '0', Text.hexDigit (c.toNat / 16), Text.hexDigit (c.toNat % 16)]
    else [c]

def quoteChars (cs : List Char) : List Char := '"' :: cs.flatMap escape ++ ['"']

/-- A text as a JSON string. -/
def quote (s : String) : String := String.ofList (quoteChars s.toList)

/-- What stands between the parts of arrays and objects. -/
structure Spacing where
  /-- What stands before an item that lies at a depth. -/
  lineBreak : Nat → List Char
  /-- What stands between a name and its value. -/
  colon : List Char

/-- No blanks at all. -/
def Spacing.compact : Spacing := ⟨fun _ => [], [':']⟩

/-- A line for each item, indented by two spaces for each level. -/
def Spacing.pretty : Spacing := ⟨fun depth => '\n' :: List.replicate (2 * depth) ' ', [':', ' ']⟩

mutual

/-- The text of a value that lies at a depth. -/
def write (spacing : Spacing) (depth : Nat) : Json → List Char
  | null => ['n', 'u', 'l', 'l']
  | bool true => ['t', 'r', 'u', 'e']
  | bool false => ['f', 'a', 'l', 's', 'e']
  | number n => n.text
  | string s => quoteChars s.toList
  | array [] => ['[', ']']
  | array (v :: vs) =>
    '[' :: spacing.lineBreak (depth + 1) ++ write spacing (depth + 1) v ++
      writeItems spacing (depth + 1) vs ++ spacing.lineBreak depth ++ [']']
  | object [] => ['{', '}']
  | object ((k, v) :: ms) =>
    '{' :: spacing.lineBreak (depth + 1) ++ quoteChars k.toList ++ spacing.colon ++
      write spacing (depth + 1) v ++ writeMembers spacing (depth + 1) ms ++
      spacing.lineBreak depth ++ ['}']

/-- The items after the first, each behind a comma. -/
def writeItems (spacing : Spacing) (depth : Nat) : List Json → List Char
  | [] => []
  | v :: vs =>
    ',' :: spacing.lineBreak depth ++ write spacing depth v ++ writeItems spacing depth vs

/-- The members after the first, each behind a comma. -/
def writeMembers (spacing : Spacing) (depth : Nat) : Members → List Char
  | [] => []
  | (k, v) :: ms =>
    ',' :: spacing.lineBreak depth ++ quoteChars k.toList ++ spacing.colon ++
      write spacing depth v ++ writeMembers spacing depth ms

end

def compact (v : Json) : String := String.ofList (v.write .compact 0)

def pretty (v : Json) : String := String.ofList (v.write .pretty 0)

end Json

end SchemaForge
