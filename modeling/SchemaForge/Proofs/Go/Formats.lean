import Mathlib
import SchemaForge.Proofs.Go.Literals
/-!
Formats that make texts of arguments, and what they make. Texts without a percent sign stand for
themselves; one with a percent sign does not.
-/
namespace SchemaForge.Go.Format

variable {cs ds options : List Char} {skip : Nat} {verb : Char}

/-- A part of a format. -/
inductive Piece where
  /-- A character that stands for itself. -/
  | plain (c : Char)
  /-- What stands behind a percent sign: options, and the verb that tells how to show an argument,
  if the format does not end before it. -/
  | directive (options : List Char) (verb : Option Char)
  deriving DecidableEq

def isFlag (c : Char) : Bool := c == '#' || c == '0' || c == '+' || c == '-' || c == ' '

/-- Whether digits name a number that is not too large when its last digit comes. -/
def inRange (digits : List Char) : Bool := Decimal.value digits.dropLast ≤ 1000000

/-- The digits that a text begins with. A number that gets too large takes all that follows. -/
def number (cs : List Char) : List Char :=
  let digits := cs.takeWhile Char.isDigit
  if inRange digits then digits else cs

/-- The number of an argument in brackets, if a text begins with one, and whether it is one. A
bracket that nothing closes stands alone. -/
def index : List Char → List Char × Bool
  | '[' :: cs =>
    if 2 ≤ cs.length ∧ ']' ∈ cs then
      let inner := cs.takeWhile (· ≠ ']')
      ('[' :: inner ++ [']'], !inner.isEmpty && inner.all Char.isDigit && inRange inner)
    else (['['], false)
  | _ => ([], false)

/-- A width or a precision, which an argument may give, and whether an index still counts for what
follows. -/
def size (found : Bool) : List Char → List Char × Bool
  | '*' :: _ => (['*'], false)
  | cs => (number cs, found)

/-- A precision behind a point. -/
def precision (found : Bool) : List Char → List Char × Bool
  | '.' :: cs =>
    let (argument, found) := index cs
    let (digits, found) := size found (cs.drop argument.length)
    ('.' :: argument ++ digits, found)
  | _ => ([], found)

/-- The options of a directive that a text begins with: flags, an index, a width, a precision, and
an index if none is there yet. -/
def optionsOf (cs : List Char) : List Char :=
  let flags := cs.takeWhile isFlag
  let cs := cs.drop flags.length
  let (argument, found) := index cs
  let cs := cs.drop argument.length
  let (width, found) := size found cs
  let cs := cs.drop width.length
  let (precision, found) := precision found cs
  let last := if found then [] else (index (cs.drop precision.length)).1
  flags ++ argument ++ width ++ precision ++ last

/-- The pieces of a format behind so many characters. -/
def pieces : Nat → List Char → List Piece
  | _, [] => []
  | skip + 1, _ :: cs => pieces skip cs
  | 0, c :: cs =>
    if c = '%' then
      .directive (optionsOf cs) (cs.drop (optionsOf cs).length).head? ::
        pieces ((optionsOf cs).length + 1) cs
    else .plain c :: pieces 0 cs

/-- What a format makes of arguments, of which each verb takes one; `none` where a directive picks
its argument or takes a size from one. A verb without an argument and arguments without a verb are
reported in the text. -/
def expand? {α : Type} (print : List Char → Char → α → List Char) (extra : List α → List Char) :
    List α → List Piece → Option (List Char)
  | args, [] => some (if args.isEmpty then [] else extra args)
  | args, .plain c :: rest => (expand? print extra args rest).map (c :: ·)
  | args, .directive options verb :: rest =>
    if options.contains '[' || options.contains '*' then none
    else match verb, args with
      | none, args => (expand? print extra args rest).map ("%!(NOVERB)".toList ++ ·)
      | some '%', args => (expand? print extra args rest).map ('%' :: ·)
      | some verb, [] =>
        (expand? print extra [] rest).map ("%!".toList ++ verb :: "(MISSING)".toList ++ ·)
      | some verb, a :: args =>
        (expand? print extra args rest).map (print options verb a ++ ·)

theorem pieces_plain (h : '%' ∉ cs) (ds : List Char) :
    pieces 0 (cs ++ ds) = cs.map .plain ++ pieces 0 ds := by
  induction cs with
  | nil => rfl
  | cons c cs ih =>
    rw [List.mem_cons, not_or] at h
    rw [List.cons_append, pieces, if_neg (Ne.symm h.1), ih h.2]
    rfl

/-- No percent sign stands for itself. -/
theorem plain_percent_not_mem (skip : Nat) (cs : List Char) : .plain '%' ∉ pieces skip cs := by
  induction cs generalizing skip with
  | nil => simp [pieces]
  | cons c cs ih =>
    cases skip with
    | succ skip => exact ih skip
    | zero =>
      rw [pieces]
      split
      · simp [ih]
      · next hc => simpa [ih] using Ne.symm hc

/-- Verbs that errors show their arguments with: as a text, and by the type. -/
def isErrorVerb (c : Char) : Bool := c == 's' || c == 'T'

theorem pieces_verb (h : isErrorVerb verb = true) :
    pieces 0 ['%', verb] = [.directive [] (some verb)] := by
  simp only [isErrorVerb, Bool.or_eq_true, beq_iff_eq] at h
  rcases h with rfl | rfl <;> decide

/-- A text and a verb are the pieces of a format exactly if the text has no percent sign. -/
theorem pieces_eq_iff (h : isErrorVerb verb = true) :
    pieces 0 (cs ++ ['%', verb]) = cs.map .plain ++ [.directive [] (some verb)] ↔ '%' ∉ cs := by
  constructor
  · intro heq hmem
    apply plain_percent_not_mem 0 (cs ++ ['%', verb])
    rw [heq]
    exact List.mem_append_left _ (List.mem_map_of_mem hmem)
  · intro hcs
    rw [pieces_plain hcs, pieces_verb h]

/-- A text and a verb make the text and the argument. -/
theorem expand?_plain {α : Type} (h : isErrorVerb verb = true)
    (print : List Char → Char → α → List Char) (extra : List α → List Char) (a : α)
    (cs : List Char) : expand? print extra [a] (cs.map .plain ++ [.directive [] (some verb)]) =
      some (cs ++ print [] verb a) := by
  induction cs with
  | nil =>
    simp only [isErrorVerb, Bool.or_eq_true, beq_iff_eq] at h
    rcases h with rfl | rfl <;> simp [expand?]
  | cons c cs ih =>
    rw [List.map_cons, List.cons_append, expand?, ih]
    rfl

end SchemaForge.Go.Format
