import SchemaForge.Decimal.Digits
import SchemaForge.Yaml.Scalar
/-!
Tokens of YAML text. A key is known as one only when its colon is met: until then a scanner
remembers where it started.
-/
namespace SchemaForge.Yaml

inductive Token where
  | version (major minor : Nat)
  | tagPrefix (handle text : String)
  | documentStart
  | documentEnd
  | openBlockSequence
  | openBlockMapping
  | closeBlock
  | openSequence
  | closeSequence
  | openMapping
  | closeMapping
  | comma
  | dash
  | key
  | value
  /-- A name that stands for the node with that anchor. -/
  | standIn (name : String)
  | anchor (name : String)
  | tag (handle suffix : String)
  | scalar (style : ScalarStyle) (text : String)
  deriving DecidableEq

/-- A place where a key may have started. -/
structure KeyStart where
  /-- How many tokens came before it. -/
  token : Nat
  place : Place
  /-- Whether nothing but a key can stand there. -/
  required : Bool

structure Scanner where
  rest : List Char
  place : Place
  tokens : List Token
  /-- The column from which lines belong to the innermost open block. -/
  margin : Nat
  /-- The margins of the blocks around it. -/
  margins : List Nat
  /-- Where a key may have started, inside the innermost brackets. -/
  keyStart : Option KeyStart
  /-- The same for the brackets around them. -/
  keyStarts : List (Option KeyStart)
  /-- Whether a key may start here. -/
  keyAllowed : Bool

namespace Scanner

def start (cs : List Char) : Scanner := ⟨cs, .start, [], 0, [], none, [], true⟩

def inFlow (s : Scanner) : Bool := !s.keyStarts.isEmpty

/-- Goes on to the rest of the text. -/
def moveTo (s : Scanner) (rest : List Char) : Scanner :=
  { s with rest, place := s.place.after (s.rest.take (s.rest.length - rest.length)) }

def emit (s : Scanner) (t : Token) : Scanner := { s with tokens := s.tokens ++ [t] }

def allowKey (s : Scanner) (keyAllowed : Bool) : Scanner := { s with keyAllowed }

/-- Opens a block at a column unless one is open there, with its token before those from an index
on. Inside brackets there are no blocks. -/
def openBlock (s : Scanner) (column index : Nat) (t : Token) : Scanner :=
  if s.inFlow || column < s.margin then s
  else
    { s with
      tokens := s.tokens.insertIdx index t
      margin := column + 1
      margins := s.margin :: s.margins }

/-- How many blocks reach further than a margin, and the margins that remain. -/
def unwind (limit margin : Nat) : List Nat → Nat × Nat × List Nat
  | [] => (0, margin, [])
  | outer :: rest =>
    if limit < margin then
      let (closed, remaining) := unwind limit outer rest
      (closed + 1, remaining)
    else (0, margin, outer :: rest)

/-- Closes the blocks whose margin is greater. -/
def closeBlocks (s : Scanner) (limit : Nat) : Scanner :=
  if s.inFlow then s
  else
    let (closed, margin, margins) := unwind limit s.margin s.margins
    { s with tokens := s.tokens ++ List.replicate closed .closeBlock, margin, margins }

/-- Forgets where a key may have started; fails if one had to. -/
def dropKey? (s : Scanner) : Option Scanner :=
  if s.keyStart.any (·.required) then none else some { s with keyStart := none }

/-- Remembers that a key may start here. -/
def markKey? (s : Scanner) : Option Scanner :=
  if s.keyAllowed then
    s.dropKey?.map fun s =>
      let required := !s.inFlow && s.margin == s.place.column + 1
      { s with keyStart := some ⟨s.tokens.length, s.place, required⟩ }
  else some s

/-- A key stands on one line and is not long. -/
def isStale (p : Place) (k : KeyStart) : Bool :=
  k.place.line < p.line || k.place.index + 1024 < p.index

/-- Forgets the places from which it is too far to be a key; fails if one had to be. -/
def dropStale? (s : Scanner) : Option Scanner :=
  let stale (k : Option KeyStart) := k.any (isStale s.place)
  if (s.keyStart :: s.keyStarts).any fun k => stale k && k.any (·.required) then none
  else
    let keep (k : Option KeyStart) := if stale k then none else k
    some { s with keyStart := keep s.keyStart, keyStarts := s.keyStarts.map keep }

/-- Skips white space, comments and empty lines, and tells whether a key may start after them. A
new line allows keys outside of brackets; a tab may not stand where one may start. -/
def skip (inFlow inComment keyAllowed : Bool) : List Char → Bool × List Char
  | [] => (keyAllowed, [])
  | c :: rest =>
    if isBreak c then skip inFlow false (keyAllowed || !inFlow) rest
    else if inComment then skip inFlow true keyAllowed rest
    else if c = ' ' ∨ (c = '\t' ∧ (inFlow ∨ ¬ keyAllowed)) then skip inFlow false keyAllowed rest
    else if c = '#' then skip inFlow true keyAllowed rest
    else (keyAllowed, c :: rest)

def skipSpace (s : Scanner) : Scanner :=
  let (keyAllowed, rest) := skip s.inFlow false s.keyAllowed s.rest
  (s.moveTo rest).allowKey keyAllowed

/-- Reads a number of nine digits at most. -/
def versionNumber? (cs : List Char) : Option (Nat × List Char) :=
  let digits := cs.takeWhile Char.isDigit
  if digits.isEmpty || 9 < digits.length then none
  else some (Decimal.value digits, cs.dropWhile Char.isDigit)

def isTagChar (c : Char) : Bool := isWordChar c || ";/?:@&=+$.!~*\x27()".toList.contains c

/-- Reads characters of a tag. Two digits after a percent sign stand for a character. -/
def tagText? (inBrackets : Bool) : List Char → Option (List Char × List Char)
  | '%' :: a :: b :: rest =>
    match Json.Token.hexValue? a, Json.Token.hexValue? b with
    | some high, some low =>
      (tagText? inBrackets rest).map fun (cs, rest) => (Char.ofNat (high * 16 + low) :: cs, rest)
    | _, _ => none
  | c :: rest =>
    if c = '%' then none
    else if isTagChar c ∨ (inBrackets ∧ (c = ',' ∨ c = '[' ∨ c = ']')) then
      (tagText? inBrackets rest).map fun (cs, rest) => (c :: cs, rest)
    else some ([], c :: rest)
  | [] => some ([], [])

/-- Reads the handle of a tag: a name between exclamation marks, or one of them. -/
def tagHandle? : List Char → Option (String × List Char)
  | '!' :: rest =>
    let name := rest.takeWhile isWordChar
    match rest.dropWhile isWordChar with
    | '!' :: rest => some (String.ofList ('!' :: name ++ ['!']), rest)
    | rest => if name.isEmpty then some ("!", rest) else none
  | _ => none

/-- Reads a tag after its first exclamation mark. -/
def tag? (cs : List Char) : Option (Token × List Char) :=
  match cs with
  | '<' :: rest =>
    match tagText? true rest with
    | some (text, '>' :: rest) =>
      if text.isEmpty then none else some (.tag "" (String.ofList text), rest)
    | _ => none
  | cs =>
    let name := cs.takeWhile isWordChar
    match cs.dropWhile isWordChar with
    | '!' :: rest =>
      match tagText? false rest with
      | some (suffix, rest) =>
        if suffix.isEmpty then none
        else some (.tag (String.ofList ('!' :: name ++ ['!'])) (String.ofList suffix), rest)
      | none => none
    | rest =>
      (tagText? false rest).map fun (more, rest) =>
        let suffix := String.ofList (name ++ more)
        (if suffix.isEmpty then .tag "" "!" else .tag "!" suffix, rest)

/-- Reads a directive after its percent sign. -/
def directive? (cs : List Char) : Option (Token × List Char) := do
  let name := cs.takeWhile isWordChar
  let cs := cs.dropWhile isWordChar
  if !endsWord cs then none
  if name = "YAML".toList then
    let (major, cs) ← versionNumber? (cs.dropWhile isSpace)
    match cs with
    | '.' :: cs =>
      let (minor, cs) ← versionNumber? cs
      return (.version major minor, ← lineRest? cs)
    | _ => none
  else if name = "TAG".toList then
    let (handle, cs) ← tagHandle? (cs.dropWhile isSpace)
    if !cs.head?.any isSpace then none
    let (text, cs) ← tagText? true (cs.dropWhile isSpace)
    if text.isEmpty || !endsWord cs then none
    return (.tagPrefix handle (String.ofList text), ← lineRest? cs)
  else none

/-- Emits a token for what stands before the rest. -/
def take (s : Scanner) (t : Token) (rest : List Char) : Scanner := (s.emit t).moveTo rest

/-- Reads a mark that stands between documents. -/
def documentMark? (s : Scanner) (t : Token) (rest : List Char) : Option Scanner := do
  let s ← (s.closeBlocks 0).dropKey?
  return (s.take t (rest.drop 2)).allowKey false

def directiveToken? (s : Scanner) (rest : List Char) : Option Scanner := do
  let s ← (s.closeBlocks 0).dropKey?
  let (t, rest) ← directive? rest
  return (s.take t rest).allowKey false

def openFlow? (s : Scanner) (t : Token) (rest : List Char) : Option Scanner := do
  let s ← s.markKey?
  let s := { s with keyStart := none, keyStarts := s.keyStart :: s.keyStarts }
  return (s.take t rest).allowKey true

def closeFlow? (s : Scanner) (t : Token) (rest : List Char) : Option Scanner := do
  let s ← s.dropKey?
  let s := match s.keyStarts with
    | [] => s
    | outer :: keyStarts => { s with keyStart := outer, keyStarts }
  return (s.take t rest).allowKey false

def comma? (s : Scanner) (rest : List Char) : Option Scanner := do
  return ((← s.dropKey?).take .comma rest).allowKey true

def dash? (s : Scanner) (rest : List Char) : Option Scanner := do
  if !s.inFlow && !s.keyAllowed then none
  let s ← (s.openBlock s.place.column s.tokens.length .openBlockSequence).dropKey?
  return (s.take .dash rest).allowKey true

/-- Reads the mark of a key that is not simple. -/
def keyMark? (s : Scanner) (rest : List Char) : Option Scanner := do
  if !s.inFlow && !s.keyAllowed then none
  let s ← (s.openBlock s.place.column s.tokens.length .openBlockMapping).dropKey?
  return (s.take .key rest).allowKey !s.inFlow

/-- Reads the colon before a value. What started a key before it becomes one. -/
def colon? (s : Scanner) (rest : List Char) : Option Scanner :=
  match s.keyStart with
  | some k =>
    let s := { s with tokens := s.tokens.insertIdx k.token .key, keyStart := none }
    let s := s.openBlock k.place.column k.token .openBlockMapping
    some ((s.take .value rest).allowKey false)
  | none =>
    if !s.inFlow && !s.keyAllowed then none
    else
      let s := s.openBlock s.place.column s.tokens.length .openBlockMapping
      some ((s.take .value rest).allowKey !s.inFlow)

/-- Reads the name after the mark of an anchor or of what stands in for one. -/
def name? (s : Scanner) (token : String → Token) (rest : List Char) : Option Scanner := do
  let s ← s.markKey?
  let name := rest.takeWhile isWordChar
  let rest := rest.dropWhile isWordChar
  if name.isEmpty || !(endsWord rest || rest.head?.any "?:,]\x7d%@\x60".toList.contains) then none
  return (s.take (token (String.ofList name)) rest).allowKey false

def tagToken? (s : Scanner) (rest : List Char) : Option Scanner := do
  let s ← s.markKey?
  let (t, rest) ← tag? rest
  if !(endsWord rest || (s.inFlow && rest.head? == some ',')) then none
  return (s.take t rest).allowKey false

def blockToken? (s : Scanner) (literal : Bool) (rest : List Char) : Option Scanner := do
  let s ← s.dropKey?
  let (text, rest) ← blockScalar? literal s.margin rest
  let style := if literal then .literal else .folded
  return (s.take (.scalar style (String.ofList text)) rest).allowKey true

def quotedToken? (s : Scanner) (double : Bool) (rest : List Char) : Option Scanner := do
  let s ← s.markKey?
  let (text, rest) ← if double then double? .empty .none rest else single? .empty rest
  return (s.take (.scalar .quoted (String.ofList text)) rest).allowKey false

def startsPlain (s : Scanner) (c : Char) (rest : List Char) : Bool :=
  if c == '-' then true
  else if c == '?' || c == ':' then !s.inFlow
  else !isFlowMark c && !"#&*!|>\x27\"%@\x60".toList.contains c && !endsWord (c :: rest)

/-- Reads a plain scalar. A key may follow one that ends with its line. -/
def plainToken? (s : Scanner) (cs : List Char) : Option Scanner := do
  let s ← s.markKey?
  let (d, rest) ← plain? ⟨s.inFlow, s.margin⟩ .empty cs
  return (s.take (.scalar .plain (String.ofList d.text)) rest).allowKey d.gap.ended

/-- Reads one token. -/
def token? (s : Scanner) (c : Char) (rest : List Char) : Option Scanner :=
  let lineStart := s.place.column == 0
  if lineStart && c == '%' then s.directiveToken? rest
  else if lineStart && startsTriple '-' (c :: rest) then s.documentMark? .documentStart rest
  else if lineStart && startsTriple '.' (c :: rest) then s.documentMark? .documentEnd rest
  else if c == '[' then s.openFlow? .openSequence rest
  else if c == '{' then s.openFlow? .openMapping rest
  else if c == ']' then s.closeFlow? .closeSequence rest
  else if c == '}' then s.closeFlow? .closeMapping rest
  else if c == ',' then s.comma? rest
  else if c == '-' && endsWord rest then s.dash? rest
  else if c == '?' && (s.inFlow || endsWord rest) then s.keyMark? rest
  else if c == ':' && (s.inFlow || endsWord rest) then s.colon? rest
  else if c == '*' then s.name? .standIn rest
  else if c == '&' then s.name? .anchor rest
  else if c == '!' then s.tagToken? rest
  else if c == '|' && !s.inFlow then s.blockToken? true rest
  else if c == '>' && !s.inFlow then s.blockToken? false rest
  else if c == '\x27' then s.quotedToken? false rest
  else if c == '"' then s.quotedToken? true rest
  else if s.startsPlain c rest then s.plainToken? (c :: rest)
  else none

/-- Reads tokens to the end of the text, as many as the budget allows. Each takes at least one
character. -/
def run? : Nat → Scanner → Option (List Token)
  | 0, _ => none
  | budget + 1, s => do
    let s ← s.skipSpace.dropStale?
    let s := s.closeBlocks (s.place.column + 1)
    match s.rest with
    | [] => return (← (s.closeBlocks 0).dropKey?).tokens
    | c :: rest => run? budget (← s.token? c rest)

end Scanner

/-- Splits a text into tokens. A byte order mark may stand before it. -/
def Token.scan? (cs : List Char) : Option (List Token) :=
  if cs.all isAllowed then
    let s := Scanner.start (unifyBreaks cs)
    let s := match s.rest with
      | '\ufeff' :: rest => s.moveTo rest
      | _ => s
    Scanner.run? (cs.length + 1) s
  else none

end SchemaForge.Yaml
