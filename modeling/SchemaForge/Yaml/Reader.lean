import SchemaForge.Yaml.Token
/-!
Reading YAML documents. A text may hold one document at most.
-/
namespace SchemaForge.Yaml

/-- What is left to read, and what has been named so far. -/
structure Reader where
  tokens : List Token
  /-- Nodes by their anchors; the last one of a name counts. -/
  anchors : List (String × Yaml)
  /-- Texts that handles of tags stand for. -/
  tagPrefixes : List (String × String)

abbrev Read (α : Type) := StateT Reader Option α

namespace Read

def peek? : Read (Option Token) := fun r => some (r.tokens.head?, r)

def drop : Read Unit := fun r => some ((), { r with tokens := r.tokens.tail })

/-- Whether the next token is the given one, which is dropped then. -/
def accepts (t : Token) : Read Bool := do
  if (← peek?) = some t then drop; return true
  else return false

def demand (t : Token) : Read Unit := do
  if !(← accepts t) then failure

/-- Whether one of some tokens comes next. -/
def isNext (ts : List Token) : Read Bool := fun r => some (r.tokens.head?.any ts.contains, r)

def empty : Yaml := .scalar "" .plain ""

/-- The node that a name stands for. -/
def standIn (name : String) : Read Yaml :=
  fun r => (r.anchors.reverse.lookup name).map fun node => (node, r)

/-- Reads a tag if one comes next. -/
def tag? : Read (Option String) := do
  match ← peek? with
  | some (.tag handle suffix) =>
    drop
    if handle.isEmpty then return some suffix
    let text ← (fun r => (r.tagPrefixes.lookup handle).map fun text => (text, r) : Read String)
    return some (text ++ suffix)
  | _ => return none

def anchor? : Read (Option String) := do
  match ← peek? with
  | some (.anchor name) => drop; return some name
  | _ => return none

/-- Reads an anchor and a tag in either order. -/
def properties : Read (Option String × Option String) := do
  match ← anchor? with
  | some name => return (some name, ← tag?)
  | none =>
    let tag ← tag?
    match tag with
    | some _ => return (← anchor?, tag)
    | none => return (none, none)

/-- Reads a node that an anchor names. -/
def anchored (name : Option String) (node : Read Yaml) : Read Yaml :=
  match name with
  | none => node
  | some name => do
    let place := (← get).anchors.length
    modify fun r => { r with anchors := r.anchors ++ [(name, .loop)] }
    let node ← node
    modify fun r => { r with anchors := r.anchors.set place (name, node) }
    return node

/-- Where a node stands, which says what it may be. -/
inductive Position where
  /-- Inside brackets. -/
  | flow
  /-- In a block. -/
  | block
  /-- After a mark of a mapping, where the dashes of a sequence need not be indented. -/
  | entry
  deriving DecidableEq

/- Nodes and collections as deep as a budget allows. Each step down takes a token at the latest in
the step after it. -/
mutual

def node : Nat → Position → Read Yaml
  | 0, _ => failure
  | budget + 1, position => do
    match ← peek? with
    | some (.standIn name) => drop; standIn name
    | _ =>
      let (name, tag) ← properties
      anchored name (content budget position (name.isSome || tag.isSome) (tag.getD ""))

/-- Reads what a node holds. It may be missing if the node has an anchor or a tag. -/
def content : Nat → Position → Bool → String → Read Yaml
  | 0, _, _, _ => failure
  | budget + 1, position, hasProperties, tag => do
    match ← peek? with
    | some (.scalar style text) => drop; return .scalar tag style text
    | some .openSequence => drop; return .sequence (← flowItems budget true)
    | some .openMapping => drop; return .mapping (← flowEntries budget true)
    | t =>
      if t = some .openBlockSequence ∧ position ≠ .flow then
        drop
        return .sequence (← blockItems budget)
      else if t = some .openBlockMapping ∧ position ≠ .flow then
        drop
        return .mapping (← blockEntries budget)
      else if t = some .dash ∧ position = .entry then
        return .sequence (← dashes budget)
      else if hasProperties then return .scalar tag .plain ""
      else failure

/-- Reads a node unless a token comes that can only stand after it. -/
def optional : Nat → Position → List Token → Read Yaml
  | 0, _, _ => failure
  | budget + 1, position, ends => do
    if ← isNext ends then return empty else node budget position

def blockItems : Nat → Read (List Yaml)
  | 0 => failure
  | budget + 1 => do
    if ← accepts .dash then
      let item ← optional budget .block [.dash, .closeBlock]
      return item :: (← blockItems budget)
    else
      demand .closeBlock
      return []

/-- Reads items that are indented no further than the key before them. -/
def dashes : Nat → Read (List Yaml)
  | 0 => failure
  | budget + 1 => do
    if ← accepts .dash then
      let item ← optional budget .block [.dash, .key, .value, .closeBlock]
      return item :: (← dashes budget)
    else return []

def blockEntries : Nat → Read (List (Yaml × Yaml))
  | 0 => failure
  | budget + 1 => do
    if ← accepts .key then
      let key ← optional budget .entry [.key, .value, .closeBlock]
      let value ←
        if ← accepts .value then optional budget .entry [.key, .value, .closeBlock] else pure empty
      return (key, value) :: (← blockEntries budget)
    else
      demand .closeBlock
      return []

/-- Reads the items of a sequence in brackets. An item may be a mapping with one entry. -/
def flowItems : Nat → Bool → Read (List Yaml)
  | 0, _ => failure
  | budget + 1, first => do
    if ← accepts .closeSequence then return []
    else
      if !first then demand .comma
      if ← accepts .key then
        let key ← optional budget .flow [.value, .comma, .closeSequence]
        let value ←
          if ← accepts .value then optional budget .flow [.comma, .closeSequence] else pure empty
        return .mapping [(key, value)] :: (← flowItems budget false)
      else if ← accepts .closeSequence then return []
      else
        let item ← node budget .flow
        return item :: (← flowItems budget false)

/-- Reads the entries of a mapping in brackets. A key may lack its value. -/
def flowEntries : Nat → Bool → Read (List (Yaml × Yaml))
  | 0, _ => failure
  | budget + 1, first => do
    if ← accepts .closeMapping then return []
    else
      if !first then demand .comma
      if ← accepts .key then
        let key ← optional budget .flow [.value, .comma, .closeMapping]
        let value ←
          if ← accepts .value then optional budget .flow [.comma, .closeMapping] else pure empty
        return (key, value) :: (← flowEntries budget false)
      else if ← accepts .closeMapping then return []
      else
        let key ← node budget .flow
        return (key, empty) :: (← flowEntries budget false)

end

/-- Reads directives: one version at most, which is 1.1 or 1.2, and one text for each handle. -/
def directives (versioned : Bool) : List Token → Option (List (String × String) × List Token)
  | .version major minor :: rest =>
    if versioned || major != 1 || (minor != 1 && minor != 2) then none else directives true rest
  | .tagPrefix handle text :: rest =>
    match directives versioned rest with
    | some (prefixes, rest) =>
      if (prefixes.lookup handle).isSome then none else some ((handle, text) :: prefixes, rest)
    | none => none
  | rest => some ([], rest)

/-- Reads the node of a document that has its mark. -/
def marked (budget : Nat) : Read Yaml := do
  match ← peek? with
  | none | some .documentStart | some .documentEnd | some (.version ..) | some (.tagPrefix ..) =>
    return empty
  | _ => node budget .block

/-- What handles stand for unless a directive says otherwise. -/
def standardPrefixes : List (String × String) := [("!", "!"), ("!!", "tag:yaml.org,2002:")]

/-- Reads the tokens of a text to the end. -/
def document? (tokens : List Token) : Option (Option Yaml) := do
  if tokens.isEmpty then return none
  let budget := 4 * tokens.length + 4
  let (prefixes, rest) ← directives false tokens
  let explicit := rest.head? == some .documentStart
  if rest.length < tokens.length && !explicit then none
  let reader : Reader := ⟨if explicit then rest.tail else rest, [], prefixes ++ standardPrefixes⟩
  let (value, reader) ← (if explicit then marked budget else node budget .block).run reader
  if (reader.tokens.dropWhile (· == .documentEnd)).isEmpty then return some value else none

end Read

/-- The document that a text holds: `none` if it is malformed, `some none` if it holds nothing. -/
def read? (s : String) : Option (Option Yaml) := (Token.scan? s.toList).bind Read.document?

end SchemaForge.Yaml
