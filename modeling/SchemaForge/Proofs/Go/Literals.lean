import Mathlib
import SchemaForge.Go.Class
import SchemaForge.Json.Token
import SchemaForge.Path
import SchemaForge.Proofs.Go.Emitted
import SchemaForge.Proofs.Path
/-!
What literals of Go stand for, and what the tag of a field says of its form in JSON. Texts in quotes
always read back. A tag says the name of its member where that has neither a backquote, which ends
the literal, nor a comma, which ends the name.
-/
namespace SchemaForge.Go

variable {f : Field} {c : Char} {cs ds text rest : List Char}

namespace Literal

/-- Where a reader stands in a text in quotes. -/
inductive Place where
  | text
  /-- Behind a backslash. -/
  | escape
  /-- In digits of a base, of which so many are left, with what they come to so far and what that
  has to stay below. -/
  | digits (base left bound value : Nat)

/-- What a letter behind a backslash stands for alone. -/
def named? : Char → Option Char
  | 'a' => some '\x07'
  | 'b' => some '\x08'
  | 'f' => some '\x0c'
  | 'n' => some '\n'
  | 'r' => some '\r'
  | 't' => some '\t'
  | 'v' => some '\x0b'
  | '\\' => some '\\'
  | '"' => some '"'
  | _ => none

/-- The digits that a letter behind a backslash announces, and what their value has to stay below.
Two of them name a byte, which is a character of its own only in ASCII. -/
def announced? : Char → Option Place
  | 'x' => some (.digits 16 2 0x80 0)
  | 'u' => some (.digits 16 4 0x110000 0)
  | 'U' => some (.digits 16 8 0x110000 0)
  | c =>
    match Json.Token.hexValue? c with
    | some d => if d < 8 then some (.digits 8 2 0x80 d) else none
    | none => none

/-- Splits a text behind its opening quote into what it stands for and what follows its closing
quote. -/
def interpreted? : Place → List Char → Option (List Char × List Char)
  | _, [] => none
  | .text, c :: cs =>
    if c = '"' then some ([], cs)
    else if c = '\\' then interpreted? .escape cs
    else if c = '\n' then none
    else (interpreted? .text cs).map fun (text, rest) => (c :: text, rest)
  | .escape, c :: cs =>
    match named? c with
    | some d => (interpreted? .text cs).map fun (text, rest) => (d :: text, rest)
    | none =>
      match announced? c with
      | some place => interpreted? place cs
      | none => none
  | .digits base left bound value, c :: cs =>
    match Json.Token.hexValue? c with
    | none => none
    | some d =>
      if base ≤ d then none
      else if 1 < left then interpreted? (.digits base (left - 1) bound (value * base + d)) cs
      else if value * base + d < bound ∧ (value * base + d).isValidChar then
        (interpreted? .text cs).map fun (text, rest) =>
          (Char.ofNat (value * base + d) :: text, rest)
      else none

/-- Splits a raw text behind its opening backquote into what it stands for and what follows its
closing one. Carriage returns do not count. -/
def raw? : List Char → Option (List Char × List Char)
  | [] => none
  | c :: cs =>
    if c = '\x60' then some ([], cs)
    else if c = '\r' then raw? cs
    else (raw? cs).map fun (text, rest) => (c :: text, rest)

/-- What a raw literal stands for, if nothing follows it. -/
def ofRaw? : List Char → Option (List Char)
  | '\x60' :: cs =>
    match raw? cs with
    | some (text, []) => some text
    | _ => none
  | _ => none

/-- What a text in quotes stands for, if nothing follows it. -/
def ofText? : List Char → Option (List Char)
  | '"' :: cs =>
    match interpreted? .text cs with
    | some (text, []) => some text
    | _ => none
  | _ => none

theorem interpreted?_control (n : Fin 32) (rest : List Char) :
    interpreted? .text (['\\', 'u', '0', '0', Text.hexDigit (n.val / 16),
      Text.hexDigit (n.val % 16)] ++ rest) =
      (interpreted? .text rest).map fun (text, rest) => (Char.ofNat n.val :: text, rest) := by
  have hhigh : Json.Token.hexValue? (Text.hexDigit (n.val / 16)) = some (n.val / 16) := by
    revert n
    decide
  have hlow : Json.Token.hexValue? (Text.hexDigit (n.val % 16)) = some (n.val % 16) := by
    revert n
    decide
  have hzero : Json.Token.hexValue? '0' = some 0 := by decide
  have hlast : n.val / 16 * 16 + n.val % 16 = n.val := by omega
  have hvalid : n.val.isValidChar := Or.inl (by omega)
  have hdigits : ¬ 16 ≤ n.val / 16 ∧ ¬ 16 ≤ n.val % 16 ∧ n.val < 1114112 := by omega
  simp [interpreted?, named?, announced?, hzero, hhigh, hlow, hlast, hvalid, hdigits]

/-- An escaped character stands for the character. -/
theorem interpreted?_escape (c : Char) (rest : List Char) :
    interpreted? .text (Json.escape c ++ rest) =
      (interpreted? .text rest).map fun (text, rest) => (c :: text, rest) := by
  fun_cases Json.escape c
  case case8 hlow =>
    have hread := interpreted?_control ⟨c.toNat, hlow⟩ rest
    rwa [Char.ofNat_toNat] at hread
  case case9 => simp_all [interpreted?]
  all_goals rfl

theorem interpreted?_escapes (s rest : List Char) :
    interpreted? .text (s.flatMap Json.escape ++ '"' :: rest) = some (s, rest) := by
  induction s with
  | nil => rfl
  | cons c s ih =>
    rw [List.flatMap_cons, List.append_assoc, interpreted?_escape, ih]
    rfl

/-- A text in quotes stands for the text. -/
theorem ofText?_quote (s : String) : ofText? (Json.quote s).toList = some s.toList := by
  have hread := interpreted?_escapes s.toList []
  rw [Json.quote, String.toList_ofList, Json.quoteChars, List.cons_append, ofText?, hread]

/-- A raw text that holds nothing special stands for itself. -/
theorem raw?_plain (hquote : '\x60' ∉ cs) (hreturn : '\r' ∉ cs) :
    raw? (cs ++ '\x60' :: rest) = some (cs, rest) := by
  induction cs with
  | nil => rfl
  | cons c cs ih =>
    rw [List.mem_cons, not_or] at hquote hreturn
    rw [List.cons_append, raw?, if_neg (Ne.symm hquote.1), if_neg (Ne.symm hreturn.1),
      ih hquote.2 hreturn.2]
    rfl

/-- One that holds a backquote ends there. -/
theorem raw?_ended (h : '\x60' ∈ cs) (hread : raw? (cs ++ ds) = some (text, rest)) :
    ds <:+ rest := by
  induction cs generalizing text rest with
  | nil => cases h
  | cons c cs ih =>
    rw [List.cons_append, raw?] at hread
    split at hread
    · cases hread
      exact List.suffix_append cs ds
    · next hc =>
      have hcs : '\x60' ∈ cs := (List.mem_cons.1 h).resolve_left (Ne.symm hc)
      split at hread
      · exact ih hcs hread
      · obtain ⟨⟨text', rest'⟩, hrest, heq⟩ := Option.map_eq_some_iff.1 hread
        cases heq
        exact ih hcs hrest

theorem ofRaw?_plain (hquote : '\x60' ∉ cs) (hreturn : '\r' ∉ cs) :
    ofRaw? ('\x60' :: (cs ++ ['\x60'])) = some cs := by
  rw [ofRaw?, raw?_plain hquote hreturn]

theorem ofRaw?_ended (h : '\x60' ∈ cs) : ofRaw? ('\x60' :: (cs ++ ['\x60'])) = none := by
  rw [ofRaw?]
  split
  · next text hread =>
    have hle := (raw?_ended h hread).length_le
    exact absurd hle (by decide)
  · rfl

end Literal

namespace Tag

/-- Characters of the keys of a tag. -/
def isKeyChar (c : Char) : Bool := ' ' < c && c != ':' && c != '"' && c != '\x7f'

/-- What follows the closing quote of a text. -/
def behindText : Bool → List Char → Option (List Char)
  | _, [] => none
  | true, _ :: cs => behindText false cs
  | false, c :: cs => if c = '"' then some cs else behindText (c == '\\') cs

/-- The value of a key, among so many entries of a tag. -/
def lookup? (key : List Char) : Nat → List Char → Option (List Char)
  | 0, _ => none
  | limit + 1, tag =>
    let entry := tag.dropWhile (· == ' ')
    let name := entry.takeWhile isKeyChar
    match entry.dropWhile isKeyChar with
    | ':' :: '"' :: text =>
      if name.isEmpty then none
      else if name = key then (Literal.interpreted? .text text).map Prod.fst
      else (behindText false text).bind (lookup? key limit)
    | _ => none

/-- The name and the options that the tag of a field, a raw literal, has for its form in JSON. -/
def json? (tag : String) : Option (List Char × List (List Char)) := do
  let entries ← Literal.ofRaw? tag.toList
  let value ← lookup? "json".toList (entries.length + 1) entries
  match Path.splitOn ',' value with
  | name :: options => some (name, options)
  | [] => none

/-- What a tag has in quotes. -/
def value (f : Field) : List Char :=
  f.name.toList ++ if f.optional then ",omitempty".toList else []

theorem toList_tag (f : Field) :
    f.tag.toList = '\x60' :: ("json:".toList ++ Json.quoteChars (value f) ++ ['\x60']) := by
  unfold Field.tag value
  split <;> simp [Json.quote, String.toList_append]

theorem lookup?_quoted (limit : Nat) (s : List Char) :
    lookup? "json".toList (limit + 1) ("json:".toList ++ Json.quoteChars s) = some s := by
  have hkey : ∀ c ∈ "json".toList, isKeyChar c = true := List.all_eq_true.1 (by decide)
  have hentry : ("json:".toList ++ Json.quoteChars s).dropWhile (· == ' ') =
      "json".toList ++ ':' :: Json.quoteChars s := rfl
  have hname : ("json".toList ++ ':' :: Json.quoteChars s).takeWhile isKeyChar = "json".toList := by
    rw [List.takeWhile_append_of_pos hkey, List.takeWhile_cons_of_neg (by decide), List.append_nil]
  have hrest : ("json".toList ++ ':' :: Json.quoteChars s).dropWhile isKeyChar =
      ':' :: '"' :: (s.flatMap Json.escape ++ ['"']) := by
    rw [List.dropWhile_append_of_pos hkey, List.dropWhile_cons_of_neg (by decide)]
    rfl
  rw [lookup?, hentry]
  rw [hname, hrest]
  simp [Literal.interpreted?_escapes s []]

theorem not_mem_value (hc : c ∉ f.name.toList) (h : c ∉ ",omitempty".toList) : c ∉ value f := by
  unfold value
  split
  · simpa using ⟨hc, by simpa using h⟩
  · simpa using hc

/-- Escapes hold no carriage return. -/
theorem return_not_mem_quoteChars (cs : List Char) : '\r' ∉ Json.quoteChars cs := by
  have hdigit {n : Nat} (hn : n < 16) : '\r' ≠ Text.hexDigit n := by
    have hall : ∀ d : Fin 16, '\r' ≠ Text.hexDigit d := by decide
    exact hall ⟨n, hn⟩
  have hescape (c : Char) : '\r' ∉ Json.escape c := by
    fun_cases Json.escape c
    case case8 hlow =>
      have hhigh := hdigit (n := c.toNat / 16) (by omega)
      have hrest := hdigit (n := c.toNat % 16) (by omega)
      simp [hhigh, hrest]
    case case9 hreturn _ _ =>
      intro hmem
      exact hreturn (List.mem_singleton.1 hmem).symm
    all_goals decide
  have hcs : '\r' ∉ cs.flatMap Json.escape := by
    intro hmem
    obtain ⟨c, -, hmem⟩ := List.mem_flatMap.1 hmem
    exact hescape c hmem
  simp [Json.quoteChars, hcs]

/-- Backquotes stand for themselves in a text. -/
theorem mem_quoteChars (h : '\x60' ∈ cs) : '\x60' ∈ Json.quoteChars cs := by
  have hescape : '\x60' ∈ cs.flatMap Json.escape :=
    List.mem_flatMap.2 ⟨'\x60', h, by decide⟩
  simp [Json.quoteChars, hescape]

/-- The part before a separator holds none. -/
theorem splitOn_eq_cons (c : Char) (cs : List Char) :
    ∃ part parts, Path.splitOn c cs = part :: parts ∧ c ∉ part := by
  obtain ⟨part, parts, hsplit⟩ := List.exists_cons_of_ne_nil (Path.splitOn_ne_nil c cs)
  exact ⟨part, parts, hsplit, Path.not_mem_of_mem_splitOn (hsplit ▸ List.mem_cons_self)⟩

theorem splitOn_value (h : ',' ∉ f.name.toList) : Path.splitOn ',' (value f) =
    f.name.toList :: if f.optional then ["omitempty".toList] else [] := by
  unfold value
  split
  · rw [show ",omitempty".toList = ',' :: "omitempty".toList from rfl, Path.splitOn_append h,
      Path.splitOn_of_not_mem (by decide)]
  · rw [List.append_nil, Path.splitOn_of_not_mem h]

/-- The tag of a field says its name, and that it may be left out, exactly where the name has neither
a backquote nor a comma. -/
theorem json?_tag (f : Field) :
    json? f.tag = some (f.name.toList, if f.optional then ["omitempty".toList] else []) ↔
      '\x60' ∉ f.name.toList ∧ ',' ∉ f.name.toList := by
  by_cases hraw : '\x60' ∈ f.name.toList
  · have hmem : '\x60' ∈ "json:".toList ++ Json.quoteChars (value f) :=
      List.mem_append_right _ (mem_quoteChars (List.mem_append_left _ hraw))
    rw [json?, toList_tag, Literal.ofRaw?_ended hmem]
    exact iff_of_false nofun fun h => h.1 hraw
  · have hquote : '\x60' ∉ "json:".toList ++ Json.quoteChars (value f) := by
      rw [List.mem_append, not_or]
      exact ⟨by decide, not_mem_quoteChars (not_mem_value hraw (by decide))⟩
    have hreturn : '\r' ∉ "json:".toList ++ Json.quoteChars (value f) := by
      rw [List.mem_append, not_or]
      exact ⟨by decide, return_not_mem_quoteChars _⟩
    rw [json?, toList_tag, Literal.ofRaw?_plain hquote hreturn, Option.bind_eq_bind,
      Option.bind_some, lookup?_quoted, Option.bind_some]
    by_cases hcomma : ',' ∈ f.name.toList
    · obtain ⟨part, parts, hsplit, hpart⟩ := splitOn_eq_cons ',' (value f)
      rw [hsplit]
      refine iff_of_false (fun h => ?_) fun h => h.2 hcomma
      rw [(Prod.mk.inj (Option.some.inj h)).1] at hpart
      exact hpart hcomma
    · rw [splitOn_value hcomma]
      exact iff_of_true rfl ⟨hraw, hcomma⟩

end Tag

end SchemaForge.Go
