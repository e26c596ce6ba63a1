import Mathlib
import SchemaForge.Proofs.Go.Running
import SchemaForge.Proofs.Layout
import SchemaForge.Proofs.TypeScript.Accepted
import SchemaForge.Proofs.TypeScript.Identifiers
/-!
The functions that read lists: a loop for each level, each in the one around it, and in the
innermost one the only coercion of an item.
-/
namespace SchemaForge.TypeScript

variable {leaf : ValueType} {full : Code} {level below : Nat} {source : String} {body : List Stmt}
  {stmts stmts' : List Stmt} {c : Class} {f : Field} {char : Char}

namespace Stmt

mutual

/-- A statement and all that stand in it, in the order of the text. -/
def all : Stmt → List Stmt
  | cond test body => cond test body :: allOf body
  | forOf name source body => forOf name source body :: allOf body
  | iterate name iterator body => iterate name iterator body :: allOf body
  | block body => block body :: allOf body
  | retFunction head param body => retFunction head param body :: allOf body
  | s => [s]

def allOf : List Stmt → List Stmt
  | [] => []
  | s :: ss => s.all ++ allOf ss

end

theorem allOf_append (stmts stmts' : List Stmt) :
    allOf (stmts ++ stmts') = allOf stmts ++ allOf stmts' := by
  induction stmts with
  | nil => rfl
  | cons s stmts ih => simp [allOf, ih]

theorem layouts_append (stmts stmts' : List Stmt) :
    layouts (stmts ++ stmts') = layouts stmts ++ layouts stmts' := by
  induction stmts with
  | nil => rfl
  | cons s stmts ih => simp [layouts, ih]

/-- The names that a statement declares, for what follows it or for what stands in it. -/
def declares : Stmt → List String
  | constant name _ _ | forOf name _ _ | iterate name _ _ => [name]
  | retFunction _ param _ => [param]
  | _ => []

/-- Of a loop, the name of its values, what it goes through and what it does. -/
def loops : Stmt → List (String × String × List Stmt)
  | forOf name source body => [(name, source.render, body)]
  | iterate name iterator body => [(name, iterator, body)]
  | _ => []

/-- The text of an expression that is a statement. -/
def runs : Stmt → List String
  | run e => [e.render]
  | _ => []

end Stmt

/-- What the loop of a level does, with some levels below it. -/
def loopBody (leaf : ValueType) (full : Code) (level : Nat) : Nat → List Stmt
  | 0 =>
    [.constant "attrRes" none
        (.join ["itemAttr.Coerce(", levelName "i" level, ".value as ", leaf.coerceType, ")"]),
      .cond "attrRes.is_err()"
        [.ret (.join ["attrRes as unknown as ", .generic .result [full]])],
      .run (.join [levelName "s" level, ".push(attrRes.unwrap())"])]
  | below + 1 =>
    readLists leaf full (level + 1) (levelName "i" level ++ ".value") below ++
      [.run (.join [levelName "s" level, ".push(", levelName "s" (level + 1), ")"])]

theorem readLists_eq (leaf : ValueType) (full : Code) (level : Nat) (source : String)
    (below : Nat) :
    readLists leaf full level source below =
      readList leaf level below source (loopBody leaf full level below) := by
  cases below <;> rfl

/-- Around what it does, a level declares what it reads from, its list, and what it goes through. -/
theorem allOf_readList (leaf : ValueType) (level below : Nat) (source : String) (body : List Stmt) :
    ∃ from_ test fault list through,
      Stmt.allOf (readList leaf level below source body) =
        [.constant (levelName "r" level) none from_, .cond test [.ret fault], .ret fault,
          .constant (levelName "s" level) (some list) "[]",
          .constant (levelName "t" level) none through,
          .iterate (levelName "i" level) (levelName "t" level) body] ++ Stmt.allOf body := by
  simp [readList, Stmt.allOf, Stmt.all]

/-- What stands in the lists of a level and of those below it: what the level declares, its loop,
what the levels below do, and what puts their list into that of the level. -/
theorem allOf_loopBody_succ (leaf : ValueType) (full : Code) (level below : Nat) :
    Stmt.allOf (loopBody leaf full level (below + 1)) =
      Stmt.allOf (readLists leaf full (level + 1) (levelName "i" level ++ ".value") below) ++
        [.run (.join [levelName "s" level, ".push(", levelName "s" (level + 1), ")"])] := by
  rw [loopBody, Stmt.allOf_append]
  rfl

/-- There is a loop for each level, in this order. -/
theorem loops_readLists (leaf : ValueType) (full : Code) (level : Nat) (source : String)
    (below : Nat) :
    (Stmt.allOf (readLists leaf full level source below)).flatMap Stmt.loops =
      (List.range' level (below + 1)).map fun l =>
        (levelName "i" l, levelName "t" l, loopBody leaf full l (level + below - l)) := by
  induction below generalizing level source with
  | zero =>
    obtain ⟨_, _, _, _, _, hall⟩ := allOf_readList leaf level 0 source (loopBody leaf full level 0)
    rw [readLists_eq, hall]
    simp [loopBody, Stmt.allOf, Stmt.all, Stmt.loops]
  | succ below ih =>
    obtain ⟨_, _, _, _, _, hall⟩ :=
      allOf_readList leaf level (below + 1) source (loopBody leaf full level (below + 1))
    rw [readLists_eq, hall, allOf_loopBody_succ, List.flatMap_append, List.flatMap_append, ih,
      List.range'_succ (s := level), List.map_cons, Nat.add_sub_cancel_left, Nat.add_assoc level,
      Nat.add_comm 1]
    simp [Stmt.loops]

/-- The letters of the names that a level declares. -/
def levelLetters : List String := ["r", "s", "t", "i"]

/-- Each level declares what it reads from, its list, what it goes through and its items. -/
theorem declares_readLists (leaf : ValueType) (full : Code) (level : Nat) (source : String)
    (below : Nat) :
    (Stmt.allOf (readLists leaf full level source below)).flatMap Stmt.declares =
      ((List.range' level (below + 1)).flatMap fun l => levelLetters.map (levelName · l)) ++
        ["attrRes"] := by
  induction below generalizing level source with
  | zero =>
    obtain ⟨_, _, _, _, _, hall⟩ := allOf_readList leaf level 0 source (loopBody leaf full level 0)
    rw [readLists_eq, hall]
    simp [loopBody, Stmt.allOf, Stmt.all, Stmt.declares, levelLetters]
  | succ below ih =>
    obtain ⟨_, _, _, _, _, hall⟩ :=
      allOf_readList leaf level (below + 1) source (loopBody leaf full level (below + 1))
    rw [readLists_eq, hall, allOf_loopBody_succ, List.flatMap_append, List.flatMap_append, ih,
      List.range'_succ (s := level), List.flatMap_cons]
    simp [Stmt.declares, levelLetters]

/-- What puts the list of a level into that of the level around it. -/
def push (level : Nat) : String :=
  levelName "s" level ++ ".push(" ++ levelName "s" (level + 1) ++ ")"

/-- From the innermost level outwards, each puts what it has read into its list. -/
theorem runs_readLists (leaf : ValueType) (full : Code) (level : Nat) (source : String)
    (below : Nat) :
    (Stmt.allOf (readLists leaf full level source below)).flatMap Stmt.runs =
      (levelName "s" (level + below) ++ ".push(attrRes.unwrap())") ::
        (List.range' level below).reverse.map push := by
  induction below generalizing level source with
  | zero =>
    obtain ⟨_, _, _, _, _, hall⟩ := allOf_readList leaf level 0 source (loopBody leaf full level 0)
    rw [readLists_eq, hall]
    simp [loopBody, Stmt.allOf, Stmt.all, Stmt.runs, Code.render, Code.renderAll]
  | succ below ih =>
    obtain ⟨_, _, _, _, _, hall⟩ :=
      allOf_readList leaf level (below + 1) source (loopBody leaf full level (below + 1))
    have hpush :
        Code.render (.join [levelName "s" level, ".push(", levelName "s" (level + 1), ")"]) =
          push level := by
      simp [Code.render, Code.renderAll, push, String.append_assoc]
    rw [readLists_eq, hall, allOf_loopBody_succ, List.flatMap_append, List.flatMap_append, ih,
      List.range'_succ (s := level)]
    simp [Stmt.runs, hpush, Nat.add_assoc, Nat.add_comm 1]

section distinct

theorem eq_of_levelName_eq {a b : String} (ha : a ∈ levelLetters) (hb : b ∈ levelLetters)
    {l l' : Nat} (h : levelName a l = levelName b l') : a = b ∧ l = l' := by
  have hletter : ∀ letter ∈ levelLetters, ∃ x, letter.toList = [x] := by
    simp [levelLetters]
  obtain ⟨x, hx⟩ := hletter a ha
  obtain ⟨y, hy⟩ := hletter b hb
  obtain ⟨hxy, hl⟩ := Go.levelName_inj hx hy h
  exact ⟨String.toList_injective (by rw [hx, hy, hxy]), hl⟩

/-- No name is declared by two levels, or twice by one. -/
theorem nodup_levelNames {levels : List Nat} (h : levels.Nodup) :
    ((levels.flatMap fun l => levelLetters.map (levelName · l)) ++ ["attrRes"]).Nodup := by
  rw [List.nodup_append', List.nodup_flatMap]
  refine ⟨⟨fun l _ => ?_, ?_⟩, List.nodup_singleton _, ?_⟩
  · exact List.Nodup.map_on (fun a ha b hb heq => (eq_of_levelName_eq ha hb heq).1) (by decide)
  · refine h.imp fun hne x hx hx' => ?_
    obtain ⟨a, ha, rfl⟩ := List.mem_map.1 hx
    obtain ⟨b, hb, heq⟩ := List.mem_map.1 hx'
    exact hne (eq_of_levelName_eq hb ha heq).2.symm
  · rw [List.disjoint_singleton]
    intro hmem
    obtain ⟨l, -, hl⟩ := List.mem_flatMap.1 hmem
    obtain ⟨letter, -, heq⟩ := List.mem_map.1 hl
    exact Go.ne_levelName (by decide) letter l heq.symm

theorem push_inj {l l' : Nat} (h : push l = push l') : l = l' := by
  have hdigits (l : Nat) : ((push l).toList.tail).takeWhile Char.isDigit = Decimal.digits l := by
    have hlist : (push l).toList.tail =
        Decimal.digits l ++ '.' :: ("push(" ++ levelName "s" (l + 1) ++ ")").toList := by
      simp [push, levelName, Decimal.natText]
    rw [hlist, List.takeWhile_append_of_pos fun c => Decimal.isDigit_of_mem_digits]
    simp
  have hvalue := congrArg Decimal.value ((hdigits l).symm.trans (h ▸ hdigits l'))
  rwa [Decimal.value_digits, Decimal.value_digits] at hvalue

end distinct

section text

/-- What names of types are of: what can stand in an identifier, quotes and the brackets of
lists. -/
def isTypeChar (c : Char) : Bool := Naming.isTsChar c || c == '"' || c == '[' || c == ']'

def isTypeText (s : String) : Bool := s.toList.all isTypeChar

theorem isTypeText_append {a b : String} :
    isTypeText (a ++ b) = true ↔ isTypeText a = true ∧ isTypeText b = true := by
  simp [isTypeText]

theorem isTypeText_tsPublic (name : String) : isTypeText (Naming.tsPublic name) = true := by
  rw [isTypeText, List.all_eq_true]
  intro c hc
  rcases Naming.mem_tsPublic hc with h | rfl
  · simp [isTypeChar, h]
  · rfl

/-- Whether the object that values hold has a name as objects have. -/
def ValueType.Named (t : ValueType) : Prop :=
  ∀ name, t.leaf = .object name → isTypeText name = true

theorem isTypeText_viewType {t : ValueType} (h : t.Named) :
    isTypeText t.viewType.render = true := by
  induction t with
  | list items ih =>
    have hitems : isTypeText items.viewType.render = true := ih h
    have hbrackets : isTypeText "[]" = true := by decide
    simp [ValueType.viewType, Code.render, Code.renderAll, isTypeText_append, hitems, hbrackets]
  | object name =>
    have hname : isTypeText name = true := h name rfl
    simpa [ValueType.viewType, Code.render, Symbol.text] using hname
  | string format =>
    rw [ValueType.viewType]
    split <;> decide
  | _ =>
    simp only [ValueType.viewType, ValueType.recordType, Code.runtime, Code.render, Symbol.text]
    decide

theorem isTypeText_coerceType {t : ValueType} (h : t.Named) :
    isTypeText t.coerceType.render = true := by
  induction t with
  | list items ih =>
    have hitems : isTypeText items.coerceType.render = true := ih h
    have hbrackets : isTypeText "[]" = true := by decide
    simp [ValueType.coerceType, Code.render, Code.renderAll, isTypeText_append, hitems, hbrackets]
  | object name =>
    have hname : isTypeText name = true := h name rfl
    have hsuffix : isTypeText "CoerceType" = true := by decide
    simp [ValueType.coerceType, Code.render, Symbol.text, isTypeText_append, hname, hsuffix]
  | string format =>
    rw [ValueType.coerceType]
    split <;> decide
  | _ =>
    simp only [ValueType.coerceType, ValueType.recordType, Code.runtime, Code.render, Symbol.text]
    decide

theorem isTypeText_arrayOf {code : Code} (h : isTypeText code.render = true) (dims : Nat) :
    isTypeText (arrayOf code dims).render = true := by
  induction dims with
  | zero => exact h
  | succ dims ih =>
    have hbrackets : isTypeText "[]" = true := by decide
    simp [arrayOf, Code.render, Code.renderAll, isTypeText_append, ih, hbrackets]

theorem not_mem_of_isTypeText {s : String} (h : isTypeText s = true)
    (hchar : isTypeChar char = false) : char ∉ s.toList := by
  intro hmem
  rw [List.all_eq_true.1 h char hmem] at hchar
  cases hchar

/-- A variable of a level has its letter and digits. -/
theorem not_mem_levelName {letter : String} (hdigit : char.isDigit = false)
    (hletter : char ∉ letter.toList) : char ∉ (levelName letter level).toList := by
  simp only [levelName, Decimal.natText, String.toList_append, String.toList_ofList,
    List.mem_append, not_or]
  refine ⟨hletter, fun hmem => ?_⟩
  rw [Decimal.isDigit_of_mem_digits hmem] at hdigit
  cases hdigit

/-- The call that makes something of an item. -/
def itemCoercion : String := "itemAttr.Coerce("

open Layout

/-- Lines without a point, and lines without a capital C, do not call for an item. -/
theorem mentions_line {s : String} (h : '.' ∉ s.toList ∨ 'C' ∉ s.toList) :
    mentions itemCoercion [.line s] = 0 := by
  rcases h with h | h
  · exact mentions_line_eq_zero (by decide) h
  · exact mentions_line_eq_zero (by decide) h

theorem mentions_braces {keyword expression : String} {parts : List Layout}
    (hkeyword : 'C' ∉ keyword.toList) (hexpression : 'C' ∉ expression.toList) :
    mentions itemCoercion [Stmt.braces keyword expression parts] = mentions itemCoercion parts :=
  have hmem : 'C' ∈ itemCoercion.toList := by decide
  mentions_block hmem (by decide) hkeyword hexpression (by decide) hmem (by decide)

/-- The lines of a level around what it does. -/
theorem mentions_readList (hleaf : leaf.Named) (level below : Nat) (hsource : 'C' ∉ source.toList)
    (body : List Stmt) :
    mentions itemCoercion (Stmt.layouts (readList leaf level below source body)) =
      mentions itemCoercion (Stmt.layouts body) := by
  have hname (letter : String) (h : 'C' ∉ letter.toList) :
      'C' ∉ (levelName letter level).toList := not_mem_levelName (by decide) h
  have hr := hname "r" (by decide)
  have ht := hname "t" (by decide)
  have hi := hname "i" (by decide)
  have hlevel : 'C' ∉ (Decimal.natText level).toList := hname "" (by decide)
  have hlist : '.' ∉ (arrayOf leaf.viewType (below + 1)).render.toList :=
    not_mem_of_isTypeText (isTypeText_arrayOf (isTypeText_viewType hleaf) _) (by decide)
  have hs : '.' ∉ (levelName "s" level).toList := not_mem_levelName (by decide) (by decide)
  rw [readList, Stmt.layouts, Stmt.layouts, Stmt.layouts, Stmt.layouts, Stmt.layouts]
  simp only [Stmt.layouts, Stmt.layout, Code.render, Code.renderAll, Code.runtime, Symbol.text,
    Code.result]
  rw [mentions_cons, mentions_line, mentions_cons, mentions_braces, mentions_line, mentions_cons,
    mentions_line, mentions_cons, mentions_line, mentions_braces]
  · simp only [Nat.zero_add]
  all_goals simp [hr, ht, hi, hlevel, hlist, hs, hsource]

/-- An item is coerced where the innermost loop puts it into its list. -/
theorem mentions_loopBody_zero (hleaf : leaf.Named) (hfull : isTypeText full.render = true)
    (level : Nat) : mentions itemCoercion (Stmt.layouts (loopBody leaf full level 0)) = 1 := by
  have hi : '(' ∉ (levelName "i" level).toList := not_mem_levelName (by decide) (by decide)
  have hs : 'C' ∉ (levelName "s" level).toList := not_mem_levelName (by decide) (by decide)
  have htype : '(' ∉ leaf.coerceType.render.toList :=
    not_mem_of_isTypeText (isTypeText_coerceType hleaf) (by decide)
  have hlist : '.' ∉ full.render.toList := not_mem_of_isTypeText hfull (by decide)
  simp only [loopBody, Stmt.layouts, Stmt.layout, Code.render, Code.renderAll, Code.result,
    Code.generic, Code.separated, Symbol.text]
  have hitem : mentions itemCoercion [.line ("const " ++ "attrRes" ++ "" ++ " = " ++
      ("itemAttr.Coerce(" ++ (levelName "i" level ++ (".value as " ++
        (leaf.coerceType.render ++ (")" ++ ""))))) ++ ";")] = 1 := by
    have hmem : '(' ∈ itemCoercion.toList := by decide
    apply mentions_line_eq_one "const attrRes = ".toList
      (levelName "i" level ++ ".value as " ++ leaf.coerceType.render ++ ");").toList hmem (by decide)
    · simp [itemCoercion]
    · simp only [String.toList_append, List.count_append, List.count_eq_zero.2 hi,
        List.count_eq_zero.2 htype]
      decide
  rw [mentions_cons, hitem, mentions_cons, mentions_braces, mentions_line, mentions_line]
  all_goals simp [hs, hlist]

theorem mentions_readLists (hleaf : leaf.Named) (hfull : isTypeText full.render = true)
    (level : Nat) (hsource : 'C' ∉ source.toList) (below : Nat) :
    mentions itemCoercion (Stmt.layouts (readLists leaf full level source below)) = 1 := by
  induction below generalizing level source with
  | zero =>
    rw [readLists_eq, mentions_readList hleaf level 0 hsource, mentions_loopBody_zero hleaf hfull]
  | succ below ih =>
    have hi : 'C' ∉ (levelName "i" level).toList := not_mem_levelName (by decide) (by decide)
    have hs (l : Nat) : 'C' ∉ (levelName "s" l).toList := not_mem_levelName (by decide) (by decide)
    rw [readLists_eq, mentions_readList hleaf level (below + 1) hsource, loopBody,
      Stmt.layouts_append, mentions_append, ih (level + 1) (by simp [hi])]
    simp only [Stmt.layouts, Stmt.layout, Code.render, Code.renderAll]
    rw [mentions_line]
    simp [hs]

end text

/-- No list is put into another one where an item is. -/
theorem push_ne (l level : Nat) : push l ≠ levelName "s" level ++ ".push(attrRes.unwrap())" := by
  intro h
  have hs (l : Nat) : 'R' ∉ (levelName "s" l).toList := not_mem_levelName (by decide) (by decide)
  have hitem : 'R' ∈ (push l).toList := by
    rw [h]
    simp
  simp [push, hs] at hitem

section levels

variable {g : Graph} {node : NodeId}

theorem named_of_leafType? (h : leafType? g node = some leaf) : leaf.Named := by
  intro name hname
  rw [ValueType.leaf_of_not_list (isList_of_leafType? h)] at hname
  obtain ⟨-, rfl⟩ := leafType?_object (hname ▸ h)
  exact isTypeText_tsPublic _

theorem innermost_nested (hleaf : leaf.isList = false) (depth : Nat) :
    (leaf.nested depth).innermost = (leaf, depth) := by
  induction depth with
  | zero =>
    cases leaf with
    | list items => cases hleaf
    | _ => rfl
  | succ depth ih => rw [ValueType.nested, ValueType.innermost, ih]

/-- A function that reads lists of some depth, by what the loop of each level does. -/
structure ReadsLevels (d : Decl) (body : List Stmt) (depth : Nat) (inside : Nat → List Stmt) :
    Prop where
  /-- A loop for each level, and no other. -/
  loops : (Stmt.allOf body).flatMap Stmt.loops =
    (List.range depth).map fun l => (levelName "i" l, levelName "t" l, inside l)
  /-- A level does what reads the list of the next one, and puts it into its own. -/
  nested : ∀ l, l + 1 < depth → ∃ before e,
    inside l = before ++
      [.iterate (levelName "i" (l + 1)) (levelName "t" (l + 1)) (inside (l + 1)), .run e] ∧
    e.render = push l
  declares : ∀ l < depth, ∀ letter ∈ levelLetters,
    ((Stmt.allOf body).flatMap Stmt.declares).count (levelName letter l) = 1
  pushes : ∀ l, l + 1 < depth → ((Stmt.allOf body).flatMap Stmt.runs).count (push l) = 1
  coercion : Layout.mentions itemCoercion [d.layout] = 1
  innermost : Layout.mentions itemCoercion (Stmt.layouts (inside (depth - 1))) = 1

/-- What reads lists of a depth stands before what returns the outermost one. -/
def coercionBody (leaf : ValueType) (below : Nat) : List Stmt :=
  readLists leaf (arrayOf leaf.viewType (below + 1)) 0 "c0" below ++
    [.ret (.join [.result, ".Ok(s0)"])]

def coercionDecl (c : Class) (f : Field) (leaf : ValueType) (below : Nat) : Decl :=
  .function false (c.coercionName f)
    (.join ["itemAttr: ",
      .generic (.runtime "WuestenAttribute") [leaf.viewType, leaf.coerceType], ", c0: unknown"])
    (.generic .result [arrayOf leaf.viewType (below + 1)]) (coercionBody leaf below)

/-- The function of a field that holds lists is for what they hold in the end. -/
theorem coercionDecl?_nested (c : Class) (hleaf : leaf.isList = false)
    (hf : f.type = leaf.nested (below + 1)) :
    c.coercionDecl? f = some (coercionDecl c f leaf below) := by
  rw [Class.coercionDecl?, hf, ValueType.nested]
  dsimp only
  rw [innermost_nested hleaf]
  rfl

/-- Nothing but lists is read before the outermost list is returned. -/
theorem flatMap_coercionBody {α : Type} (what : Stmt → List α) (hret : ∀ e, what (.ret e) = [])
    (leaf : ValueType) (below : Nat) :
    (Stmt.allOf (coercionBody leaf below)).flatMap what =
      (Stmt.allOf (readLists leaf (arrayOf leaf.viewType (below + 1)) 0 "c0" below)).flatMap
        what := by
  simp [coercionBody, Stmt.allOf_append, Stmt.allOf, Stmt.all, hret]

theorem mentions_coercionDecl (c : Class) (f : Field) (hleaf : leaf.Named) (below : Nat) :
    Layout.mentions itemCoercion [(coercionDecl c f leaf below).layout] = 1 := by
  have hpoint (s : String) (h : isTypeText s = true) : '.' ∉ s.toList :=
    not_mem_of_isTypeText h (by decide)
  have hfull := isTypeText_arrayOf (isTypeText_viewType hleaf) (below + 1)
  have hname := hpoint _ (isTypeText_tsPublic (c.name ++ "$" ++ f.name ++ "Coerce"))
  have hview := hpoint _ (isTypeText_viewType hleaf)
  have hcoerce := hpoint _ (isTypeText_coerceType hleaf)
  have hresult := hpoint _ hfull
  have hlast : Layout.mentions itemCoercion
      (Stmt.layouts [.ret (.join [.result, ".Ok(s0)"])]) = 0 := by
    simp only [Stmt.layouts, Stmt.layout, Code.render, Code.renderAll, Code.result, Symbol.text]
    exact mentions_line (Or.inr (by decide))
  rw [coercionDecl, Decl.layout, Stmt.braces,
    Layout.mentions_block (c := '.') (d := 'C') (by decide) (by decide) (by decide) ?_ (by decide)
      (by decide) (by decide),
    coercionBody, Stmt.layouts_append, Layout.mentions_append,
    mentions_readLists hleaf hfull 0 (by decide), hlast]
  simp only [Class.coercionName, Code.render, Code.renderAll, Code.generic, Code.separated,
    Code.runtime, Code.result, Symbol.text, String.toList_append, List.mem_append, hname, hview,
    hcoerce, hresult, or_false, false_or]
  decide

theorem readsLevels (c : Class) (f : Field) (hleaf : leaf.Named) (below : Nat) :
    ReadsLevels (coercionDecl c f leaf below) (coercionBody leaf below) (below + 1) fun l =>
      loopBody leaf (arrayOf leaf.viewType (below + 1)) l (below - l) where
  loops := by
    rw [flatMap_coercionBody Stmt.loops (fun _ => rfl), loops_readLists, List.range_eq_range',
      Nat.zero_add]
  nested := by
    intro l hl
    obtain ⟨rest, hrest⟩ : ∃ rest, below - l = rest + 1 := ⟨below - (l + 1), by omega⟩
    have hnext : below - (l + 1) = rest := by omega
    rw [hrest, hnext, loopBody, readLists_eq, readList]
    refine ⟨[_, _, _, _], _, rfl, ?_⟩
    simp [Code.render, Code.renderAll, push, String.append_assoc]
  declares := by
    intro l hl letter hletter
    rw [flatMap_coercionBody Stmt.declares (fun _ => rfl), declares_readLists]
    apply List.count_eq_one_of_mem (nodup_levelNames (List.nodup_range' ..))
    apply List.mem_append_left
    refine List.mem_flatMap.2 ⟨l, ?_, List.mem_map.2 ⟨letter, hletter, rfl⟩⟩
    rw [List.mem_range'_1]
    omega
  pushes := by
    intro l hl
    have hlevels : ((List.range' 0 below).reverse.map push).Nodup :=
      List.Nodup.map (fun _ _ => push_inj) (List.nodup_reverse.2 (List.nodup_range' ..))
    rw [flatMap_coercionBody Stmt.runs (fun _ => rfl), runs_readLists,
      List.count_cons_of_ne (push_ne l _).symm, List.count_eq_one_of_mem hlevels]
    refine List.mem_map_of_mem (List.mem_reverse.2 (List.mem_range'_1.2 ?_))
    omega
  coercion := mentions_coercionDecl c f hleaf below
  innermost := by
    rw [Nat.add_sub_cancel, Nat.sub_self]
    exact mentions_loopBody_zero hleaf (isTypeText_arrayOf (isTypeText_viewType hleaf) _) below

end levels

end SchemaForge.TypeScript
