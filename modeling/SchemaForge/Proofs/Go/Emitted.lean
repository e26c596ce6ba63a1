import Mathlib
import SchemaForge.Proofs.Go.ClassNames
import SchemaForge.Proofs.Go.Rendering
/-! The names in the code of a class are words, and none is taken for a package. -/
namespace SchemaForge.Go

open Place

variable {name word : String} {c : Class} {f : Field} {g : Graph} {id : NodeId}

theorem isAlphanum_toUpper {c : Char} (hc : c.isAlphanum = true) : c.toUpper.isAlphanum = true := by
  by_cases hlower : c.isLower = true
  · simp [Char.isAlphanum, Char.isAlpha, hlower]
  · rwa [Char.toUpper_eq_of_not_isLower hlower]

theorem isAlphanum_toLower {c : Char} (hc : c.isAlphanum = true) : c.toLower.isAlphanum = true := by
  by_cases hupper : c.isUpper = true
  · simp [Char.isAlphanum, Char.isAlpha, hupper]
  · rwa [Char.toLower_eq_of_not_isUpper hupper]

theorem camel_alphanum {start : Bool} {cs : List Char} :
    ∀ c ∈ Naming.camel start cs, c.isAlphanum = true := by
  induction cs generalizing start with
  | nil => simp [Naming.camel]
  | cons c cs ih =>
    rw [Naming.camel]
    split
    · next hc =>
      refine List.forall_mem_cons.2 ⟨?_, ih⟩
      split
      · exact isAlphanum_toUpper hc
      · exact hc
    · exact ih

theorem isNameChar_of_alphanum {c : Char} (hc : c.isAlphanum = true) : isNameChar c = true := by
  simp [isNameChar, hc]

theorem isNameChar_goPublicChars {cs : List Char} :
    ∀ c ∈ Naming.goPublicChars cs, isNameChar c = true := by
  have hcamel : ∀ c ∈ Naming.camel true cs, isNameChar c = true :=
    fun c hc => isNameChar_of_alphanum (camel_alphanum c hc)
  unfold Naming.goPublicChars
  split
  · simp
  · next heq =>
    rw [heq] at hcamel
    split
    · exact hcamel
    · exact List.forall_mem_cons.2 ⟨by decide, List.forall_mem_cons.2 ⟨by decide, hcamel⟩⟩

theorem isName_goPublic (h : Naming.goPublic name ≠ "") : isName (Naming.goPublic name) = true := by
  rw [isName_iff]
  refine ⟨by simpa using h, ?_⟩
  rw [Naming.goPublic, String.toList_ofList]
  exact isNameChar_goPublicChars

theorem isName_goPrivate (h : Naming.goPublic name ≠ "") :
    isName (Naming.goPrivate name) = true := by
  have hchars : Naming.privateChars name ≠ [] ∧
      ∀ c ∈ Naming.privateChars name, isNameChar c = true := by
    unfold Naming.privateChars
    have hall : ∀ c ∈ Naming.goPublicChars name.toList, isNameChar c = true :=
      isNameChar_goPublicChars
    cases hname : Naming.goPublicChars name.toList with
    | nil => exact absurd (by rw [Naming.goPublic, hname, String.ofList_nil]) h
    | cons c cs =>
      rw [hname] at hall
      obtain ⟨-, hcs⟩ := List.forall_mem_cons.1 hall
      have hupper : c.isUpper = true := Naming.isUpper_of_goPublicChars hname
      have hc : isNameChar c.toLower = true :=
        isNameChar_of_alphanum <|
          isAlphanum_toLower (by simp [Char.isAlphanum, Char.isAlpha, hupper])
      exact ⟨by simp, List.forall_mem_cons.2 ⟨hc, hcs⟩⟩
  rw [isName_iff]
  rcases Naming.toList_goPrivate name with htext | htext
  · rwa [htext]
  · rw [htext]
    exact ⟨by simp, List.forall_mem_cons.2 ⟨by decide, hchars.2⟩⟩

theorem goPublic_append_ne_empty (h : Naming.IsWord word.toList) :
    Naming.goPublic (name ++ word) ≠ "" := by
  rw [Naming.goPublic_append h]
  obtain ⟨c, cs, hword, -⟩ := h
  intro hempty
  have := (String.append_eq_empty_iff.1 hempty).2
  rw [this] at hword
  cases hword

/-- The suffixes of the names of a class. -/
def isSuffix (suffix : String) : Bool := match suffix.toList with
  | [] => false
  | c :: cs => c.isUpper && (c :: cs).all Char.isAlphanum

theorem isName_implName (c : Class) : isName c.implName = true :=
  isName_goPrivate (goPublic_append_ne_empty (isWord_of _ (by decide)))

/-- The names of packages hold small letters only. -/
theorem package?_eq_none {letters : List Char} {c : Char} (hc : c ∈ letters)
    (hlower : c.isLower = false) : package? letters = none := by
  cases hp : package? letters with
  | none => rfl
  | some p =>
    have hname : p.name.toList = letters := by simpa using List.find?_some hp
    have hall : p.name.toList.all Char.isLower = true := by cases p <;> decide
    have := List.all_eq_true.1 hall c (hname ▸ hc)
    rw [hlower] at this
    cases this

theorem isName_append {a b : String} (ha : isName a = true) (hb : isName b = true) :
    isName (a ++ b) = true := by
  simp_all [isName]

theorem isLocal_of_mem {x : String} {d : Char} (hx : isName x = true) (hd : d ∈ x.toList)
    (hlower : d.isLower = false) : isLocal x = true :=
  Bool.and_eq_true_iff.2 ⟨hx, Option.isNone_iff_eq_none.2 (package?_eq_none hd hlower)⟩

/-- A variable of a level. -/
theorem isLocal_levelName {letter : String} (h : isName letter = true) (level : Nat) :
    isLocal (levelName letter level) = true := by
  obtain ⟨d, hd⟩ := List.exists_mem_of_ne_nil _ (Decimal.digits_ne_nil level)
  have hdigit : d.isDigit = true := Decimal.isDigit_of_mem_digits hd
  have hmem : d ∈ (levelName letter level).toList := by
    rw [levelName_toList]
    exact List.mem_append_right _ hd
  exact isLocal_of_mem (isName_append h (isName_natText level)) hmem
    (by grind [Char.isDigit, Char.isLower])

/-- A function that makes something of a class. -/
theorem isLocal_new {x : String} (h : isName x = true) : isLocal ("New" ++ x) = true :=
  isLocal_of_mem (d := 'N') (isName_append (by decide) h) (by simp) (by decide)

section types

theorem inert_local {x : String} (h : isLocal x = true) : Inert x :=
  ⟨phrase_local h, begins_name (isName_of_isLocal h), ends_name (isName_of_isLocal h)⟩

theorem isLocal_goPublic (h : Naming.goPublic name ≠ "") :
    isLocal (Naming.goPublic name) = true := by
  cases hchars : Naming.goPublicChars name.toList with
  | nil => exact absurd (by rw [Naming.goPublic, hchars, String.ofList_nil]) h
  | cons c cs =>
    have hupper : c.isUpper = true := Naming.isUpper_of_goPublicChars hchars
    have hmem : c ∈ (Naming.goPublic name).toList := by
      rw [Naming.goPublic, String.toList_ofList, hchars]
      exact List.mem_cons_self
    exact isLocal_of_mem (isName_goPublic h) hmem
      (Bool.not_eq_true _ ▸ Char.not_isLower_of_isUpper hupper)

theorem isLocal_typeName {suffix title : String} (h : isSuffix suffix = true) :
    isLocal (typeName title suffix) = true :=
  isLocal_goPublic (goPublic_append_ne_empty (isWord_of _ h))

theorem clean_typeName {suffix title : String} (h : isSuffix suffix = true) :
    (GoType.named (typeName title suffix)).Clean :=
  inert_local (isLocal_typeName h)

theorem clean_goType : ∀ type : ValueType, type.goType.Clean
  | .string | .integer | .number | .boolean => inert_local (by decide)
  | .list items => clean_goType items
  | .object _ => clean_typeName (by decide)

theorem clean_jsonType : ∀ type : ValueType, type.jsonType.Clean
  | .string | .integer | .number | .boolean => inert_local (by decide)
  | .list items => clean_jsonType items
  | .object _ => clean_typeName (by decide)

theorem clean_fieldType (f : Field) : f.goType.Clean := by
  unfold Field.goType GoType.optional
  split
  · exact ⟨by decide, clean_goType f.type⟩
  · exact clean_goType f.type

theorem clean_any : GoType.any.Clean := ⟨phrase_closes (by decide), by decide, by decide⟩

theorem clean_anyMap : GoType.anyMap.Clean := ⟨phrase_closes (by decide), by decide, by decide⟩

end types

namespace Stmt

theorem cleanAll_iff {ss : List Stmt} : CleanAll ss ↔ ∀ s ∈ ss, s.Clean := by
  induction ss with
  | nil => simp [CleanAll]
  | cons s ss ih => simp [CleanAll, ih]

theorem cleanAll_append {ss ss' : List Stmt} :
    CleanAll (ss ++ ss') ↔ CleanAll ss ∧ CleanAll ss' := by
  simp only [cleanAll_iff, List.forall_mem_append]

theorem cleanAll_flatMap {α : Type} {xs : List α} {f : α → List Stmt} :
    CleanAll (xs.flatMap f) ↔ ∀ x ∈ xs, CleanAll (f x) := by
  simp only [cleanAll_iff, List.mem_flatMap]
  exact ⟨fun h x hx s hs => h s ⟨x, hx, hs⟩, fun h s ⟨x, hx, hs⟩ => h x hx s hs⟩

end Stmt

theorem Expr.clean_send {e : Expr} {method : String} {args : List Expr} (he : e.Clean)
    (hmethod : isName method = true) (hargs : CleanAll args) : (e.send method args).Clean :=
  ⟨⟨he, hmethod⟩, hargs⟩

section bodies

theorem clean_local {x : String} (h : isLocal x = true) : (Expr.name x).Clean := h

theorem clean_imported {p : Package} {x : String} (h : isName x = true) :
    (Expr.imported p x).Clean := h

theorem clean_own {f : Field} (hf : isName f.privateName = true) : (Class.own f).Clean :=
  ⟨clean_local (by decide), hf⟩

theorem clean_contents {e : Expr} (he : e.Clean) : (Class.contents e).Clean :=
  Expr.clean_send he (by decide) trivial

theorem clean_writeBytes {e : Expr} (he : e.Clean) : (writeBytes e).Clean :=
  Expr.clean_send (clean_local (by decide)) (by decide) ⟨⟨inert_local (by decide), he⟩, trivial⟩

theorem clean_writeLiteral {kind : String} {e : Expr} (hkind : isName kind = true) (he : e.Clean) :
    (writeLiteral kind e).Clean :=
  clean_writeBytes (Expr.clean_send ⟨clean_imported hkind, he, trivial⟩ (by decide) trivial)

theorem clean_hashValue (type : ValueType) {e : Expr} (level : Nat) (he : e.Clean) :
    Stmt.CleanAll (hashValue e level type) := by
  induction type generalizing e level with
  | string => exact ⟨clean_writeLiteral (by decide) he, trivial⟩
  | integer => exact ⟨clean_writeLiteral (by decide) he, trivial⟩
  | boolean => exact ⟨clean_writeLiteral (by decide) he, trivial⟩
  | number =>
    have hletter : (Expr.letter 'g').Clean := ⟨by decide, by decide⟩
    have hformat : (Expr.call (.imported .strconv "FormatFloat")
        [e, .letter 'g', .number (-1), .number 64]).Clean :=
      ⟨clean_imported (by decide), he, hletter, trivial, trivial, trivial⟩
    exact ⟨clean_writeBytes hformat, trivial⟩
  | object => exact ⟨Expr.clean_send he (by decide) ⟨clean_local (by decide), trivial⟩, trivial⟩
  | list items ih =>
    have hi : isLocal (levelName "i" level) = true := isLocal_levelName (by decide) level
    have htest : (Expr.binary .greater (.name (levelName "i" level)) (.number 0)).Clean :=
      ⟨hi, trivial⟩
    exact ⟨clean_writeBytes trivial,
      ⟨isName_of_isLocal hi, he, ⟨htest, clean_writeBytes trivial, trivial⟩, ih _ ⟨he, hi⟩⟩,
      clean_writeBytes trivial, trivial⟩

theorem clean_hashField (hf : isName f.privateName = true) : Stmt.CleanAll (hashField f) := by
  have hown := clean_own hf
  have hvalue : Stmt.CleanAll (if f.optional then
      [.condElse ((Class.own f).send "IsSome" [])
        (.define ["h"] (Class.contents (Class.own f)) :: hashValue (.name "h") 0 f.type)
        [writeBytes (.text "-")]]
      else hashValue (Class.own f) 0 f.type) := by
    split
    · have hh : (Stmt.define ["h"] (Class.contents (Class.own f))).Clean :=
        ⟨by decide, clean_contents hown⟩
      exact ⟨⟨Expr.clean_send hown (by decide) trivial,
        ⟨hh, clean_hashValue _ _ (clean_local (by decide))⟩, clean_writeBytes trivial, trivial⟩,
        trivial⟩
    · exact clean_hashValue _ _ hown
  exact ⟨clean_writeBytes trivial,
    Stmt.cleanAll_append.2 ⟨hvalue, clean_writeBytes trivial, trivial⟩⟩

theorem clean_decideBy {before after : Expr} (hbefore : before.Clean) (hafter : after.Clean) :
    Stmt.CleanAll (decideBy before after) :=
  ⟨⟨hbefore, clean_local (by decide), trivial⟩, ⟨hafter, clean_local (by decide), trivial⟩, trivial⟩

theorem clean_len {e : Expr} (he : e.Clean) : (Expr.len e).Clean :=
  ⟨clean_local (by decide), he, trivial⟩

theorem clean_compareValues (type : ValueType) (mine other : Expr) (level : Nat)
    (hmine : mine.Clean) (hother : other.Clean) :
    Stmt.CleanAll (compareValues mine other level type) := by
  induction type generalizing mine other level with
  | string =>
    have hcompare : (Expr.call (.imported .strings "Compare") [mine, other]).Clean :=
      ⟨clean_imported (by decide), hmine, hother, trivial⟩
    exact clean_decideBy ⟨hcompare, trivial⟩ ⟨hcompare, trivial⟩
  | integer => exact clean_decideBy ⟨hmine, hother⟩ ⟨hmine, hother⟩
  | number => exact clean_decideBy ⟨hmine, hother⟩ ⟨hmine, hother⟩
  | boolean => exact clean_decideBy ⟨hmine, hother⟩ ⟨hmine, hother⟩
  | object =>
    exact clean_decideBy (Expr.clean_send hmine (by decide) ⟨hother, trivial⟩)
      (Expr.clean_send hother (by decide) ⟨hmine, trivial⟩)
  | list items ih =>
    have hi : isLocal (levelName "i" level) = true := isLocal_levelName (by decide) level
    have hlengths : Stmt.CleanAll (decideBy (.binary .less (.len mine) (.len other))
        (.binary .greater (.len mine) (.len other))) :=
      clean_decideBy ⟨clean_len hmine, clean_len hother⟩ ⟨clean_len hmine, clean_len hother⟩
    exact Stmt.cleanAll_append.2 ⟨hlengths, ⟨isName_of_isLocal hi, hmine,
      ih _ _ (level + 1) ⟨hmine, hi⟩ ⟨hother, hi⟩⟩, trivial⟩

theorem clean_compareField (hpublic : isName f.publicName = true)
    (hprivate : isName f.privateName = true) : Stmt.CleanAll (compareField f) := by
  have hmine := clean_own hprivate
  have hother : (Expr.call (.field (.name "other") f.publicName) []).Clean :=
    ⟨⟨clean_local (by decide), hpublic⟩, trivial⟩
  have hasked {e : Expr} {question : String} (he : e.Clean) (h : isName question = true) :
      (e.send question []).Clean := Expr.clean_send he h trivial
  have hret {x : String} (h : isLocal x = true) : (Stmt.ret (.name x)).Clean := h
  unfold compareField
  dsimp only
  split
  · have ha : (Stmt.define ["a"] (Class.contents (Class.own f))).Clean :=
      ⟨by decide, clean_contents hmine⟩
    have hb : (Stmt.define ["b"] (Class.contents
        (.call (.field (.name "other") f.publicName) []))).Clean :=
      ⟨by decide, clean_contents hother⟩
    have hvalues := clean_compareValues f.type (.name "a") (.name "b") 0
      (clean_local (by decide)) (clean_local (by decide))
    exact ⟨⟨⟨hasked hmine (by decide), hasked hother (by decide)⟩, ⟨ha, hb, hvalues⟩,
      ⟨hasked hmine (by decide), hasked hother (by decide)⟩, ⟨hret (by decide), trivial⟩,
      ⟨hasked hmine (by decide), hasked hother (by decide)⟩, ⟨hret (by decide), trivial⟩,
      trivial⟩, trivial⟩
  · exact clean_compareValues f.type _ _ 0 hmine hother

/-- A target gets a value appended. -/
theorem clean_append {x : String} {e : Expr} (hx : isLocal x = true) (he : e.Clean) :
    (Stmt.assign (.name x) (.call (.name "append") [.name x, e])).Clean :=
  ⟨hx, clean_local (by decide), hx, he, trivial⟩

theorem clean_makeSlice {items : GoType} {x : String} {e : Expr} (hx : isName x = true)
    (hitems : items.Clean) (he : e.Clean) :
    (Stmt.define [x] (.makeSlice (.slice items) (.len e))).Clean :=
  ⟨by simpa using hx, hitems, clean_len he⟩

theorem clean_mapValue (type : ValueType) {e : Expr} (level : Nat) (he : e.Clean) :
    Stmt.CleanAll (mapValue e level type).1 ∧ (mapValue e level type).2.Clean := by
  induction type generalizing e level with
  | object => exact ⟨trivial, Expr.clean_send he (by decide) trivial⟩
  | list items ih =>
    unfold mapValue
    split
    · have hi : isLocal (levelName "i" level) = true := isLocal_levelName (by decide) level
      have hm : isLocal (levelName "m" level) = true := isLocal_levelName (by decide) level
      obtain ⟨hbefore, hitem⟩ := ih (e := .index e (.name (levelName "i" level))) (level + 1)
        ⟨he, hi⟩
      exact ⟨⟨clean_makeSlice (isName_of_isLocal hm) clean_any he, ⟨isName_of_isLocal hi, he,
        Stmt.cleanAll_append.2 ⟨hbefore, clean_append hm hitem, trivial⟩⟩, trivial⟩, hm⟩
    · exact ⟨trivial, he⟩
  | _ => exact ⟨trivial, he⟩

theorem clean_mapField (hf : isName f.privateName = true) : Stmt.CleanAll (mapField f) := by
  have hown := clean_own hf
  have hput {e : Expr} (he : e.Clean) :
      (Stmt.assign (.index (.name "res") (.text f.name)) e).Clean :=
    ⟨⟨clean_local (by decide), trivial⟩, he⟩
  unfold mapField
  dsimp only
  split
  · obtain ⟨hbefore, hvalue⟩ := clean_mapValue f.type 0 (e := .name "v") (clean_local (by decide))
    have hv : (Stmt.define ["v"] (Class.contents (Class.own f))).Clean :=
      ⟨by decide, clean_contents hown⟩
    exact ⟨⟨Expr.clean_send hown (by decide) trivial,
      hv, Stmt.cleanAll_append.2 ⟨hbefore, hput hvalue, trivial⟩⟩, trivial⟩
  · obtain ⟨hbefore, hvalue⟩ := clean_mapValue f.type 0 hown
    split
    · next e heq =>
      rw [heq] at hvalue
      exact ⟨hput hvalue, trivial⟩
    · next before e heq =>
      rw [heq] at hbefore hvalue
      exact ⟨Stmt.cleanAll_append.2 ⟨hbefore, hput hvalue, trivial⟩, trivial⟩

theorem clean_goTypeOf (c : Class) : c.goType.Clean := clean_typeName (by decide)

theorem clean_failed {e : Expr} (he : e.Clean) : (c.failed e).Clean :=
  ⟨⟨by decide, clean_goTypeOf c⟩, he, trivial⟩

theorem clean_wrongType {source : Expr} {path expected : String} (h : source.Clean) :
    (wrongType c source path expected).Clean :=
  clean_failed ⟨clean_imported (by decide), trivial, h, trivial⟩

theorem clean_assertType {target path expected : String} {source : Expr} {type : GoType}
    (htarget : isName target = true) (hsource : source.Clean) (htype : type.Clean) :
    Stmt.CleanAll (assertType c target source type path expected) :=
  ⟨⟨⟨by simp, by simpa using ⟨htarget, by decide⟩⟩, htype, hsource⟩,
    ⟨clean_local (by decide), clean_wrongType hsource, trivial⟩, trivial⟩

theorem clean_cases {type : GoType} (htype : type.Clean) : ∀ {cases : List String},
    (∀ t ∈ cases, isLocal t = true) → Stmt.CleanCases (cases.map fun t =>
      (.named t, if .named t = type then .name "x" else .convert type (.name "x")))
  | [], _ => trivial
  | t :: cases, h => by
    obtain ⟨ht, hcases⟩ := List.forall_mem_cons.1 h
    refine ⟨inert_local ht, ?_, clean_cases htype hcases⟩
    split
    · exact clean_local (by decide)
    · exact ⟨htype, clean_local (by decide)⟩

theorem clean_convertNumber {target path expected : String} {source : Expr} {type : GoType}
    {cases : List String} (htarget : isName target = true) (hsource : source.Clean)
    (htype : type.Clean) (hcases : ∀ t ∈ cases, isLocal t = true) :
    Stmt.CleanAll (convertNumber c target source type cases path expected) :=
  ⟨⟨htarget, htype⟩, ⟨hsource, htarget, clean_cases htype hcases, clean_wrongType hsource, trivial⟩,
    trivial⟩

theorem clean_readValue (type : ValueType) (source : Expr) (path : String) (level : Nat)
    (hsource : source.Clean) : Stmt.CleanAll (readValue c source path level type).1 ∧
      (readValue c source path level type).2.Clean := by
  induction type generalizing source level with
  | list items ih =>
    have hr : isLocal (levelName "r" level) = true := isLocal_levelName (by decide) level
    have hs : isLocal (levelName "s" level) = true := isLocal_levelName (by decide) level
    have hi : isLocal (levelName "i" level) = true := isLocal_levelName (by decide) level
    obtain ⟨hbefore, hitem⟩ := ih
      (.index (.name (levelName "r" level)) (.name (levelName "i" level))) (level + 1) ⟨hr, hi⟩
    exact ⟨Stmt.cleanAll_append.2 ⟨clean_assertType (isName_of_isLocal hr) hsource clean_any,
      clean_makeSlice (isName_of_isLocal hs) (clean_goType items) (clean_local hr),
      ⟨isName_of_isLocal hi, hr, Stmt.cleanAll_append.2 ⟨hbefore, clean_append hs hitem, trivial⟩⟩,
      trivial⟩, hs⟩
  | object title =>
    have hm : isLocal (levelName "m" level) = true := isLocal_levelName (by decide) level
    have ho : isLocal (levelName "o" level) = true := isLocal_levelName (by decide) level
    have hfactory : (Expr.call (.name ("New" ++ typeName title "Factory")) []).Clean :=
      ⟨isLocal_new (isName_of_isLocal (isLocal_typeName (by decide))), trivial⟩
    have hresult : (Expr.name (levelName "o" level)).Clean := ho
    exact ⟨Stmt.cleanAll_append.2 ⟨clean_assertType (isName_of_isLocal hm) hsource clean_anyMap,
      ⟨by simpa using isName_of_isLocal ho, Expr.clean_send hfactory (by decide) ⟨hm, trivial⟩⟩,
      ⟨Expr.clean_send hresult (by decide) trivial,
        clean_failed (Expr.clean_send hresult (by decide) trivial), trivial⟩, trivial⟩,
      Expr.clean_send hresult (by decide) trivial⟩
  | integer =>
    have hc : isLocal (levelName "c" level) = true := isLocal_levelName (by decide) level
    exact ⟨clean_convertNumber (isName_of_isLocal hc) hsource (inert_local (by decide))
      (by decide), hc⟩
  | number =>
    have hc : isLocal (levelName "c" level) = true := isLocal_levelName (by decide) level
    exact ⟨clean_convertNumber (isName_of_isLocal hc) hsource (inert_local (by decide))
      (by decide), hc⟩
  | _ =>
    have hc : isLocal (levelName "c" level) = true := isLocal_levelName (by decide) level
    exact ⟨clean_assertType (isName_of_isLocal hc) hsource (inert_local (by decide)), hc⟩

end bodies

/-- A backquote in quoted text comes from the text. -/
theorem not_mem_quoteChars {cs : List Char} (h : '\x60' ∉ cs) : '\x60' ∉ Json.quoteChars cs := by
  have hdigit {n : Nat} (hn : n < 16) : '\x60' ≠ Text.hexDigit n := by
    have hall : ∀ d : Fin 16, '\x60' ≠ Text.hexDigit d := by decide
    exact hall ⟨n, hn⟩
  have hescape (c : Char) : '\x60' ∈ Json.escape c → '\x60' = c := by
    fun_cases Json.escape c
    case case8 hlow =>
      have hhigh := hdigit (n := c.toNat / 16) (by omega)
      have hrest := hdigit (n := c.toNat % 16) (by omega)
      simp [hhigh, hrest]
    case case9 => exact List.mem_singleton.1
    all_goals decide
  have hcs : '\x60' ∉ cs.flatMap Json.escape := by
    intro hmem
    obtain ⟨c, hc, hmem⟩ := List.mem_flatMap.1 hmem
    exact h (hescape c hmem ▸ hc)
  simp [Json.quoteChars, hcs]

/-- Literals are written as code that refers to nothing. -/
theorem clean_literal {d : Json} (h : ∃ v, Value.ofJson d = some v) : (Expr.default d).Clean := by
  obtain ⟨v, hv⟩ := h
  cases d with
  | string s => exact ⟨phrase_quote s, begins_quote s⟩
  | number n =>
    have htext : (Json.number n).compact.toList = n.text := String.toList_ofList
    refine ⟨fun a ha => ?_, begins_number n⟩
    rw [htext]
    exact ⟨(scans_number n a ha).1.settled, (scans_number n a ha).2⟩
  | bool b => cases b <;> exact ⟨phrase_local (by decide), by decide⟩
  | _ => simp [Value.ofJson] at hv

section declarations

/-- What a class needs so that its code can be read back: names, defaults that are literals, and
tags that end where they should. -/
structure Class.Readable (c : Class) : Prop where
  named : ∀ f ∈ c.fields, f.publicName ≠ ""
  defaults : ∀ f ∈ c.fields, ∀ d, f.default = some d → (Expr.default d).Clean
  tags : ∀ f ∈ c.fields, '\x60' ∉ f.name.toList

namespace Class.Readable

variable (h : c.Readable) (hf : f ∈ c.fields)

include h hf

theorem isName_public : isName f.publicName = true := isName_goPublic (h.named f hf)

theorem isName_private : isName f.privateName = true := isName_goPrivate (h.named f hf)

/-- The tag ends where it should. -/
theorem phrase_tag : Phrase f.tag [] := by
  have hname : '\x60' ∉ (if f.optional then f.name ++ ",omitempty" else f.name).toList := by
    have := h.tags f hf
    split <;> simp_all
  have hraw : Scans Ready (· = code) ('\x60' :: ("json:".toList ++ Json.quoteChars
      (if f.optional then f.name ++ ",omitempty" else f.name).toList) ++ ['\x60']) [] :=
    scans_raw (by simp [not_mem_quoteChars hname])
  have htext : f.tag.toList = '\x60' :: ("json:".toList ++ Json.quoteChars
      (if f.optional then f.name ++ ",omitempty" else f.name).toList) ++ ['\x60'] := by
    simp [Field.tag, Json.quote]
  intro a ha
  rw [htext]
  exact ⟨(hraw a ha).1 ▸ .code, (hraw a ha).2⟩

end Class.Readable

theorem clean_signature {x : String} {params : List (String × GoType)} {result : GoType}
    (hx : isName x = true) (hparams : ∀ p ∈ params, isName p.1 = true ∧ p.2.Clean)
    (hresult : result.Clean) : (Signature.mk x params (some result)).Clean where
  name := hx
  params := hparams
  result := by simpa using hresult

theorem clean_implMethod {signature : Signature} {body : List Stmt} (hsignature : signature.Clean)
    (hbody : Stmt.CleanAll body) : (c.implMethod signature body).Clean :=
  ⟨by decide, isName_implName c, hsignature, hbody⟩

theorem isName_builderName (c : Class) : isName c.builderName = true :=
  isName_of_isLocal (isLocal_typeName (by decide))

theorem isName_factoryName (c : Class) : isName c.factoryName = true :=
  isName_of_isLocal (isLocal_typeName (by decide))

theorem clean_builderMethod {signature : Signature} {body : List Stmt}
    (hsignature : signature.Clean) (hbody : Stmt.CleanAll body) :
    (c.builderMethod signature body).Clean :=
  ⟨by decide, isName_builderName c, hsignature, hbody⟩

theorem clean_cloneSignature (c : Class) : c.cloneSignature.Clean :=
  clean_signature (by decide) (by simp) (clean_goTypeOf c)

theorem clean_lessSignature (c : Class) : c.lessSignature.Clean :=
  clean_signature (by decide) (by simpa using ⟨by decide, clean_goTypeOf c⟩)
    (inert_local (by decide))

theorem clean_hashSignature : Class.hashSignature.Clean where
  name := by decide
  params := by
    have hwriter : Class.writerType.Clean := show isName "Writer" = true by decide
    simpa [Class.hashSignature] using ⟨by decide, hwriter⟩
  result := by simp [Class.hashSignature]

theorem clean_asMapSignature : Class.asMapSignature.Clean :=
  clean_signature (by decide) (by simp) clean_anyMap

/-- The fields of a type that have no tags. -/
theorem clean_untagged {fields : List Field} {name : Field → String} {type : Field → GoType}
    (hname : ∀ f ∈ fields, isName (name f) = true) (htype : ∀ f, (type f).Clean) :
    ∀ f ∈ fields.map fun f => StructField.mk (name f) (type f) "", f.Clean := by
  intro field hfield
  obtain ⟨f, hf, rfl⟩ := List.mem_map.1 hfield
  exact ⟨hname f hf, htype f, Or.inl rfl⟩

theorem clean_getter (hf : isName f.publicName = true) : (Class.getterSignature f).Clean :=
  clean_signature hf (by simp) (clean_fieldType f)

theorem clean_interfaceDecl (h : ∀ f ∈ c.fields, isName f.publicName = true) :
    c.interfaceDecl.Clean := by
  refine ⟨isName_of_isLocal (isLocal_typeName (by decide)), ?_⟩
  simp only [List.forall_mem_append, List.forall_mem_cons, List.forall_mem_map]
  exact ⟨fun f hf => clean_getter (h f hf), clean_cloneSignature c, clean_lessSignature c,
    clean_hashSignature, clean_asMapSignature, by simp⟩

theorem clean_paramDecl (h : ∀ f ∈ c.fields, isName f.publicName = true) : c.paramDecl.Clean :=
  ⟨isName_of_isLocal (isLocal_typeName (by decide)), clean_untagged h clean_fieldType⟩

theorem cleanFields_map {fields : List Field} {name : Field → String} {value : Field → Expr}
    (hname : ∀ f ∈ fields, isName (name f) = true) (hvalue : ∀ f ∈ fields, (value f).Clean) :
    Expr.CleanFields (fields.map fun f => (name f, value f)) := by
  induction fields with
  | nil => trivial
  | cons f fields ih =>
    obtain ⟨hf, hnames⟩ := List.forall_mem_cons.1 hname
    obtain ⟨hv, hvalues⟩ := List.forall_mem_cons.1 hvalue
    exact ⟨hf, hv, ih hnames hvalues⟩

theorem clean_initial (f : Field) : f.initial.Clean := by
  have hcall {x : String} (hx : isName x = true) :
      (Expr.call (.applied .attributes x f.goType) []).Clean := ⟨⟨hx, clean_fieldType f⟩, trivial⟩
  unfold Field.initial
  dsimp only
  split
  · exact hcall (by decide)
  · exact hcall (by decide)

theorem clean_present {type : GoType} {e : Expr} (htype : type.Clean) (he : e.Clean) :
    (Expr.present type e).Clean := ⟨⟨by decide, htype⟩, he, trivial⟩

theorem clean_builderType (c : Class) : c.builderType.Clean :=
  clean_typeName (by decide)

section typeDecls

variable (h : c.Readable)

include h

theorem clean_typeDecls : ∀ d ∈ c.typeDecls, d.Clean := by
  have hpublic : ∀ f ∈ c.fields, isName f.publicName = true := fun f hf => h.isName_public hf
  have hprivate : ∀ f ∈ c.fields, isName f.privateName = true := fun f hf => h.isName_private hf
  have hjson : c.jsonDecl.Clean := by
    refine ⟨isName_of_isLocal (isLocal_typeName (by decide)), ?_⟩
    intro field hfield
    obtain ⟨f, hf, rfl⟩ := List.mem_map.1 hfield
    refine ⟨hpublic f hf, ?_, Or.inr (h.phrase_tag hf)⟩
    dsimp only
    split
    · exact clean_jsonType f.type
    · exact clean_jsonType f.type
  have himpl : c.implDecl.Clean := ⟨isName_implName c, clean_untagged hprivate clean_fieldType⟩
  have hgetters : ∀ d ∈ c.fields.map c.getterDecl, d.Clean := by
    intro d hd
    obtain ⟨f, hf, rfl⟩ := List.mem_map.1 hd
    exact clean_implMethod (clean_getter (hpublic f hf)) ⟨clean_own (hprivate f hf), trivial⟩
  simp only [Class.typeDecls, List.forall_mem_append, List.forall_mem_cons]
  exact ⟨⟨clean_interfaceDecl hpublic, clean_paramDecl hpublic, hjson, himpl, by simp⟩, hgetters⟩

theorem clean_cloneDecl : c.cloneDecl.Clean :=
  clean_implMethod (clean_cloneSignature c) ⟨⟨isName_implName c,
    cleanFields_map (fun _ hf => h.isName_private hf) fun _ hf => clean_own (h.isName_private hf)⟩,
    trivial⟩

theorem clean_lessDecl : c.lessDecl.Clean :=
  clean_implMethod (clean_lessSignature c) <| Stmt.cleanAll_append.2
    ⟨Stmt.cleanAll_flatMap.2 fun _ hf =>
      clean_compareField (h.isName_public hf) (h.isName_private hf),
      clean_local (by decide), trivial⟩

theorem clean_hashDecl : c.hashDecl.Clean :=
  clean_implMethod clean_hashSignature <|
    Stmt.cleanAll_flatMap.2 fun _ hf => clean_hashField (h.isName_private hf)

theorem clean_asMapDecl : c.asMapDecl.Clean := by
  have hempty : (Stmt.define ["res"] (.empty .anyMap)).Clean := ⟨by decide, clean_anyMap⟩
  exact clean_implMethod clean_asMapSignature ⟨hempty, Stmt.cleanAll_append.2
    ⟨Stmt.cleanAll_flatMap.2 fun _ hf => clean_mapField (h.isName_private hf),
      clean_local (by decide), trivial⟩⟩

theorem clean_slot (hf : f ∈ c.fields) : f.slot.Clean :=
  ⟨clean_local (by decide), h.isName_private hf⟩

theorem clean_seed {e : Expr} (hf : f ∈ c.fields) (he : f.seed? = some e) : e.Clean := by
  obtain ⟨d, hd, rfl⟩ := Option.map_eq_some_iff.1 he
  have hdefault : (Expr.default d).Clean := h.defaults f hf d hd
  split
  · exact clean_present (clean_goType f.type) hdefault
  · exact hdefault

theorem clean_check (hf : f ∈ c.fields) : (c.check f).Clean := by
  have hvalid : (Expr.name "valid").Clean := clean_local (by decide)
  have hcause : (Expr.send (.paren (Class.contents (.name "valid"))) "Error" []).Clean :=
    Expr.clean_send (clean_contents hvalid) (by decide) trivial
  exact ⟨by decide, Expr.clean_send (clean_slot h hf) (by decide) trivial,
    Expr.clean_send hvalid (by decide) trivial,
    clean_present (inert_local (by decide)) ⟨clean_imported (by decide), trivial, hcause, trivial⟩,
    trivial⟩

theorem clean_builderDecls : ∀ d ∈ c.builderDecls, d.Clean := by
  have hpublic : ∀ f ∈ c.fields, isName f.publicName = true := fun f hf => h.isName_public hf
  have hprivate : ∀ f ∈ c.fields, isName f.privateName = true := fun f hf => h.isName_private hf
  have hbuilder : c.builderDecl.Clean := by
    refine ⟨isName_builderName c, clean_untagged hprivate fun f => ?_⟩
    exact ⟨by decide, clean_fieldType f⟩
  have hnew : c.newBuilderDecl.Clean := by
    refine ⟨clean_signature (isName_append (by decide) (isName_builderName c)) (by simp)
      (clean_builderType c), ?_⟩
    have hdefine : (Stmt.define ["b"] (.build c.builderName
        (c.fields.map fun f => (f.privateName, f.initial)))).Clean :=
      ⟨by decide, isName_builderName c, cleanFields_map hprivate fun f _ => clean_initial f⟩
    refine ⟨hdefine, Stmt.cleanAll_append.2 ⟨Stmt.cleanAll_iff.2 ?_, ?_⟩⟩
    rotate_left
    · exact ⟨clean_local (by decide), trivial⟩
    intro s hs
    obtain ⟨f, hf, hseed⟩ := List.mem_filterMap.1 hs
    obtain ⟨e, he, rfl⟩ := Option.map_eq_some_iff.1 hseed
    exact Expr.clean_send (clean_slot h hf) (by decide) ⟨clean_seed h hf he, trivial⟩
  have hsetters : ∀ d ∈ c.fields.map c.setterDecl, d.Clean := by
    intro d hd
    obtain ⟨f, hf, rfl⟩ := List.mem_map.1 hd
    exact clean_builderMethod
      (clean_signature (hpublic f hf) (by simpa using ⟨by decide, clean_fieldType f⟩)
        (clean_builderType c))
      ⟨Expr.clean_send (clean_slot h hf) (by decide) ⟨clean_local (by decide), trivial⟩,
        clean_local (by decide), trivial⟩
  have hisValid : c.isValidDecl.Clean := by
    refine clean_builderMethod (clean_signature (by decide) (by simp)
      ⟨by decide, inert_local (by decide)⟩) (Stmt.cleanAll_append.2 ⟨Stmt.cleanAll_iff.2 ?_, ?_⟩)
    · intro s hs
      obtain ⟨f, hf, rfl⟩ := List.mem_map.1 hs
      exact clean_check h (List.mem_of_mem_filter hf)
    · exact ⟨⟨⟨by decide, inert_local (by decide)⟩, trivial⟩, trivial⟩
  have htoClass : c.toClassDecl.Clean := by
    have hvalid : (Expr.name "valid").Clean := clean_local (by decide)
    have hcond : (Stmt.condDefine ["valid"] (.send (.name "b") "IsValid" [])
        (.send (.name "valid") "IsSome" [])
        [.ret (c.failed (Class.contents (.name "valid")))]).Clean :=
      ⟨by decide, Expr.clean_send (clean_local (by decide)) (by decide) trivial,
        Expr.clean_send hvalid (by decide) trivial, clean_failed (clean_contents hvalid), trivial⟩
    have hfields : Expr.CleanFields
        (c.fields.map fun f => (f.privateName, f.slot.send "Get" [])) :=
      cleanFields_map hprivate fun f hf => Expr.clean_send (clean_slot h hf) (by decide) trivial
    exact clean_builderMethod (clean_signature (by decide) (by simp)
      ⟨by decide, clean_goTypeOf c⟩)
      ⟨hcond, ⟨⟨by decide, clean_goTypeOf c⟩, ⟨isName_implName c, hfields⟩, trivial⟩, trivial⟩
  simp only [Class.builderDecls, List.forall_mem_append, List.forall_mem_cons]
  exact ⟨⟨⟨hbuilder, hnew, by simp⟩, hsetters⟩, hisValid, htoClass, by simp⟩

theorem clean_readField (hf : f ∈ c.fields) : (readField c f).Clean := by
  obtain ⟨hbefore, hvalue⟩ := clean_readValue (c := c) f.type (.name "val")
    (c.title ++ "." ++ f.name) 0 (clean_local (by decide))
  have hset : ∀ {e : Expr}, e.Clean →
      (Stmt.run (.send (.name "b") f.publicName [e])).Clean := fun he =>
    Expr.clean_send (clean_local (by decide)) (h.isName_public hf) ⟨he, trivial⟩
  refine ⟨by decide, ⟨clean_local (by decide), trivial⟩, clean_local (by decide),
    Stmt.cleanAll_append.2 ⟨hbefore, ?_, trivial⟩⟩
  split
  · exact hset (clean_present (clean_goType f.type) hvalue)
  · exact hset hvalue

theorem clean_factoryDecls : ∀ d ∈ c.factoryDecls, d.Clean := by
  have hfactory : (GoType.named c.factoryName).Clean := clean_typeName (by decide)
  have hstruct : (Decl.structType c.factoryName []).Clean := ⟨isName_factoryName c, by simp⟩
  have hmethod {signature : Signature} {body : List Stmt} (hsignature : signature.Clean)
      (hbody : Stmt.CleanAll body) : (c.factoryMethod signature body).Clean :=
    ⟨by decide, isName_factoryName c, hsignature, hbody⟩
  simp only [Class.factoryDecls, List.forall_mem_cons]
  refine ⟨hstruct, ⟨clean_signature (isName_append (by decide) (isName_factoryName c)) (by simp)
    hfactory, hfactory, trivial⟩, ?_, ?_, by simp⟩
  · exact hmethod (clean_signature (by decide) (by simp) (clean_builderType c))
      ⟨⟨isLocal_new (isName_builderName c), trivial⟩, trivial⟩
  · have hb : (Stmt.define ["b"] (.send (.name "f") "Builder" [])).Clean :=
      ⟨by decide, Expr.clean_send (clean_local (by decide)) (by decide) trivial⟩
    refine hmethod (clean_signature (by decide) (by simpa using ⟨by decide, clean_anyMap⟩)
      ⟨by decide, clean_goTypeOf c⟩) ⟨hb, Stmt.cleanAll_append.2 ⟨Stmt.cleanAll_iff.2 ?_, ?_⟩⟩
    · intro s hs
      obtain ⟨f, hf, rfl⟩ := List.mem_map.1 hs
      exact clean_readField h hf
    · exact ⟨Expr.clean_send (clean_local (by decide)) (by decide) trivial, trivial⟩

/-- All the code of a class can be read back. -/
theorem clean_decls : ∀ d ∈ c.decls, d.Clean := by
  simp only [Class.decls, List.forall_mem_append, List.forall_mem_cons]
  exact ⟨⟨⟨clean_typeDecls h, clean_builderDecls h⟩, clean_cloneDecl h, clean_lessDecl h,
    clean_hashDecl h, clean_asMapDecl h, by simp⟩, clean_factoryDecls h⟩

end typeDecls

end declarations

end SchemaForge.Go
