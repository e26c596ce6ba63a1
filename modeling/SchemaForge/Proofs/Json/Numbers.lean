import SchemaForge.Proofs.Binary64
import SchemaForge.Proofs.Literal
/-! Printed numbers are read as the numbers that they are. -/
namespace SchemaForge

namespace Decimal

variable {n : Nat} {cs : List Char}

theorem head?_digits_ne_zero (hn : n ≠ 0) : (digits n).head? ≠ some '0' := by
  fun_induction digits n with
  | case1 n h =>
    have hchar : ∀ d : Fin 10, d.val ≠ 0 → digitChar d.val ≠ '0' := by decide
    simpa using hchar ⟨n, h⟩ hn
  | case2 n h ih =>
    rw [List.head?_append_of_ne_nil _ (digits_ne_nil _)]
    exact ih (by omega)

theorem value_append (cs ds : List Char) : value (cs ++ ds) = value cs * tenTo ds.length + value ds := by
  induction ds using List.reverseRecOn with
  | nil => simp [value, tenTo]
  | append_singleton ds d ih =>
    have hten : tenTo (ds.length + 1) = tenTo ds.length * 10 := tenTo_add ..
    rw [← List.append_assoc, value_append_singleton, ih, value_append_singleton,
      List.length_append, List.length_singleton, hten]
    ring

theorem value_replicate_zero (k : Nat) : value (List.replicate k '0') = 0 := by
  induction k with
  | zero => rfl
  | succ k ih =>
    rw [List.replicate_succ', value_append_singleton, ih]
    rfl

end Decimal

namespace Json.Token

open Decimal

variable {whole fraction cs r : List Char} {negative : Bool} {e : Option Int}

/-- The sign of a number, if it has one. -/
def signOf (negative : Bool) : List Char := if negative then ['-'] else []

/-- Whole digits as numbers may begin with. -/
structure Whole (ds : List Char) : Prop where
  ne_nil : ds ≠ []
  isDigit : ∀ c ∈ ds, c.isDigit = true
  head : ds.length > 1 → ds.head? ≠ some '0'

/-- What may follow digits. -/
def NoDigit (r : List Char) : Prop := ∀ c ∈ r.head?, c.isDigit = false

theorem digitsOf_append (hds : ∀ c ∈ whole, c.isDigit = true) (hr : NoDigit r) :
    digitsOf (whole ++ r) = (whole, r) := by
  have htake : r.takeWhile Char.isDigit = [] := by
    cases r with
    | nil => rfl
    | cons c r => simp [hr c rfl]
  have hdrop : r.dropWhile Char.isDigit = r := by
    cases r with
    | nil => rfl
    | cons c r => simp [hr c rfl]
  rw [digitsOf, List.takeWhile_append_of_pos hds, List.dropWhile_append_of_pos hds, htake, hdrop,
    List.append_nil]

theorem whole_digits (n : Nat) : Whole (digits n) where
  ne_nil := digits_ne_nil n
  isDigit _ := isDigit_of_mem_digits
  head hlen := by
    by_cases hn : n = 0
    · rw [hn, digits] at hlen
      exact absurd hlen (by decide)
    · exact head?_digits_ne_zero hn

theorem not_minus_of_isDigit {c : Char} (h : c.isDigit = true) : c ≠ '-' := by
  rintro rfl
  exact absurd h (by decide)

/-- What a literal has after its sign and its whole digits. -/
def afterWhole? (negative : Bool) (whole : List Char) : List Char → Option Literal
  | '.' :: rest =>
    let (fraction, rest) := digitsOf rest
    if fraction.isEmpty then none
    else (exponent? rest).map fun e => ⟨negative, whole, some fraction, e⟩
  | rest => (exponent? rest).map fun e => ⟨negative, whole, none, e⟩

theorem literal?_whole (hw : Whole whole) (hr : NoDigit r) :
    literal? (signOf negative ++ (whole ++ r)) = afterWhole? negative whole r := by
  have hguard : (whole.isEmpty || (decide (whole.length > 1) && whole.head? == some '0')) = false := by
    simpa [hw.ne_nil] using hw.head
  have hsplit := digitsOf_append hw.isDigit hr
  cases negative with
  | true =>
    change literal? ('-' :: (whole ++ r)) = _
    unfold literal?
    simp only [hsplit, hguard, Bool.false_eq_true, if_false]
    rfl
  | false =>
    change literal? (whole ++ r) = _
    obtain ⟨c, ds, rfl⟩ := List.exists_cons_of_ne_nil hw.ne_nil
    have hc := not_minus_of_isDigit (hw.isDigit c List.mem_cons_self)
    unfold literal?
    split
    next hmatch =>
    split at hmatch
    · next heq => exact absurd (List.cons.inj heq).1 hc
    · cases hmatch
      simp only [hsplit, hguard, Bool.false_eq_true, if_false]
      rfl

theorem number?_exponent (hw : Whole whole) (hr : NoDigit r) (hpoint : r.head? ≠ some '.') {e : Int}
    (he : exponent? r = some (some e)) :
    number? (signOf negative ++ (whole ++ r)) =
      (Binary64.ofDecimal? negative (value whole) e).map .float := by
  have hafter : afterWhole? negative whole r = some ⟨negative, whole, none, some e⟩ := by
    unfold afterWhole?
    split
    · exact absurd rfl hpoint
    · rw [he, Option.map_some]
  rw [number?, literal?_whole hw hr, hafter]
  simp [Literal.number?]

theorem number?_point (hw : Whole whole) (hne : fraction ≠ [])
    (hf : ∀ c ∈ fraction, c.isDigit = true) (hr : NoDigit r) (he : exponent? r = some e) :
    number? (signOf negative ++ (whole ++ '.' :: (fraction ++ r))) =
      (Binary64.ofDecimal? negative (value (whole ++ fraction))
        (e.getD 0 - fraction.length)).map .float := by
  have hpoint : NoDigit ('.' :: (fraction ++ r)) := by
    intro c hc
    cases hc
    rfl
  have hafter : afterWhole? negative whole ('.' :: (fraction ++ r)) =
      some ⟨negative, whole, some fraction, e⟩ := by
    simp [afterWhole?, digitsOf_append hf hr, hne, he]
  rw [number?, literal?_whole hw hpoint, hafter]
  simp [Literal.number?]

/-- Whole numbers of 64 bits are read as they are printed. -/
theorem number?_intText {i : Int} (hi : (Number.integer i).InRange) :
    number? (intText i).toList = some (.integer i) := by
  have hafter : ∀ negative n, number? (signOf negative ++ (digits n ++ [])) =
      Literal.number? ⟨negative, digits n, none, none⟩ := by
    intro negative n
    have hr : NoDigit [] := fun _ h => by cases h
    rw [number?, literal?_whole (whole_digits n) hr]
    rfl
  rw [toList_intText]
  obtain ⟨hlow, hhigh⟩ := hi
  split
  · next hneg =>
    have hne : i.natAbs ≠ 0 := by omega
    have hle : i.natAbs ≤ twoTo 63 := by omega
    have hnumber := hafter true i.natAbs
    rw [List.append_nil] at hnumber
    rw [signOf, if_pos rfl, List.singleton_append] at hnumber
    rw [hnumber]
    have habs : -|i| = i := by rw [abs_of_neg hneg, neg_neg]
    simp [Literal.number?, value_digits, hne, hle, habs]
  · next hneg =>
    have hlt : i.natAbs < twoTo 64 := by omega
    have hnumber := hafter false i.natAbs
    rw [List.append_nil] at hnumber
    rw [signOf, if_neg Bool.false_ne_true, List.nil_append] at hnumber
    rw [hnumber]
    have habs : |i| = i := abs_of_nonneg (Int.not_lt.1 hneg)
    simp [Literal.number?, value_digits, hlt, habs]

section floats

variable {x : Binary64} {c : Nat} {e : Int} {d : Decimal}

theorem noDigit_nil : NoDigit [] := fun _ h => by cases h

theorem exponent?_nil : exponent? [] = some none := rfl

theorem exponent?_text (e : Int) :
    exponent? ('e' :: (if e < 0 then '-' else '+') :: digits e.natAbs) = some (some e) := by
  have hdigits : (digits e.natAbs).all Char.isDigit = true :=
    List.all_eq_true.2 fun _ => isDigit_of_mem_digits
  have hne := digits_ne_nil e.natAbs
  by_cases he : e < 0
  · have habs : -|e| = e := by rw [abs_of_neg he, neg_neg]
    simp [exponent?, he, hdigits, hne, value_digits, habs]
  · have habs : |e| = e := abs_of_nonneg (Int.not_lt.1 he)
    simp [exponent?, he, hdigits, hne, value_digits, habs]

theorem whole_append {n : Nat} (hn : n ≠ 0) (hcs : ∀ c ∈ cs, c.isDigit = true) :
    Whole (digits n ++ cs) where
  ne_nil := List.append_ne_nil_of_left_ne_nil (digits_ne_nil n) cs
  isDigit c hc := by
    rcases List.mem_append.1 hc with hc | hc
    · exact isDigit_of_mem_digits hc
    · exact hcs c hc
  head _ := by
    rw [List.head?_append_of_ne_nil _ (digits_ne_nil n)]
    exact head?_digits_ne_zero hn

theorem whole_take {n k : Nat} (hn : n ≠ 0) (hk : 0 < k) : Whole ((digits n).take k) where
  ne_nil := by simp [digits_ne_nil, Nat.ne_of_gt hk]
  isDigit _ hc := isDigit_of_mem_digits (List.mem_of_mem_take hc)
  head _ := by
    rw [List.head?_take, if_neg (Nat.ne_of_gt hk)]
    exact head?_digits_ne_zero hn

theorem whole_singleton {c : Char} (hc : c.isDigit = true) : Whole [c] where
  ne_nil := List.cons_ne_nil c []
  isDigit := by simpa using hc
  head h := absurd h (Nat.lt_irrefl 1)

theorem number?_point_of_toUnits (hx : x.units ≠ 0) (hw : Whole whole) (hne : fraction ≠ [])
    (hf : ∀ c ∈ fraction, c.isDigit = true) (hr : NoDigit r) {exponent : Option Int}
    (he : exponent? r = some exponent)
    (h : (⟨value (whole ++ fraction), exponent.getD 0 - fraction.length⟩ : Decimal).toUnits =
      x.units) :
    number? (signOf x.negative ++ (whole ++ '.' :: (fraction ++ r))) = some (.float x) := by
  rw [number?_point hw hne hf hr he, Binary64.ofDecimal?_of_toUnits hx h, Option.map_some]

/-- Digits that need zeros before the point. -/
theorem number?_text_whole (hx : x.units ≠ 0) (hc : c ≠ 0) (he : 0 ≤ e)
    (h : (⟨c, e⟩ : Decimal).toUnits = x.units) :
    number? (signOf x.negative ++ (digits c ++ List.replicate e.toNat '0' ++ ['.', '0'])) =
      some (.float x) := by
  have hvalue : value (digits c ++ List.replicate e.toNat '0' ++ ['0']) =
      c * tenTo (e.toNat + 1) := by
    have hzeros : List.replicate e.toNat '0' ++ ['0'] = List.replicate (e.toNat + 1) '0' :=
      List.replicate_succ'.symm
    rw [List.append_assoc, hzeros, value_append, value_digits, value_replicate_zero,
      List.length_replicate, Nat.add_zero]
  have hexponent : (none : Option Int).getD 0 - (['0'].length : Int) + (e.toNat + 1 : Nat) = e := by
    simp
    omega
  have hzeros : ∀ d ∈ List.replicate e.toNat '0', d.isDigit = true := by simp
  have hnumber := number?_point_of_toUnits hx (whole_append hc hzeros) (List.cons_ne_nil '0' [])
    (by simp) noDigit_nil exponent?_nil
  rw [hvalue, toUnits_mul_tenTo, hexponent, List.append_nil] at hnumber
  exact hnumber h

/-- Digits on both sides of the point. -/
theorem number?_text_split (hx : x.units ≠ 0) (hc : c ≠ 0) (he : e < 0) {k : Nat} (hk : 0 < k)
    (hlength : (digits c).length + e = k) (h : (⟨c, e⟩ : Decimal).toUnits = x.units) :
    number? (signOf x.negative ++ ((digits c).take k ++ '.' :: (digits c).drop k)) =
      some (.float x) := by
  have hlen : ((digits c).drop k).length = -e := by
    rw [List.length_drop]
    omega
  have hne : (digits c).drop k ≠ [] := by
    intro hnil
    rw [hnil] at hlen
    simp at hlen
    omega
  have hnumber := number?_point_of_toUnits hx (whole_take hc hk) hne
    (fun _ hd => isDigit_of_mem_digits (List.mem_of_mem_drop hd)) noDigit_nil exponent?_nil
  rw [List.append_nil, List.take_append_drop, value_digits, hlen] at hnumber
  apply hnumber
  simpa using h

/-- Digits that need zeros behind the point. -/
theorem number?_text_small (hx : x.units ≠ 0) {k : Nat} (hlength : (digits c).length + e = -k)
    (h : (⟨c, e⟩ : Decimal).toUnits = x.units) :
    number? (signOf x.negative ++ (['0', '.'] ++ List.replicate k '0' ++ digits c)) =
      some (.float x) := by
  have hvalue : value (['0'] ++ (List.replicate k '0' ++ digits c)) = c := by
    rw [← List.append_assoc, value_append, value_append, value_replicate_zero, value_digits]
    simp [value, digitValue]
  have hdigit : ∀ d ∈ List.replicate k '0' ++ digits c, d.isDigit = true := by
    intro d hd
    rcases List.mem_append.1 hd with hd | hd
    · rw [List.eq_of_mem_replicate hd]
      rfl
    · exact isDigit_of_mem_digits hd
  have hnumber := number?_point_of_toUnits hx (whole_singleton (c := '0') rfl)
    (List.append_ne_nil_of_right_ne_nil _ (digits_ne_nil c)) hdigit noDigit_nil exponent?_nil
  rw [hvalue] at hnumber
  have hexponent : (none : Option Int).getD 0 - ((List.replicate k '0' ++ digits c).length : Int) =
      e := by
    simp
    omega
  rw [hexponent] at hnumber
  simpa using hnumber h

theorem noDigit_exponent (cs : List Char) : NoDigit ('e' :: cs) := by
  intro c hc
  cases hc
  rfl

/-- One digit with an exponent. -/
theorem number?_text_digit (hx : x.units ≠ 0) {d : Char} (hdigits : digits c = [d])
    (h : (⟨c, e⟩ : Decimal).toUnits = x.units) :
    number? (signOf x.negative ++ d :: 'e' :: (if e < 0 then '-' else '+') :: digits e.natAbs) =
      some (.float x) := by
  have hd : d.isDigit = true := isDigit_of_mem_digits (n := c) (by simp [hdigits])
  have hvalue : value [d] = c := by rw [← hdigits, value_digits]
  have hnumber : number? (signOf x.negative ++ ([d] ++ _)) = _ :=
    number?_exponent (whole_singleton hd) (noDigit_exponent _) (by simp) (exponent?_text e)
  rw [hvalue, Binary64.ofDecimal?_of_toUnits hx h] at hnumber
  exact hnumber

/-- Many digits, one of them before the point, with an exponent. -/
theorem number?_text_digits (hx : x.units ≠ 0) {d : Char} {rest : List Char} {point : Int}
    (hdigits : digits c = d :: rest) (hrest : rest ≠ []) (hpoint : rest.length + e = point)
    (h : (⟨c, e⟩ : Decimal).toUnits = x.units) :
    number? (signOf x.negative ++ (d :: '.' :: rest ++
      'e' :: (if point < 0 then '-' else '+') :: digits point.natAbs)) = some (.float x) := by
  have hmem : ∀ c' ∈ d :: rest, c'.isDigit = true := by
    intro c' hc'
    rw [← hdigits] at hc'
    exact isDigit_of_mem_digits hc'
  have hvalue : value ([d] ++ rest) = c := by
    rw [List.singleton_append, ← hdigits, value_digits]
  have hnumber := number?_point_of_toUnits hx (whole_singleton (hmem d List.mem_cons_self)) hrest
    (fun c' hc' => hmem c' (List.mem_cons_of_mem d hc')) (noDigit_exponent _)
    (exponent?_text point)
  have hexponent : (some point).getD 0 - (rest.length : Int) = e := by
    rw [Option.getD_some]
    omega
  rw [hvalue, hexponent] at hnumber
  simpa using hnumber h

/-- A decimal that comes nearest to a number is printed so that it is read as that number, however
its digits are laid out. -/
theorem number?_text (hx : x.units ≠ 0) (h : d.toUnits = x.units) :
    number? (signOf x.negative ++ d.text) = some (.float x) := by
  obtain ⟨c, e⟩ := d
  have hc : c ≠ 0 := by
    rintro rfl
    exact hx (h.symm.trans (toUnits_zero e))
  unfold Decimal.text
  dsimp only
  split
  · next hlayout => exact number?_text_whole hx hc hlayout.1 h
  · split
    · next hwhole hlayout => refine number?_text_split hx hc ?_ ?_ ?_ h <;> omega
    · split
      · next hlayout =>
        refine number?_text_small hx ?_ h
        omega
      · split
        · next d hdigits =>
          have hpoint : (1 : Int) + e - 1 = e := by omega
          rw [hdigits]
          simpa [hpoint] using number?_text_digit hx hdigits h
        · next d rest hmany hdigits =>
          refine number?_text_digits hx hdigits hmany ?_ h
          rw [hdigits, List.length_cons]
          omega
        · next hnil => exact absurd hnil (digits_ne_nil c)

/-- Numbers are read as they are printed. -/
theorem number?_toText {n : Number} (hn : n.InRange) : number? n.text = some n := by
  cases n with
  | integer i => exact number?_intText hn
  | float x =>
    have htext : (Number.float x).text =
        signOf x.negative ++ if x.isZero then ['0', '.', '0'] else (shortest x.units).text := by
      rw [Number.text, Binary64.text, signOf]
      cases x.negative <;> rfl
    rw [htext]
    by_cases hx : x.units = 0
    · have hzero : x.isZero = true := beq_iff_eq.2 hx
      rw [hzero, if_pos rfl, Binary64.eq_zero hx]
      cases x.negative <;> decide
    · have hzero : x.isZero = false := beq_eq_false_iff_ne.2 hx
      rw [hzero, if_neg Bool.false_ne_true]
      exact number?_text hx (toUnits_shortest x.fits)

end floats

section characters

variable {l : Literal} {c : Char}

theorem isNumberChar_of_isDigit (h : c.isDigit = true) : isNumberChar c = true := by
  simp [isNumberChar, h]

theorem isNumberChar_of_all (h : cs.all Char.isDigit = true) (hc : c ∈ cs) :
    isNumberChar c = true :=
  isNumberChar_of_isDigit (List.all_eq_true.1 h c hc)

theorem digitsOf_chars (h : ∀ c ∈ (digitsOf cs).2, isNumberChar c = true) :
    ∀ c ∈ cs, isNumberChar c = true := by
  intro c hc
  have hsplit : (digitsOf cs).1 ++ (digitsOf cs).2 = cs := List.takeWhile_append_dropWhile
  rw [← hsplit] at hc
  rcases List.mem_append.1 hc with hc | hc
  · exact isNumberChar_of_isDigit (List.mem_takeWhile_imp hc)
  · exact h c hc

theorem exponent?_chars (h : exponent? cs = some e) : ∀ c ∈ cs, isNumberChar c = true := by
  unfold exponent? at h
  split at h
  · simp
  · next letter rest =>
    split at h
    · next hletter =>
      have hfirst : isNumberChar letter = true := by
        simp only [Bool.or_eq_true, beq_iff_eq] at hletter
        rcases hletter with rfl | rfl <;> rfl
      split at h
      next negative ds hsign =>
      split at h
      · cases h
      · next hdigits =>
        have hds : ∀ c ∈ ds, isNumberChar c = true := by
          simp only [Bool.or_eq_true, Bool.not_eq_true', not_or, Bool.not_eq_false] at hdigits
          exact fun c => isNumberChar_of_all hdigits.2
        refine List.forall_mem_cons.2 ⟨hfirst, ?_⟩
        split at hsign <;> cases hsign
        · exact List.forall_mem_cons.2 ⟨rfl, hds⟩
        · exact List.forall_mem_cons.2 ⟨rfl, hds⟩
        · exact hds
    · cases h

/-- A number begins with a sign or a digit, and has no character that numbers cannot have. -/
theorem literal?_chars (h : literal? cs = some l) :
    (∃ c rest, cs = c :: rest ∧ (c = '-' ∨ c.isDigit = true)) ∧
      ∀ c ∈ cs, isNumberChar c = true := by
  unfold literal? at h
  split at h
  next negative ds hsign =>
  dsimp only at h
  split at h
  · cases h
  · next hwhole =>
    have hds : ∀ c ∈ ds, isNumberChar c = true := by
      apply digitsOf_chars
      split at h
      · next rest hrest =>
        split at h
        · cases h
        · obtain ⟨exponent, he, -⟩ := Option.map_eq_some_iff.1 h
          rw [hrest]
          exact List.forall_mem_cons.2 ⟨rfl, digitsOf_chars (exponent?_chars he)⟩
      · obtain ⟨exponent, he, -⟩ := Option.map_eq_some_iff.1 h
        exact exponent?_chars he
    have hfirst : ∃ c rest, ds = c :: rest ∧ c.isDigit = true := by
      cases ds with
      | nil => exact absurd rfl hwhole
      | cons c rest =>
        refine ⟨c, rest, rfl, ?_⟩
        by_contra hc
        simp [digitsOf, hc] at hwhole
    obtain ⟨c, rest, rfl, hc⟩ := hfirst
    split at hsign <;> cases hsign
    · exact ⟨⟨'-', c :: rest, rfl, Or.inl rfl⟩, List.forall_mem_cons.2 ⟨rfl, hds⟩⟩
    · exact ⟨⟨c, rest, rfl, Or.inr hc⟩, hds⟩

theorem number?_chars {n : Number} (h : number? cs = some n) :
    (∃ c rest, cs = c :: rest ∧ (c = '-' ∨ c.isDigit = true)) ∧
      ∀ c ∈ cs, isNumberChar c = true := by
  obtain ⟨l, hl, -⟩ := Option.bind_eq_some_iff.1 h
  exact literal?_chars hl

end characters

end Json.Token

end SchemaForge
