import SchemaForge.Proofs.Rounding
import SchemaForge.Proofs.Spelling
/-!
Whole numbers made of numbers and of texts. Main statement: which defaults and bounds keep the
value that is written, and what the others make of it.
-/
namespace SchemaForge

variable {q : ℚ} {i : Int} {x : Binary64} {cs : List Char} {s : String}

/-- A number without its fraction. -/
def towardZero (q : ℚ) : Int := if 0 ≤ q then ⌊q⌋ else ⌈q⌉

/-- The number that a text of digits stands for. -/
def Denotes (cs : List Char) (q : ℚ) : Prop :=
  ∃ negative d, Written cs negative d ∧ q = signed negative d.quantity

/-- The rational number. -/
def Number.value : Number → ℚ
  | integer i => i
  | float x => x.value

section truncation

theorem towardZero_intCast (i : Int) : towardZero i = i := by
  unfold towardZero
  rw [Int.floor_intCast, Int.ceil_intCast, ite_self]

theorem towardZero_signed (negative : Bool) (hq : 0 ≤ q) :
    towardZero (signed negative q) = if negative then -⌊q⌋ else ⌊q⌋ := by
  cases negative with
  | false => exact if_pos hq
  | true =>
    change towardZero (-q) = -⌊q⌋
    unfold towardZero
    split
    · next h =>
      have hzero : q = 0 := by linarith
      rw [hzero, neg_zero, Int.floor_zero, neg_zero]
    · rw [Int.ceil_neg]

theorem Binary64.truncate_eq (x : Binary64) : x.truncate = towardZero x.value := by
  have hnonneg : (0 : ℚ) ≤ x.units / twoTo 1074 :=
    div_nonneg (Nat.cast_nonneg _) (Nat.cast_nonneg _)
  rw [value, towardZero_signed _ hnonneg, Rat.floor_natCast_div_natCast]
  rfl

theorem le_towardZero (h : i ≤ q) (hi : 0 ≤ i) : i ≤ towardZero q := by
  have hq : 0 ≤ q := le_trans (by exact_mod_cast hi) h
  rw [towardZero, if_pos hq]
  exact Int.le_floor.2 h

end truncation

namespace Coercion

/-- Whole numbers of 64 bits with sign. -/
def Fits64 (i : Int) : Prop := int64Min ≤ i ∧ i ≤ int64Max

/-- The answer keeps the number: what comes out is its whole part, and there is none if that is
not of 64 bits. -/
structure Faithful (answer : Except CoercionFault Int) (q : ℚ) : Prop where
  exact : ∀ i, answer = .ok i → i = towardZero q
  refused : ¬Fits64 (towardZero q) → ∃ fault, answer = .error fault

section range

theorem int64Min_lt_max : int64Min < int64Max := by decide

theorem clamp_of_fits (h : Fits64 i) : clamp i = i := by
  unfold clamp
  rw [min_eq_right h.2, max_eq_right h.1]

theorem clamp_of_max_le (h : int64Max ≤ i) : clamp i = int64Max := by
  unfold clamp
  rw [min_eq_left h, max_eq_right int64Min_lt_max.le]

theorem clamp_of_le_min (h : i ≤ int64Min) : clamp i = int64Min := by
  unfold clamp
  rw [min_eq_right (h.trans int64Min_lt_max.le), max_eq_left h]

/-- An answer that is always given keeps the numbers whose whole part it is. -/
theorem faithful_ok : Faithful (.ok i) q ↔ Fits64 (towardZero q) ∧ i = towardZero q := by
  constructor
  · intro h
    refine ⟨?_, h.exact i rfl⟩
    by_contra hfits
    obtain ⟨fault, hfault⟩ := h.refused hfits
    cases hfault
  · rintro ⟨hfits, rfl⟩
    exact ⟨fun i hi => (Except.ok.inj hi).symm, fun h => absurd hfits h⟩

theorem faithful_clamp : Faithful (.ok (clamp (towardZero q))) q ↔ Fits64 (towardZero q) :=
  faithful_ok.trans (and_iff_left_of_imp clamp_of_fits)

end range

section numbers

theorem numberToInt_eq (n : Number) : numberToInt n = clamp (towardZero n.value) := by
  cases n with
  | integer i => exact congrArg clamp (towardZero_intCast i).symm
  | float x => exact congrArg clamp x.truncate_eq

theorem integerDefault_number (n : Number) :
    integerDefault (.number n) = .ok (clamp (towardZero n.value)) :=
  congrArg _ (numberToInt_eq n)

theorem integerBound_number (n : Number) :
    integerBound (.number n) = integerDefault (.number n) := rfl

end numbers

section texts

variable {negative : Bool} {d : Decimal}

theorem twoTo_le_largest : twoTo 63 ≤ Binary64.largestUnits / twoTo 1074 := by
  rw [Nat.le_div_iff_mul_le (twoTo_pos _), ← twoTo_add]
  exact (twoTo_le_twoTo (by decide)).trans Binary64.twoTo_le_largestUnits

/-- The largest finite numbers lie outside the range, as infinite ones do. -/
theorem toInt_infinite (negative : Bool) :
    (Reading.infinite negative).toInt = clamp (Binary64.largest negative).truncate := by
  have hwhole := twoTo_le_largest
  unfold Binary64.truncate Binary64.largest Reading.toInt
  dsimp only
  generalize Binary64.largestUnits / twoTo 1074 = whole at hwhole ⊢
  have hcast : (twoTo 63 : Int) ≤ whole := Int.ofNat_le.2 hwhole
  cases negative with
  | false => exact (clamp_of_max_le ((Int.sub_le_self _ (by decide)).trans hcast)).symm
  | true => exact (clamp_of_le_min (Int.neg_le_neg hcast)).symm

/-- What is made of a decimal is made of the number nearest to it, of which there is just one. -/
theorem toInt_ofDecimal (negative : Bool) (d : Decimal) : ∃ x : Binary64,
    x.Nearest (signed negative d.quantity) ∧
      (∀ y : Binary64, y.Nearest (signed negative d.quantity) → y.value = x.value) ∧
      (Reading.ofDecimal negative d).toInt = clamp (towardZero x.value) := by
  obtain ⟨x, rfl, hbest, hread⟩ := Binary64.ofDecimal?_best negative d.coefficient d.exponent
  have hunit := cast_twoTo_pos 1074
  have hquantity : 0 ≤ d.quantity :=
    mul_nonneg (Nat.cast_nonneg _) (zpow_nonneg (by norm_num) _)
  have hv : 0 ≤ d.quantity * twoTo 1074 := mul_nonneg hquantity hunit.le
  have hnearest := Binary64.nearest_of_best hbest hv
  have hunique := fun y => Binary64.value_of_best (y := y) hbest hv
  rw [mul_div_cancel_right₀ _ hunit.ne'] at hnearest hunique
  refine ⟨x, hnearest, hunique, ?_⟩
  rw [← x.truncate_eq]
  unfold Reading.ofDecimal
  obtain h | ⟨h, hx⟩ := hread
  · rw [h]
    rfl
  · rw [h, toInt_infinite, ← hx]

theorem integerDefault_of_written (h : Written (Text.trimChars s.toList) negative d) :
    integerDefault (.string s) = .ok (Reading.ofDecimal negative d).toInt := by
  simp only [integerDefault, reading?_of_written h]

theorem integerDefault_text (h : Denotes (Text.trimChars s.toList) q) : ∃ x : Binary64,
    x.Nearest q ∧ (∀ y : Binary64, y.Nearest q → y.value = x.value) ∧
      integerDefault (.string s) = .ok (clamp (towardZero x.value)) := by
  obtain ⟨negative, d, hwritten, rfl⟩ := h
  obtain ⟨x, hnearest, hunique, hvalue⟩ := toInt_ofDecimal negative d
  exact ⟨x, hnearest, hunique, (integerDefault_of_written hwritten).trans (congrArg _ hvalue)⟩

end texts

section whole

theorem exists_value_of_power (h : i.natAbs = twoTo 63) : ∃ x : Binary64, x.value = i := by
  refine Binary64.exists_value ?_
  rw [h, ← twoTo_add]
  exact Binary64.fits_twoTo (by decide)

theorem integerDefault_small (hi : i.natAbs ≤ twoTo 53)
    (h : Denotes (Text.trimChars s.toList) i) : integerDefault (.string s) = .ok i := by
  obtain ⟨x, hnearest, -, hdefault⟩ := integerDefault_text h
  obtain ⟨y, hy⟩ := Binary64.exists_value_of_small hi
  have hfits : Fits64 i := by
    have hlt : twoTo 53 < twoTo 63 := by decide
    unfold Fits64 int64Min int64Max
    omega
  rw [hdefault, Binary64.value_of_nearest hnearest hy, towardZero_intCast, clamp_of_fits hfits]

/-- A whole number that comes out of a binary64 number within the range is one. -/
theorem exists_value_of_clamp (hi : int64Min ≤ i) (hi' : i < int64Max) (h : clamp x.truncate = i) :
    ∃ y : Binary64, y.value = i := by
  by_cases hsmall : i.natAbs ≤ twoTo 53
  · exact Binary64.exists_value_of_small hsmall
  by_cases hmin : i = int64Min
  · exact exists_value_of_power (by rw [hmin]; rfl)
  · have htruncate : x.truncate = i := by
      unfold clamp at h
      omega
    refine ⟨x, ?_⟩
    rw [← htruncate]
    exact Binary64.value_of_large (by rw [htruncate]; exact Nat.le_of_not_le hsmall)

/-- Beyond the range a number is rounded to one beyond the range. -/
theorem clamp_of_nearest_large (h : x.Nearest i) (hi : (twoTo 63 : Int) ≤ i) :
    clamp (towardZero x.value) = int64Max := by
  obtain ⟨y, hy⟩ := exists_value_of_power (i := twoTo 63) rfl
  have hle : ((twoTo 63 : Int) : ℚ) ≤ x.value := by
    by_contra hlt
    rw [not_le] at hlt
    have hcast : ((twoTo 63 : Int) : ℚ) ≤ i := Int.cast_le.2 hi
    have hnear := h.least y
    rw [hy] at hnear
    exact absurd hnear (not_le.2 (abs_sub_lt_of_lt hlt hcast))
  have hwhole := le_towardZero hle (by decide)
  exact clamp_of_max_le ((Int.sub_le_self _ (by decide)).trans hwhole)

theorem integerDefault_max (h : Written (Text.trimChars s.toList) false ⟨int64Max.natAbs, 0⟩) :
    integerDefault (.string s) = .ok int64Max := by
  rw [integerDefault_of_written h]
  exact congrArg Except.ok (by decide +kernel)

theorem denotes_digits {negative : Bool} {c : Nat} (h : Written cs negative ⟨c, 0⟩)
    (hi : i = if negative then -(c : Int) else c) : Denotes cs i := by
  refine ⟨negative, ⟨c, 0⟩, h, ?_⟩
  rw [Decimal.quantity, zpow_zero, mul_one, hi]
  cases negative <;> simp [signed]

/-- The digits of a whole number are read as that number just if a binary64 number equals it or it
lies at the end of the range or beyond. -/
theorem integerDefault_digits {negative : Bool} {c : Nat}
    (h : Written (Text.trimChars s.toList) negative ⟨c, 0⟩)
    (hi : i = if negative then -(c : Int) else c) (hlow : int64Min ≤ i) :
    integerDefault (.string s) = .ok (clamp i) ↔
      (∃ x : Binary64, x.value = i) ∨ int64Max ≤ i := by
  obtain ⟨x, hnearest, -, hdefault⟩ := integerDefault_text (denotes_digits h hi)
  obtain hlt | rfl | hgt := lt_trichotomy i int64Max
  · rw [hdefault, Except.ok.injEq, clamp_of_fits ⟨hlow, hlt.le⟩, or_iff_left (not_le.2 hlt)]
    constructor
    · rw [← x.truncate_eq]
      exact exists_value_of_clamp hlow hlt
    · rintro ⟨y, hy⟩
      rw [Binary64.value_of_nearest hnearest hy, towardZero_intCast, clamp_of_fits ⟨hlow, hlt.le⟩]
  · refine iff_of_true ?_ (.inr le_rfl)
    have hpositive : 0 < int64Max := by decide
    cases negative with
    | true => exact absurd hpositive (by rw [hi, if_pos rfl]; omega)
    | false =>
      obtain rfl : c = int64Max.natAbs := by rw [hi]; rfl
      rw [integerDefault_max h, clamp_of_max_le le_rfl]
  · refine iff_of_true ?_ (.inr hgt.le)
    rw [hdefault, clamp_of_nearest_large hnearest (Int.lt_iff_add_one_le.1 hgt),
      clamp_of_max_le hgt.le]

end whole

section spelling

variable {n : Number}

theorem denotes_of_number? (h : Json.Token.number? cs = some (.integer i)) : Denotes cs i := by
  obtain ⟨negative, ⟨c, e⟩, hwritten, ⟨x, hx, -⟩ | ⟨rfl, hi⟩⟩ := written_of_number? h
  · cases hx
  · exact denotes_digits hwritten (Number.integer.inj hi)

/-- A text and the number that it spells make the same default, but for the whole numbers within
the range that no binary64 number equals. -/
theorem integerDefault_spelling (h : Json.Token.number? (Text.trimChars s.toList) = some n) :
    integerDefault (.string s) = integerDefault (.number n) ↔
      (∃ x : Binary64, x.value = n.value) ∨ int64Max ≤ n.value := by
  have hrange := inRange_of_number? h
  obtain ⟨negative, ⟨c, e⟩, hwritten, ⟨x, rfl, hx⟩ | ⟨rfl, rfl⟩⟩ := written_of_number? h
  · refine iff_of_true ?_ (.inl ⟨x, rfl⟩)
    rw [integerDefault_of_written hwritten, Reading.ofDecimal, hx]
    rfl
  · refine (integerDefault_digits hwritten rfl hrange.1).trans (or_congr_right ?_)
    exact Int.cast_le.symm

end spelling

/-- Numbers become their whole part, and texts that of the binary64 number nearest to what they
say, both at the nearest end of the range if they lie outside, where nothing is ever refused. So a
number keeps its value just if 64 bits hold its whole part; a text if, besides, rounding leaves
the whole part as it is, as it does with whole numbers up to `2 ^ 53`. -/
theorem integerDefault_nearest (n : Number) (s : String) :
    (integerDefault (.number n) = .ok (clamp (towardZero n.value)) ∧
      integerBound (.number n) = integerDefault (.number n) ∧
      (Faithful (integerDefault (.number n)) n.value ↔ Fits64 (towardZero n.value))) ∧
    (∀ q, Denotes (Text.trimChars s.toList) q → ∃ x : Binary64,
      x.Nearest q ∧ (∀ y : Binary64, y.Nearest q → y.value = x.value) ∧
      integerDefault (.string s) = .ok (clamp (towardZero x.value)) ∧
      (Faithful (integerDefault (.string s)) q ↔
        Fits64 (towardZero q) ∧ clamp (towardZero x.value) = towardZero q)) ∧
    (∀ i : Int, Denotes (Text.trimChars s.toList) i → i.natAbs ≤ twoTo 53 →
      integerDefault (.string s) = .ok i) ∧
    (Json.Token.number? (Text.trimChars s.toList) = some n →
      (integerDefault (.string s) = integerDefault (.number n) ↔
        (∃ x : Binary64, x.value = n.value) ∨ int64Max ≤ n.value)) := by
  refine ⟨⟨integerDefault_number n, integerBound_number n, ?_⟩, fun q h => ?_,
    fun i h hi => integerDefault_small hi h, integerDefault_spelling⟩
  · rw [integerDefault_number]
    exact faithful_clamp
  · obtain ⟨x, hnearest, hunique, hdefault⟩ := integerDefault_text h
    refine ⟨x, hnearest, hunique, hdefault, ?_⟩
    rw [hdefault]
    exact faithful_ok

/-- The first whole number that no binary64 number equals. -/
theorem integerDefault_nearest_odd :
    let cs := Text.trimChars "9007199254740993".toList
    (Denotes cs (9007199254740993 : Int) ∧ ∃ x : Binary64, x.Nearest (9007199254740993 : Int) ∧
      integerDefault (.string "9007199254740993") = .ok (clamp (towardZero x.value))) ∧
    (Json.Token.number? cs = some (.integer 9007199254740993) ∧
      (integerDefault (.string "9007199254740993") =
          integerDefault (.number (.integer 9007199254740993)) ↔
        (∃ x : Binary64, x.value = (9007199254740993 : Int)) ∨
          int64Max ≤ ((9007199254740993 : Int) : ℚ))) ∧
    Denotes (Text.trimChars " 1024".toList) (1024 : Int) ∧ (1024 : Int).natAbs ≤ twoTo 53 ∧
      integerDefault (.string " 1024") = .ok 1024 := by
  have hodd : Json.Token.number? (Text.trimChars "9007199254740993".toList) =
    some (.integer 9007199254740993) := by decide +kernel
  have hsmall : Json.Token.number? (Text.trimChars " 1024".toList) = some (.integer 1024) := by
    decide +kernel
  have hdenotes := denotes_of_number? hodd
  have hkept := denotes_of_number? hsmall
  obtain ⟨-, htext, -, hspelling⟩ :=
    integerDefault_nearest (.integer 9007199254740993) "9007199254740993"
  obtain ⟨-, -, hwhole, -⟩ := integerDefault_nearest (.integer 1024) " 1024"
  obtain ⟨x, hnearest, -, hdefault, -⟩ := htext _ hdenotes
  exact ⟨⟨hdenotes, x, hnearest, hdefault⟩, ⟨hodd, hspelling hodd⟩,
    hkept, by decide, hwhole _ hkept (by decide)⟩

/-- A number beyond the range is not refused, but becomes the end of the range; and the digits of
a number within the range make another default than the number. -/
theorem integerDefault_unfaithful :
    (integerDefault (.number (.integer 9223372036854775808)) = .ok 9223372036854775807 ∧
      integerBound (.number (.integer 9223372036854775808)) = .ok 9223372036854775807 ∧
      ¬Faithful (integerDefault (.number (.integer 9223372036854775808)))
        (9223372036854775808 : Int)) ∧
    (Denotes (Text.trimChars "9007199254740993".toList) (9007199254740993 : Int) ∧
      integerDefault (.string "9007199254740993") = .ok 9007199254740992 ∧
      integerDefault (.number (.integer 9007199254740993)) = .ok 9007199254740993 ∧
      ¬Faithful (integerDefault (.string "9007199254740993")) (9007199254740993 : Int)) := by
  have hnumber : integerDefault (.number (.integer 9223372036854775808)) =
    .ok 9223372036854775807 := rfl
  have htext : integerDefault (.string "9007199254740993") = .ok 9007199254740992 := by
    decide +kernel
  refine ⟨⟨hnumber, hnumber, ?_⟩, denotes_of_number? (by decide +kernel), htext, rfl, ?_⟩
  · rw [hnumber, faithful_ok, towardZero_intCast]
    exact fun h => absurd h.2 (by decide)
  · rw [htext, faithful_ok, towardZero_intCast]
    exact fun h => absurd h.2 (by decide)

end Coercion

end SchemaForge
