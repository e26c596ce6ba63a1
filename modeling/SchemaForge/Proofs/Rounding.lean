import Mathlib
import SchemaForge.Proofs.Binary64
/-!
Binary64 numbers among the rational ones. Main statement: what is read of a decimal is the finite
number nearest to it, of two equally near ones the even one, and nothing is read only beyond the
largest.
-/
namespace SchemaForge

variable {num den units s m w : Nat} {v : ℚ}

/-- Magnitudes of at most 53 bits of precision, in units. -/
def Precise (units : Nat) : Prop := units % twoTo (spareBits units) = 0

/-- The leading bits of a magnitude. -/
def significand (units : Nat) : Nat := units / twoTo (spareBits units)

/-- A candidate is no better than the number that was chosen for `v`: it is that number, it is
farther away, or it is as far, and only the chosen one is even. -/
def NoBetter (even odd : Prop) (chosen other v : ℚ) : Prop :=
  other = chosen ∨ |chosen - v| < |other - v| ∨ |chosen - v| = |other - v| ∧ even ∧ odd

section quotient

theorem cast_twoTo_pos (n : Nat) : (0 : ℚ) < twoTo n := Nat.cast_pos.2 (twoTo_pos n)

theorem nearestEven_cases (num den : Nat) :
    nearestEven num den = num / den ∧ 2 * (num % den) ≤ den ∨
      nearestEven num den = num / den + 1 ∧ den ≤ 2 * (num % den) := by
  unfold nearestEven
  dsimp only
  split
  · exact .inl ⟨rfl, by omega⟩
  · split
    · exact .inr ⟨rfl, by omega⟩
    · split
      · exact .inl ⟨rfl, by omega⟩
      · exact .inr ⟨rfl, by omega⟩

theorem nearestEven_tie (h : 2 * (num % den) = den) : nearestEven num den % 2 = 0 := by
  unfold nearestEven
  dsimp only
  rw [if_neg (by omega), if_neg (by omega)]
  split
  · assumption
  · omega

/-- Whole numbers that are not next to a number are at least one away. -/
theorem one_le_abs_sub {n j : Nat} {r : ℚ} (hlow : 0 ≤ r) (hhigh : r < 1) (hj : j ≠ n)
    (hj' : j ≠ n + 1) : 1 ≤ |(j : ℚ) - (n + r)| := by
  obtain hfar | hfar : j + 1 ≤ n ∨ n + 2 ≤ j := by omega
  · have hcast : (j : ℚ) + 1 ≤ n := by exact_mod_cast hfar
    exact le_abs.2 (.inr (by linarith))
  · have hcast : (n : ℚ) + 2 ≤ j := by exact_mod_cast hfar
    exact le_abs.2 (.inl (by linarith))

/-- Of the two whole numbers around `n + r` the one on the side of `r` is nearest. -/
theorem noBetter_of_side {n k : Nat} {r : ℚ} (hlow : 0 ≤ r) (hhigh : r < 1)
    (hside : k = n ∧ 2 * r ≤ 1 ∨ k = n + 1 ∧ 1 ≤ 2 * r) (heven : 2 * r = 1 → k % 2 = 0) (j : Nat) :
    NoBetter (k % 2 = 0) (j % 2 = 1 ∧ n ≤ j ∧ j ≤ n + 1) k j (n + r) := by
  have hn : |(n : ℚ) - (n + r)| = r := by rw [sub_add_cancel_left, abs_neg, abs_of_nonneg hlow]
  have hsucc : |((n + 1 : Nat) : ℚ) - (n + r)| = 1 - r := by
    rw [Nat.cast_succ, add_sub_add_left_eq_sub, abs_of_pos (by linarith)]
  by_cases hjk : j = k
  · exact .inl (by rw [hjk])
  by_cases hnear : j = n ∨ j = n + 1
  · -- The two around the number: their distances are `r` and `1 - r`.
    have hle : |(k : ℚ) - (n + r)| ≤ |(j : ℚ) - (n + r)| ∧
        (|(k : ℚ) - (n + r)| = |(j : ℚ) - (n + r)| → 2 * r = 1) := by
      obtain ⟨rfl, h⟩ | ⟨rfl, h⟩ := hside
      · obtain rfl : j = k + 1 := by omega
        rw [hn, hsucc]
        exact ⟨by linarith, fun heq => by linarith⟩
      · obtain rfl : j = n := by omega
        rw [hn, hsucc]
        exact ⟨by linarith, fun heq => by linarith⟩
    obtain hlt | heq := lt_or_eq_of_le hle.1
    · exact .inr (.inl hlt)
    · have hk := heven (hle.2 heq)
      exact .inr (.inr ⟨heq, hk, by omega, by omega, by omega⟩)
  · have hdistance : |(k : ℚ) - (n + r)| < 1 := by
      obtain ⟨rfl, h⟩ | ⟨rfl, h⟩ := hside
      · rwa [hn]
      · rw [hsucc]
        linarith
    rw [not_or] at hnear
    exact .inr (.inl (hdistance.trans_le (one_le_abs_sub hlow hhigh hnear.1 hnear.2)))

/-- Whole numbers are no better than the nearest even one. -/
theorem nearestEven_noBetter (num : Nat) (hden : 0 < den) (j : Nat) :
    NoBetter (nearestEven num den % 2 = 0) (j % 2 = 1 ∧ num / den ≤ j ∧ j ≤ num / den + 1)
      (nearestEven num den) j (num / den) := by
  have hpos : (0 : ℚ) < den := Nat.cast_pos.2 hden
  have hv : (num / den : ℚ) = (num / den : Nat) + (num % den : Nat) / den := by
    have h : (num : ℚ) = den * (num / den : Nat) + (num % den : Nat) := by
      exact_mod_cast (Nat.div_add_mod num den).symm
    rw [div_eq_iff hpos.ne', h]
    field_simp
  have htwice : (2 * ((num % den : Nat) / den) : ℚ) = (2 * (num % den) : Nat) / den := by
    push_cast
    ring
  rw [hv]
  refine noBetter_of_side (by positivity) ?_ ?_ ?_ j
  · rw [div_lt_one hpos]
    exact_mod_cast Nat.mod_lt num hden
  · rw [htwice, div_le_one hpos, one_le_div hpos, Nat.cast_le, Nat.cast_le]
    exact nearestEven_cases num den
  · rw [htwice, div_eq_one_iff_eq hpos.ne', Nat.cast_inj]
    exact nearestEven_tie

/-- Of two numbers below `v` the larger is nearer. -/
theorem abs_sub_lt_of_lt {a b : ℚ} (hba : b < a) (hav : a ≤ v) : |a - v| < |b - v| := by
  rw [abs_sub_comm a, abs_sub_comm b, abs_of_nonneg (sub_nonneg.2 hav),
    abs_of_pos (sub_pos.2 (hba.trans_le hav))]
  exact sub_lt_sub_left hba v

theorem NoBetter.le {even odd : Prop} {a b : ℚ} (h : NoBetter even odd a b v) :
    |a - v| ≤ |b - v| := by
  obtain h | h | ⟨h, -⟩ := h
  · rw [h]
  · exact h.le
  · exact h.le

theorem NoBetter.mul {even odd even' odd' : Prop} {a b : ℚ} (h : NoBetter even odd a b v) {c : ℚ}
    (hc : 0 < c) (heven : even → even') (hodd : odd → odd') :
    NoBetter even' odd' (a * c) (b * c) (v * c) := by
  have hscale : ∀ a : ℚ, |a * c - v * c| = |a - v| * c := fun a => by
    rw [← sub_mul, abs_mul, abs_of_pos hc]
  obtain h | h | ⟨h, he, ho⟩ := h
  · exact .inl (by rw [h])
  · refine .inr (.inl ?_)
    rw [hscale, hscale]
    exact mul_lt_mul_of_pos_right h hc
  · refine .inr (.inr ⟨?_, heven he, hodd ho⟩)
    rw [hscale, hscale, h]

end quotient

section units

theorem twoTo_dvd_twoTo (h : m ≤ s) : twoTo m ∣ twoTo s := Nat.pow_dvd_pow 2 h

theorem twoTo_lt_twoTo (h : m < s) : twoTo m < twoTo s := Nat.pow_lt_pow_right (by decide) h

theorem log2_lt_iff {n : Nat} (h : units ≠ 0) : units.log2 < n ↔ units < twoTo n := Nat.log2_lt h

theorem le_log2_of_twoTo_le {n : Nat} (h : twoTo n ≤ units) : n ≤ units.log2 := by
  have hne : units ≠ 0 := Nat.ne_of_gt ((twoTo_pos n).trans_le h)
  exact (Nat.le_log2 hne).2 h

theorem log2_twoTo (n : Nat) : (twoTo n).log2 = n := Nat.log2_two_pow

theorem log2_mul_lt (hm : m < twoTo 53) (hne : m * twoTo s ≠ 0) : (m * twoTo s).log2 < 53 + s := by
  have hlt : m * twoTo s < twoTo (53 + s) := by
    rw [twoTo_add]
    exact Nat.mul_lt_mul_of_pos_right hm (twoTo_pos s)
  exact (log2_lt_iff hne).2 hlt

/-- A number of 53 leading bits is the significand of its multiples by powers of two; one of fewer
bits only has no spare ones. -/
theorem spareBits_mul (hm : m < twoTo 53) (hs : s = 0 ∨ twoTo 52 ≤ m) :
    spareBits (m * twoTo s) = s := by
  by_cases hne : m * twoTo s = 0
  · have hm : m = 0 := (Nat.mul_eq_zero.1 hne).resolve_right (twoTo_pos s).ne'
    obtain rfl | hs := hs
    · rw [hm, Nat.zero_mul]
      rfl
    · exact absurd hs (by rw [hm]; exact Nat.not_le.2 (twoTo_pos 52))
  · have hlt := log2_mul_lt hm hne
    unfold spareBits
    obtain rfl | hs := hs
    · omega
    · have hbits : twoTo (52 + s) ≤ m * twoTo s := by
        rw [twoTo_add]
        exact Nat.mul_le_mul_right _ hs
      have hle := le_log2_of_twoTo_le hbits
      omega

theorem significand_mul (hm : m < twoTo 53) (hs : s = 0 ∨ twoTo 52 ≤ m) :
    significand (m * twoTo s) = m := by
  rw [significand, spareBits_mul hm hs, Nat.mul_div_cancel _ (twoTo_pos s)]

theorem mul_of_eq (h : m = twoTo 53) : m * twoTo s = twoTo (53 + s) := by rw [h, twoTo_add]

theorem precise_mul (hm : m ≤ twoTo 53) : Precise (m * twoTo s) := by
  apply Nat.mod_eq_zero_of_dvd
  by_cases hne : m * twoTo s = 0
  · rw [hne]
    exact Nat.dvd_zero _
  obtain hlt | heq := Nat.lt_or_eq_of_le hm
  · have hbits := log2_mul_lt hlt hne
    have hspare : spareBits (m * twoTo s) ≤ s := by
      unfold spareBits
      omega
    exact (twoTo_dvd_twoTo hspare).trans (Nat.dvd_mul_left ..)
  · rw [mul_of_eq heq]
    refine twoTo_dvd_twoTo ?_
    rw [spareBits, log2_twoTo]
    omega

/-- Rounding up to the next power of two keeps the significand even. -/
theorem significand_even (hm : m ≤ twoTo 53) (hs : s = 0 ∨ twoTo 52 ≤ m) (heven : m % 2 = 0) :
    significand (m * twoTo s) % 2 = 0 := by
  obtain hlt | heq := Nat.lt_or_eq_of_le hm
  · rwa [significand_mul hlt hs]
  · have hpower : m * twoTo s = twoTo 52 * twoTo (s + 1) := by
      rw [mul_of_eq heq, ← twoTo_add]
      congr 1
      omega
    rw [hpower, significand_mul (by decide) (.inr le_rfl)]
    decide

theorem significand_lt (units : Nat) : significand units < twoTo 53 := by
  rw [significand, Nat.div_lt_iff_lt_mul (twoTo_pos _), ← twoTo_add]
  refine Nat.lt_of_lt_of_le (lt_twoTo_log2 units) (twoTo_le_twoTo ?_)
  unfold spareBits
  omega

theorem le_significand (units : Nat) : spareBits units = 0 ∨ twoTo 52 ≤ significand units := by
  by_cases hs : spareBits units = 0
  · exact .inl hs
  · have hlog : 52 + spareBits units = units.log2 := by
      unfold spareBits at hs ⊢
      omega
    have hne : units ≠ 0 := by
      rintro rfl
      exact hs rfl
    right
    rw [significand, Nat.le_div_iff_mul_le (twoTo_pos _), ← twoTo_add, hlog]
    exact twoTo_log2_le hne

/-- Numbers with fewer spare bits lie below all those with more. -/
theorem lt_of_spareBits_lt (h : spareBits w < s) : w < twoTo (52 + s) := by
  refine Nat.lt_of_lt_of_le (lt_twoTo_log2 w) (twoTo_le_twoTo ?_)
  unfold spareBits at h
  omega

end units

section nearest

theorem div_mul_spare (num den : Nat) :
    num / (den * twoTo (spareBits (num / den))) = significand (num / den) :=
  (Nat.div_div_eq_div_mul ..).symm

theorem nearestEven_le (num den : Nat) :
    nearestEven num (den * twoTo (spareBits (num / den))) ≤ twoTo 53 := by
  have hlt := significand_lt (num / den)
  rw [← div_mul_spare] at hlt
  obtain ⟨h, -⟩ | ⟨h, -⟩ := nearestEven_cases num (den * twoTo (spareBits (num / den))) <;> omega

theorem nearestUnits_precise (num den : Nat) : Precise (nearestUnits num den) :=
  precise_mul (nearestEven_le num den)

/-- No number of 53 bits is nearer to a fraction than the nearest one. -/
theorem nearestUnits_noBetter (num : Nat) (hden : 0 < den) (hw : Precise w) :
    NoBetter (significand (nearestUnits num den) % 2 = 0) (significand w % 2 = 1)
      (nearestUnits num den) w (num / den) := by
  unfold nearestUnits
  dsimp only
  have hle := nearestEven_le num den
  have hleading := le_significand (num / den)
  have hlt := significand_lt (num / den)
  rw [← div_mul_spare] at hleading hlt
  generalize spareBits (num / den) = s at hle hleading hlt ⊢
  have hm := le_nearestEven num (den * twoTo s)
  have hv : (num / den : ℚ) = num / (den * twoTo s : Nat) * twoTo s := by
    have := cast_twoTo_pos s
    push_cast
    field_simp
  have hgrid := nearestEven_noBetter num (Nat.mul_pos hden (twoTo_pos s))
  rw [hv, Nat.cast_mul (nearestEven _ _)]
  by_cases hdvd : twoTo s ∣ w
  · obtain ⟨j, rfl⟩ := hdvd
    rw [Nat.mul_comm (twoTo s), Nat.cast_mul]
    refine (hgrid j).mul (cast_twoTo_pos s) ?_ ?_
    · exact significand_even hle (hleading.imp_right (hm.trans' ·))
    · rintro ⟨hodd, hlow, hhigh⟩
      have hbound : twoTo 53 % 2 = 0 := rfl
      have hj : j < twoTo 53 := by omega
      rwa [significand_mul hj (hleading.imp_right (hlow.trans' ·))]
  · -- Below the leading bit of the fraction, the power of two there is already nearer.
    have hspare : spareBits w < s := by
      by_contra h
      exact hdvd ((twoTo_dvd_twoTo (not_lt.1 h)).trans (Nat.dvd_of_mod_eq_zero hw))
    have hpower : (twoTo 52 * twoTo s : ℚ) ≤ num / (den * twoTo s : Nat) * twoTo s := by
      have hs : s ≠ 0 := Nat.ne_of_gt (Nat.zero_lt_of_lt hspare)
      refine mul_le_mul_of_nonneg_right ?_ (cast_twoTo_pos s).le
      exact (Nat.cast_le.2 (hleading.resolve_left hs)).trans Nat.cast_div_le
    have hw : (w : ℚ) < twoTo 52 * twoTo s := by
      exact_mod_cast (lt_of_spareBits_lt hspare).trans_eq (twoTo_add 52 s)
    have hnear := ((hgrid (twoTo 52)).mul (cast_twoTo_pos s) id id).le
    exact .inr (.inl (hnear.trans_lt (abs_sub_lt_of_lt hw hpower)))

end nearest

section sign

variable {a b : ℚ} {negative : Bool} {even odd : Prop}

/-- A magnitude with its sign. -/
def signed (negative : Bool) (magnitude : ℚ) : ℚ := if negative then -magnitude else magnitude

theorem signed_zero (negative : Bool) : signed negative 0 = 0 := by cases negative <;> simp [signed]

theorem abs_signed_sub (negative : Bool) (a b : ℚ) :
    |signed negative a - signed negative b| = |a - b| := by
  cases negative
  · rfl
  · rw [abs_sub_comm a]
    simp only [signed, if_true]
    congr 1
    ring

/-- Numbers of different signs lie apart by both magnitudes. -/
theorem abs_not_signed_sub (negative : Bool) (ha : 0 ≤ a) (hb : 0 ≤ b) :
    |signed (!negative) a - signed negative b| = a + b := by
  cases negative
  · rw [abs_sub_comm]
    simp only [signed, Bool.not_false, if_true, Bool.false_eq_true, if_false, sub_neg_eq_add]
    rw [abs_of_nonneg (add_nonneg hb ha), add_comm]
  · simp only [signed, Bool.not_true, if_true, Bool.false_eq_true, if_false, sub_neg_eq_add]
    exact abs_of_nonneg (add_nonneg ha hb)

/-- What is nearest among magnitudes is nearest among numbers. -/
theorem NoBetter.signed (h : NoBetter even odd a b v) (ha : 0 ≤ a) (hb : 0 ≤ b) (hv : 0 ≤ v)
    (hzero : v = 0 → a = 0) (m n : Bool) :
    NoBetter even odd (signed n a) (signed m b) (signed n v) := by
  unfold NoBetter at h ⊢
  rw [abs_signed_sub]
  obtain rfl | rfl : m = n ∨ m = !n := by cases m <;> cases n <;> decide
  · rw [abs_signed_sub]
    exact h.imp_left (congrArg _)
  · rw [abs_not_signed_sub n hb hv]
    have hsum : |b - v| ≤ b + v := abs_sub_le_of_nonneg_of_le hb (by linarith) hv (by linarith)
    obtain rfl | h | ⟨h, hparity⟩ := h
    · obtain hlt | heq := lt_or_eq_of_le hsum
      · exact .inr (.inl hlt)
      · have hb : b = 0 := by
          obtain h | h := abs_eq_abs.1 (heq.trans (abs_of_nonneg (by linarith)).symm)
          · exact hzero (by linarith)
          · linarith
        rw [hb, signed_zero, signed_zero]
        exact .inl rfl
    · exact .inr (.inl (h.trans_le hsum))
    · exact .inr ((lt_or_eq_of_le (h.trans_le hsum)).imp_right fun h => ⟨h, hparity⟩)

end sign

namespace Binary64

variable {x y : Binary64}

/-- The rational number. -/
def value (x : Binary64) : ℚ := signed x.negative (x.units / twoTo 1074)

/-- No finite number is nearer, and no odd one is chosen of two that are equally near. -/
structure Nearest (x : Binary64) (q : ℚ) : Prop where
  least : ∀ y : Binary64, |x.value - q| ≤ |y.value - q|
  even : ∀ y : Binary64, y.value ≠ x.value → |y.value - q| = |x.value - q| →
    significand x.units % 2 = 0

/-- The number has the best magnitude for `v` units. -/
def Best (x : Binary64) (v : ℚ) : Prop :=
  ∀ y : Binary64, NoBetter (significand x.units % 2 = 0) (significand y.units % 2 = 1)
    x.units y.units v

theorem units_eq_zero_of_best (h : x.Best 0) : x.units = 0 := by
  have hle : |(x.units : ℚ) - 0| ≤ |((zero false).units : ℚ) - 0| := (h (zero false)).le
  simpa [zero] using hle

theorem noBetter_value (h : x.Best v) (hv : 0 ≤ v) (y : Binary64) :
    NoBetter (significand x.units % 2 = 0) (significand y.units % 2 = 1)
      x.value y.value (signed x.negative (v / twoTo 1074)) := by
  have hunit := cast_twoTo_pos 1074
  have hscaled := (h y).mul (inv_pos.2 hunit) id id
  simp only [← div_eq_mul_inv] at hscaled
  have hnonneg : ∀ n : Nat, (0 : ℚ) ≤ n / twoTo 1074 := fun n => div_nonneg n.cast_nonneg hunit.le
  refine hscaled.signed (hnonneg _) (hnonneg _) (div_nonneg hv hunit.le) (fun hzero => ?_) _ _
  obtain rfl : v = 0 := (div_eq_zero_iff.1 hzero).resolve_right hunit.ne'
  rw [units_eq_zero_of_best h, Nat.cast_zero, zero_div]

theorem nearest_of_best (h : x.Best v) (hv : 0 ≤ v) :
    x.Nearest (signed x.negative (v / twoTo 1074)) where
  least y := (noBetter_value h hv y).le
  even y hne heq := by
    obtain h | h | ⟨-, h, -⟩ := noBetter_value h hv y
    · exact absurd h hne
    · exact absurd heq h.ne'
    · exact h

/-- There is one nearest number only, up to the sign of zero. -/
theorem value_of_best (h : x.Best v) (hv : 0 ≤ v)
    (hy : y.Nearest (signed x.negative (v / twoTo 1074))) : y.value = x.value := by
  obtain h | h | ⟨h, -, hodd⟩ := noBetter_value h hv y
  · exact h
  · exact absurd (hy.least x) (not_le.2 h)
  · by_contra hne
    have heven := hy.even x (Ne.symm hne) h
    omega

/-- The magnitude of the largest numbers, in units. -/
def largestUnits : Nat := (twoTo 53 - 1) * twoTo 2045

theorem twoTo_le_largestUnits : twoTo 2045 ≤ largestUnits := by
  unfold largestUnits
  exact Nat.le_mul_of_pos_left _ (by decide)

theorem largestUnits_lt : largestUnits < twoTo 2098 := by
  rw [show twoTo 2098 = twoTo 53 * twoTo 2045 from twoTo_add 53 2045]
  exact Nat.mul_lt_mul_of_pos_right (by decide) (twoTo_pos 2045)

theorem fits_iff : FitsBinary64 units ↔ Precise units ∧ units < twoTo 2098 := by
  refine and_congr_right fun _ => ?_
  by_cases hne : units = 0
  · rw [hne]
    exact iff_of_true (by decide) (twoTo_pos 2098)
  · exact log2_lt_iff hne

theorem fits_largestUnits : FitsBinary64 largestUnits :=
  fits_iff.2 ⟨precise_mul (Nat.sub_le ..), largestUnits_lt⟩

theorem fits_twoTo {n : Nat} (h : n < 2098) : FitsBinary64 (twoTo n) := by
  have hprecise : Precise (1 * twoTo n) := precise_mul (twoTo_pos 53)
  rw [Nat.one_mul] at hprecise
  exact fits_iff.2 ⟨hprecise, twoTo_lt_twoTo h⟩

theorem units_le_largest (x : Binary64) : x.units ≤ largestUnits := by
  have hspare : spareBits x.units ≤ 2045 := by
    have := x.fits.2
    unfold spareBits
    omega
  calc x.units = significand x.units * twoTo (spareBits x.units) :=
        (Nat.div_mul_cancel (Nat.dvd_of_mod_eq_zero x.fits.1)).symm
    _ ≤ largestUnits :=
        Nat.mul_le_mul (Nat.le_sub_one_of_lt (significand_lt _)) (twoTo_le_twoTo hspare)

def largest (negative : Bool) : Binary64 := ⟨negative, largestUnits, fits_largestUnits⟩

theorem best_largest (negative : Bool) (h : largestUnits ≤ v) : (largest negative).Best v := by
  intro y
  obtain hlt | heq := Nat.lt_or_eq_of_le (units_le_largest y)
  · exact .inr (.inl (abs_sub_lt_of_lt (Nat.cast_lt.2 hlt) h))
  · exact .inl (congrArg _ heq)

theorem best_of_units (hden : 0 < den) (h : x.units = nearestUnits num den) :
    x.Best (num / den) := by
  intro y
  rw [h]
  exact nearestUnits_noBetter num hden y.fits.1

/-- Only what lies beyond the largest number is rounded to a magnitude that is not finite. -/
theorem largest_le (hden : 0 < den) (h : ¬FitsBinary64 (nearestUnits num den)) :
    (largestUnits : ℚ) ≤ num / den := by
  have hlarge : largestUnits < nearestUnits num den := by
    rw [fits_iff, not_and, not_lt] at h
    exact largestUnits_lt.trans_le (h (nearestUnits_precise num den))
  have hlarge : (largestUnits : ℚ) < nearestUnits num den := Nat.cast_lt.2 hlarge
  have hnear := (nearestUnits_noBetter num hden fits_largestUnits.1).le
  by_contra hlt
  rw [not_le] at hlt
  rw [abs_of_pos (sub_pos.2 (hlt.trans hlarge)), abs_of_pos (sub_pos.2 hlt)] at hnear
  linarith

end Binary64

/-- The rational number that a decimal is. -/
def Decimal.quantity (d : Decimal) : ℚ := d.coefficient * 10 ^ d.exponent

theorem Decimal.quantity_eq (d : Decimal) : d.quantity = d.ratio.1 / d.ratio.2 := by
  have hten : ∀ n : Nat, (tenTo n : ℚ) = 10 ^ n := fun n => Nat.cast_pow 10 n
  unfold quantity ratio
  split
  · next he =>
    rw [Nat.cast_one, div_one, Nat.cast_mul, hten, ← zpow_natCast, Int.toNat_of_nonneg he]
  · next he =>
    have hneg : d.exponent = -((-d.exponent).toNat : Int) := by omega
    rw [hten, div_eq_mul_inv, ← zpow_natCast, ← zpow_neg, ← hneg]

namespace Binary64

/-- The finite number of a magnitude, if there is one. -/
def ofUnits? (negative : Bool) (units : Nat) : Option Binary64 :=
  if h : FitsBinary64 units then some ⟨negative, units, h⟩ else none

theorem ofUnits?_zero (negative : Bool) : ofUnits? negative 0 = some (zero negative) := rfl

theorem ofUnits?_large {negative : Bool} (h : twoTo 2098 ≤ units) :
    ofUnits? negative units = none :=
  dif_neg fun hfits => not_lt.2 h (fits_iff.1 hfits).2

/-- The shortcuts for exponents outside the range agree with rounding. -/
theorem ofDecimal?_eq (negative : Bool) (c : Nat) (e : Int) :
    ofDecimal? negative c e = ofUnits? negative (⟨c, e⟩ : Decimal).toUnits := by
  unfold ofDecimal?
  dsimp only
  split
  · next hc => rw [hc, Decimal.toUnits_zero, ofUnits?_zero]
  split
  · next hc hlarge => rw [ofUnits?_large (Decimal.toUnits_of_large hc hlarge)]
  split
  · next hsmall => rw [Decimal.toUnits_of_small hsmall, ofUnits?_zero]
  split
  · next he => rw [Decimal.toUnits_of_nonneg he, ofRatio?, ofUnits?]
  · next he => rw [Decimal.toUnits_of_neg (Int.not_le.1 he), ofRatio?, ofUnits?]

/-- The number nearest to a decimal is what is read of it, or, if nothing is read, the largest. -/
theorem ofDecimal?_best (negative : Bool) (c : Nat) (e : Int) : ∃ x : Binary64,
    x.negative = negative ∧ x.Best ((⟨c, e⟩ : Decimal).quantity * twoTo 1074) ∧
      (ofDecimal? negative c e = some x ∨
        ofDecimal? negative c e = none ∧ x = largest negative) := by
  have hv : (⟨c, e⟩ : Decimal).quantity * twoTo 1074 =
      ((⟨c, e⟩ : Decimal).ratio.1 * twoTo 1074 : Nat) / (⟨c, e⟩ : Decimal).ratio.2 := by
    rw [Decimal.quantity_eq, Nat.cast_mul, div_mul_eq_mul_div]
  have hpos := Decimal.ratio_pos ⟨c, e⟩
  rw [hv, ofDecimal?_eq, Decimal.toUnits_eq, ofUnits?]
  split
  · next h => exact ⟨⟨negative, _, h⟩, rfl, best_of_units hpos rfl, .inl rfl⟩
  · next h =>
    exact ⟨largest negative, rfl, best_largest negative (largest_le hpos h), .inr ⟨rfl, rfl⟩⟩

section values

variable {x y : Binary64} {q : ℚ} {i : Int}

/-- A binary64 number is the one nearest to itself. -/
theorem value_of_nearest (hx : x.Nearest q) (hy : y.value = q) : x.value = q := by
  have hle := hx.least y
  rw [hy, sub_self, abs_zero, abs_nonpos_iff, sub_eq_zero] at hle
  exact hle

theorem signed_natAbs (i : Int) : signed (decide (i < 0)) i.natAbs = i := by
  rw [Nat.cast_natAbs, Int.cast_abs]
  by_cases h : i < 0
  · have hcast : (i : ℚ) < 0 := Int.cast_lt_zero.2 h
    rw [decide_eq_true h, abs_of_neg hcast]
    exact neg_neg _
  · have hcast : (0 : ℚ) ≤ i := Int.cast_nonneg (not_lt.1 h)
    rw [decide_eq_false h, abs_of_nonneg hcast]
    rfl

theorem exists_value (h : FitsBinary64 (i.natAbs * twoTo 1074)) : ∃ x : Binary64, x.value = i := by
  refine ⟨⟨decide (i < 0), _, h⟩, ?_⟩
  rw [value, Nat.cast_mul, mul_div_cancel_right₀ _ (cast_twoTo_pos 1074).ne',
    signed_natAbs]

/-- Whole numbers up to `2 ^ 53` are binary64 numbers. -/
theorem exists_value_of_small (h : i.natAbs ≤ twoTo 53) : ∃ x : Binary64, x.value = i := by
  have hlt : i.natAbs * twoTo 1074 < twoTo 2098 := calc
    i.natAbs * twoTo 1074 ≤ twoTo 53 * twoTo 1074 := Nat.mul_le_mul_right _ h
    _ = twoTo (53 + 1074) := (twoTo_add ..).symm
    _ < twoTo 2098 := twoTo_lt_twoTo (by decide)
  exact exists_value (fits_iff.2 ⟨precise_mul h, hlt⟩)

theorem natAbs_truncate (x : Binary64) : x.truncate.natAbs = x.units / twoTo 1074 := by
  unfold truncate
  generalize x.units / twoTo 1074 = whole
  split <;> simp

/-- Numbers without a fraction are their whole part. -/
theorem value_eq_truncate (h : twoTo 1074 ∣ x.units) : x.value = x.truncate := by
  rw [value, ← Nat.cast_div h (cast_twoTo_pos 1074).ne', truncate]
  generalize x.units / twoTo 1074 = whole
  cases x.negative <;> simp [signed]

/-- From `2 ^ 53` on binary64 numbers have no fraction. -/
theorem value_of_large (h : twoTo 53 ≤ x.truncate.natAbs) : x.value = x.truncate := by
  rw [natAbs_truncate, Nat.le_div_iff_mul_le (twoTo_pos _), ← twoTo_add] at h
  have hspare : 1074 ≤ spareBits x.units := by
    have hlog := le_log2_of_twoTo_le h
    unfold spareBits
    omega
  exact value_eq_truncate ((twoTo_dvd_twoTo hspare).trans (Nat.dvd_of_mod_eq_zero x.fits.1))

end values

end Binary64

end SchemaForge
