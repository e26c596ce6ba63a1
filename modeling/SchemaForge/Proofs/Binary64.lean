import SchemaForge.Decimal.Shortest
/-!
The nearest binary64 number of a fraction, and of a decimal. Main statement: the shortest decimal
of a magnitude is read back as that magnitude.
-/
namespace SchemaForge

variable {num den num' den' units : Nat}

theorem twoTo_pos (n : Nat) : 0 < twoTo n := Nat.pow_pos (by decide)

theorem tenTo_pos (n : Nat) : 0 < tenTo n := Nat.pow_pos (by decide)

theorem twoTo_add (m n : Nat) : twoTo (m + n) = twoTo m * twoTo n := Nat.pow_add ..

theorem tenTo_add (m n : Nat) : tenTo (m + n) = tenTo m * tenTo n := Nat.pow_add ..

theorem twoTo_le_twoTo {m n : Nat} (h : m ≤ n) : twoTo m ≤ twoTo n :=
  Nat.pow_le_pow_right (by decide) h

theorem tenTo_le_tenTo {m n : Nat} (h : m ≤ n) : tenTo m ≤ tenTo n :=
  Nat.pow_le_pow_right (by decide) h

/-- Ten is more than eight. -/
theorem twoTo_le_tenTo (n : Nat) : twoTo (3 * n) ≤ tenTo n := by
  unfold twoTo tenTo
  rw [Nat.pow_eq, Nat.pow_eq, Nat.pow_mul]
  exact Nat.pow_le_pow_left (by decide) n

/-- Ten is less than sixteen. -/
theorem tenTo_le_twoTo (n : Nat) : tenTo n ≤ twoTo (4 * n) := by
  unfold twoTo tenTo
  rw [Nat.pow_eq, Nat.pow_eq, Nat.pow_mul]
  exact Nat.pow_le_pow_left (by decide) n

theorem twoTo_log2_le (h : units ≠ 0) : twoTo units.log2 ≤ units := Nat.log2_self_le h

theorem lt_twoTo_log2 (units : Nat) : units < twoTo (units.log2 + 1) := Nat.lt_log2_self

section nearest

theorem nearestEven_mul_left {k : Nat} (hk : 0 < k) (num den : Nat) :
    nearestEven (k * num) (k * den) = nearestEven num den := by
  have hlt : ∀ a b : Nat, k * a < k * b ↔ a < b := fun a b => Nat.mul_lt_mul_left hk
  have hdouble : ∀ r, 2 * (k * r) = k * (2 * r) := fun r => Nat.mul_left_comm ..
  unfold nearestEven
  simp only [Nat.mul_div_mul_left _ _ hk, Nat.mul_mod_mul_left, hdouble, hlt]

theorem nearestUnits_mul_left {k : Nat} (hk : 0 < k) (num den : Nat) :
    nearestUnits (k * num) (k * den) = nearestUnits num den := by
  unfold nearestUnits
  simp only [Nat.mul_div_mul_left _ _ hk, Nat.mul_assoc, nearestEven_mul_left hk]

/-- The nearest number depends on the value of a fraction only. -/
theorem nearestUnits_congr (hden : 0 < den) (hden' : 0 < den') (h : num * den' = num' * den) :
    nearestUnits num den = nearestUnits num' den' := by
  rw [← nearestUnits_mul_left hden' num den, ← nearestUnits_mul_left hden num' den',
    Nat.mul_comm den' num, Nat.mul_comm den num', h, Nat.mul_comm den' den]

theorem le_nearestEven (num den : Nat) : num / den ≤ nearestEven num den := by
  unfold nearestEven
  dsimp only
  split
  · exact Nat.le_refl _
  · split
    · exact Nat.le_succ _
    · split
      · exact Nat.le_refl _
      · exact Nat.le_succ _

/-- Rounding does not lead below a power of two. -/
theorem twoTo_le_nearestUnits {n : Nat} (h : twoTo n ≤ num / den) :
    twoTo n ≤ nearestUnits num den := by
  have hne : num / den ≠ 0 := Nat.ne_of_gt (Nat.lt_of_lt_of_le (twoTo_pos n) h)
  have hn : n ≤ (num / den).log2 := (Nat.le_log2 hne).2 h
  have hspare : spareBits (num / den) ≤ (num / den).log2 := Nat.sub_le ..
  have hquotient : twoTo ((num / den).log2 - spareBits (num / den)) ≤
      nearestEven num (den * twoTo (spareBits (num / den))) := by
    refine Nat.le_trans ?_ (le_nearestEven _ _)
    rw [← Nat.div_div_eq_div_mul, Nat.le_div_iff_mul_le (twoTo_pos _), ← twoTo_add,
      Nat.sub_add_cancel hspare]
    exact twoTo_log2_le hne
  calc twoTo n ≤ twoTo (num / den).log2 := twoTo_le_twoTo hn
    _ = twoTo ((num / den).log2 - spareBits (num / den)) * twoTo (spareBits (num / den)) := by
      rw [← twoTo_add, Nat.sub_add_cancel hspare]
    _ ≤ nearestUnits num den := Nat.mul_le_mul_right _ hquotient

/-- What lies below half of the least positive number is rounded to zero. -/
theorem nearestUnits_eq_zero (h : 2 * num < den) : nearestUnits num den = 0 := by
  have hdiv : num / den = 0 := Nat.div_eq_of_lt (by omega)
  have hmod : num % den = num := Nat.mod_eq_of_lt (by omega)
  simp [nearestUnits, nearestEven, hdiv, hmod, spareBits, twoTo, h]

/-- Finite numbers are nearest to themselves. -/
theorem nearestUnits_self (h : FitsBinary64 units) : nearestUnits units 1 = units := by
  have hmod : units % twoTo (spareBits units) = 0 := h.1
  have hpos := twoTo_pos (spareBits units)
  have heven : nearestEven units (twoTo (spareBits units)) = units / twoTo (spareBits units) := by
    simp [nearestEven, hmod, hpos]
  rw [nearestUnits, Nat.div_one, Nat.one_mul, heven]
  exact Nat.div_mul_cancel (Nat.dvd_of_mod_eq_zero hmod)

end nearest

namespace Decimal

variable {c k : Nat} {e : Int} {d : Decimal}

theorem ratio_of_nonneg (he : 0 ≤ e) : (⟨c, e⟩ : Decimal).ratio = (c * tenTo e.toNat, 1) :=
  if_pos he

theorem ratio_of_neg (he : e < 0) : (⟨c, e⟩ : Decimal).ratio = (c, tenTo (-e).toNat) :=
  if_neg (Int.not_le.2 he)

theorem toUnits_of_nonneg (he : 0 ≤ e) :
    (⟨c, e⟩ : Decimal).toUnits = nearestUnits (c * tenTo e.toNat * twoTo 1074) 1 := by
  rw [toUnits, ratio_of_nonneg he]

theorem toUnits_of_neg (he : e < 0) :
    (⟨c, e⟩ : Decimal).toUnits = nearestUnits (c * twoTo 1074) (tenTo (-e).toNat) := by
  rw [toUnits, ratio_of_neg he]

/-- Zeros at the end of a coefficient count as much as those of the exponent. -/
theorem toUnits_mul_tenTo (c k : Nat) (e : Int) :
    (⟨c * tenTo k, e⟩ : Decimal).toUnits = (⟨c, e + k⟩ : Decimal).toUnits := by
  by_cases he : 0 ≤ e
  · rw [toUnits_of_nonneg he, toUnits_of_nonneg (by omega), Nat.mul_assoc c, ← tenTo_add]
    congr 4
    omega
  · by_cases hek : 0 ≤ e + k
    · rw [toUnits_of_neg (by omega), toUnits_of_nonneg hek]
      refine nearestUnits_congr (tenTo_pos _) Nat.one_pos ?_
      have hk : tenTo k = tenTo (e + k).toNat * tenTo (-e).toNat := by
        rw [← tenTo_add]
        congr 1
        omega
      rw [hk]
      generalize twoTo 1074 = unit
      ac_rfl
    · rw [toUnits_of_neg (by omega), toUnits_of_neg (by omega)]
      refine nearestUnits_congr (tenTo_pos _) (tenTo_pos _) ?_
      have hk : tenTo (-e).toNat = tenTo k * tenTo (-(e + k)).toNat := by
        rw [← tenTo_add]
        congr 1
        omega
      rw [hk]
      generalize twoTo 1074 = unit
      ac_rfl

theorem toUnits_zero (e : Int) : (⟨0, e⟩ : Decimal).toUnits = 0 := by
  have h : ∀ {den}, 0 < den → nearestUnits 0 den = 0 := fun h => nearestUnits_eq_zero (by omega)
  by_cases he : 0 ≤ e
  · rw [toUnits_of_nonneg he, Nat.zero_mul, Nat.zero_mul]
    exact h Nat.one_pos
  · rw [toUnits_of_neg (by omega), Nat.zero_mul]
    exact h (tenTo_pos _)

theorem toUnits_strip (d : Decimal) : d.strip.toUnits = d.toUnits := by
  fun_induction strip d with
  | case1 d h ih =>
    have hc : d.coefficient = d.coefficient / 10 * tenTo 1 :=
      (Nat.div_mul_cancel (Nat.dvd_of_mod_eq_zero h.2)).symm
    have hd := toUnits_mul_tenTo (d.coefficient / 10) 1 d.exponent
    rw [← hc] at hd
    exact ih.trans hd.symm
  | case2 => rfl

theorem tenTo_eq_mul (n : Nat) : tenTo n = fiveTo n * twoTo n := Nat.mul_pow 5 2 n

theorem nearestUnits_fiveTo (units n : Nat) :
    nearestUnits (units * fiveTo n * twoTo n) (tenTo n) = nearestUnits units 1 := by
  refine nearestUnits_congr (tenTo_pos n) Nat.one_pos ?_
  rw [tenTo_eq_mul, Nat.mul_one, Nat.mul_assoc]

theorem toUnits_exact (h : FitsBinary64 units) : (exact units).toUnits = units := by
  have hneg : (-1074 : Int) < 0 := by decide
  calc (exact units).toUnits = _ := toUnits_of_neg hneg
    _ = nearestUnits units 1 := nearestUnits_fiveTo units _
    _ = units := nearestUnits_self h

theorem reads_of_preferred? {reads : Decimal → Bool} {away : Decimal → Nat}
    {pair : Decimal × Decimal} (h : preferred? reads away pair = some d) : reads d = true := by
  obtain ⟨low, high⟩ := pair
  unfold preferred? at h
  dsimp only at h
  split at h
  · next hlow hhigh =>
    split at h
    · cases h; exact hlow
    · split at h
      · cases h; exact hhigh
      · split at h
        · cases h; exact hlow
        · cases h; exact hhigh
  · next hlow _ =>
    cases h
    exact hlow
  · next _ hhigh =>
    cases h
    exact hhigh
  · cases h

/-- The decimal that is chosen reads back. -/
theorem toUnits_closest? (h : closest? units e = some d) : d.toUnits = units :=
  beq_iff_eq.1 (reads_of_preferred? h)

theorem toUnits_shortest (h : FitsBinary64 units) : (shortest units).toUnits = units := by
  have hshortest : shortest units =
      ((firstBehind? (closest? units) (leadingPosition units)).map strip).getD (exact units) := rfl
  rw [hshortest]
  cases hfound : firstBehind? (closest? units) (leadingPosition units) with
  | some d =>
    obtain ⟨n, -, hn⟩ := List.exists_of_findSome?_eq_some hfound
    exact (toUnits_strip d).trans (toUnits_closest? hn)
  | none => exact toUnits_exact h

theorem toUnits_eq (d : Decimal) :
    d.toUnits = nearestUnits (d.ratio.1 * twoTo 1074) d.ratio.2 := rfl

theorem ratio_pos (d : Decimal) : 0 < d.ratio.2 := by
  unfold ratio
  split
  · exact Nat.one_pos
  · exact tenTo_pos _

/-- A decimal with too large an exponent for its coefficient lies beyond all finite numbers. -/
theorem toUnits_of_large (hc : c ≠ 0) (h : 400 < e + (c.log2 : Int) / 4) :
    twoTo 2098 ≤ (⟨c, e⟩ : Decimal).toUnits := by
  have hcoefficient : tenTo (c.log2 / 4) ≤ c := calc
    tenTo (c.log2 / 4) ≤ twoTo (4 * (c.log2 / 4)) := tenTo_le_twoTo _
    _ ≤ twoTo c.log2 := twoTo_le_twoTo (by omega)
    _ ≤ c := twoTo_log2_le hc
  have hratio : tenTo 401 * (⟨c, e⟩ : Decimal).ratio.2 ≤ (⟨c, e⟩ : Decimal).ratio.1 := by
    by_cases he : 0 ≤ e
    · rw [ratio_of_nonneg he, Nat.mul_one]
      calc tenTo 401 ≤ tenTo (c.log2 / 4 + e.toNat) := tenTo_le_tenTo (by omega)
        _ = tenTo (c.log2 / 4) * tenTo e.toNat := tenTo_add ..
        _ ≤ c * tenTo e.toNat := Nat.mul_le_mul_right _ hcoefficient
    · rw [ratio_of_neg (Int.not_le.1 he)]
      calc tenTo 401 * tenTo (-e).toNat = tenTo (401 + (-e).toNat) := (tenTo_add ..).symm
        _ ≤ tenTo (c.log2 / 4) := tenTo_le_tenTo (by omega)
        _ ≤ c := hcoefficient
  rw [toUnits_eq]
  apply twoTo_le_nearestUnits
  rw [Nat.le_div_iff_mul_le (ratio_pos _)]
  calc twoTo 2098 * (⟨c, e⟩ : Decimal).ratio.2
      ≤ twoTo (3 * 401 + 1074) * (⟨c, e⟩ : Decimal).ratio.2 :=
        Nat.mul_le_mul_right _ (twoTo_le_twoTo (by decide))
    _ = twoTo (3 * 401) * (⟨c, e⟩ : Decimal).ratio.2 * twoTo 1074 := by
      rw [twoTo_add, Nat.mul_right_comm]
    _ ≤ tenTo 401 * (⟨c, e⟩ : Decimal).ratio.2 * twoTo 1074 :=
      Nat.mul_le_mul_right _ (Nat.mul_le_mul_right _ (twoTo_le_tenTo 401))
    _ ≤ (⟨c, e⟩ : Decimal).ratio.1 * twoTo 1074 := Nat.mul_le_mul_right _ hratio

/-- A decimal with too small an exponent for its coefficient is rounded to zero. -/
theorem toUnits_of_small (h : e + (c.log2 : Int) / 4 + (c.log2 : Int) < -400) :
    (⟨c, e⟩ : Decimal).toUnits = 0 := by
  rw [toUnits_of_neg (by omega)]
  apply nearestUnits_eq_zero
  calc 2 * (c * twoTo 1074) = twoTo 1 * (c * twoTo 1074) := rfl
    _ < twoTo 1 * (twoTo (c.log2 + 1) * twoTo 1074) := by
      refine Nat.mul_lt_mul_of_pos_left ?_ (twoTo_pos 1)
      exact Nat.mul_lt_mul_of_pos_right (lt_twoTo_log2 c) (twoTo_pos 1074)
    _ = twoTo (1 + (c.log2 + 1 + 1074)) := by rw [← twoTo_add, ← twoTo_add]
    _ ≤ twoTo (3 * (-e).toNat) := twoTo_le_twoTo (by omega)
    _ ≤ tenTo (-e).toNat := twoTo_le_tenTo _

end Decimal

namespace Binary64

variable {x : Binary64} {c : Nat} {e : Int}

theorem units_lt (x : Binary64) : x.units < twoTo 2098 :=
  Nat.lt_of_lt_of_le (lt_twoTo_log2 _) (twoTo_le_twoTo x.fits.2)

theorem ofRatio?_of_units {num den : Nat} (h : nearestUnits (num * twoTo 1074) den = x.units) :
    ofRatio? x.negative num den = some x := by
  unfold ofRatio?
  rw [h]
  exact dif_pos x.fits

/-- A decimal that comes nearest to a number is read as that number. -/
theorem ofDecimal?_of_toUnits (hx : x.units ≠ 0) (h : (⟨c, e⟩ : Decimal).toUnits = x.units) :
    ofDecimal? x.negative c e = some x := by
  have hc : c ≠ 0 := by
    rintro rfl
    exact hx (h.symm.trans (Decimal.toUnits_zero e))
  have hlarge : ¬400 < e + (c.log2 : Int) / 4 := by
    intro hlarge
    have := Decimal.toUnits_of_large hc hlarge
    rw [h] at this
    exact Nat.not_le.2 (units_lt x) this
  have hsmall : ¬e + (c.log2 : Int) / 4 + (c.log2 : Int) < -400 := by
    intro hsmall
    exact hx (h.symm.trans (Decimal.toUnits_of_small hsmall))
  unfold ofDecimal?
  rw [if_neg hc, if_neg hlarge, if_neg hsmall]
  split
  · next he => exact ofRatio?_of_units ((Decimal.toUnits_of_nonneg he).symm.trans h)
  · next he => exact ofRatio?_of_units ((Decimal.toUnits_of_neg (Int.not_le.1 he)).symm.trans h)

theorem eq_zero (hx : x.units = 0) : x = zero x.negative := by
  obtain ⟨negative, units, fits⟩ := x
  cases hx
  rfl

end Binary64

end SchemaForge
