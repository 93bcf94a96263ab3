import StoreQuery.Number.Double
import Mathlib.Order.Compare
import Mathlib.Order.Monotone.Basic
import Mathlib.Algebra.Ring.Nat

/-!
# Doubles nearest to whole numbers

A double keeps 53 leading bits, so up to `2 ^ 53` every whole number is a double, and beyond it the
nearest one is a multiple of a power of two. `nearest` says which one, by whole numbers alone.

**The order of the doubles nearest to two whole numbers is that of their magnitudes**
(`compare?_ofInt`). Magnitudes grow with their ranks (`units_strictMono`), and the rank that a whole
number is given has the magnitude `nearest` (`units_nearestRank`). Rounding never turns the order of
two numbers round (`nearest_mono`).
-/

namespace StoreQuery

theorem compare_congr {i j i' j' : Int} (h : i ≤ j ↔ i' ≤ j') (h' : j ≤ i ↔ j' ≤ i') :
    compare i j = compare i' j' := by
  rcases lt_trichotomy i' j' with hlt | heq | hgt
  · rw [compare_lt_iff_lt.2 hlt, compare_lt_iff_lt.2 (by omega)]
  · rw [compare_eq_iff_eq.2 heq, compare_eq_iff_eq.2 (by omega)]
  · rw [compare_gt_iff_gt.2 hgt, compare_gt_iff_gt.2 (by omega)]

namespace Double

/-! ## Rounded quotients -/

/-- The whole number nearest to a quotient, an exact half going to the even one. -/
def roundedDiv (n step : Nat) : Nat :=
  if step < 2 * (n % step) ∨ (2 * (n % step) = step ∧ n / step % 2 = 1) then n / step + 1
  else n / step

section RoundedDiv

variable {n n' step c m : Nat}

theorem div_le_roundedDiv (n step : Nat) : n / step ≤ roundedDiv n step := by
  unfold roundedDiv
  split <;> omega

theorem roundedDiv_le (n step : Nat) : roundedDiv n step ≤ n / step + 1 := by
  unfold roundedDiv
  split <;> omega

theorem roundedDiv_mul_self (hstep : 0 < step) (m : Nat) : roundedDiv (m * step) step = m := by
  rw [roundedDiv, Nat.mul_mod_left, Nat.mul_div_cancel m hstep, if_neg (by omega)]

theorem roundedDiv_one (n : Nat) : roundedDiv n 1 = n := by
  have hself := roundedDiv_mul_self Nat.one_pos n
  rwa [Nat.mul_one] at hself

theorem roundedDiv_mul_right (hc : 0 < c) (n step : Nat) :
    roundedDiv (n * c) (step * c) = roundedDiv n step := by
  have hless : step * c < 2 * (n % step * c) ↔ step < 2 * (n % step) := by
    rw [← Nat.mul_assoc, Nat.mul_lt_mul_right hc]
  have heven : 2 * (n % step * c) = step * c ↔ 2 * (n % step) = step := by
    rw [← Nat.mul_assoc, Nat.mul_left_inj hc.ne']
  simp only [roundedDiv, Nat.mul_mod_mul_right, Nat.mul_div_mul_right _ _ hc, hless, heven]

/-- **Rounding keeps the order.** -/
theorem roundedDiv_mono (step : Nat) (h : n ≤ n') : roundedDiv n step ≤ roundedDiv n' step := by
  rcases (Nat.div_le_div_right h : n / step ≤ n' / step).lt_or_eq with hlt | heq
  · calc roundedDiv n step ≤ n / step + 1 := roundedDiv_le n step
      _ ≤ n' / step := hlt
      _ ≤ roundedDiv n' step := div_le_roundedDiv n' step
  · -- Both have the same whole part, so the remainders decide.
    have hrest : n % step ≤ n' % step := by
      have hn := Nat.div_add_mod n step
      have hn' := Nat.div_add_mod n' step
      rw [heq] at hn
      omega
    unfold roundedDiv
    rw [heq]
    split <;> split <;> omega

end RoundedDiv

/-! ## Magnitudes -/

/-- The whole number nearest to a natural among those with 53 leading bits. -/
def nearestNat (n : Nat) : Nat :=
  roundedDiv n (2 ^ (n.log2 - 52)) * 2 ^ (n.log2 - 52)

/-- The whole number that is the double nearest to a whole number. -/
def nearest (i : Int) : Int :=
  if i < 0 then -(nearestNat i.natAbs : Int) else nearestNat i.natAbs

section Units

variable {rank shift m : Nat}

/-- The magnitude of a rank, given by its exponent and its significand. -/
theorem units_of_significand (hlow : perExponent ≤ m) (hhigh : m < 2 * perExponent) :
    units (shift * perExponent + m) = m * 2 ^ shift := by
  obtain ⟨fraction, rfl⟩ := Nat.exists_eq_add_of_le hlow
  have hfraction : fraction < perExponent := by omega
  have hsplit : shift * perExponent + (perExponent + fraction) =
      fraction + (shift + 1) * perExponent := by
    unfold perExponent
    omega
  have hpos : 0 < perExponent := by decide
  have hdiv : (fraction + (shift + 1) * perExponent) / perExponent = shift + 1 := by
    rw [Nat.add_mul_div_right _ _ hpos, Nat.div_eq_of_lt hfraction, Nat.zero_add]
  have hmod : (fraction + (shift + 1) * perExponent) % perExponent = fraction := by
    rw [Nat.add_mul_mod_self_right, Nat.mod_eq_of_lt hfraction]
  have hlarge : ¬ fraction + (shift + 1) * perExponent < perExponent := by
    rw [Nat.succ_mul]
    omega
  rw [hsplit, units, if_neg hlarge, hdiv, hmod]
  rfl

/-- The significand after the last one is the first one of the next exponent. -/
theorem units_of_significand_le (hlow : perExponent ≤ m) (hhigh : m ≤ 2 * perExponent) :
    units (shift * perExponent + m) = m * 2 ^ shift := by
  rcases hhigh.lt_or_eq with hlt | rfl
  · exact units_of_significand hlow hlt
  · have hnext : shift * perExponent + 2 * perExponent =
        (shift + 1) * perExponent + perExponent := by
      unfold perExponent
      omega
    rw [hnext, units_of_significand (Nat.le_refl _) (by decide), Nat.pow_succ, Nat.mul_comm 2,
      Nat.mul_assoc, Nat.mul_comm 2]

theorem exists_significand (h : perExponent ≤ rank) :
    ∃ shift m, rank = shift * perExponent + m ∧ perExponent ≤ m ∧ m < 2 * perExponent := by
  have hpos : 0 < perExponent := by decide
  have hdiv := Nat.div_add_mod' (rank - perExponent) perExponent
  have hmod := Nat.mod_lt (rank - perExponent) hpos
  exact ⟨(rank - perExponent) / perExponent, perExponent + (rank - perExponent) % perExponent,
    by omega, by omega, by omega⟩

theorem perExponent_eq : perExponent = 2 ^ 52 := by decide

/-- **Magnitudes grow with their ranks.** -/
theorem units_strictMono : StrictMono units := by
  refine strictMono_nat_of_lt_succ fun rank => ?_
  by_cases hsmall : rank < perExponent
  · have hrank : units rank = rank := if_pos hsmall
    rcases Nat.lt_or_eq_of_le (Nat.add_one_le_of_lt hsmall) with hnext | hnext
    · have hunits : units (rank + 1) = rank + 1 := if_pos hnext
      omega
    · have hfirst : units perExponent = perExponent := by decide
      rw [hnext, hfirst]
      omega
  · obtain ⟨shift, m, rfl, hlow, hhigh⟩ := exists_significand (Nat.le_of_not_lt hsmall)
    rw [units_of_significand hlow hhigh, Nat.add_assoc,
      units_of_significand_le (hlow.trans (Nat.le_succ m)) hhigh]
    exact Nat.mul_lt_mul_of_pos_right (Nat.lt_succ_self m) (Nat.two_pow_pos shift)

end Units

section Nearest

variable {n n' : Nat}

theorem log2_mul_two_pow (hn : n ≠ 0) (k : Nat) : (n * 2 ^ k).log2 = n.log2 + k := by
  have hpos := Nat.two_pow_pos k
  have hlow := Nat.mul_le_mul_right (2 ^ k) (Nat.log2_self_le hn)
  have hhigh := Nat.mul_lt_mul_of_pos_right (Nat.lt_log2_self : n < 2 ^ (n.log2 + 1)) hpos
  rw [Nat.log2_eq_iff (Nat.mul_ne_zero hn hpos.ne'), Nat.add_right_comm, Nat.pow_add, Nat.pow_add]
  exact ⟨hlow, hhigh⟩

/-- The rank nearest to a quotient, by its rounded count of steps. -/
theorem nearestRank_eq (num den : Nat) : nearestRank num den =
    min (((num * unitsPerOne / den).log2 - 52) * perExponent +
      roundedDiv (num * unitsPerOne) (den * 2 ^ ((num * unitsPerOne / den).log2 - 52)))
      infinityRank := by
  have hparity : ∀ shift q : Nat, (shift * perExponent + q) % 2 = q % 2 := fun shift q => by
    unfold perExponent
    omega
  unfold nearestRank
  generalize num * unitsPerOne = scaled
  simp only [hparity, roundedDiv, Nat.pow_eq]
  congr 1
  split_ifs
  · rw [Nat.add_assoc]
  · rfl

theorem nearestRank_one (n : Nat) :
    nearestRank n 1 =
      min (((n * unitsPerOne).log2 - 52) * perExponent +
        roundedDiv (n * unitsPerOne) (2 ^ ((n * unitsPerOne).log2 - 52))) infinityRank := by
  rw [nearestRank_eq, Nat.div_one, Nat.one_mul]

/-- One is this power of two, counted in units. -/
def unitExponent : Nat := 1074

theorem unitsPerOne_eq : unitsPerOne = 2 ^ unitExponent := by decide +kernel

theorem roundedDiv_bounds (hn : n ≠ 0) (hlog : 52 ≤ n.log2) :
    perExponent ≤ roundedDiv n (2 ^ (n.log2 - 52)) ∧
      roundedDiv n (2 ^ (n.log2 - 52)) ≤ 2 * perExponent := by
  have hstep := Nat.two_pow_pos (n.log2 - 52)
  have hlow : perExponent ≤ n / 2 ^ (n.log2 - 52) := by
    rw [Nat.le_div_iff_mul_le hstep, perExponent_eq, ← Nat.pow_add, Nat.add_sub_cancel' hlog]
    exact Nat.log2_self_le hn
  have hhigh : n / 2 ^ (n.log2 - 52) < 2 * perExponent := by
    rw [Nat.div_lt_iff_lt_mul hstep, perExponent_eq, ← Nat.pow_succ', ← Nat.pow_add]
    have hexponent : 52 + 1 + (n.log2 - 52) = n.log2 + 1 := by omega
    rw [hexponent]
    exact Nat.lt_log2_self
  exact ⟨hlow.trans (div_le_roundedDiv _ _), (roundedDiv_le _ _).trans hhigh⟩

theorem nearestNat_of_log2 (hlog : n.log2 ≤ 52) : nearestNat n = n := by
  rw [nearestNat, Nat.sub_eq_zero_of_le hlog, Nat.pow_zero, roundedDiv_one, Nat.mul_one]

/-- Counted in units, a number is rounded at the same place. -/
theorem roundedDiv_mul_unitsPerOne (n : Nat) :
    roundedDiv (n * unitsPerOne) (2 ^ (n.log2 + unitExponent - 52)) *
      2 ^ (n.log2 + unitExponent - 52) = nearestNat n * unitsPerOne := by
  have hunits : 52 ≤ unitExponent := by decide
  rw [unitsPerOne_eq]
  by_cases hlog : 52 ≤ n.log2
  · have hsplit : 2 ^ (n.log2 + unitExponent - 52) = 2 ^ (n.log2 - 52) * 2 ^ unitExponent := by
      rw [← Nat.pow_add, Nat.sub_add_comm hlog]
    rw [nearestNat, hsplit, roundedDiv_mul_right (Nat.two_pow_pos unitExponent), Nat.mul_assoc]
  · -- Such a number is its own nearest one, and a whole number of steps.
    have hsplit : n * 2 ^ unitExponent =
        n * 2 ^ (52 - n.log2) * 2 ^ (n.log2 + unitExponent - 52) := by
      have hexponent : 52 - n.log2 + (n.log2 + unitExponent - 52) = unitExponent := by omega
      rw [Nat.mul_assoc, ← Nat.pow_add, hexponent]
    rw [nearestNat_of_log2 (by omega), hsplit, roundedDiv_mul_self (Nat.two_pow_pos _)]

theorem log2_mul_unitsPerOne (hn : n ≠ 0) : (n * unitsPerOne).log2 = n.log2 + unitExponent := by
  rw [unitsPerOne_eq, log2_mul_two_pow hn]

theorem roundedDiv_units_bounds (hn : n ≠ 0) :
    perExponent ≤ roundedDiv (n * unitsPerOne) (2 ^ (n.log2 + unitExponent - 52)) ∧
      roundedDiv (n * unitsPerOne) (2 ^ (n.log2 + unitExponent - 52)) ≤ 2 * perExponent := by
  have hne : n * unitsPerOne ≠ 0 :=
    Nat.mul_ne_zero hn (unitsPerOne_eq ▸ (Nat.two_pow_pos unitExponent).ne')
  have hlog := log2_mul_unitsPerOne hn
  have hbounds := roundedDiv_bounds hne (hlog ▸ Nat.le_add_left_of_le (by decide))
  rwa [hlog] at hbounds

theorem nearestRank_of_le (hn : n ≠ 0) (hle : n ≤ 2 ^ 64) :
    nearestRank n 1 = (n.log2 + unitExponent - 52) * perExponent +
        roundedDiv (n * unitsPerOne) (2 ^ (n.log2 + unitExponent - 52)) ∧
      nearestRank n 1 < infinityRank := by
  have hsmall : n.log2 < 65 := (Nat.log2_lt hn).2 (by omega)
  have hhigh := (roundedDiv_units_bounds hn).2
  have hfinite : (n.log2 + unitExponent - 52) * perExponent +
      roundedDiv (n * unitsPerOne) (2 ^ (n.log2 + unitExponent - 52)) < infinityRank := by
    unfold infinityRank
    unfold perExponent unitExponent at *
    omega
  rw [nearestRank_one, log2_mul_unitsPerOne hn, Nat.min_eq_left hfinite.le]
  exact ⟨rfl, hfinite⟩

/-- **The double nearest to a number has the magnitude that is nearest.** -/
theorem units_nearestRank (hn : n ≤ 2 ^ 64) :
    units (nearestRank n 1) = nearestNat n * unitsPerOne := by
  rcases Nat.eq_zero_or_pos n with rfl | hpos
  · decide +kernel
  obtain ⟨hlow, hhigh⟩ := roundedDiv_units_bounds hpos.ne'
  rw [(nearestRank_of_le hpos.ne' hn).1, units_of_significand_le hlow hhigh,
    roundedDiv_mul_unitsPerOne]

/-- **Up to `2 ^ 53` every number is its own nearest one.** -/
theorem nearestNat_of_le (hn : n ≤ 2 ^ 53) : nearestNat n = n := by
  rcases hn.lt_or_eq with hlt | rfl
  · rcases Nat.eq_zero_or_pos n with rfl | hpos
    · rfl
    · exact nearestNat_of_log2 (Nat.le_of_lt_succ ((Nat.log2_lt hpos.ne').2 hlt))
  · decide +kernel

theorem nearestNat_bounds (hn : n ≠ 0) :
    2 ^ n.log2 ≤ nearestNat n ∧ nearestNat n ≤ 2 ^ (n.log2 + 1) := by
  by_cases hlog : 52 ≤ n.log2
  · obtain ⟨hlow, hhigh⟩ := roundedDiv_bounds hn hlog
    have hsplit : 2 ^ n.log2 = perExponent * 2 ^ (n.log2 - 52) := by
      rw [perExponent_eq, ← Nat.pow_add, Nat.add_sub_cancel' hlog]
    rw [Nat.pow_succ', hsplit, ← Nat.mul_assoc]
    exact ⟨Nat.mul_le_mul_right _ hlow, Nat.mul_le_mul_right _ hhigh⟩
  · rw [nearestNat_of_log2 (by omega)]
    exact ⟨Nat.log2_self_le hn, Nat.lt_log2_self.le⟩

/-- **Rounding keeps the order.** -/
theorem nearestNat_mono (h : n ≤ n') : nearestNat n ≤ nearestNat n' := by
  rcases Nat.eq_zero_or_pos n with rfl | hpos
  · exact Nat.zero_le _
  have hpos' := hpos.trans_le h
  have hlog : n.log2 ≤ n'.log2 :=
    (Nat.le_log2 hpos'.ne').2 ((Nat.log2_self_le hpos.ne').trans h)
  rcases hlog.lt_or_eq with hlt | heq
  · -- A power of two lies between the two numbers, and between the nearest ones.
    have hbetween := Nat.pow_le_pow_right Nat.two_pos (Nat.succ_le_of_lt hlt)
    exact ((nearestNat_bounds hpos.ne').2.trans hbetween).trans (nearestNat_bounds hpos'.ne').1
  · rw [nearestNat, nearestNat, heq]
    exact Nat.mul_le_mul_right _ (roundedDiv_mono _ h)

theorem nearestRank_le_iff (hn : n ≤ 2 ^ 64) (hn' : n' ≤ 2 ^ 64) :
    nearestRank n 1 ≤ nearestRank n' 1 ↔ nearestNat n ≤ nearestNat n' := by
  have hpos : 0 < unitsPerOne := by decide +kernel
  rw [← units_strictMono.le_iff_le, units_nearestRank hn, units_nearestRank hn',
    Nat.mul_le_mul_right_iff hpos]

end Nearest

/-! ## Whole numbers with a sign -/

section Signed

variable {i j : Int}

/-- **Up to `2 ^ 53`, either way, whole numbers are doubles.** -/
theorem nearest_of_natAbs_le (hi : i.natAbs ≤ 2 ^ 53) : nearest i = i := by
  rw [nearest, nearestNat_of_le hi]
  split <;> omega

/-- **Rounding never turns the order of two numbers round.** -/
theorem nearest_mono (h : i ≤ j) : nearest i ≤ nearest j := by
  unfold nearest
  split <;> split
  · have := nearestNat_mono (show j.natAbs ≤ i.natAbs by omega)
    omega
  · omega
  · omega
  · have := nearestNat_mono (show i.natAbs ≤ j.natAbs by omega)
    omega

theorem isNaN_ofInt (i : Int) : (ofInt i).isNaN = false := by
  rw [isNaN, ofInt, decide_eq_false_iff_not, nearestRank_one]
  exact Nat.not_lt.2 (Nat.min_le_right _ _)

/-- The places of two doubles are in the order of the whole numbers that they are. -/
theorem position_ofInt_le_iff (hi : i.natAbs ≤ 2 ^ 64) (hj : j.natAbs ≤ 2 ^ 64) :
    (ofInt i).position ≤ (ofInt j).position ↔ nearest i ≤ nearest j := by
  have hle := nearestRank_le_iff hi hj
  have hge := nearestRank_le_iff hj hi
  -- Only zero is as small as zero.
  have hzero := nearestRank_le_iff hi (Nat.zero_le _)
  have hzero' := nearestRank_le_iff hj (Nat.zero_le _)
  have hrank : nearestRank 0 1 = 0 := by decide +kernel
  have hnat : nearestNat 0 = 0 := rfl
  rw [hrank, hnat] at hzero hzero'
  simp only [position, ofInt, nearest, decide_eq_true_eq]
  split <;> split <;> omega

/-- **Doubles nearest to whole numbers compare as these doubles are.** -/
theorem compare?_ofInt (hi : i.natAbs ≤ 2 ^ 64) (hj : j.natAbs ≤ 2 ^ 64) :
    (ofInt i).compare? (ofInt j) = some (compare (nearest i) (nearest j)) := by
  rw [compare?, isNaN_ofInt, isNaN_ofInt,
    ← compare_congr (position_ofInt_le_iff hi hj) (position_ofInt_le_iff hj hi)]
  rfl

end Signed

end Double

end StoreQuery
