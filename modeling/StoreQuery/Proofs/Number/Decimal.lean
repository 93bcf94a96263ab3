import StoreQuery.Number.Shortest
import StoreQuery.Proofs.Number.Rounding

/-!
# Doubles nearest to decimals

A decimal is read as the double nearest to a quotient of whole numbers. Very large and very small
exponents are read without the quotient, to the same effect (`ofDecimal_eq`). So moving zeros
between the digits and the exponent changes nothing (`decimalRank_mul_pow`).

**The shortest decimal of a finite double reads back as this double**
(`nearestRank_shortestDecimal`). A decimal of few digits is only taken if it does, and the exact
expansion always does, as every finite double is the nearest one to itself (`nearestRank_units`).
-/

namespace StoreQuery

namespace Double

section Quotient

variable {num den n c rank : Nat}

/-! ## Quotients -/

theorem unitsPerOne_pos : 0 < unitsPerOne := unitsPerOne_eq ▸ Nat.two_pow_pos unitExponent

theorem nearestRank_mul_right (hc : 0 < c) (num den : Nat) :
    nearestRank (num * c) (den * c) = nearestRank num den := by
  rw [nearestRank_eq, nearestRank_eq, Nat.mul_right_comm num, Nat.mul_div_mul_right _ _ hc,
    Nat.mul_right_comm den, roundedDiv_mul_right hc]

/-- **Every finite double is the nearest one to itself.** -/
theorem nearestRank_units (h : rank < infinityRank) :
    nearestRank (units rank) unitsPerOne = rank := by
  have hexact : ((units rank).log2 - 52) * perExponent +
      roundedDiv (units rank) (2 ^ ((units rank).log2 - 52)) = rank := by
    -- A small rank counts units itself; any other one is a significand of 53 bits and a shift, and
    -- the shift is what the logarithm of its units shows.
    by_cases hsmall : rank < perExponent
    · have hunits : units rank = rank := if_pos hsmall
      have hlog : rank.log2 - 52 = 0 := by
        rcases Nat.eq_zero_or_pos rank with rfl | hpos
        · rfl
        · have hlt := (Nat.log2_lt hpos.ne').2 (perExponent_eq ▸ hsmall)
          omega
      rw [hunits, hlog, Nat.zero_mul, Nat.zero_add, Nat.pow_zero, roundedDiv_one]
    · obtain ⟨shift, m, rfl, hlow, hhigh⟩ := exists_significand (Nat.le_of_not_lt hsmall)
      have hm : m ≠ 0 := by
        rintro rfl
        exact absurd hlow (by decide)
      have hlog : m.log2 = 52 := by
        rw [Nat.log2_eq_iff hm, ← perExponent_eq, Nat.pow_succ', ← perExponent_eq]
        exact ⟨hlow, hhigh⟩
      rw [units_of_significand hlow hhigh, log2_mul_two_pow hm, hlog, Nat.add_sub_cancel_left,
        roundedDiv_mul_self (Nat.two_pow_pos shift)]
  rw [nearestRank_eq, Nat.mul_div_cancel _ unitsPerOne_pos, Nat.mul_comm unitsPerOne,
    roundedDiv_mul_right unitsPerOne_pos, hexact, Nat.min_eq_left h.le]

theorem nearestRank_eq_zero (h : 2 * (num * unitsPerOne) < den) : nearestRank num den = 0 := by
  have hdiv : num * unitsPerOne / den = 0 := Nat.div_eq_of_lt (by omega)
  have hmod : num * unitsPerOne % den = num * unitsPerOne := Nat.mod_eq_of_lt (by omega)
  have hlog : (0 : Nat).log2 - 52 = 0 := rfl
  rw [nearestRank_eq, hdiv, hlog, Nat.pow_zero, Nat.mul_one, roundedDiv, hmod, hdiv,
    if_neg (by omega)]
  exact Nat.zero_min _

/-- The exponent of two from which on there is no finite double. -/
def topExponent : Nat := 1024

theorem nearestRank_eq_infinityRank (h : 2 ^ topExponent ≤ n) :
    nearestRank n 1 = infinityRank := by
  have hpos : 0 < n := (Nat.two_pow_pos topExponent).trans_le h
  have hne : n * unitsPerOne ≠ 0 := Nat.mul_ne_zero hpos.ne' unitsPerOne_pos.ne'
  have hlog : topExponent + unitExponent ≤ (n * unitsPerOne).log2 := by
    rw [Nat.le_log2 hne, Nat.pow_add, ← unitsPerOne_eq]
    exact Nat.mul_le_mul_right _ h
  have hlarge : 52 ≤ (n * unitsPerOne).log2 := Nat.le_trans (by decide) hlog
  have hlow := (roundedDiv_bounds hne hlarge).1
  rw [nearestRank_one, Nat.min_eq_right]
  unfold topExponent unitExponent at hlog
  unfold infinityRank
  unfold perExponent at *
  omega

theorem nearestRank_lt_infinityRank (h : n ≤ 2 ^ 64) : nearestRank n 1 < infinityRank := by
  rcases Nat.eq_zero_or_pos n with rfl | hpos
  · rw [nearestRank_eq_zero (by rw [Nat.zero_mul]; decide)]
    decide
  · exact (nearestRank_of_le hpos.ne' h).2

end Quotient

/-! ## Decimals -/

/-- The rank of the double nearest to `digits * 10 ^ exponent`. -/
def decimalRank (digits : Nat) (exponent : Int) : Nat :=
  nearestRank (digits * 10 ^ exponent.toNat) (10 ^ (-exponent).toNat)

section Decimals

variable {digits k : Nat} {exponent : Int}

/-- The quotient may be taken over a larger power of ten. -/
theorem decimalRank_eq (digits : Nat) (h : 0 ≤ exponent + k) :
    decimalRank digits exponent = nearestRank (digits * 10 ^ (exponent + k).toNat) (10 ^ k) := by
  have hpos : ∀ k, 0 < 10 ^ k := fun k => Nat.pow_pos (by decide)
  have hsum : exponent.toNat + k = (exponent + k).toNat + (-exponent).toNat := by omega
  rw [decimalRank, ← nearestRank_mul_right (hpos k), Nat.mul_assoc, ← Nat.pow_add, hsum,
    Nat.pow_add, ← Nat.mul_assoc, Nat.mul_comm (10 ^ (-exponent).toNat),
    nearestRank_mul_right (hpos _)]

/-- **Zeros may be moved between the digits and the exponent.** -/
theorem decimalRank_mul_pow (digits k : Nat) (exponent : Int) :
    decimalRank (digits * 10 ^ k) exponent = decimalRank digits (exponent + k) := by
  have hsum : (exponent + k + exponent.natAbs).toNat =
      k + (exponent + exponent.natAbs).toNat := by omega
  -- Over this power of ten neither exponent is negative.
  rw [decimalRank_eq (k := exponent.natAbs) _ (by omega),
    decimalRank_eq (k := exponent.natAbs) _ (by omega), hsum, Nat.pow_add, Nat.mul_assoc]

/-- Powers of ten are larger than those of two with three times the exponent. -/
theorem two_pow_le_ten_pow {j : Nat} (h : j ≤ 3 * k) : 2 ^ j ≤ 10 ^ k :=
  calc 2 ^ j ≤ 2 ^ (3 * k) := Nat.pow_le_pow_right (by decide) h
    _ = (2 ^ 3) ^ k := Nat.pow_mul ..
    _ ≤ 10 ^ k := Nat.pow_le_pow_left (by decide) k

theorem decimalRank_of_lt (hdigits : digits ≠ 0) (h : 400 < exponent) :
    decimalRank digits exponent = infinityRank := by
  have hzero : (-exponent).toNat = 0 := by omega
  rw [decimalRank, hzero]
  refine nearestRank_eq_infinityRank ?_
  have htop : topExponent ≤ 3 * 400 := by decide
  calc 2 ^ topExponent ≤ 10 ^ exponent.toNat := two_pow_le_ten_pow (by omega)
    _ ≤ digits * 10 ^ exponent.toNat := Nat.le_mul_of_pos_left _ (Nat.pos_of_ne_zero hdigits)

theorem decimalRank_eq_zero (h : exponent < -(400 + digits.log2 : Int)) :
    decimalRank digits exponent = 0 := by
  have hzero : exponent.toNat = 0 := by omega
  have hunits : 2 * unitsPerOne = 2 ^ (unitExponent + 1) := by
    rw [unitsPerOne_eq, Nat.pow_succ']
  have hexponent : unitExponent + 2 ≤ 3 * 400 := by decide
  rw [decimalRank, hzero, Nat.pow_zero, Nat.mul_one]
  refine nearestRank_eq_zero ?_
  calc 2 * (digits * unitsPerOne) = digits * (2 * unitsPerOne) := Nat.mul_left_comm ..
    _ < 2 ^ (digits.log2 + 1) * (2 * unitsPerOne) :=
        Nat.mul_lt_mul_of_pos_right Nat.lt_log2_self (hunits ▸ Nat.two_pow_pos _)
    _ = 2 ^ (digits.log2 + 1 + (unitExponent + 1)) := by rw [hunits, ← Nat.pow_add]
    _ ≤ 10 ^ (-exponent).toNat := two_pow_le_ten_pow (by omega)

/-- **A decimal is read as the double nearest to it**, whatever its exponent is. -/
theorem ofDecimal_eq (negative : Bool) (digits : Nat) (exponent : Int) :
    ofDecimal negative digits exponent = ⟨negative, decimalRank digits exponent⟩ := by
  unfold ofDecimal
  by_cases hdigits : digits = 0
  · rw [if_pos hdigits, hdigits, decimalRank, Nat.zero_mul, nearestRank_eq_zero]
    rw [Nat.zero_mul]
    exact Nat.pow_pos (by decide)
  rw [if_neg hdigits]
  by_cases hlarge : 400 < exponent
  · rw [if_pos hlarge, decimalRank_of_lt hdigits hlarge]
    rfl
  rw [if_neg hlarge]
  by_cases hsmall : exponent < -(400 + digits.log2 : Int)
  · rw [if_pos hsmall, decimalRank_eq_zero hsmall]
  rw [if_neg hsmall, decimalRank]
  split
  · have hzero : (-exponent).toNat = 0 := by omega
    rw [hzero]
    rfl
  · have hzero : exponent.toNat = 0 := by omega
    rw [hzero, Nat.pow_zero, Nat.mul_one]
    rfl

theorem decimalRank_zero (n : Nat) : decimalRank n 0 = nearestRank n 1 := by
  rw [decimalRank, Int.neg_zero, Int.toNat_zero, Nat.pow_zero, Nat.mul_one]

end Decimals

end Double

/-! ## Shortest decimals -/

namespace Decimal

theorem nearestRank_eq (d : Decimal) : d.nearestRank = Double.decimalRank d.digits d.exponent := by
  rw [nearestRank, Double.ofDecimal_eq]

theorem nearestRank_trim (fuel : Nat) (d : Decimal) :
    (d.trim fuel).nearestRank = d.nearestRank := by
  induction fuel generalizing d with
  | zero => rfl
  | succ fuel ih =>
    rw [trim]
    split
    · rename_i hzero
      have hdigits : d.digits / 10 * 10 ^ 1 = d.digits :=
        Nat.div_mul_cancel (Nat.dvd_of_mod_eq_zero hzero.2)
      have hmoved := Double.decimalRank_mul_pow (d.digits / 10) 1 d.exponent
      rw [hdigits] at hmoved
      rw [ih, nearestRank_eq, nearestRank_eq, hmoved]
      rfl
    · rfl

end Decimal

namespace Double

variable {rank count rest den : Nat} {tie : Tie} {d below above : Decimal}

/-- Of two neighbours only one that reads back is taken. -/
theorem nearestRank_of_nearer (h : nearer tie rank below above rest den = some d) :
    d.nearestRank = rank := by
  have htaken : ∀ d' : Decimal, decide (d'.nearestRank = rank) = true → some d' = some d →
      d.nearestRank = rank := by
    rintro d' hd' ⟨⟩
    exact of_decide_eq_true hd'
  unfold nearer at h
  split at h
  · rename_i hbelow habove
    split at h
    · exact htaken _ hbelow h
    · split at h
      · exact htaken _ habove h
      · split at h
        · exact htaken _ habove h
        · split at h
          · exact htaken _ hbelow h
          · exact htaken _ habove h
  · rename_i hbelow _
    exact htaken _ hbelow h
  · rename_i _ habove
    exact htaken _ habove h
  · cases h

/-- Powers of five with negative powers of ten are negative powers of two. -/
theorem decimalRank_mul_pow_five (m k : Nat) :
    decimalRank (m * Nat.pow 5 k) (-(k : Int)) = nearestRank m (Nat.pow 2 k) := by
  have hten : 10 ^ k = Nat.pow 2 k * Nat.pow 5 k := Nat.mul_pow 2 5 k
  have hpos : 0 < Nat.pow 5 k := Nat.pow_pos (by decide)
  rw [decimalRank_eq (k := k) _ (Int.add_left_neg _).ge, Int.add_left_neg, Int.toNat_zero,
    Nat.pow_zero, Nat.mul_one, hten, nearestRank_mul_right hpos]

theorem nearestRank_exactDecimal (h : rank < infinityRank) :
    (exactDecimal rank).nearestRank = rank := by
  have hexponent : 1074 = unitExponent := rfl
  have hnegative : (-1074 : Int) = -(unitExponent : Int) := rfl
  rw [Decimal.nearestRank_eq, exactDecimal, hnegative, hexponent, decimalRank_mul_pow_five,
    Nat.pow_eq, ← unitsPerOne_eq, nearestRank_units h]

/-- **The shortest decimal of a finite double reads back as this double.** -/
theorem nearestRank_shortestDecimal (tie : Tie) (h : rank < infinityRank) :
    (shortestDecimal tie rank).nearestRank = rank := by
  unfold shortestDecimal
  split
  · rename_i hzero
    rw [hzero]
    rfl
  · split
    · rename_i d hfound
      obtain ⟨n, -, hn⟩ := List.exists_of_findSome?_eq_some hfound
      rw [Decimal.nearestRank_trim]
      exact nearestRank_of_nearer hn
    · exact nearestRank_exactDecimal h

end Double

end StoreQuery
