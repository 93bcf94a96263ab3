/-!
# Double-precision numbers

A double is its sign and the **rank** of its magnitude: rank `k` is the `k`-th of the non-negative
doubles in increasing order, which is also the value of their 63 low bits. Rank `0` is zero,
`infinityRank` is infinity, and every rank beyond it is not a number. So two finite doubles of one
sign compare as their ranks do, and no operation here needs floating-point hardware.

Every finite magnitude is a whole number of **units** of `2 ^ (-1074)`, the smallest positive
double. `units` gives that number, and `nearestRank` goes the other way: it rounds a quotient of
naturals to the nearest double, an exact half going to the even rank.
-/

namespace StoreQuery

/-- A double: the sign, and the position of the magnitude among the non-negative doubles. -/
structure Double where
  negative : Bool
  rank : Nat
  deriving DecidableEq, Repr

namespace Double

/-! ## Magnitudes -/

/-- How many doubles of one sign share an exponent: 2 to the power of 52. -/
def perExponent : Nat := 4503599627370496

/-- Rank of infinity, which has 2047 exponents below it. -/
def infinityRank : Nat := 2047 * perExponent

/-- The magnitude of a rank, counted in units of `2 ^ (-1074)`. -/
def units (rank : Nat) : Nat :=
  if rank < perExponent then rank
  else (perExponent + rank % perExponent) * Nat.pow 2 (rank / perExponent - 1)

/-- How many units make one. -/
def unitsPerOne : Nat := Nat.pow 2 1074

/-- Rank of the double nearest to `num / den`, an exact half going to the even rank. The
quotient, counted in units, keeps its 53 leading bits and is rounded at the last of them. -/
def nearestRank (num den : Nat) : Nat :=
  let scaled := num * unitsPerOne
  let shift := (scaled / den).log2 - 52
  let step := den * Nat.pow 2 shift
  let below := shift * perExponent + scaled / step
  let rest := 2 * (scaled % step)
  let rank := if step < rest ∨ (rest = step ∧ below % 2 = 1) then below + 1 else below
  min rank infinityRank

/-! ## Classes and order -/

def isNaN (x : Double) : Bool := infinityRank < x.rank

def isFinite (x : Double) : Bool := x.rank < infinityRank

/-- Place on the number line. Both zeros have the same place. -/
def position (x : Double) : Int :=
  if x.negative then -(x.rank : Int) else x.rank

/-- Order of two doubles; there is none when either is not a number. -/
def compare? (x y : Double) : Option Ordering :=
  if x.isNaN || y.isNaN then none else some (compare x.position y.position)

/-! ## Named values -/

def zero : Double := ⟨false, 0⟩

def infinity (negative : Bool) : Double := ⟨negative, infinityRank⟩

def nan : Double := ⟨false, infinityRank + perExponent / 2⟩

/-! ## From whole and decimal numbers -/

/-- The double nearest to a whole number. -/
def ofInt (i : Int) : Double := ⟨decide (i < 0), nearestRank i.natAbs 1⟩

/-- The double nearest to `digits * 10 ^ exponent`. The two early exits keep the powers small:
beyond them the nearest double is infinity and zero. -/
def ofDecimal (negative : Bool) (digits : Nat) (exponent : Int) : Double :=
  if digits = 0 then ⟨negative, 0⟩
  else if 400 < exponent then infinity negative
  else if exponent < -(400 + digits.log2 : Int) then ⟨negative, 0⟩
  else if 0 ≤ exponent then ⟨negative, nearestRank (digits * Nat.pow 10 exponent.toNat) 1⟩
  else ⟨negative, nearestRank digits (Nat.pow 10 (-exponent).toNat)⟩

/-! ## Scaling by powers of ten -/

/-- Rank of the double nearest to `10 ^ n`. -/
def powerOfTen (n : Nat) : Nat := nearestRank (Nat.pow 10 n) 1

/-- Rank of the rounded product of two magnitudes. -/
def timesRank (a b : Nat) : Nat := nearestRank (units a * units b) (unitsPerOne * unitsPerOne)

/-- Rank of the rounded quotient of two magnitudes. -/
def overRank (a b : Nat) : Nat := nearestRank (units a) (units b)

/-- The magnitude `rank * 10 ^ exponent`, by one rounded product or quotient with a rounded power
of ten; exponents below `-308` are taken in steps of 308. `none` is an overflow. Three steps are
enough: two of them bring every magnitude that a 64-bit significand can have down to zero. -/
def scaleRank : Nat → Nat → Int → Option Nat
  | 0, rank, _ => some rank
  | steps + 1, rank, exponent =>
    if exponent.natAbs ≤ 308 then
      if 0 ≤ exponent then
        let scaled := timesRank rank (powerOfTen exponent.natAbs)
        if infinityRank ≤ scaled then none else some scaled
      else some (overRank rank (powerOfTen exponent.natAbs))
    else if rank = 0 then some 0
    else if 0 ≤ exponent then none
    else scaleRank steps (overRank rank (powerOfTen 308)) (exponent + 308)

/-- The double that a significand and a decimal exponent are read as: the significand is rounded
first and then scaled, so up to three roundings happen. `none` is an overflow. -/
def ofScaled? (negative : Bool) (significand : Nat) (exponent : Int) : Option Double :=
  (scaleRank 3 (nearestRank significand 1) exponent).map (⟨negative, ·⟩)

end Double

end StoreQuery
