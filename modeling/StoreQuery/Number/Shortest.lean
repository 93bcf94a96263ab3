import StoreQuery.Number.Double

/-!
# Shortest decimals

The shortest decimal of a finite double is the one with the fewest digits that reads back as the
same double; of several of that length it is the nearest. Digit counts from 1 to 17 are tried in
turn. For each count only the two neighbours of the exact value on the grid of that many digits
can be the answer, and whether one of them reads back is decided by reading it back.

Should no count work, the exact expansion is given, so what is written always reads back.
-/

namespace StoreQuery

/-- The decimal `digits * 10 ^ exponent`. -/
structure Decimal where
  digits : Nat
  exponent : Int
  deriving DecidableEq, Repr

/-- Which of two equally near decimals is taken. -/
inductive Tie where
  | even
  | up
  deriving DecidableEq, Repr

namespace Decimal

/-- How many decimal digits a number has; zero has one. -/
def length (n : Nat) : Nat := (Nat.toDigits 10 n).length

/-- Moves zeros at the end of the digits into the exponent. The first argument bounds their
number. -/
def trim : Nat → Decimal → Decimal
  | 0, d => d
  | fuel + 1, d =>
    if d.digits ≠ 0 ∧ d.digits % 10 = 0 then trim fuel ⟨d.digits / 10, d.exponent + 1⟩ else d

/-- Rank of the double nearest to a decimal. -/
def nearestRank (d : Decimal) : Nat := (Double.ofDecimal false d.digits d.exponent).rank

end Decimal

namespace Double

/-- Decimal exponent of the leading digit of a positive magnitude. The magnitude is multiplied by
`10 ^ 330` first, which makes it at least one. -/
def leadingExponent (rank : Nat) : Int :=
  (Decimal.length (units rank * Nat.pow 10 330 / unitsPerOne) : Int) - 331

/-- Of two neighbouring decimals the one that reads back as `rank`; of two that do, the one that is
nearer to the exact value. `rest` is twice the distance of the value from the lower one, measured by
`den` for the distance of the two. -/
def nearer (tie : Tie) (rank : Nat) (below above : Decimal) (rest den : Nat) : Option Decimal :=
  match decide (below.nearestRank = rank), decide (above.nearestRank = rank) with
  | true, true =>
    if rest < den then some below
    else if den < rest then some above
    else match tie with
      | .up => some above
      | .even => if below.digits % 2 = 0 then some below else some above
  | true, false => some below
  | false, true => some above
  | false, false => none

/-- The decimal of `count` digits that reads back as `rank` and is nearest to it, if there is
one. -/
def decimalOfLength? (tie : Tie) (rank count : Nat) : Option Decimal :=
  let last := leadingExponent rank + 1 - (count : Int)
  let num := units rank * Nat.pow 10 (-last).toNat
  let den := unitsPerOne * Nat.pow 10 last.toNat
  nearer tie rank ⟨num / den, last⟩ ⟨num / den + 1, last⟩ (2 * (num % den)) den

/-- The exact decimal expansion of a magnitude. -/
def exactDecimal (rank : Nat) : Decimal := ⟨units rank * Nat.pow 5 1074, -1074⟩

/-- The shortest decimal that reads back as the magnitude of this rank. Zero has one digit in front
of the point. -/
def shortestDecimal (tie : Tie) (rank : Nat) : Decimal :=
  if rank = 0 then ⟨0, 0⟩
  else match (List.range 17).findSome? fun n => decimalOfLength? tie rank (n + 1) with
  | some d => d.trim 20
  | none => exactDecimal rank

end Double

end StoreQuery
