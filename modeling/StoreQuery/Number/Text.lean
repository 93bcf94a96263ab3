import StoreQuery.Number.Shortest
import StoreQuery.Text.Split

/-!
# Numbers as text

Whole numbers are written in decimal with a minus sign where needed. Doubles have two written
forms, both built from the shortest decimal:

- the **plain** form never has an exponent and writes `1` for one;
- the **data** form always shows that the number is a double: it is positional with a fraction
  from `1e-5` up to, but not including, `1e16`, and has an exponent with a sign elsewhere.

Reading is the other direction: `word?` and `signed?` read whole numbers of 64 bits, `double?`
reads the double nearest to a decimal text.
-/

namespace StoreQuery

/-! ## Whole numbers -/

namespace Text

/-- Decimal digits of a natural number. -/
def ofNat (n : Nat) : String := String.ofList (Nat.toDigits 10 n)

/-- Decimal text of a whole number. -/
def ofInt (i : Int) : String :=
  if i < 0 then "-" ++ ofNat i.natAbs else ofNat i.natAbs

/-- The value of a decimal digit. -/
def digit? (c : Char) : Option Nat :=
  if '0' ≤ c ∧ c ≤ '9' then some (c.toNat - '0'.toNat) else none

/-- Whether a character is a decimal digit. -/
def isDigit (c : Char) : Bool := (digit? c).isSome

/-- The number that a list of digits stands for, most significant first. -/
def digitsValue (cs : List Char) : Nat :=
  cs.foldl (fun value c => 10 * value + (digit? c).getD 0) 0

/-- Reads a non-empty list of digits. -/
def nat? (cs : List Char) : Option Nat :=
  if cs ≠ [] ∧ cs.all isDigit then some (digitsValue cs) else none

/-- Reads a number of 64 bits without sign; a plus sign may stand in front. -/
def word? (text : String) : Option UInt64 :=
  let digits := match text.toList with
    | '+' :: cs => cs
    | cs => cs
  (nat? digits).bind fun n => if n < UInt64.size then some (UInt64.ofNat n) else none

/-- Reads a number of 64 bits with sign. -/
def signed? (text : String) : Option Int64 :=
  let value := match text.toList with
    | '+' :: cs => (nat? cs).map Int.ofNat
    | '-' :: cs => (nat? cs).map fun n => -(n : Int)
    | cs => (nat? cs).map Int.ofNat
  value.bind fun i =>
    if Int64.minValue.toInt ≤ i ∧ i ≤ Int64.maxValue.toInt then some (Int64.ofInt i) else none

end Text

/-! ## Writing doubles -/

namespace Decimal

/-- Positional text of a decimal, without exponent. A whole number gets no point. -/
def positional (d : Decimal) : String :=
  let digits := Nat.toDigits 10 d.digits
  if 0 ≤ d.exponent then
    String.ofList (digits ++ List.replicate d.exponent.toNat '0')
  else
    let places := d.exponent.natAbs
    let padded := List.replicate (places + 1 - digits.length) '0' ++ digits
    String.ofList (padded.take (padded.length - places)) ++ "."
      ++ String.ofList (padded.drop (padded.length - places))

/-- Decimal exponent of the first digit. -/
def leading (d : Decimal) : Int := d.exponent + (length d.digits : Int) - 1

/-- Text with one digit before the point and an exponent with its sign. -/
def scientific (d : Decimal) : String :=
  let power := d.leading
  let mantissa := match Nat.toDigits 10 d.digits with
    | [] => "0"
    | [c] => String.ofList [c]
    | c :: cs => String.ofList (c :: '.' :: cs)
  mantissa ++ "e" ++ (if power < 0 then "-" else "+") ++ Text.ofNat power.natAbs

end Decimal

namespace Double

private def signText (x : Double) : String := if x.negative then "-" else ""

/-- The plain form: never an exponent, no fraction for a whole number. Of two shortest decimals
at the same distance the larger is taken. -/
def toText (x : Double) : String :=
  if x.isNaN then "NaN"
  else if x.rank = infinityRank then signText x ++ "inf"
  else signText x ++ (shortestDecimal .up x.rank).positional

/-- The data form of a finite double. Of two shortest decimals at the same distance the even one
is taken. -/
def toDataText (x : Double) : String :=
  let d := shortestDecimal .even x.rank
  let power := d.leading
  signText x ++
    if power < -5 ∨ 16 ≤ power then d.scientific
    else if 0 ≤ d.exponent then d.positional ++ ".0"
    else d.positional

/-! ## Reading doubles -/

/-- Splits a list into its leading digits and the rest. -/
def takeDigits (cs : List Char) : List Char × List Char :=
  (cs.takeWhile Text.isDigit, cs.dropWhile Text.isDigit)

/-- Reads an exponent: digits with an optional sign, and nothing after them. -/
def exponent? : List Char → Option Int
  | '+' :: cs => (Text.nat? cs).map Int.ofNat
  | '-' :: cs => (Text.nat? cs).map fun n => -(n : Int)
  | cs => (Text.nat? cs).map Int.ofNat

/-- Reads digits, an optional fraction and an optional exponent; one digit is needed before or
after the point. -/
def unsigned? (negative : Bool) (cs : List Char) : Option Double :=
  let (whole, rest) := takeDigits cs
  let (fraction, rest) := match rest with
    | '.' :: rest => takeDigits rest
    | rest => ([], rest)
  if whole = [] ∧ fraction = [] then none
  else
    let power := match rest with
      | [] => some 0
      | 'e' :: rest => exponent? rest
      | 'E' :: rest => exponent? rest
      | _ => none
    power.map fun power =>
      ofDecimal negative (Text.digitsValue (whole ++ fraction)) (power - (fraction.length : Int))

/-- Reads a double without its sign: a decimal, infinity, or not a number, the words in any
case. -/
def magnitude? (negative : Bool) (cs : List Char) : Option Double :=
  let word := String.ofList (cs.map Char.toLower)
  if word = "inf" ∨ word = "infinity" then some (infinity negative)
  else if word = "nan" then some ⟨negative, nan.rank⟩
  else unsigned? negative cs

/-- Reads the double nearest to a decimal text. -/
def ofText? (text : String) : Option Double :=
  match text.toList with
  | '-' :: cs => magnitude? true cs
  | '+' :: cs => magnitude? false cs
  | cs => magnitude? false cs

end Double

end StoreQuery
