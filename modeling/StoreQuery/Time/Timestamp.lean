import StoreQuery.Number.Text

/-!
# Timestamps

A timestamp is a date of the Gregorian calendar and a time of day, both in universal time, with
nanoseconds. A minute may have a second numbered 60, a leap second. Timestamps are compared field
by field from the year down, which is their order in time.

**Written form.** Year, month and day, a `T`, the time of day, a fraction of 0, 3, 6 or 9 digits
(the fewest that are exact) and the zone, which is `+00:00` in the offset form and `Z` in the
zone form. Years outside 0 to 9999 carry a sign.

**Read form.** The same with any fraction and any offset, which is then taken off.
-/

namespace StoreQuery

/-- A date and a time of day in universal time. -/
structure Timestamp where
  year : Int
  month : Nat
  day : Nat
  hour : Nat
  minute : Nat
  second : Nat
  nano : Nat
  deriving DecidableEq, Repr

namespace Timestamp

/-! ## The calendar -/

def isLeapYear (year : Int) : Bool :=
  year % 4 = 0 && (year % 100 ≠ 0 || year % 400 = 0)

def daysInMonth (year : Int) (month : Nat) : Nat :=
  match month with
  | 2 => if isLeapYear year then 29 else 28
  | 4 | 6 | 9 | 11 => 30
  | _ => 31

/-- Whether the fields name a date and a time of day. -/
def Valid (t : Timestamp) : Prop :=
  1 ≤ t.month ∧ t.month ≤ 12 ∧ 1 ≤ t.day ∧ t.day ≤ daysInMonth t.year t.month ∧
    t.hour < 24 ∧ t.minute < 60 ∧ t.second ≤ 60 ∧ t.nano < 1000000000

instance (t : Timestamp) : Decidable t.Valid := by unfold Valid; infer_instance

/-- The day after, at the same time of day. -/
def nextDay (t : Timestamp) : Timestamp :=
  if t.day < daysInMonth t.year t.month then { t with day := t.day + 1 }
  else if t.month < 12 then { t with month := t.month + 1, day := 1 }
  else { t with year := t.year + 1, month := 1, day := 1 }

/-- The day before, at the same time of day. -/
def previousDay (t : Timestamp) : Timestamp :=
  if 1 < t.day then { t with day := t.day - 1 }
  else if 1 < t.month then
    { t with month := t.month - 1, day := daysInMonth t.year (t.month - 1) }
  else { t with year := t.year - 1, month := 12, day := 31 }

/-- The same instant for a clock that is `offset` minutes behind, less than a day either way. -/
def minusMinutes (t : Timestamp) (offset : Int) : Timestamp :=
  let minutes := (t.hour * 60 + t.minute : Nat) - offset
  let within := minutes % 1440
  let moved := { t with hour := (within / 60).toNat, minute := (within % 60).toNat }
  if minutes < 0 then moved.previousDay
  else if 1440 ≤ minutes then moved.nextDay
  else moved

/-! ## Writing -/

/-- A number in decimal with zeros in front up to the given width. -/
def padded (width n : Nat) : String :=
  let digits := Nat.toDigits 10 n
  String.ofList (List.replicate (width - digits.length) '0' ++ digits)

/-- Four digits; with a sign outside 0 to 9999. -/
def yearText (year : Int) : String :=
  if 0 ≤ year ∧ year ≤ 9999 then padded 4 year.natAbs
  else (if year < 0 then "-" else "+") ++ padded 4 year.natAbs

/-- The fraction of a second with the fewest of 0, 3, 6 or 9 digits that are exact. -/
def fractionText (nano : Nat) : String :=
  if nano = 0 then ""
  else if nano % 1000000 = 0 then "." ++ padded 3 (nano / 1000000)
  else if nano % 1000 = 0 then "." ++ padded 6 (nano / 1000)
  else "." ++ padded 9 nano

/-- The written form up to the zone. -/
def localText (t : Timestamp) : String :=
  yearText t.year ++ "-" ++ padded 2 t.month ++ "-" ++ padded 2 t.day ++ "T"
    ++ padded 2 t.hour ++ ":" ++ padded 2 t.minute ++ ":" ++ padded 2 t.second
    ++ fractionText t.nano

/-- The offset form, which ends in `+00:00`. -/
def offsetText (t : Timestamp) : String := t.localText ++ "+00:00"

/-- The zone form, which ends in `Z`. -/
def zoneText (t : Timestamp) : String := t.localText ++ "Z"

/-! ## Reading -/

/-- Reads exactly `count` digits. -/
def digits? : Nat → List Char → Option (Nat × List Char)
  | count, cs =>
    let front := cs.take count
    if front.length = count ∧ front.all Text.isDigit then
      some (Text.digitsValue front, cs.drop count)
    else none

/-- Reads one given character. -/
def mark? (c : Char) : List Char → Option (List Char)
  | d :: cs => if c = d then some cs else none
  | [] => none

/-- Reads an optional fraction of a second; digits after the ninth do not count. -/
def fraction? : List Char → Option (Nat × List Char)
  | '.' :: cs =>
    let digits := cs.takeWhile Text.isDigit
    if digits = [] then none
    else
      let kept := digits.take 9
      some (Text.digitsValue kept * Nat.pow 10 (9 - kept.length), cs.dropWhile Text.isDigit)
  | cs => some (0, cs)

/-- Reads the zone as an offset in minutes: `Z`, or a sign with hours and minutes. -/
def zone? : List Char → Option (Int × List Char)
  | 'Z' :: cs | 'z' :: cs => some (0, cs)
  | sign :: cs => do
    let negative ← if sign = '+' then some false
      else if sign = '-' ∨ sign = '\u2212' then some true else none
    let (hours, cs) ← digits? 2 cs
    let cs ← mark? ':' cs
    let (minutes, cs) ← digits? 2 cs
    if 24 ≤ hours ∨ 60 ≤ minutes then none
    else
      let offset : Int := (hours * 60 + minutes : Nat)
      some (if negative then -offset else offset, cs)
  | [] => none

/-- Reads a timestamp with any offset and brings it to universal time. -/
def ofText? (text : String) : Option Timestamp := do
  let (year, cs) ← digits? 4 text.toList
  let cs ← mark? '-' cs
  let (month, cs) ← digits? 2 cs
  let cs ← mark? '-' cs
  let (day, cs) ← digits? 2 cs
  let cs ← match cs with
    | 'T' :: cs | 't' :: cs | ' ' :: cs => some cs
    | _ => none
  let (hour, cs) ← digits? 2 cs
  let cs ← mark? ':' cs
  let (minute, cs) ← digits? 2 cs
  let cs ← mark? ':' cs
  let (second, cs) ← digits? 2 cs
  let (nano, cs) ← fraction? cs
  let (offset, cs) ← zone? cs
  let t : Timestamp := ⟨year, month, day, hour, minute, second, nano⟩
  if cs = [] ∧ t.Valid then some (t.minusMinutes offset) else none

end Timestamp

end StoreQuery
