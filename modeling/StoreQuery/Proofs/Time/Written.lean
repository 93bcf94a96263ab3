import Mathlib.Data.String.Basic
import StoreQuery.Proofs.Time.Calendar

/-!
# The order of written timestamps

Texts are compared character by character. Numbers with one number of digits are so compared by
their values (`digitChars_lt`), and a written timestamp has such numbers from the year down, with
the same marks in between. Behind the seconds texts differ in length: there is a fraction with more
or fewer digits, or none, and then the offset. This comes out right because `+` stands in front of
the point, and both stand in front of every digit.

**Written timestamps are in the order of their instants** (`compare_textWith`), whatever number of
digits their fractions are written with, as long as one timestamp is not written in two ways.
-/

namespace StoreQuery

namespace Text

variable {width m n : Nat} {rest rest' : List Char}

/-- The last digits of a number, zeros in front included. -/
def digitChars : Nat → Nat → List Char
  | 0, _ => []
  | width + 1, n => digitChars width (n / 10) ++ [Nat.digitChar (n % 10)]

theorem length_digitChars (width n : Nat) : (digitChars width n).length = width := by
  induction width generalizing n with
  | zero => rfl
  | succ width ih => simp [digitChars, ih]

theorem digitChars_add (front back high : Nat) {low : Nat} (h : low < 10 ^ back) :
    digitChars (front + back) (high * 10 ^ back + low) =
      digitChars front high ++ digitChars back low := by
  induction back generalizing low with
  | zero =>
    obtain rfl : low = 0 := by simpa using h
    simp [digitChars]
  | succ back ih =>
    rw [Nat.pow_succ] at h
    have hpow : high * 10 ^ (back + 1) = high * 10 ^ back * 10 := by
      rw [Nat.pow_succ, Nat.mul_assoc]
    have hquotient : (high * 10 ^ (back + 1) + low) / 10 = high * 10 ^ back + low / 10 := by omega
    have hremainder : (high * 10 ^ (back + 1) + low) % 10 = low % 10 := by omega
    rw [← Nat.add_assoc, digitChars, hquotient, hremainder, ih (by omega), List.append_assoc]
    rfl

/-! ## The order of digits -/

theorem append_lt_append {cs ds : List Char} (hlength : cs.length = ds.length) (h : cs < ds)
    (rest rest' : List Char) : cs ++ rest < ds ++ rest' := by
  induction cs generalizing ds with
  | nil =>
    obtain rfl := List.length_eq_zero_iff.1 hlength.symm
    exact absurd h (List.lt_irrefl _)
  | cons c cs ih =>
    obtain ⟨d, ds, rfl⟩ := List.exists_cons_of_length_eq_add_one hlength.symm
    rw [List.cons_append, List.cons_append, List.cons_lt_cons_iff]
    rcases List.cons_lt_cons_iff.1 h with hlt | ⟨rfl, hlt⟩
    · exact .inl hlt
    · exact .inr ⟨rfl, ih (Nat.succ.inj hlength) hlt⟩

theorem digitChar_lt (h : m < n) (hn : n < 10) : Nat.digitChar m < Nat.digitChar n := by
  have hall : ∀ n < 10, ∀ m < n, Nat.digitChar m < Nat.digitChar n := by decide
  exact hall n hn m h

theorem plus_lt_digitChar (hn : n < 10) : '+' < Nat.digitChar n := by
  have hall : ∀ n < 10, '+' < Nat.digitChar n := by decide
  exact hall n hn

/-- **Numbers with as many digits are compared by their values.** -/
theorem digitChars_lt (h : m < n) (hn : n < 10 ^ width) :
    digitChars width m < digitChars width n := by
  induction width generalizing m n with
  | zero => omega
  | succ width ih =>
    rw [Nat.pow_succ] at hn
    rw [digitChars, digitChars]
    by_cases hquotient : m / 10 < n / 10
    · have hlength : (digitChars width (m / 10)).length = (digitChars width (n / 10)).length := by
        rw [length_digitChars, length_digitChars]
      exact append_lt_append hlength (ih hquotient (by omega)) _ _
    · have hsame : m / 10 = n / 10 := by omega
      rw [hsame]
      apply List.append_left_lt
      rw [List.cons_lt_cons_iff]
      exact .inl (digitChar_lt (by omega) (by omega))

/-- What stands behind numbers with as many digits counts where they are the same. -/
theorem digitChars_append_lt (hn : n < 10 ^ width) (h : m < n ∨ m = n ∧ rest < rest') :
    digitChars width m ++ rest < digitChars width n ++ rest' := by
  rcases h with hlt | ⟨rfl, hlt⟩
  · have hlength : (digitChars width m).length = (digitChars width n).length := by
      rw [length_digitChars, length_digitChars]
    exact append_lt_append hlength (digitChars_lt hlt hn) _ _
  · exact List.append_left_lt hlt

/-- The same with one mark behind both numbers. -/
theorem field_lt (hn : n < 10 ^ width) (mark : Char) (h : m < n ∨ m = n ∧ rest < rest') :
    digitChars width m ++ mark :: rest < digitChars width n ++ mark :: rest' :=
  digitChars_append_lt hn (h.imp_right fun ⟨hsame, hlt⟩ =>
    ⟨hsame, List.cons_lt_cons_iff.2 (.inr ⟨rfl, hlt⟩)⟩)

/-- A digit comes behind a plus sign. -/
theorem plus_lt_digitChars (hwidth : 0 < width) (n : Nat) :
    '+' :: rest < digitChars width n ++ rest' := by
  induction width generalizing n rest' with
  | zero => omega
  | succ width ih =>
    rw [digitChars, List.append_assoc]
    by_cases hzero : width = 0
    · subst hzero
      exact List.cons_lt_cons_iff.2 (.inl (plus_lt_digitChar (Nat.mod_lt _ (by decide))))
    · exact ih (by omega) _

end Text

namespace Timestamp

open Text

variable {t u : Timestamp} {digits digits' m n : Nat}

theorem toList_padded {width : Nat} (hwidth : 0 < width) (hn : n < 10 ^ width) :
    (padded width n).toList = digitChars width n := by
  rw [padded, String.toList_ofList]
  induction width generalizing n with
  | zero => omega
  | succ width ih =>
    rw [Nat.pow_succ] at hn
    rw [digitChars]
    by_cases hwidth : width = 0
    · subst hwidth
      have hlt : n < 10 := by omega
      rw [Nat.toDigits_of_lt_base hlt, Nat.mod_eq_of_lt hlt]
      rfl
    · have hpos : 0 < width := by omega
      rw [← ih hpos (by omega)]
      by_cases hlt : n < 10
      · have hzero : n / 10 = 0 := by omega
        obtain ⟨width, rfl⟩ := Nat.exists_eq_add_of_le' hpos
        rw [hzero, Nat.toDigits_of_lt_base hlt, Nat.mod_eq_of_lt hlt]
        simp [Nat.toDigits_of_lt_base, List.replicate_succ']
      · rw [Nat.toDigits_of_base_le (by decide) (by omega)]
        simp [Nat.add_sub_add_right, List.append_assoc]

/-! ## Fractions -/

/-- The number of digits is enough for a fraction of a second. -/
def Exact (digits nano : Nat) : Prop := digits ≤ 9 ∧ 10 ^ (9 - digits) ∣ nano

/-- A fraction of a second with a number of digits. -/
def fractionOf (digits nano : Nat) : String :=
  if digits = 0 then "" else "." ++ padded digits (nano / 10 ^ (9 - digits))

/-- The fewest of 0, 3, 6 or 9 digits that are enough. -/
def fewestDigits (nano : Nat) : Nat :=
  if nano = 0 then 0 else if nano % 1000000 = 0 then 3 else if nano % 1000 = 0 then 6 else 9

theorem fractionText_eq (nano : Nat) : fractionText nano = fractionOf (fewestDigits nano) nano := by
  unfold fractionText fewestDigits
  split_ifs
  · rfl
  · rfl
  · rfl
  · simp [fractionOf]

theorem exact_fewestDigits (nano : Nat) : Exact (fewestDigits nano) nano := by
  unfold fewestDigits Exact
  split_ifs with hnone hthree hsix
  · subst hnone
    exact ⟨by decide, Nat.dvd_zero _⟩
  · exact ⟨by decide, Nat.dvd_of_mod_eq_zero hthree⟩
  · exact ⟨by decide, Nat.dvd_of_mod_eq_zero hsix⟩
  · exact ⟨by decide, Nat.one_dvd _⟩

theorem Exact.exists_mul (h : Exact digits n) (hn : n < 1000000000) :
    ∃ value, n = value * 10 ^ (9 - digits) ∧ value < 10 ^ digits := by
  obtain ⟨hle, value, rfl⟩ := h
  refine ⟨value, Nat.mul_comm _ _, ?_⟩
  have hpow : (1000000000 : Nat) = 10 ^ (9 - digits) * 10 ^ digits := by
    rw [← Nat.pow_add, Nat.sub_add_cancel hle]
  rw [hpow] at hn
  exact Nat.lt_of_mul_lt_mul_left hn

theorem toList_fractionOf {value : Nat} (hdigits : 0 < digits) (hvalue : value < 10 ^ digits)
    (hn : n = value * 10 ^ (9 - digits)) :
    (fractionOf digits n).toList = '.' :: digitChars digits value := by
  have hpos : 0 < 10 ^ (9 - digits) := Nat.pow_pos (by decide)
  rw [fractionOf, if_neg (by omega), String.toList_append, hn, Nat.mul_div_cancel _ hpos,
    toList_padded hdigits hvalue]
  rfl

theorem exists_split (back n : Nat) :
    ∃ high low, n = high * 10 ^ back + low ∧ low < 10 ^ back := by
  refine ⟨n / 10 ^ back, n % 10 ^ back, ?_, Nat.mod_lt _ (Nat.pow_pos (by decide))⟩
  rw [Nat.mul_comm]
  exact (Nat.div_add_mod ..).symm

/-- A digit in a place is worth as many in the last place as fit behind it. -/
theorem scale_eq {more : Nat} (h : digits + more ≤ 9) :
    10 ^ (9 - digits) = 10 ^ more * 10 ^ (9 - (digits + more)) := by
  rw [← Nat.pow_add]
  congr 1
  omega

/-- The digits of a smaller fraction, with a plus sign behind them, come first: either a digit is
smaller, or they end sooner. -/
theorem digits_lt {a b : Nat} (hdigits' : digits' ≤ 9) (hdigits : digits ≤ 9)
    (hb : b < 10 ^ digits') (h : a * 10 ^ (9 - digits) < b * 10 ^ (9 - digits'))
    (rest rest' : List Char) :
    digitChars digits a ++ '+' :: rest < digitChars digits' b ++ '+' :: rest' := by
  rcases Nat.le_total digits digits' with hle | hle
  · obtain ⟨more, rfl⟩ := Nat.exists_eq_add_of_le hle
    -- As many digits of the longer fraction as the shorter one has decide first.
    obtain ⟨high, low, rfl, hlow⟩ := exists_split more b
    rw [scale_eq hdigits', ← Nat.mul_assoc] at h
    have hlt := Nat.lt_of_mul_lt_mul_right h
    have hfront : a ≤ high := by
      have hnext : a * 10 ^ more < (high + 1) * 10 ^ more := by
        rw [Nat.add_mul, Nat.one_mul]
        omega
      exact Nat.le_of_lt_succ (Nat.lt_of_mul_lt_mul_right hnext)
    have hhigh : high < 10 ^ digits := by
      rw [Nat.pow_add] at hb
      exact Nat.lt_of_mul_lt_mul_right (Nat.lt_of_le_of_lt (Nat.le_add_right _ low) hb)
    rw [digitChars_add digits more _ hlow, List.append_assoc]
    apply digitChars_append_lt hhigh
    rcases Nat.lt_or_eq_of_le hfront with hless | rfl
    · exact .inl hless
    · -- The shorter fraction is the beginning of the longer one, which has digits left.
      have hmore : 0 < more := by
        by_contra hnone
        obtain rfl : more = 0 := by omega
        simp at hlow hlt
        omega
      exact .inr ⟨rfl, plus_lt_digitChars hmore _⟩
  · obtain ⟨more, rfl⟩ := Nat.exists_eq_add_of_le hle
    obtain ⟨high, low, rfl, hlow⟩ := exists_split more a
    rw [scale_eq hdigits, ← Nat.mul_assoc] at h
    have hlt := Nat.lt_of_mul_lt_mul_right h
    have hfront : high < b :=
      Nat.lt_of_mul_lt_mul_right (Nat.lt_of_le_of_lt (Nat.le_add_right _ low) hlt)
    rw [digitChars_add digits' more _ hlow, List.append_assoc]
    exact digitChars_append_lt hb (.inl hfront)

/-- **Fractions are in the order of their values**, with a plus sign behind them. -/
theorem fractionOf_lt (hdigits : Exact digits m) (hdigits' : Exact digits' n) (h : m < n)
    (hn : n < 1000000000) (rest rest' : List Char) :
    (fractionOf digits m).toList ++ '+' :: rest <
      (fractionOf digits' n).toList ++ '+' :: rest' := by
  obtain ⟨a, ha, hadigits⟩ := hdigits.exists_mul (by omega)
  obtain ⟨b, hb, hbdigits⟩ := hdigits'.exists_mul hn
  have hsome : 0 < digits' := by
    by_contra hnone
    obtain rfl : digits' = 0 := by omega
    obtain rfl : b = 0 := by omega
    omega
  rw [toList_fractionOf hsome hbdigits hb]
  by_cases hnone : digits = 0
  · subst hnone
    exact List.cons_lt_cons_iff.2 (.inl (by decide))
  · rw [toList_fractionOf (by omega) hadigits ha]
    refine List.cons_lt_cons_iff.2 (.inr ⟨rfl, ?_⟩)
    exact digits_lt hdigits'.1 hdigits.1 hbdigits (ha ▸ hb ▸ h) rest rest'

/-! ## Timestamps -/

/-- A date and a time of day in a year of four digits. -/
structure Ordinary (t : Timestamp) : Prop where
  valid : t.Valid
  zero_le_year : 0 ≤ t.year
  year_le : t.year ≤ 9999

/-- The offset form with a number of digits in its fraction. -/
def textWith (digits : Nat) (t : Timestamp) : String :=
  yearText t.year ++ "-" ++ padded 2 t.month ++ "-" ++ padded 2 t.day ++ "T"
    ++ padded 2 t.hour ++ ":" ++ padded 2 t.minute ++ ":" ++ padded 2 t.second
    ++ fractionOf digits t.nano ++ "+00:00"

theorem offsetText_eq (t : Timestamp) : t.offsetText = t.textWith (fewestDigits t.nano) := by
  rw [offsetText, localText, fractionText_eq]
  rfl

theorem daysInMonth_le (year : Int) (month : Nat) : daysInMonth year month ≤ 31 := by
  unfold daysInMonth
  split
  · split_ifs <;> decide
  all_goals decide

theorem Ordinary.toList_textWith (h : t.Ordinary) (digits : Nat) :
    (t.textWith digits).toList =
      digitChars 4 t.year.natAbs ++ '-' :: (digitChars 2 t.month ++ '-' ::
        (digitChars 2 t.day ++ 'T' :: (digitChars 2 t.hour ++ ':' ::
          (digitChars 2 t.minute ++ ':' :: (digitChars 2 t.second ++
            ((fractionOf digits t.nano).toList ++ '+' :: ['0', '0', ':', '0', '0'])))))) := by
  obtain ⟨⟨-, hmonth, -, hday, hhour, hminute, hsecond, -⟩, hyear, hyear'⟩ := h
  have hdays := daysInMonth_le t.year t.month
  rw [textWith, yearText, if_pos ⟨hyear, hyear'⟩]
  simp only [String.toList_append]
  rw [toList_padded (by decide) (by omega), toList_padded (by decide) (by omega),
    toList_padded (by decide) (by omega), toList_padded (by decide) (by omega),
    toList_padded (by decide) (by omega), toList_padded (by decide) (by omega)]
  simp only [List.append_assoc]
  rfl

/-- **What stands first field by field stands first as a text.** -/
theorem Precedes.textWith_lt (ht : t.Ordinary) (hu : u.Ordinary) (hdigits : Exact digits t.nano)
    (hdigits' : Exact digits' u.nano) (h : t.Precedes u) :
    t.textWith digits < u.textWith digits' := by
  have hdays := daysInMonth_le u.year u.month
  have hzero := ht.zero_le_year
  rw [String.lt_iff, ht.toList_textWith, hu.toList_textWith]
  obtain ⟨⟨-, hmonth, -, hday, hhour, hminute, hsecond, hnano⟩, hzero', hyear⟩ := hu
  rcases h with h | ⟨hsame, h⟩
  · exact field_lt (by omega) _ (.inl (by omega))
  refine field_lt (by omega) _ (.inr ⟨by omega, ?_⟩)
  rcases h with h | ⟨hsame, h⟩
  · exact field_lt (by omega) _ (.inl h)
  refine field_lt (by omega) _ (.inr ⟨hsame, ?_⟩)
  rcases h with h | ⟨hsame, h⟩
  · exact field_lt (by omega) _ (.inl h)
  refine field_lt (by omega) _ (.inr ⟨hsame, ?_⟩)
  rcases h with h | ⟨hsame, h⟩
  · exact field_lt (by omega) _ (.inl h)
  refine field_lt (by omega) _ (.inr ⟨hsame, ?_⟩)
  rcases h with h | ⟨hsame, h⟩
  · exact field_lt (by omega) _ (.inl h)
  refine field_lt (by omega) _ (.inr ⟨hsame, ?_⟩)
  rcases h with h | ⟨hsame, h⟩
  · exact digitChars_append_lt (by omega) (.inl h)
  refine digitChars_append_lt (by omega) (.inr ⟨hsame, ?_⟩)
  exact fractionOf_lt hdigits hdigits' h hnano _ _

/-- **Written timestamps are in the order of their instants**, if one timestamp is not written with
two different numbers of digits. -/
theorem compare_textWith (ht : t.Ordinary) (hu : u.Ordinary) (hdigits : Exact digits t.nano)
    (hdigits' : Exact digits' u.nano) (hsame : t = u → digits = digits') :
    compare (t.textWith digits) (u.textWith digits') = compare t.instant u.instant := by
  rcases precedes_trichotomy t u with h | rfl | h
  · rw [compare_lt_iff_lt.2 (h.textWith_lt ht hu hdigits hdigits'),
      compare_lt_iff_lt.2 (h.instant_lt ht.valid hu.valid)]
  · rw [hsame rfl, compare_eq_iff_eq.2 rfl, compare_eq_iff_eq.2 rfl]
  · rw [compare_gt_iff_gt.2 (h.textWith_lt hu ht hdigits' hdigits),
      compare_gt_iff_gt.2 (h.instant_lt hu.valid ht.valid)]

end Timestamp

end StoreQuery
