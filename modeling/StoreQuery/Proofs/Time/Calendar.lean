import Mathlib.Order.Lattice
import Mathlib.Tactic.SplitIfs
import StoreQuery.Time.Timestamp

/-!
# Timestamps as instants

The fields of a timestamp say where it is in the calendar. `minuteNumber` counts the minutes from
the start of year 0 to its minute, through all the years and months in between. So two timestamps in
one minute differ in their seconds, and the leap second comes after the others. `instant` puts both
together: it counts nanoseconds on a clock whose minutes all have room for a leap second. It is no
duration, but it is in the order of time.

**The calendar is counted right**: a new day adds one (`dayNumber_nextDay`), and taking off an
offset takes off as many minutes (`minuteNumber_minusMinutes`).

**Instants are ordered field by field** from the year down (`instant_lt_iff`), and a timestamp is
known by its instant (`eq_of_instant_eq`).
-/

namespace StoreQuery.Timestamp

variable {t u : Timestamp}

/-! ## Counting days -/

def daysInYear (year : Int) : Nat := if isLeapYear year then 366 else 365

/-- Days from the start of year 0 to the start of a year. The years before it that are divisible by
4, by 100 and by 400 are counted by their quotients. -/
def daysBeforeYear (year : Int) : Int :=
  365 * year + (year + 3) / 4 - (year + 99) / 100 + (year + 399) / 400

/-- Days in the first months of a year. -/
def daysInMonths (year : Int) : Nat → Nat
  | 0 => 0
  | count + 1 => daysInMonths year count + daysInMonth year (count + 1)

/-- Days from the start of year 0 to the end of the day. -/
def dayNumber (t : Timestamp) : Int :=
  daysBeforeYear t.year + daysInMonths t.year (t.month - 1) + t.day

/-- Minutes from the start of the day before year 0 to the start of the minute. -/
def minuteNumber (t : Timestamp) : Int := (t.dayNumber * 24 + t.hour) * 60 + t.minute

/-- Nanoseconds on a clock whose minutes all have 61 seconds. -/
def instant (t : Timestamp) : Int := (t.minuteNumber * 61 + t.second) * 1000000000 + t.nano

theorem isLeapYear_iff (year : Int) :
    isLeapYear year = true ↔ year % 4 = 0 ∧ (year % 100 ≠ 0 ∨ year % 400 = 0) := by
  simp [isLeapYear]

theorem daysBeforeYear_succ (year : Int) :
    daysBeforeYear (year + 1) = daysBeforeYear year + daysInYear year := by
  have hleap := isLeapYear_iff year
  unfold daysBeforeYear daysInYear
  split_ifs with h
  · have := hleap.1 h
    omega
  · have := mt hleap.2 h
    omega

theorem daysBeforeYear_mono {year later : Int} (h : year ≤ later) :
    daysBeforeYear year ≤ daysBeforeYear later := by
  unfold daysBeforeYear
  omega

theorem daysInMonths_twelve (year : Int) : daysInMonths year 12 = daysInYear year := by
  simp only [daysInMonths, daysInMonth, daysInYear]
  split_ifs <;> rfl

theorem daysInMonths_mono (year : Int) {count more : Nat} (h : count ≤ more) :
    daysInMonths year count ≤ daysInMonths year more := by
  induction h with
  | refl => exact Nat.le_refl _
  | step _ ih => exact Nat.le_trans ih (Nat.le_add_right _ _)

/-- The months before a month, and the month itself. -/
theorem daysInMonths_pred (year : Int) {month : Nat} (h : 1 ≤ month) :
    daysInMonths year month = daysInMonths year (month - 1) + daysInMonth year month := by
  obtain ⟨count, rfl⟩ := Nat.exists_eq_add_of_le' h
  rfl

theorem Valid.dayOfYear_le (h : t.Valid) :
    daysInMonths t.year (t.month - 1) + t.day ≤ daysInMonths t.year t.month := by
  obtain ⟨hmonth, -, -, hday, -⟩ := h
  rw [daysInMonths_pred t.year hmonth]
  exact Nat.add_le_add_left hday _

theorem Valid.dayNumber_le (h : t.Valid) : t.dayNumber ≤ daysBeforeYear (t.year + 1) := by
  have hday := h.dayOfYear_le
  have hmonths := daysInMonths_mono t.year h.2.1
  rw [daysInMonths_twelve] at hmonths
  rw [dayNumber, daysBeforeYear_succ]
  omega

/-! ## The calendar -/

/-- **A new day adds one**, also where a month or a year ends. -/
theorem dayNumber_nextDay (h : t.Valid) : t.nextDay.dayNumber = t.dayNumber + 1 := by
  have hmonths := daysInMonths_pred t.year h.1
  obtain ⟨hmonth, htwelve, -, hday, -⟩ := h
  unfold nextDay
  split_ifs with hsame hyear
  · simp only [dayNumber]
    omega
  · simp only [dayNumber, Nat.add_sub_cancel]
    omega
  · have hlast : t.month = 12 := by omega
    have hnone : daysInMonths (t.year + 1) 0 = 0 := rfl
    rw [hlast, daysInMonths_twelve] at hmonths
    rw [hlast] at hday hsame
    simp only [dayNumber, hlast, daysBeforeYear_succ, Nat.sub_self]
    omega

theorem dayNumber_previousDay (h : t.Valid) : t.previousDay.dayNumber = t.dayNumber - 1 := by
  obtain ⟨hmonth, htwelve, hday, -, -⟩ := h
  unfold previousDay
  split_ifs with hsame hyear
  · simp only [dayNumber]
    omega
  · have hbefore : 1 ≤ t.month - 1 := by omega
    have hmonths := daysInMonths_pred t.year hbefore
    simp only [dayNumber]
    omega
  · have hyears := daysBeforeYear_succ (t.year - 1)
    have htwelve := daysInMonths_twelve (t.year - 1)
    have hfirst : t.month = 1 := by omega
    have hlast : daysInMonths (t.year - 1) 12 = daysInMonths (t.year - 1) 11 + 31 := rfl
    have hnone : daysInMonths t.year 0 = 0 := rfl
    rw [Int.sub_add_cancel] at hyears
    simp only [dayNumber, hfirst, Nat.sub_self, Nat.reduceSub]
    omega

/-- A new day adds its minutes. -/
theorem minuteNumber_nextDay (h : t.Valid) :
    t.nextDay.minuteNumber = t.minuteNumber + 1440 := by
  have htime : t.nextDay.hour = t.hour ∧ t.nextDay.minute = t.minute := by
    unfold nextDay
    split_ifs <;> exact ⟨rfl, rfl⟩
  rw [minuteNumber, minuteNumber, dayNumber_nextDay h, htime.1, htime.2]
  omega

theorem minuteNumber_previousDay (h : t.Valid) :
    t.previousDay.minuteNumber = t.minuteNumber - 1440 := by
  have htime : t.previousDay.hour = t.hour ∧ t.previousDay.minute = t.minute := by
    unfold previousDay
    split_ifs <;> exact ⟨rfl, rfl⟩
  rw [minuteNumber, minuteNumber, dayNumber_previousDay h, htime.1, htime.2]
  omega

/-- **Taking off an offset takes off as many minutes**, through midnight in both directions. -/
theorem minuteNumber_minusMinutes (h : t.Valid) {offset : Int} (hoffset : -1440 < offset)
    (hoffset' : offset < 1440) :
    (t.minusMinutes offset).minuteNumber = t.minuteNumber - offset := by
  obtain ⟨hmonth, htwelve, hday, hdays, hhour, hminute, hrest⟩ := h
  have hminutes : ∀ within : Int, 0 ≤ within → within < 1440 →
      ({ t with hour := (within / 60).toNat, minute := (within % 60).toNat } : Timestamp).Valid ∧
      ({ t with hour := (within / 60).toNat, minute := (within % 60).toNat } :
        Timestamp).minuteNumber = t.dayNumber * 1440 + within := by
    intro within hzero hlt
    refine ⟨⟨hmonth, htwelve, hday, hdays, ?_, ?_, hrest⟩, ?_⟩
    · show (within / 60).toNat < 24
      omega
    · show (within % 60).toNat < 60
      omega
    · simp only [minuteNumber, dayNumber]
      omega
  simp only [minusMinutes]
  generalize hnow : ((t.hour * 60 + t.minute : Nat) : Int) - offset = now
  obtain ⟨hvalid, hmoved⟩ := hminutes (now % 1440) (by omega) (by omega)
  have hnumber : t.minuteNumber = t.dayNumber * 1440 + (t.hour * 60 + t.minute : Nat) := by
    rw [minuteNumber]
    omega
  split_ifs with hbefore hbehind
  · rw [minuteNumber_previousDay hvalid, hmoved]
    omega
  · rw [minuteNumber_nextDay hvalid, hmoved]
    omega
  · rw [hmoved]
    omega

/-! ## Field by field -/

/-- One timestamp stands before the other in the first field in which they differ. -/
def Precedes (t u : Timestamp) : Prop :=
  t.year < u.year ∨ t.year = u.year ∧ (t.month < u.month ∨ t.month = u.month ∧
    (t.day < u.day ∨ t.day = u.day ∧ (t.hour < u.hour ∨ t.hour = u.hour ∧
      (t.minute < u.minute ∨ t.minute = u.minute ∧ (t.second < u.second ∨ t.second = u.second ∧
        t.nano < u.nano)))))

theorem precedes_trichotomy (t u : Timestamp) : t.Precedes u ∨ t = u ∨ u.Precedes t := by
  by_cases h : t = u
  · exact .inr (.inl h)
  · have hfields : ¬ (t.year = u.year ∧ t.month = u.month ∧ t.day = u.day ∧ t.hour = u.hour ∧
        t.minute = u.minute ∧ t.second = u.second ∧ t.nano = u.nano) := by
      rintro ⟨h1, h2, h3, h4, h5, h6, h7⟩
      cases t
      cases u
      simp_all
    unfold Precedes
    omega

theorem dayNumber_lt (ht : t.Valid) (hu : u.Valid)
    (h : t.year < u.year ∨ t.year = u.year ∧ (t.month < u.month ∨ t.month = u.month ∧
      t.day < u.day)) : t.dayNumber < u.dayNumber := by
  have hday := hu.2.2.1
  rcases h with hyear | ⟨hyear, hmonth | ⟨hmonth, hday⟩⟩
  · have hlast := ht.dayNumber_le
    have hyears := daysBeforeYear_mono (show t.year + 1 ≤ u.year by omega)
    rw [dayNumber, dayNumber] at *
    omega
  · have hlast := ht.dayOfYear_le
    have hmonths := daysInMonths_mono u.year (show t.month ≤ u.month - 1 by omega)
    rw [dayNumber, dayNumber, hyear] at *
    omega
  · rw [dayNumber, dayNumber, hyear, hmonth]
    omega

theorem Precedes.instant_lt (ht : t.Valid) (hu : u.Valid) (h : t.Precedes u) :
    t.instant < u.instant := by
  have hnumber := dayNumber_lt ht hu
  have hsame : t.year = u.year → t.month = u.month → t.day = u.day →
      t.dayNumber = u.dayNumber := by
    intro hyear hmonth hday
    rw [dayNumber, dayNumber, hyear, hmonth, hday]
  obtain ⟨-, -, -, -, hhour, hminute, hsecond, hnano⟩ := ht
  obtain ⟨-, -, -, -, hhour', hminute', hsecond', hnano'⟩ := hu
  unfold Precedes at h
  unfold instant minuteNumber
  omega

/-- **Instants are ordered field by field.** -/
theorem instant_lt_iff (ht : t.Valid) (hu : u.Valid) : t.instant < u.instant ↔ t.Precedes u := by
  constructor
  · intro h
    rcases precedes_trichotomy t u with hbefore | rfl | hbehind
    · exact hbefore
    · omega
    · have := hbehind.instant_lt hu ht
      omega
  · exact Precedes.instant_lt ht hu

theorem eq_of_instant_eq (ht : t.Valid) (hu : u.Valid) (h : t.instant = u.instant) : t = u := by
  rcases precedes_trichotomy t u with hbefore | hsame | hbehind
  · have := hbefore.instant_lt ht hu
    omega
  · exact hsame
  · have := hbehind.instant_lt hu ht
    omega

end StoreQuery.Timestamp
