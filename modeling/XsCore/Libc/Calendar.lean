import XsCore.Foundation.Gregorian

/-! # Calendar time

`gmtime_r`, `mktime` and `tzset` of `userspace/libc/src/time.c`.  `time_t` and `long` have 64 bits.
The unsigned intermediate values of the era arithmetic are natural numbers: all of them stay below
`2 ^ 32`, and no subtraction among them goes below zero.
-/

namespace XsCore.Libc

variable {divisor : Int} {dayOfEra y dayOfYear monthPrime : Nat}

inductive CalendarError where
  | fault
  | range

structure Tm where
  sec : Int
  min : Int
  hour : Int
  mday : Int
  mon : Int
  year : Int
  wday : Int
  yday : Int
  isdst : Int
  gmtoff : Int
  zone : List UInt8

/-! ## The time zone -/

structure Zone where
  timezone : Int
  standard : List UInt8
  daylight : List UInt8

def utcName : List UInt8 := [85, 84, 67]

def utcZone : Zone := ⟨0, utcName, utcName⟩

def takeName (fits : UInt8 → Bool) : Nat → List UInt8 → List UInt8 × List UInt8
  | 0, source => ([], source)
  | _, [] => ([], [])
  | room + 1, c :: source =>
    if fits c then
      let (name, rest) := takeName fits room source
      (c :: name, rest)
    else ([], c :: source)

def isLetter (c : UInt8) : Bool := (65 ≤ c && c ≤ 90) || (97 ≤ c && c ≤ 122)

def copyTzName (source : List UInt8) : Option (List UInt8 × List UInt8) :=
  match source with
  | 60 :: source =>
    match takeName (· != 62) 15 source with
    | (name, 62 :: rest) => if name.length < 3 then none else some (name, rest)
    | _ => none
  | source =>
    let (name, rest) := takeName isLetter 15 source
    if name.length < 3 then none else some (name, rest)

def isDecimal (c : UInt8) : Bool := 48 ≤ c && c ≤ 57

def hourDigits : Nat → Nat → List UInt8 → Nat × List UInt8
  | 0, hours, cursor => (hours, cursor)
  | _, hours, [] => (hours, [])
  | left + 1, hours, c :: cursor =>
    if isDecimal c then hourDigits left (hours * 10 + (c.toNat - 48)) cursor else (hours, c :: cursor)

/-- One or two digits after a colon; `none` is the jump to `invalid_timezone`. -/
def sexagesimal : List UInt8 → Option (Nat × List UInt8)
  | [] => none
  | c :: cursor =>
    if isDecimal c then
      match cursor with
      | d :: rest => if isDecimal d then some ((c.toNat - 48) * 10 + (d.toNat - 48), rest)
        else some (c.toNat - 48, d :: rest)
      | [] => some (c.toNat - 48, [])
    else none

def minutesSeconds : List UInt8 → Option (Nat × Nat × List UInt8)
  | 58 :: cursor =>
    match sexagesimal cursor with
    | none => none
    | some (minutes, 58 :: cursor) =>
      match sexagesimal cursor with
      | none => none
      | some (seconds, cursor) => some (minutes, seconds, cursor)
    | some (minutes, cursor) => some (minutes, 0, cursor)
  | cursor => some (0, 0, cursor)

def tzset (setting : Option (List UInt8)) : Zone :=
  let setting := match setting with
    | none | some [] => utcName ++ [48]
    | some text => text
  match copyTzName setting with
  | none => utcZone
  | some (standard, cursor) =>
    let (sign, cursor) : Int × List UInt8 := match cursor with
      | 45 :: rest => (-1, rest)
      | 43 :: rest => (1, rest)
      | cursor => (1, cursor)
    let (hours, cursor) := hourDigits 3 0 cursor
    match minutesSeconds cursor with
    | none => utcZone
    | some (minutes, seconds, cursor) =>
      if 59 < minutes ∨ 59 < seconds ∨ 24 < hours then utcZone
      else
        ⟨sign * (hours * 3600 + minutes * 60 + seconds), standard, match cursor with
          | [] => standard
          | cursor => ((copyTzName cursor).map (·.1)).getD standard⟩

/-! ## The conversions -/

def floorDivide (value divisor : Int) : Int :=
  let quotient := value.tdiv divisor
  let remainder := value.tmod divisor
  if remainder < 0 then quotient - 1 else quotient

def isLeapYear (year : Int) : Bool :=
  (year.tmod 4 = 0 && year.tmod 100 ≠ 0) || year.tmod 400 = 0

def civilDaysFromEpoch (year : Int) (month day : Nat) : Int :=
  let year := if month ≤ 2 then year - 1 else year
  let era := floorDivide year 400
  let yearOfEra := (year - era * 400).toNat
  let shiftedMonth := if 2 < month then month - 3 else month + 9
  let dayOfYear := (153 * shiftedMonth + 2) / 5 + day - 1
  let dayOfEra := yearOfEra * 365 + yearOfEra / 4 - yearOfEra / 100 + dayOfYear
  era * 146097 + dayOfEra - 719468

def yearOfEra (dayOfEra : Nat) : Nat :=
  (dayOfEra - dayOfEra / 1460 + dayOfEra / 36524 - dayOfEra / 146096) / 365

/-- The year, month and day that `gmtime_r` computes from the days since the epoch. -/
def civilDate (days : Int) : Int × Nat × Nat :=
  let shiftedDays := days + 719468
  let era := floorDivide shiftedDays 146097
  let dayOfEra := (shiftedDays - era * 146097).toNat
  let yearOfEra := yearOfEra dayOfEra
  let year := (yearOfEra : Int) + era * 400
  let dayOfYear := dayOfEra - (365 * yearOfEra + yearOfEra / 4 - yearOfEra / 100)
  let monthPrime := (5 * dayOfYear + 2) / 153
  let day := dayOfYear - (153 * monthPrime + 2) / 5 + 1
  let month := if monthPrime < 10 then monthPrime + 3 else monthPrime - 9
  (if month ≤ 2 then year + 1 else year, month, day)

/-- `days_before_month`, for common years and for leap years. -/
def daysBeforeMonthTable (leap : Bool) : List Nat :=
  if leap then [0, 31, 60, 91, 121, 152, 182, 213, 244, 274, 305, 335]
  else [0, 31, 59, 90, 120, 151, 181, 212, 243, 273, 304, 334]

def intMin : Int := -2 ^ 31

def intMax : Int := 2 ^ 31 - 1

/-- `gmtime_r`; a null pointer is `none`, and what `result` held is overwritten as a whole. -/
def gmtimeR (clock : Option Int) (result : Option Tm) : Except CalendarError Tm :=
  match clock, result with
  | some seconds, some _ =>
    let days := floorDivide seconds 86400
    let daySeconds := seconds - days * 86400
    let (year, month, day) := civilDate days
    if year - 1900 < intMin ∨ intMax < year - 1900 then .error .range
    else
      let wday := (days + 4).tmod 7
      .ok {
        sec := daySeconds.tmod 60
        min := (daySeconds.tdiv 60).tmod 60
        hour := daySeconds.tdiv 3600
        mday := day
        mon := (month : Int) - 1
        year := year - 1900
        wday := if wday < 0 then wday + 7 else wday
        yday := ((daysBeforeMonthTable (isLeapYear year)).getD (month - 1) 0 : Int) + day - 1
        isdst := 0
        gmtoff := 0
        zone := utcName }
  | _, _ => .error .fault

/-- `normalize_component`: the quotient, and the remainder it stores. -/
def normalizeComponent (value divisor : Int) : Int × Int :=
  let quotient := floorDivide value divisor
  (quotient, value - quotient * divisor)

def int64Min : Int := -2 ^ 63

def int64Max : Int := 2 ^ 63 - 1

def fitsTime (value : Int) : Bool := int64Min ≤ value && value ≤ int64Max

/-- `mktime` in a process whose `TZ` is `setting`: what it returns, and the structure it leaves. -/
def mktime (setting : Option (List UInt8)) (value : Option Tm) :
    Except CalendarError Int × Option Tm :=
  match value with
  | none => (.error .fault, none)
  | some value =>
    let year := value.year + 1900 + floorDivide value.mon 12
    let month := value.mon - floorDivide value.mon 12 * 12
    let days := value.mday - 1
    let (carry, seconds) := normalizeComponent value.sec 60
    let days := days + carry
    let minutes := value.min + seconds.tdiv 60
    let seconds := seconds.tmod 60
    let (carry, minutes) := normalizeComponent minutes 60
    let days := days + carry
    let hours := value.hour + minutes.tdiv 60
    let minutes := minutes.tmod 60
    let (carry, hours) := normalizeComponent hours 24
    let days := days + carry
    let hours := hours.tmod 24
    let epochDays := civilDaysFromEpoch year (month.toNat + 1) 1 + days
    if int64Max.tdiv 86400 < epochDays ∨ epochDays < int64Min.tdiv 86400 then
      (.error .range, some value)
    else
      let epochSeconds := epochDays * 86400 + hours * 3600 + minutes * 60 + seconds
      if fitsTime epochSeconds then
        match gmtimeR (some epochSeconds) (some value) with
        | .error e => (.error e, some value)
        | .ok value =>
          let zone := tzset setting
          let utcSeconds := epochSeconds + zone.timezone
          if fitsTime utcSeconds then
            (.ok utcSeconds, some { value with gmtoff := -zone.timezone, zone := zone.standard })
          else (.error .range, some value)
      else (.error .range, some value)

/-! ## What they compute -/

open Gregorian

@[simps]
def brokenDown (m : Moment) : Tm where
  sec := m.second
  min := m.minute
  hour := m.hour
  mday := m.date.day
  mon := (m.date.month : Int) - 1
  year := m.date.year - 1900
  wday := weekday m.date.dayNumber
  yday := m.date.dayOfYear
  isdst := 0
  gmtoff := 0
  zone := utcName

theorem floorDivide_eq (value : Int) (h : 0 < divisor) :
    floorDivide value divisor = value / divisor := by
  have hlow := Int.emod_nonneg value h.ne'
  have hhigh := Int.emod_lt_of_pos value h
  unfold floorDivide
  dsimp only
  rw [Int.tdiv_eq_ediv, Int.tmod_eq_emod, Int.sign_eq_one_of_pos h]
  split_ifs <;> omega

theorem isLeapYear_eq (year : Int) : isLeapYear year = decide (IsLeap year) := by
  have hzero (k : Int) : year.tmod k = 0 ↔ year % k = 0 := by
    rw [← Int.dvd_iff_tmod_eq_zero, ← Int.dvd_iff_emod_eq_zero]
  rw [Bool.eq_iff_iff, decide_eq_true_iff]
  simp [isLeapYear, IsLeap, hzero]

/-! ### From a day to its date -/

/-- An era is four centuries of 36524 days and one more day, which counts to the last of them. -/
theorem yearOfEra_century (h : dayOfEra < 146097) :
    yearOfEra dayOfEra / 100 = dayOfEra / 36524 - dayOfEra / 146096 := by
  have hcentury : dayOfEra / 36524 = 0 ∨ dayOfEra / 36524 = 1 ∨ dayOfEra / 36524 = 2 ∨
      dayOfEra / 36524 = 3 ∨ dayOfEra / 36524 = 4 := by omega
  -- a century has 25 times 1460 days and 24 more
  have hfirst : dayOfEra / 1460 ≤ 25 * (dayOfEra / 36524) ∨
      25 * (dayOfEra / 36524) + 1 ≤ dayOfEra / 1460 := by omega
  have hlast : dayOfEra / 1460 ≤ 25 * (dayOfEra / 36524) + 24 ∨
      25 * (dayOfEra / 36524) + 25 ≤ dayOfEra / 1460 := by omega
  unfold yearOfEra
  rcases hcentury with h | h | h | h | h <;> omega

/-- The day is in the year: not before its start, and not more than 365 days after.  A year that
ends in February has 366 days only if that February has a leap day. -/
theorem yearOfEra_spec (h : dayOfEra < 146097) (hy : yearOfEra dayOfEra = y) :
    (y ≤ 399 ∧ 365 * y + y / 4 - y / 100 ≤ dayOfEra ∧ dayOfEra ≤ 365 * y + y / 4 - y / 100 + 365) ∧
    (dayOfEra = 365 * y + y / 4 - y / 100 + 365 →
      (y + 1) % 4 = 0 ∧ ((y + 1) % 100 ≠ 0 ∨ (y + 1) % 400 = 0)) := by
  have hcentury := yearOfEra_century h
  rw [hy] at hcentury
  have hlow : y / 4 ≤ dayOfEra / 1460 ∨ dayOfEra / 1460 < y / 4 := by omega
  have hhigh : dayOfEra / 1460 ≤ y / 4 ∨ y / 4 + 1 = dayOfEra / 1460 ∨
      y / 4 + 1 < dayOfEra / 1460 := by omega
  have hcases : dayOfEra / 36524 = 0 ∨ dayOfEra / 36524 = 1 ∨ dayOfEra / 36524 = 2 ∨
      dayOfEra / 36524 = 3 ∨ dayOfEra / 36524 = 4 := by omega
  unfold yearOfEra at hy
  constructor
  · rw [hcentury]
    omega
  · intro hlast
    constructor
    · rw [hcentury] at hlast
      clear hcentury hcases
      -- the day in the year is settled before its quarter
      revert hlow hhigh
      omega
    · rcases hcases with h | h | h | h | h <;> omega

theorem marchMonth_cases (h : dayOfYear ≤ 365) (hm : (5 * dayOfYear + 2) / 153 = monthPrime) :
    monthPrime ≤ 11 ∧ (153 * monthPrime + 2) / 5 ≤ dayOfYear ∧
      dayOfYear < (153 * (monthPrime + 1) + 2) / 5 := by
  omega

def calendarMonth (monthPrime : Nat) : Nat :=
  if monthPrime < 10 then monthPrime + 3 else monthPrime - 9

/-- The last month from March on is February; it is as long as its year allows. -/
theorem monthLength_march (year : Int) (hm : (5 * dayOfYear + 2) / 153 = monthPrime)
    (h : dayOfYear ≤ 365) (hleap : dayOfYear = 365 → IsLeap year) :
    dayOfYear - (153 * monthPrime + 2) / 5 + 1 ≤ monthLength year (calendarMonth monthPrime) := by
  have hspec := marchMonth_cases h hm
  unfold calendarMonth
  split
  · -- the length of a month is what separates its start from the next one's
    have hnext := daysBeforeMonth_succ year (Nat.le_add_left 1 (monthPrime + 2))
    have hstart := daysBeforeMonth_eq year (monthPrime + 2 + 1) (by omega)
    have hend := daysBeforeMonth_eq year (monthPrime + 2 + 1 + 1) (by omega)
    rw [if_neg (by omega)] at hstart hend
    rw [show monthPrime + 2 + 1 - 3 = monthPrime by omega] at hstart
    rw [show monthPrime + 2 + 1 + 1 - 3 = monthPrime + 1 by omega] at hend
    change _ ≤ monthLength year (monthPrime + 2 + 1)
    omega
  · have hcases : monthPrime = 10 ∨ monthPrime = 11 := by omega
    rcases hcases with rfl | rfl
    · change _ ≤ 31
      omega
    change _ ≤ if IsLeap year then 29 else 28
    split
    · omega
    · have hshort : dayOfYear ≠ 365 := fun heq => absurd (hleap heq) ‹_›
      omega

def marchDate (era : Int) (y dayOfYear : Nat) (h : dayOfYear ≤ 365)
    (hleap : dayOfYear = 365 → IsLeap (y + era * 400 + 1)) : Date where
  year := if calendarMonth ((5 * dayOfYear + 2) / 153) ≤ 2 then y + era * 400 + 1 else y + era * 400
  month := calendarMonth ((5 * dayOfYear + 2) / 153)
  day := dayOfYear - (153 * ((5 * dayOfYear + 2) / 153) + 2) / 5 + 1
  month_ok := by
    unfold calendarMonth
    split <;> omega
  day_ok := by
    refine ⟨Nat.le_add_left 1 _, ?_⟩
    apply monthLength_march _ rfl h
    intro hlast
    rw [hlast]
    exact hleap hlast

theorem marchDate_dayNumber {era : Int} (hy : y ≤ 399) (h : dayOfYear ≤ 365)
    (hleap : dayOfYear = 365 → IsLeap (y + era * 400 + 1)) :
    (marchDate era y dayOfYear h hleap).dayNumber =
      era * 146097 + (365 * y + y / 4 - y / 100 : Nat) + dayOfYear - 719468 := by
  have hspec := marchMonth_cases h rfl
  have hmonth : (marchDate era y dayOfYear h hleap).marchMonth = (5 * dayOfYear + 2) / 153 := by
    unfold Date.marchMonth marchDate calendarMonth
    dsimp only
    split_ifs <;> omega
  have hyear : (marchDate era y dayOfYear h hleap).marchYear = y + era * 400 := by
    unfold Date.marchYear marchDate
    dsimp only
    split_ifs <;> omega
  have hday : (marchDate era y dayOfYear h hleap).day =
    dayOfYear - (153 * ((5 * dayOfYear + 2) / 153) + 2) / 5 + 1 := rfl
  rw [Date.dayNumber_march, hmonth, hyear, hday]
  unfold daysBeforeMarch
  omega

/-- The date that `gmtime_r` computes is a date of the calendar, and the one of its day. -/
theorem civilDate_spec (days : Int) :
    ∃ d : Date, d.dayNumber = days ∧ civilDate days = (d.year, d.month, d.day) := by
  have hera : floorDivide (days + 719468) 146097 = (days + 719468) / 146097 :=
    floorDivide_eq _ (by decide)
  generalize hdoe : (days + 719468 - (days + 719468) / 146097 * 146097).toNat = dayOfEra
  have hlt : dayOfEra < 146097 := by omega
  obtain ⟨hspec, hleap⟩ := yearOfEra_spec hlt rfl
  generalize hy : yearOfEra dayOfEra = y at hspec hleap
  have hday : dayOfEra - (365 * y + y / 4 - y / 100) ≤ 365 := by omega
  have hlast : dayOfEra - (365 * y + y / 4 - y / 100) = 365 →
      IsLeap (y + (days + 719468) / 146097 * 400 + 1) := by
    intro hlast
    have hyear := hleap (by omega)
    unfold IsLeap
    omega
  refine ⟨marchDate ((days + 719468) / 146097) y _ hday hlast, ?_, ?_⟩
  · rw [marchDate_dayNumber hspec.1]
    omega
  · unfold civilDate
    simp only [hera, hdoe, hy]
    rfl

theorem civilDaysFromEpoch_eq (d : Date) :
    civilDaysFromEpoch d.year d.month 1 + ((d.day : Int) - 1) = d.dayNumber := by
  have hmonth := d.month_ok
  have hday := d.day_ok
  rw [Date.dayNumber_march]
  unfold civilDaysFromEpoch Date.marchYear Date.marchMonth daysBeforeMarch
  simp only [floorDivide_eq _ (show (0 : Int) < 400 by decide)]
  split_ifs <;> omega

/-! ### Both ways -/

theorem daysBeforeMonthTable_eq (d : Date) :
    ((daysBeforeMonthTable (isLeapYear d.year)).getD (d.month - 1) 0 : Int) + d.day - 1 =
      d.dayOfYear := by
  have hmonth := d.month_ok
  have hday := d.day_ok
  have htable : (daysBeforeMonthTable (isLeapYear d.year)).getD (d.month - 1) 0 =
      daysBeforeMonth d.year d.month := by
    obtain ⟨hlow, hhigh⟩ := hmonth
    generalize d.month = month at hlow hhigh ⊢
    rw [isLeapYear_eq]
    by_cases hleap : IsLeap d.year <;> interval_cases month <;>
      simp [hleap, daysBeforeMonthTable, daysBeforeMonth, monthLength]
  rw [htable, Date.dayOfYear]
  push_cast
  omega

theorem gmtimeR_exists (t : Int) : ∃ m : Moment, m.At t ∧ ∀ result : Tm,
    gmtimeR (some t) (some result) =
      if m.date.year - 1900 < intMin ∨ intMax < m.date.year - 1900 then .error .range
      else .ok (brokenDown m) := by
  obtain ⟨d, hday, hdate⟩ := civilDate_spec (t / 86400)
  have hdays : floorDivide t 86400 = t / 86400 := floorDivide_eq _ (by decide)
  refine ⟨⟨d, ((t % 86400) / 3600).toNat, ((t % 86400) / 60 % 60).toNat, (t % 86400 % 60).toNat,
    by omega, by omega, by omega⟩, ?_, ?_⟩
  · rw [Moment.at_iff, hday]
    dsimp only
    omega
  · intro result
    have hseconds : t - t / 86400 * 86400 = t % 86400 := by omega
    have hwday : (if (t / 86400 + 4).tmod 7 < 0 then (t / 86400 + 4).tmod 7 + 7
        else (t / 86400 + 4).tmod 7) = weekday (t / 86400) := by
      rw [Int.tmod_eq_emod, weekday]
      split_ifs <;> omega
    simp only [gmtimeR, hdays, hdate, hseconds, hwday, daysBeforeMonthTable_eq]
    split
    · rfl
    rw [Int.tmod_eq_emod_of_nonneg (by omega), Int.tdiv_eq_ediv_of_nonneg (by omega),
      Int.tdiv_eq_ediv_of_nonneg (by omega), Int.tmod_eq_emod_of_nonneg (by omega)]
    unfold brokenDown
    rw [hday]
    congr 2 <;> dsimp only <;> omega

theorem normalizeComponent_eq (value : Int) (h : 0 < divisor) :
    normalizeComponent value divisor = (value / divisor, value % divisor) := by
  rw [normalizeComponent, floorDivide_eq _ h, Int.emod_def, mul_comm]

theorem dayNumber_bounds {d : Date} (hlow : intMin ≤ d.year - 1900)
    (hhigh : d.year - 1900 ≤ intMax) :
    -800000000000 ≤ d.dayNumber ∧ d.dayNumber ≤ 800000000000 := by
  have hlt := d.dayOfYear_lt
  unfold intMin at hlow
  unfold intMax at hhigh
  unfold daysBeforeYear at hlt
  unfold Date.dayNumber daysBeforeYear
  omega

/-- The first day of the month that `tm_year` and `tm_mon` name, months carried into years. -/
def monthStart (tm : Tm) : Date where
  year := tm.year + 1900 + tm.mon / 12
  month := (tm.mon % 12).toNat + 1
  day := 1
  month_ok := by omega
  day_ok := ⟨le_rfl, monthLength_pos _ _⟩

/-- The second of local time that the fields name, each carried into the next larger unit. -/
def carriedSeconds (tm : Tm) : Int :=
  ((monthStart tm).dayNumber + (tm.mday - 1)) * 86400 + tm.hour * 3600 + tm.min * 60 + tm.sec

/-- The second that `mktime` comes to: minutes and hours out of the fields below count as days. -/
def reachedSeconds (tm : Tm) : Int :=
  carriedSeconds tm + 60 * (1439 * (tm.sec / 60) + 1380 * (tm.min / 60))

/-- The structure that `mktime` leaves in a zone. -/
def zoned (zone : Zone) (m : Moment) : Tm :=
  { brokenDown m with gmtoff := -zone.timezone, zone := zone.standard }

def YearFits (m : Moment) : Prop := intMin ≤ m.date.year - 1900 ∧ m.date.year - 1900 ≤ intMax

theorem timezone_bounds (setting : Option (List UInt8)) :
    -90000 ≤ (tzset setting).timezone ∧ (tzset setting).timezone ≤ 90000 := by
  have hutc : -90000 ≤ utcZone.timezone ∧ utcZone.timezone ≤ 90000 := by decide
  unfold tzset
  dsimp only
  split
  · exact hutc
  generalize hourDigits 3 0 _ = hours
  split
  · exact hutc
  split_ifs with hbig
  · exact hutc
  · split <;> dsimp only <;> omega

theorem mktime_eq (setting : Option (List UInt8)) (tm : Tm) {m : Moment}
    (hat : m.At (reachedSeconds tm)) :
    (YearFits m → mktime setting (some tm) = (.ok (reachedSeconds tm + (tzset setting).timezone),
      some (zoned (tzset setting) m))) ∧
    (¬ YearFits m → (mktime setting (some tm)).1 = .error .range) := by
  have hhour := m.hour_lt
  have hminute := m.minute_lt
  have hsecond := m.second_lt
  have htime := Moment.at_iff.mp hat
  have hzone := timezone_bounds setting
  have hstart : civilDaysFromEpoch (tm.year + 1900 + tm.mon / 12)
      ((tm.mon - tm.mon / 12 * 12).toNat + 1) 1 = (monthStart tm).dayNumber := by
    rw [show tm.mon - tm.mon / 12 * 12 = tm.mon % 12 by omega, ← civilDaysFromEpoch_eq]
    exact (add_zero _).symm
  have hdiv (value k : Int) (hk : 0 < k) :
      (value % k).tdiv k = 0 ∧ (value % k).tmod k = value % k := by
    have hlow := Int.emod_nonneg value hk.ne'
    have hhigh := Int.emod_lt_of_pos value hk
    exact ⟨Int.tdiv_eq_zero_of_lt hlow hhigh, Int.tmod_eq_of_lt hlow hhigh⟩
  -- the days and the rest of a day that the code adds up
  have hdays : (monthStart tm).dayNumber + (tm.mday - 1 + tm.sec / 60 + tm.min / 60 +
      tm.hour / 24) = m.date.dayNumber := by
    unfold reachedSeconds carriedSeconds at htime
    omega
  have hsum : m.date.dayNumber * 86400 + tm.hour % 24 * 3600 + tm.min % 60 * 60 + tm.sec % 60 =
      reachedSeconds tm := by
    rw [← hdays]
    unfold reachedSeconds carriedSeconds
    omega
  obtain ⟨m', hat', hgmtime⟩ := gmtimeR_exists (reachedSeconds tm)
  rw [hat'.unique hat] at hgmtime
  simp only [mktime, normalizeComponent_eq _ (show (0 : Int) < 60 by decide),
    normalizeComponent_eq _ (show (0 : Int) < 24 by decide),
    floorDivide_eq _ (show (0 : Int) < 12 by decide), hdiv _ 60 (by decide), hdiv _ 24 (by decide),
    add_zero, hstart, hdays, hsum, hgmtime]
  constructor
  · rintro ⟨hlow, hhigh⟩
    have hbounds := dayNumber_bounds hlow hhigh
    have hmax : int64Max.tdiv 86400 = 106751991167300 := by decide
    have hmin : int64Min.tdiv 86400 = -106751991167300 := by decide
    have hfits (value : Int) (h : -2 ^ 62 ≤ value ∧ value ≤ 2 ^ 62) : fitsTime value := by
      rw [fitsTime, Bool.and_eq_true, decide_eq_true_iff, decide_eq_true_iff]
      unfold int64Min int64Max
      omega
    rw [if_neg (by omega), if_pos (hfits _ (by omega)), if_neg (by omega)]
    exact if_pos (hfits _ (by omega))
  · intro hunfit
    rw [YearFits] at hunfit
    split_ifs
    all_goals first
      | rfl
      | omega

/-- `mktime` of a moment's own fields: nothing is carried. -/
theorem mktime_brokenDown {m : Moment} {t : Int} (hat : m.At t) (hfits : YearFits m)
    {setting : Option (List UInt8)} (hutc : (tzset setting).timezone = 0) :
    (mktime setting (some (brokenDown m))).1 = .ok t := by
  have hmonth := m.date.month_ok
  have hday := m.date.day_ok
  have hminute := m.minute_lt
  have hsecond := m.second_lt
  have htime := Moment.at_iff.mp hat
  have hstart : (monthStart (brokenDown m)).dayNumber + (m.date.day - 1) = m.date.dayNumber := by
    have hyear : (monthStart (brokenDown m)).year = m.date.year := by
      simp only [monthStart, brokenDown_year, brokenDown_mon]
      omega
    have hmon : (monthStart (brokenDown m)).month = m.date.month := by
      simp only [monthStart, brokenDown_mon]
      omega
    simp only [Date.dayNumber, Date.dayOfYear, hyear, hmon]
    simp only [monthStart]
    push_cast
    omega
  have hreached : reachedSeconds (brokenDown m) = t := by
    simp only [reachedSeconds, carriedSeconds, brokenDown_sec, brokenDown_min, brokenDown_hour,
      brokenDown_mday]
    omega
  rw [(mktime_eq setting _ (hreached ▸ hat)).1 hfits, hreached, hutc, add_zero]

/-- Every second has one date and time of day in the calendar.  If its year fits the structure,
`gmtime_r` stores exactly that date and time, and in a zone without offset `mktime` takes them back
to the same second. -/
theorem gmtimeR_mktime (t : Int) : (∃! m : Moment, m.At t) ∧
    ∀ m : Moment, m.At t → intMin ≤ m.date.year - 1900 → m.date.year - 1900 ≤ intMax →
      (∀ result : Tm, gmtimeR (some t) (some result) = .ok (brokenDown m)) ∧
      ∀ setting : Option (List UInt8), (tzset setting).timezone = 0 →
        (mktime setting (some (brokenDown m))).1 = .ok t := by
  obtain ⟨m', hat', hresult⟩ := gmtimeR_exists t
  constructor
  · exact ⟨m', hat', fun m hat => hat.unique hat'⟩
  · intro m hat hlow hhigh
    rw [hat'.unique hat] at hresult
    constructor
    · intro result
      rw [hresult, if_neg (by omega)]
    · intro setting hutc
      exact mktime_brokenDown hat ⟨hlow, hhigh⟩ hutc

/-- What `mktime` should do with any fields. -/
def Normalizes (setting : Option (List UInt8)) (tm : Tm) : Prop :=
  ∃ m : Moment, m.At (carriedSeconds tm) ∧ mktime setting (some tm) =
    (.ok (carriedSeconds tm + (tzset setting).timezone), some (zoned (tzset setting) m))

/-- Seconds and minutes out of range are carried rightly only where their days cancel out. -/
theorem mktime_normalizes_iff (setting : Option (List UInt8)) (tm : Tm) : Normalizes setting tm ↔
    1439 * (tm.sec / 60) + 1380 * (tm.min / 60) = 0 ∧
      ∃ m : Moment, m.At (carriedSeconds tm) ∧ YearFits m := by
  constructor
  · rintro ⟨m, hat, hresult⟩
    obtain ⟨reached, hreached, -⟩ := gmtimeR_exists (reachedSeconds tm)
    obtain ⟨hok, herror⟩ := mktime_eq setting tm hreached
    by_cases hfits : YearFits reached
    · rw [hok hfits] at hresult
      have hsum := Except.ok.inj (Prod.mk.inj hresult).1
      have hsame : reachedSeconds tm = carriedSeconds tm := by omega
      rw [hsame] at hreached
      rw [reachedSeconds] at hsame
      exact ⟨by omega, reached, hreached, hfits⟩
    · have hrange := herror hfits
      rw [hresult] at hrange
      cases hrange
  · rintro ⟨hzero, m, hat, hfits⟩
    have hsame : reachedSeconds tm = carriedSeconds tm := by
      rw [reachedSeconds, hzero, mul_zero, add_zero]
    refine ⟨m, hat, ?_⟩
    rw [(mktime_eq setting tm (hsame ▸ hat)).1 hfits, hsame]

/-- The second after the first minute of the epoch, as its sixtieth. -/
def sixtiethSecond : Tm := ⟨60, 0, 0, 1, 0, 70, 0, 0, 0, 0, []⟩

theorem sixtieth_second_is_a_day : (mktime none (some sixtiethSecond)).1 = .ok 86400 ∧
    ¬ Normalizes none sixtiethSecond := by
  have hday : (mktime none (some sixtiethSecond)).1 = .ok 86400 := rfl
  refine ⟨hday, ?_⟩
  rintro ⟨m, -, hresult⟩
  rw [hresult] at hday
  exact absurd (Except.ok.inj hday) (by decide)

def lastSecond : Moment where
  date := ⟨1969, 12, 31, december_ok, by decide⟩
  hour := 23
  minute := 59
  second := 59
  hour_lt := by decide
  minute_lt := by decide
  second_lt := by decide

theorem gmtimeR_mktime_lastSecond : lastSecond.At (-1) ∧ (tzset none).timezone = 0 ∧
    (brokenDown lastSecond).wday = 3 ∧ (brokenDown lastSecond).yday = 364 ∧
    (mktime none (some (brokenDown lastSecond))).1 = .ok (-1) := by
  have hat : lastSecond.At (-1) := Moment.at_iff.mpr (by decide)
  have hutc : (tzset none).timezone = 0 := by decide
  refine ⟨hat, hutc, by decide, by decide, ?_⟩
  exact ((gmtimeR_mktime (-1)).2 lastSecond hat (by decide) (by decide)).2 none hutc

end XsCore.Libc
