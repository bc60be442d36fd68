import Mathlib.Tactic.IntervalCases

/-! # The proleptic Gregorian calendar

Dates before and after the epoch, by the leap-year rule alone.  `OnDay n d` counts days from the
epoch, forward and backward; `dayNumber` is its closed form.  The second closed form counts years
from March, so that the leap day is the last day of a year.
-/

namespace Gregorian

variable (year : Int) (d : Date)

/-- Every fourth year, but of the full centuries only every fourth. -/
def IsLeap (year : Int) : Prop := (year % 4 = 0 ∧ year % 100 ≠ 0) ∨ year % 400 = 0

instance (year : Int) : Decidable (IsLeap year) := by
  unfold IsLeap
  infer_instance

def monthLength (year : Int) : Nat → Nat
  | 2 => if IsLeap year then 29 else 28
  | 4 | 6 | 9 | 11 => 30
  | _ => 31

@[ext]
structure Date where
  year : Int
  month : Nat
  day : Nat
  month_ok : 1 ≤ month ∧ month ≤ 12
  day_ok : 1 ≤ day ∧ day ≤ monthLength year month

def epoch : Date where
  year := 1970
  month := 1
  day := 1
  month_ok := by decide
  day_ok := by decide

theorem monthLength_pos (month : Nat) : 1 ≤ monthLength year month := by
  unfold monthLength
  split
  · split <;> omega
  all_goals omega

def Date.next (d : Date) : Date :=
  if hday : d.day < monthLength d.year d.month then
    ⟨d.year, d.month, d.day + 1, d.month_ok, by have := d.day_ok; omega⟩
  else if hmonth : d.month < 12 then
    ⟨d.year, d.month + 1, 1, by omega, le_refl 1, monthLength_pos _ _⟩
  else
    ⟨d.year + 1, 1, 1, by decide, le_refl 1, monthLength_pos _ _⟩

theorem december_ok : 1 ≤ 12 ∧ 12 ≤ 12 := by decide

def Date.previous (d : Date) : Date :=
  if hday : 1 < d.day then
    ⟨d.year, d.month, d.day - 1, d.month_ok, by have := d.day_ok; omega⟩
  else if hmonth : 1 < d.month then
    ⟨d.year, d.month - 1, monthLength d.year (d.month - 1), by have := d.month_ok; omega,
      monthLength_pos _ _, le_refl _⟩
  else
    ⟨d.year - 1, 12, 31, december_ok, by decide, le_refl 31⟩

theorem Date.previous_next : d.previous.next = d := by
  have hmonth := d.month_ok
  have hday := d.day_ok
  unfold Date.previous
  split
  · rw [Date.next, dif_pos (by dsimp only; omega)]
    ext
    · rfl
    · rfl
    · dsimp only
      omega
  split
  · rw [Date.next, dif_neg (by simp), dif_pos (by dsimp only; omega)]
    ext
    · rfl
    · dsimp only
      omega
    · dsimp only
      omega
  · rw [Date.next, dif_neg (by simp [monthLength]), dif_neg (by simp)]
    ext
    all_goals
      dsimp only
      omega

/-- `d` is the date `n` days after the epoch, or before it if `n` is negative. -/
inductive OnDay : Int → Date → Prop where
  | epoch : OnDay 0 epoch
  | next {n : Int} {d : Date} : OnDay n d → OnDay (n + 1) d.next
  | previous {n : Int} {d : Date} : OnDay (n + 1) d.next → OnDay n d

/-! ## The closed form -/

def daysBeforeYear (year : Int) : Int :=
  365 * (year - 1) + (year - 1) / 4 - (year - 1) / 100 + (year - 1) / 400

def daysBeforeMonth (year : Int) : Nat → Nat
  | 0 => 0
  | 1 => 0
  | month + 2 => daysBeforeMonth year (month + 1) + monthLength year (month + 1)

def Date.dayOfYear (d : Date) : Nat := daysBeforeMonth d.year d.month + (d.day - 1)

def Date.dayNumber (d : Date) : Int := daysBeforeYear d.year + d.dayOfYear - 719162

theorem daysBeforeYear_succ :
    daysBeforeYear (year + 1) = daysBeforeYear year + if IsLeap year then 366 else 365 := by
  unfold daysBeforeYear
  split_ifs with h
  all_goals
    unfold IsLeap at h
    omega

theorem daysBeforeMonth_succ {month : Nat} (h : 1 ≤ month) :
    daysBeforeMonth year (month + 1) = daysBeforeMonth year month + monthLength year month := by
  rcases month with _ | month
  · omega
  · rfl

theorem daysBeforeMonth_eq (month : Nat) (h : 1 ≤ month ∧ month ≤ 13) : daysBeforeMonth year month =
      if month ≤ 2 then 31 * (month - 1)
      else (153 * (month - 3) + 2) / 5 + 59 + if IsLeap year then 1 else 0 := by
  obtain ⟨hlow, hhigh⟩ := h
  interval_cases month
  all_goals
    simp only [daysBeforeMonth, monthLength]
    split_ifs <;> omega

theorem dayNumber_epoch : epoch.dayNumber = 0 := by decide

theorem Date.dayNumber_next : d.next.dayNumber = d.dayNumber + 1 := by
  have hmonth := d.month_ok
  have hday := d.day_ok
  have hsucc := daysBeforeMonth_succ d.year hmonth.1
  unfold Date.next dayNumber dayOfYear
  split
  · push_cast
    omega
  rename_i hlast
  split
  · simp only [hsucc]
    push_cast
    omega
  have htwelve : d.month = 12 := by omega
  have hall := daysBeforeMonth_eq d.year 13 (by omega)
  rw [htwelve] at hsucc hday hlast
  rw [hsucc] at hall
  simp only [daysBeforeYear_succ, htwelve, daysBeforeMonth_eq _ 1 (by omega)]
  split_ifs at hall ⊢ <;> omega

theorem Date.dayOfYear_lt : daysBeforeYear d.year + d.dayOfYear < daysBeforeYear (d.year + 1) := by
  have hmonth := d.month_ok
  have hday := d.day_ok
  have hend := daysBeforeMonth_succ d.year hmonth.1
  have hall := daysBeforeMonth_eq d.year (d.month + 1) (by omega)
  rw [daysBeforeYear_succ, dayOfYear]
  split_ifs at hall ⊢ <;> omega

theorem daysBeforeYear_le {a b : Int} (h : a ≤ b) : daysBeforeYear a ≤ daysBeforeYear b := by
  unfold daysBeforeYear
  omega

theorem daysBeforeMonth_le {a b : Nat} (ha : 1 ≤ a) (h : a ≤ b) :
    daysBeforeMonth year a ≤ daysBeforeMonth year b := by
  induction b, h using Nat.le_induction with
  | base => exact le_refl _
  | succ b hb ih =>
    rw [daysBeforeMonth_succ year (ha.trans hb)]
    omega

/-- Two dates on one day are one date: first the years agree, then the months. -/
theorem Date.dayNumber_injective {a b : Date} (h : a.dayNumber = b.dayNumber) : a = b := by
  have hleft := a.dayOfYear_lt
  have hright := b.dayOfYear_lt
  unfold dayNumber at h
  have hyear : a.year = b.year := by
    rcases lt_trichotomy a.year b.year with hlt | heq | hlt
    · have := daysBeforeYear_le (Int.add_one_le_of_lt hlt)
      omega
    · exact heq
    · have := daysBeforeYear_le (Int.add_one_le_of_lt hlt)
      omega
  have ha := a.month_ok
  have hb := b.month_ok
  have hda := a.day_ok
  have hdb := b.day_ok
  have hsa := daysBeforeMonth_succ b.year ha.1
  have hsb := daysBeforeMonth_succ b.year hb.1
  rw [dayOfYear, dayOfYear, hyear] at h
  rw [hyear] at hda
  have hmonth : a.month = b.month := by
    rcases lt_trichotomy a.month b.month with hlt | heq | hlt
    · have := daysBeforeMonth_le b.year (Nat.le_add_left 1 a.month) hlt
      omega
    · exact heq
    · have := daysBeforeMonth_le b.year (Nat.le_add_left 1 b.month) hlt
      omega
  rw [hmonth] at h
  ext
  · exact hyear
  · exact hmonth
  · omega

theorem OnDay.exists (n : Int) : ∃ d, OnDay n d := by
  induction n with
  | zero => exact ⟨_, .epoch⟩
  | succ n ih =>
    obtain ⟨d, hd⟩ := ih
    exact ⟨d.next, hd.next⟩
  | pred n ih =>
    obtain ⟨d, hd⟩ := ih
    refine ⟨d.previous, .previous ?_⟩
    rw [d.previous_next, sub_add_cancel]
    exact hd

/-- Counting days from the epoch is what `dayNumber` computes. -/
theorem onDay_iff {n : Int} {d : Date} : OnDay n d ↔ d.dayNumber = n := by
  have hforward : ∀ {n d}, OnDay n d → d.dayNumber = n := by
    intro n d h
    induction h with
    | epoch => exact dayNumber_epoch
    | next _ ih => rw [Date.dayNumber_next, ih]
    | previous _ ih =>
      rw [Date.dayNumber_next] at ih
      omega
  constructor
  · exact hforward
  · intro h
    obtain ⟨d', hd'⟩ := OnDay.exists n
    rw [Date.dayNumber_injective (h.trans (hforward hd').symm)]
    exact hd'

/-! ## Days of the week and times of the day -/

/-- Counted from Sunday; the epoch was a Thursday. -/
def weekday (n : Int) : Int := (n + 4) % 7

@[ext]
structure Moment where
  date : Date
  hour : Nat
  minute : Nat
  second : Nat
  hour_lt : hour < 24
  minute_lt : minute < 60
  second_lt : second < 60

/-- `m` is the moment `t` seconds after the epoch. -/
def Moment.At (m : Moment) (t : Int) : Prop :=
  ∃ n, OnDay n m.date ∧ t = n * 86400 + (m.hour * 3600 + m.minute * 60 + m.second)

theorem Moment.at_iff {m : Moment} {t : Int} :
    m.At t ↔ t = m.date.dayNumber * 86400 + (m.hour * 3600 + m.minute * 60 + m.second) := by
  constructor
  · rintro ⟨n, hday, rfl⟩
    rw [onDay_iff.mp hday]
  · intro h
    exact ⟨m.date.dayNumber, onDay_iff.mpr rfl, h⟩

theorem Moment.At.unique {a b : Moment} {t : Int} (ha : a.At t) (hb : b.At t) : a = b := by
  have htimes := (at_iff.mp ha).symm.trans (at_iff.mp hb)
  have h1 := a.hour_lt
  have h2 := a.minute_lt
  have h3 := a.second_lt
  have h4 := b.hour_lt
  have h5 := b.minute_lt
  have h6 := b.second_lt
  have hday : a.date.dayNumber = b.date.dayNumber := by omega
  ext1
  · exact Date.dayNumber_injective hday
  all_goals omega

/-! ## Years from March -/

def daysBeforeMarch (year : Int) : Int := 365 * year + year / 4 - year / 100 + year / 400

def Date.marchYear (d : Date) : Int := if d.month ≤ 2 then d.year - 1 else d.year

def Date.marchMonth (d : Date) : Nat := if d.month ≤ 2 then d.month + 9 else d.month - 3

theorem Date.dayNumber_march : d.dayNumber =
      daysBeforeMarch d.marchYear + (153 * d.marchMonth + 2) / 5 + (d.day - 1) - 719468 := by
  have hmonth := d.month_ok
  have hday := d.day_ok
  have hleap := daysBeforeYear_succ d.year
  unfold dayNumber dayOfYear marchYear marchMonth
  rw [daysBeforeMonth_eq d.year d.month (by omega)]
  unfold daysBeforeYear daysBeforeMarch at *
  split_ifs at hleap ⊢ <;> omega

end Gregorian
