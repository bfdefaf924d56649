import Mathlib.Order.Monotone.Basic

namespace Odyssey.Dates

/-- Doubles are taken to be exact, so that the floor of a quotient of integers is their `/`. An int is any
    integer where it is not cast from a double. -/
def msPerDay : Int := 86400000

def staticCastInt (value : Int) : Int := value.bmod 4294967296

def firstDayOfMonth (leapYear : Bool) : List Int :=
  if leapYear then [0, 31, 60, 91, 121, 152, 182, 213, 244, 274, 305, 335]
  else [0, 31, 59, 90, 120, 151, 181, 212, 243, 273, 304, 334]

def isLeapYear (year : Int) : Bool :=
  if year.tmod 4 ≠ 0 then false
  else if year.tmod 400 = 0 then true
  else if year.tmod 100 = 0 then false
  else true

def daysInYear (year : Int) : Int := 365 + (isLeapYear year).toNat

def daysFrom1970ToYear (year : Int) : Int :=
  let yearMinusOne := year - 1
  let yearsToAddBy4Rule := yearMinusOne / 4 - 1970 / 4
  let yearsToExcludeBy100Rule := yearMinusOne / 100 - 1970 / 100
  let yearsToAddBy400Rule := yearMinusOne / 400 - 1970 / 400
  365 * (year - 1970) + yearsToAddBy4Rule - yearsToExcludeBy100Rule + yearsToAddBy400Rule

def msToDays (ms : Int) : Int := ms / msPerDay

/-- The mean year of 365.2425 days is written in ten thousandths of a day. -/
def msToYear (ms : Int) : Int :=
  let approxYear := staticCastInt (ms * 10000 / (msPerDay * 3652425) + 1970)
  let msFromApproxYearTo1970 := msPerDay * daysFrom1970ToYear approxYear
  if msFromApproxYearTo1970 > ms then approxYear - 1
  else if msFromApproxYearTo1970 + msPerDay * daysInYear approxYear ≤ ms then approxYear + 1
  else approxYear

def dayInYear (ms year : Int) : Int := staticCastInt (msToDays ms - daysFrom1970ToYear year)

/-- The lengths of the months from February to November. -/
def innerMonths (leapYear : Bool) : List Int := [if leapYear then 29 else 28, 31, 30, 31, 30, 31, 31, 30, 31, 30]

def monthFrom (day month step : Int) : List Int → Int
  | [] => if day < step then month else month + 1
  | days :: rest => if day < step then month else monthFrom day (month + 1) (step + days) rest

def monthFromDayInYear (dayInYear : Int) (leapYear : Bool) : Int :=
  monthFrom dayInYear 0 31 (innerMonths leapYear)

/-- The calls of `checkMonth`. -/
def dayInMonthFrom (day next : Int) : List Int → Int
  | [] => day - next
  | days :: rest => if day ≤ next + days then day - next else dayInMonthFrom day (next + days) rest

def dayInMonthFromDayInYear (dayInYear : Int) (leapYear : Bool) : Int :=
  if dayInYear ≤ 30 then dayInYear + 1 else dayInMonthFrom dayInYear 30 (innerMonths leapYear)

def dayOfDate (year month day : Int) : Int := (firstDayOfMonth (isLeapYear year)).getD month.toNat 0 + day - 1

def dateToDaysFrom1970 (year month day : Int) : Int :=
  let year := year + month.tdiv 12
  let month := month.tmod 12
  let (year, month) := if month < 0 then (year - 1, month + 12) else (year, month)
  daysFrom1970ToYear year + dayOfDate year month day

/-- The rule of the Gregorian calendar. -/
def Leap (year : Int) : Prop := 4 ∣ year ∧ (100 ∣ year → 400 ∣ year)

instance (year : Int) : Decidable (Leap year) := inferInstanceAs (Decidable (_ ∧ _))

def monthLength (leap : Bool) (month : Int) : Int :=
  if month = 1 then if leap then 29 else 28 else if month ∈ [3, 5, 8, 10] then 30 else 31

def validInYear (leap : Bool) (month day : Int) : Bool :=
  0 ≤ month ∧ month < 12 ∧ 1 ≤ day ∧ day ≤ monthLength leap month

def nextInYear (leap : Bool) (month day : Int) : Option (Int × Int) :=
  if day < monthLength leap month then some (month, day + 1)
  else if month < 11 then some (month + 1, 1)
  else none

structure Date where
  year : Int
  month : Int
  day : Int
  deriving DecidableEq

def Date.Valid (date : Date) : Prop := validInYear (Leap date.year) date.month date.day = true

def Date.next (date : Date) : Date :=
  match nextInYear (Leap date.year) date.month date.day with
  | some (month, day) => { date with month, day }
  | none => ⟨date.year + 1, 0, 1⟩

def dateInYear (year day : Int) : Date :=
  ⟨year, monthFromDayInYear day (isLeapYear year), dayInMonthFromDayInYear day (isLeapYear year)⟩

def dateOf (ms : Int) : Date := dateInYear (msToYear ms) (dayInYear ms (msToYear ms))

theorem isLeapYear_eq (year : Int) : isLeapYear year = decide (Leap year) := by
  simp only [isLeapYear, Leap, Int.dvd_iff_tmod_eq_zero]
  grind

theorem daysFrom1970ToYear_succ (year : Int) :
    daysFrom1970ToYear (year + 1) = daysFrom1970ToYear year + daysInYear year := by
  rw [daysFrom1970ToYear, daysFrom1970ToYear, daysInYear, isLeapYear_eq]
  by_cases leap : Leap year
  · rw [decide_eq_true leap, Bool.toNat_true]
    unfold Leap at leap
    omega
  · rw [decide_eq_false leap, Bool.toNat_false]
    unfold Leap at leap
    omega

theorem daysFrom1970ToYear_le {a b : Int} (le : a ≤ b) : daysFrom1970ToYear a ≤ daysFrom1970ToYear b := by
  apply monotone_int_of_le_succ _ le
  intro year
  rw [daysFrom1970ToYear_succ, daysInYear]
  omega

theorem le_year {day a b : Int} (starts : daysFrom1970ToYear a ≤ day) (ends : day < daysFrom1970ToYear (b + 1)) :
    a ≤ b := by
  by_contra later
  have := daysFrom1970ToYear_le (Int.add_one_le_of_lt (not_le.mp later))
  omega

theorem staticCastInt_eq {value : Int} (low : -2147483648 ≤ value) (high : value < 2147483648) :
    staticCastInt value = value :=
  Int.bmod_eq_of_le (by omega) (by omega)

theorem dayInYear_eq {ms year : Int} (starts : daysFrom1970ToYear year ≤ ms / 86400000)
    (ends : ms / 86400000 < daysFrom1970ToYear (year + 1)) :
    dayInYear ms year = ms / 86400000 - daysFrom1970ToYear year := by
  have short : daysInYear year ≤ 366 := Int.add_le_add_left (Int.ofNat_le.mpr (isLeapYear year).toNat_le) 365
  rw [daysFrom1970ToYear_succ] at ends
  rw [dayInYear, msToDays, msPerDay, staticCastInt_eq (by omega) (by omega)]

section InRange

variable {ms : Int} (low : -8640000000000000 ≤ ms) (high : ms ≤ 8640000086400000)
include low high

/-- The mean year drifts from the years by less than one. -/
theorem msToYear_contains : daysFrom1970ToYear (msToYear ms) ≤ ms / 86400000 ∧
    ms / 86400000 < daysFrom1970ToYear (msToYear ms + 1) := by
  have next := daysFrom1970ToYear_succ (ms * 10000 / (msPerDay * 3652425) + 1970)
  unfold msPerDay at next
  rw [msToYear, staticCastInt_eq (by unfold msPerDay; omega) (by unfold msPerDay; omega)]
  unfold msPerDay
  split_ifs with early late
  · rw [Int.sub_add_cancel]
    simp only [daysFrom1970ToYear] at *
    omega
  · simp only [daysFrom1970ToYear] at *
    omega
  · omega

theorem dateOf_eq {year : Int} (starts : daysFrom1970ToYear year ≤ ms / 86400000)
    (ends : ms / 86400000 < daysFrom1970ToYear (year + 1)) :
    dateOf ms = dateInYear year (ms / 86400000 - daysFrom1970ToYear year) := by
  have contains := msToYear_contains low high
  rw [dateOf, le_antisymm (le_year contains.1 ends) (le_year starts contains.2), dayInYear_eq starts ends]

end InRange

/-- The tables of months agree, day by day, with the lengths of the months. -/
theorem months_agree : ∀ leap : Bool, ∀ day < 365 + leap.toNat,
    let month := monthFromDayInYear day leap
    let dayInMonth := dayInMonthFromDayInYear day leap
    validInYear leap month dayInMonth = true ∧
      (firstDayOfMonth leap).getD month.toNat 0 + dayInMonth - 1 = day ∧
      nextInYear leap month dayInMonth = if day + 1 < 365 + leap.toNat then
        some (monthFromDayInYear (day + 1) leap, dayInMonthFromDayInYear (day + 1) leap) else none := by
  decide +kernel

theorem dateInYear_spec {year day : Int} (first : 0 ≤ day) (last : day < daysInYear year) :
    (dateInYear year day).Valid ∧ dayOfDate year (dateInYear year day).month (dateInYear year day).day = day ∧
      (dateInYear year day).next =
        if day + 1 < daysInYear year then dateInYear year (day + 1) else dateInYear (year + 1) 0 := by
  obtain ⟨day, rfl⟩ := Int.eq_ofNat_of_zero_le first
  unfold daysInYear at last ⊢
  obtain ⟨valid, same, follows⟩ := months_agree (isLeapYear year) day (by omega)
  have leap : decide (Leap (dateInYear year day).year) = isLeapYear year := (isLeapYear_eq year).symm
  refine ⟨?_, same, ?_⟩
  · rw [Date.Valid, leap]
    exact valid
  · rw [Date.next, leap]
    simp only [dateInYear, follows]
    split_ifs <;> first | rfl | omega

theorem dateToDaysFrom1970_eq (year month day : Int) : dateToDaysFrom1970 year month day =
    daysFrom1970ToYear (year + month / 12) + dayOfDate (year + month / 12) (month % 12) day := by
  have whole := Int.mul_tdiv_add_tmod month 12
  have above := @Int.tmod_lt_of_pos month 12 (by decide)
  have below := @Int.lt_tmod_of_pos month 12 (by decide)
  simp only [dateToDaysFrom1970]
  split
  · rw [show year + month.tdiv 12 - 1 = year + month / 12 by omega, show month.tmod 12 + 12 = month % 12 by omega]
  · rw [show month.tdiv 12 = month / 12 by omega, show month.tmod 12 = month % 12 by omega]

theorem calendar_conversions {ms : Int} (range : ms.natAbs ≤ 8640000000000000) :
    (∃ start : Int → Int, start 1970 = 0 ∧
      (∀ year, start (year + 1) = start year + if Leap year then 366 else 365) ∧
      start (dateOf ms).year ≤ ms / 86400000 ∧ ms / 86400000 < start ((dateOf ms).year + 1)) ∧
    (dateOf ms).Valid ∧
    dateToDaysFrom1970 (dateOf ms).year (dateOf ms).month (dateOf ms).day = ms / 86400000 ∧
    dateOf (ms + 86400000) = (dateOf ms).next ∧
    ∀ year month day, dateToDaysFrom1970 year month day =
      dateToDaysFrom1970 (year + month / 12) (month % 12) day := by
  obtain ⟨starts, ends⟩ := @msToYear_contains ms (by omega) (by omega)
  have later := daysFrom1970ToYear_succ (msToYear ms)
  have carry (year month day : Int) : dateToDaysFrom1970 year month day =
      dateToDaysFrom1970 (year + month / 12) (month % 12) day := by
    rw [dateToDaysFrom1970_eq, dateToDaysFrom1970_eq, Int.emod_emod,
      Int.ediv_eq_zero_of_lt (Int.emod_nonneg _ (by decide)) (Int.emod_lt_of_pos _ (by decide)), Int.add_zero]
  rw [dateOf_eq (by omega) (by omega) starts ends]
  obtain ⟨valid, same, next⟩ := @dateInYear_spec (msToYear ms)
    (ms / 86400000 - daysFrom1970ToYear (msToYear ms)) (by omega) (by omega)
  refine ⟨⟨daysFrom1970ToYear, by decide, ?_, starts, ends⟩, valid, ?_, ?_, carry⟩
  · intro year
    rw [daysFrom1970ToYear_succ, daysInYear, isLeapYear_eq]
    split <;> simp_all
  · have months := of_decide_eq_true valid
    rw [dateToDaysFrom1970_eq, Int.ediv_eq_zero_of_lt months.1 months.2.1,
      Int.emod_eq_of_lt months.1 months.2.1, Int.add_zero]
    show daysFrom1970ToYear (msToYear ms) + dayOfDate (msToYear ms) _ _ = _
    omega
  · rw [next]
    split
    · rw [@dateOf_eq _ (by omega) (by omega) (msToYear ms) (by omega) (by omega)]
      exact congrArg _ (by omega)
    · have long := daysFrom1970ToYear_succ (msToYear ms + 1)
      unfold daysInYear at long
      rw [@dateOf_eq _ (by omega) (by omega) (msToYear ms + 1) (by omega) (by omega)]
      exact congrArg _ (by omega)

theorem leap_day_conversions : (951782400000 : Int).natAbs ≤ 8640000000000000 ∧
    dateOf 951782400000 = ⟨2000, 1, 29⟩ ∧ dateOf (951782400000 + 86400000) = (dateOf 951782400000).next :=
  ⟨by decide, by decide +kernel, (calendar_conversions (by decide)).2.2.2.1⟩

end Odyssey.Dates
