import Mathlib.Data.List.Basic
import Odyssey.Dates.DateMath

namespace Odyssey.Dates

open List Nat

def minimumYear : Int := 1

def maximumYear : Int := 275760

/-- The week of 275760-09-13. -/
def maximumWeekInMaximumYear : Int := 37

/-- Zeller's congruence, with Sunday as day 0 and January as month 0. -/
def dayOfWeek (year month day : Int) : Int :=
  let shiftedMonth := month + 2
  let (shiftedMonth, year) := if shiftedMonth ≤ 3 then (shiftedMonth + 12, year - 1) else (shiftedMonth, year)
  let highYear := year.tdiv 100
  let lowYear := year.tmod 100
  (day + (13 * shiftedMonth).tdiv 5 + lowYear + lowYear.tdiv 4 + highYear.tdiv 4 + 5 * highYear + 6).tmod 7

def maxWeekNumberInYear (year : Int) : Int :=
  let day := dayOfWeek year 0 1
  if day = 4 ∨ day = 3 ∧ isLeapYear year then 53 else 52

/-- The days from January 1st to the Monday of the first week. -/
def offsetTo1stWeekStart (year : Int) : Int :=
  let offset := 1 - dayOfWeek year 0 1
  if offset ≤ -4 then offset + 7 else offset

/-- A week is given by its `m_year` and `m_week`. -/
def setMillisecondsSinceEpochForWeek (ms : Int) : Option (Int × Int) :=
  let year := msToYear ms
  if year < minimumYear ∨ maximumYear < year then none
  else
    let yearDay := dayInYear ms year
    let offset := offsetTo1stWeekStart year
    if yearDay < offset then
      -- The day belongs to the last week of the previous year.
      if year - 1 ≤ minimumYear then none else some (year - 1, maxWeekNumberInYear (year - 1))
    else
      let week := (yearDay - offset).tdiv 7 + 1
      let date := if maxWeekNumberInYear year < week then (year + 1, 1) else (year, week)
      if maximumYear < date.1 ∨ date.1 = maximumYear ∧ maximumWeekInMaximumYear < date.2 then none else some date

def millisecondsSinceEpoch (year week : Int) : Int :=
  (dateToDaysFrom1970 year 0 1 + offsetTo1stWeekStart year + (week - 1) * 7) * msPerDay

def countDigits (src : List Char) : Nat := (src.takeWhile Char.isDigit).length

def toIntFrom (value : Nat) : List Char → Option Nat
  | [] => some value
  | current :: rest =>
    let digit := current.toNat - '0'.toNat
    if !current.isDigit ∨ value > (2147483647 - digit) / 10 then none else toIntFrom (10 * value + digit) rest

def toInt (src : List Char) (parseLength : Nat) : Option Nat :=
  if parseLength > src.length ∨ parseLength = 0 then none else toIntFrom 0 (src.take parseLength)

/-- A parser is given the text from its start and returns the text from its end. -/
def parseYear (src : List Char) : Option (Int × List Char) :=
  if countDigits src < 4 then none
  else (toInt src (countDigits src)).bind fun year =>
    if year < minimumYear ∨ maximumYear < year then none else some (year, src.drop (countDigits src))

def parseWeek (src : List Char) : Option (Int × Int × List Char) :=
  (parseYear src).bind fun (year, src) =>
    -- 4 characters ('-' 'W' digit digit) are needed.
    if src.length ≤ 3 ∨ src.take 2 ≠ ['-', 'W'] then none
    else (toInt (src.drop 2) 2).bind fun week =>
      if (week : Int) < 1 ∨ maxWeekNumberInYear year < week then none
      else if year = maximumYear ∧ maximumWeekInMaximumYear < week then none
      else some (year, week, src.drop 4)

def pad (length : Nat) (number : Int) : List Char := (toDigits 10 number.toNat).leftpad length '0'

def toString (year week : Int) : List Char := pad 4 year ++ ['-', 'W'] ++ pad 2 week

/-- The weeks up to that of the last time value. -/
def Within (year week : Int) : Prop :=
  1 ≤ year ∧ year ≤ 275760 ∧ 1 ≤ week ∧ week ≤ maxWeekNumberInYear year ∧ (year = 275760 → week ≤ 37)

def firstMonday (year : Int) : Int := daysFrom1970ToYear year + offsetTo1stWeekStart year

theorem millisecondsSinceEpoch_eq (year week : Int) :
    millisecondsSinceEpoch year week = (firstMonday year + (week - 1) * 7) * 86400000 := by
  have newYear : dayOfDate year 0 1 = 0 := by
    rw [dayOfDate, firstDayOfMonth]
    split <;> rfl
  rw [millisecondsSinceEpoch, dateToDaysFrom1970_eq, firstMonday, msPerDay]
  simp [newYear]

theorem firstMonday_last : firstMonday 275760 = 99999743 := by decide

theorem maxWeekNumberInYear_cases (year : Int) : maxWeekNumberInYear year = 52 ∨ maxWeekNumberInYear year = 53 := by
  rw [maxWeekNumberInYear]
  split <;> simp

theorem dayOfWeek_newYear {year : Int} (positive : 1 ≤ year) :
    dayOfWeek year 0 1 = (daysFrom1970ToYear year + 4) % 7 := by
  have quarters : (year - 1) / 4 = 25 * ((year - 1) / 100) + (year - 1) % 100 / 4 := by omega
  have centuries : (year - 1) / 400 = (year - 1) / 100 / 4 := by omega
  simp only [dayOfWeek, daysFrom1970ToYear, Int.zero_add, Int.reduceLE, if_true]
  simp (disch := omega) only [Int.tdiv_eq_ediv_of_nonneg, Int.tmod_eq_emod_of_nonneg]
  omega

section Positive

variable {year : Int} (positive : 1 ≤ year)
include positive

theorem firstMonday_spec : firstMonday year % 7 = 4 ∧
    daysFrom1970ToYear year - 3 ≤ firstMonday year ∧ firstMonday year ≤ daysFrom1970ToYear year + 3 := by
  simp only [firstMonday, offsetTo1stWeekStart, dayOfWeek_newYear positive]
  split <;> omega

theorem firstMonday_succ : firstMonday (year + 1) = firstMonday year + maxWeekNumberInYear year * 7 := by
  have next := daysFrom1970ToYear_succ year
  simp only [firstMonday, offsetTo1stWeekStart, maxWeekNumberInYear, dayOfWeek_newYear positive,
    dayOfWeek_newYear (by omega : 1 ≤ year + 1), next, daysInYear]
  cases isLeapYear year <;> simp <;> split_ifs <;> omega

theorem firstMonday_le {later : Int} (le : year ≤ later) : firstMonday year ≤ firstMonday later := by
  rcases le.eq_or_lt with rfl | less
  · exact le_rfl
  · have next := daysFrom1970ToYear_succ year
    have mono := daysFrom1970ToYear_le (Int.add_one_le_of_lt less)
    have here := firstMonday_spec positive
    have there := firstMonday_spec (by omega : 1 ≤ later)
    unfold daysInYear at next
    omega

end Positive

theorem setMillisecondsSinceEpochForWeek_spec {ms : Int} (low : -62135596800000 ≤ ms) (high : ms ≤ 8640000000000000) :
    ∃ year week, setMillisecondsSinceEpochForWeek ms = some (year, week) ∧ Within year week ∧
      firstMonday year + (week - 1) * 7 ≤ ms / 86400000 ∧ ms / 86400000 < firstMonday year + week * 7 := by
  obtain ⟨starts, ends⟩ := @msToYear_contains ms (by omega) (by omega)
  have first : 1 ≤ msToYear ms := le_year (le_trans (by decide) (by omega : -719162 ≤ ms / 86400000)) ends
  have last : msToYear ms ≤ 275760 := le_year starts (lt_of_lt_of_le (by omega : ms / 86400000 < 100000001) (by decide))
  generalize year_eq : msToYear ms = year at *
  have here := firstMonday_spec first
  have next := firstMonday_succ first
  have following := firstMonday_spec (by omega : 1 ≤ year + 1)
  have weeks := maxWeekNumberInYear_cases year
  have final : year = 275760 → (ms / 86400000 - firstMonday year) / 7 + 1 ≤ 37 := by
    rintro rfl
    rw [firstMonday_last]
    omega
  have shifted : ms / 86400000 - daysFrom1970ToYear year - offsetTo1stWeekStart year =
      ms / 86400000 - firstMonday year := by
    unfold firstMonday
    omega
  rw [setMillisecondsSinceEpochForWeek, year_eq, dayInYear_eq starts ends]
  simp only [shifted]
  unfold Within minimumYear maximumYear maximumWeekInMaximumYear
  rw [if_neg (by omega)]
  by_cases early : ms / 86400000 < firstMonday year
  · have third : 2 < year := by
      by_contra few
      rcases (by omega : year = 1 ∨ year = 2) with rfl | rfl <;>
        exact absurd starts (not_le.mpr (early.trans_le (by decide)))
    have previous := firstMonday_succ (by omega : 1 ≤ year - 1)
    have before := maxWeekNumberInYear_cases (year - 1)
    rw [Int.sub_add_cancel] at previous
    rw [if_pos (by omega), if_neg (by omega)]
    exact ⟨_, _, rfl, by omega⟩
  · rw [if_neg (by omega), Int.tdiv_eq_ediv_of_nonneg (by omega)]
    by_cases longer : maxWeekNumberInYear year < (ms / 86400000 - firstMonday year) / 7 + 1
    · have after := maxWeekNumberInYear_cases (year + 1)
      rw [if_pos longer, if_neg (by dsimp only; omega)]
      exact ⟨_, _, rfl, by omega⟩
    · rw [if_neg longer, if_neg (by dsimp only; omega)]
      exact ⟨_, _, rfl, by omega⟩

section Within

variable {year week : Int} (within : Within year week)
include within

theorem Within.monday : (firstMonday year + (week - 1) * 7) % 7 = 4 ∧
    -719162 ≤ firstMonday year + (week - 1) * 7 ∧ firstMonday year + (week - 1) * 7 ≤ 100000000 := by
  obtain ⟨first, most, started, ended, last⟩ := within
  have monday := firstMonday_spec first
  have low := firstMonday_le (le_refl 1) first
  have high := firstMonday_le first most
  have next := firstMonday_succ first
  rw [show firstMonday 1 = -719162 by decide] at low
  rw [firstMonday_last] at high
  refine ⟨by omega, by omega, ?_⟩
  rcases most.eq_or_lt with final | less
  · have few := last final
    omega
  · have later := firstMonday_le (by omega) (Int.add_one_le_of_lt less)
    rw [firstMonday_last] at later
    omega

theorem Within.year_le {year' week' : Int} (within' : Within year' week')
    (same : firstMonday year + (week - 1) * 7 = firstMonday year' + (week' - 1) * 7) : year ≤ year' := by
  by_contra more
  unfold Within at within within'
  have next := firstMonday_succ within'.1
  have later := firstMonday_le (by omega) (Int.add_one_le_of_lt (not_le.mp more))
  omega

theorem Within.attained : ∃ ms : Int, -62135596800000 ≤ ms ∧ ms ≤ 8640000000000000 ∧
    setMillisecondsSinceEpochForWeek ms = some (year, week) := by
  obtain ⟨monday, low, high⟩ := within.monday
  obtain ⟨year', week', set, within', starts, ends⟩ := @setMillisecondsSinceEpochForWeek_spec
    ((firstMonday year + (week - 1) * 7) * 86400000) (by omega) (by omega)
  have monday' := within'.monday.1
  have same : firstMonday year + (week - 1) * 7 = firstMonday year' + (week' - 1) * 7 := by omega
  obtain rfl := le_antisymm (within.year_le within' same) (within'.year_le within same.symm)
  obtain rfl : week = week' := by omega
  exact ⟨_, by omega, by omega, set⟩

end Within

theorem toIntFrom_eq {value : Nat} (fits : value ≤ 2147483647) {text : List Char} (digits : ∀ c ∈ text, c.isDigit) :
    toIntFrom value text =
      if ofDigitChars 10 text value ≤ 2147483647 then some (ofDigitChars 10 text value) else none := by
  induction text generalizing value with
  | nil => rw [toIntFrom, ofDigitChars_nil, if_pos fits]
  | cons c rest ih =>
    have digit := digits c mem_cons_self
    have top : c.val ≤ 57 := of_decide_eq_true (Bool.and_eq_true_iff.mp digit).2
    have small : c.toNat - '0'.toNat ≤ 9 := Nat.sub_le_sub_right (UInt32.le_iff_toNat_le.mp top) 48
    rw [toIntFrom, ofDigitChars_cons]
    by_cases large : value > (2147483647 - (c.toNat - '0'.toNat)) / 10
    · have grows := Nat.le_mul_of_pos_left (10 * value + (c.toNat - '0'.toNat))
        (Nat.pow_pos (n := rest.length) (by decide : 0 < 10))
      rw [if_pos (.inr large), ofDigitChars_eq_ofDigitChars_zero, if_neg (by omega)]
    · rw [if_neg (not_or.mpr ⟨by simp [digit], large⟩),
        ih (by omega) (fun c member => digits c (mem_cons_of_mem _ member))]

theorem toInt_eq {text rest : List Char} (some : text ≠ []) (digits : ∀ c ∈ text, c.isDigit) :
    toInt (text ++ rest) text.length =
      if ofDigitChars 10 text 0 ≤ 2147483647 then .some (ofDigitChars 10 text 0) else none := by
  rw [toInt, if_neg (by simp [some]), take_left, toIntFrom_eq (by decide) digits]

section Digits

variable {text : List Char} (long : 4 ≤ text.length) (digits : ∀ c ∈ text, c.isDigit)
include long digits

theorem parseYear_eq (rest : List Char) : parseYear (text ++ '-' :: rest) =
    if 1 ≤ ofDigitChars 10 text 0 ∧ ofDigitChars 10 text 0 ≤ 275760
      then some ((ofDigitChars 10 text 0 : Int), '-' :: rest) else none := by
  have count : countDigits (text ++ '-' :: rest) = text.length := by
    rw [countDigits, takeWhile_append_of_pos digits]
    simp
  rw [parseYear, count, if_neg (by omega), toInt_eq (ne_nil_of_length_pos (by omega)) digits, drop_left]
  unfold minimumYear maximumYear
  split_ifs <;> grind

theorem parseWeek_iff {tens ones : Char} (digits' : ∀ c ∈ [tens, ones], c.isDigit) (year week : Int) :
    parseWeek (text ++ ['-', 'W', tens, ones]) = some (year, week, []) ↔
      year = ofDigitChars 10 text 0 ∧ week = ofDigitChars 10 [tens, ones] 0 ∧ Within year week := by
  have read : toInt [tens, ones] 2 = _ := @toInt_eq [tens, ones] [] (cons_ne_nil _ _) digits'
  have most := maxWeekNumberInYear_cases year
  rw [parseWeek, parseYear_eq long digits]
  unfold Within
  split_ifs with years
  · simp only [Option.bind_some, length_cons, length_nil, reduceAdd, reduceLeDiff, take_succ_cons, take_zero, ne_eq,
      not_true_eq_false, or_self, if_false, drop_succ_cons, drop_zero, read, drop_nil, Option.bind_eq_some_iff, ite_eq_iff,
      Option.some.injEq, reduceCtorEq, and_false, or_false, false_or, not_or, not_lt, not_and, Prod.mk.injEq, and_true]
    constructor
    · rintro ⟨_, ⟨-, rfl⟩, weeks, last, rfl, rfl⟩
      exact ⟨rfl, rfl, by omega, by omega, weeks.1, weeks.2, last⟩
    · rintro ⟨rfl, rfl, -, -, first, few, last⟩
      exact ⟨_, ⟨by omega, rfl⟩, ⟨first, few⟩, last, rfl, rfl⟩
  · simp only [Option.bind_none, reduceCtorEq, false_iff]
    omega

end Digits

theorem pad_spec (length : Nat) (number : Int) : (∀ c ∈ pad length number, c.isDigit) ∧
    length ≤ (pad length number).length ∧ ofDigitChars 10 (pad length number) 0 = number.toNat := by
  refine ⟨?_, ?_, ?_⟩
  · intro c member
    rcases mem_append.mp member with zero | digit
    · rw [eq_of_mem_replicate zero]
      rfl
    · exact isDigit_of_mem_toDigits (by decide) (by decide) digit
  · rw [pad, length_leftpad]
    exact Nat.le_max_left ..
  · rw [pad, leftpad, ofDigitChars_append, ofDigitChars_replicate_zero, Nat.mul_zero, ofDigitChars_ten_toDigits]

theorem Within.parse_toString {year week : Int} (within : Within year week) :
    parseWeek (toString year week) = some (year, week, []) := by
  have two : ∀ week < 100, (pad 2 (week : Nat)).length = 2 := by decide +kernel
  have most := maxWeekNumberInYear_cases year
  obtain ⟨first, _, started, ended, _⟩ := id within
  obtain ⟨digits, long, years⟩ := pad_spec 4 year
  obtain ⟨digits', -, weeks⟩ := pad_spec 2 week
  have short := two week.toNat (by omega)
  rw [Int.toNat_of_nonneg (by omega)] at short
  obtain ⟨tens, ones, same⟩ := List.length_eq_two.mp short
  rw [same] at digits' weeks
  rw [toString, same, append_assoc]
  exact (parseWeek_iff long digits digits' year week).mpr ⟨by omega, by omega, within⟩

theorem iso_weeks :
    (∀ ms : Int, -62135596800000 ≤ ms → ms ≤ 8640000000000000 → ∃ year week,
      setMillisecondsSinceEpochForWeek ms = some (year, week) ∧ 1 ≤ week ∧ week ≤ maxWeekNumberInYear year ∧
      (∃ day, millisecondsSinceEpoch year week = day * 86400000 ∧ day % 7 = 4) ∧
      millisecondsSinceEpoch year week ≤ ms ∧ ms < millisecondsSinceEpoch year week + 7 * 86400000 ∧
      parseWeek (toString year week) = some (year, week, [])) ∧
    ∀ (text : List Char) (tens ones : Char) (year week : Int), 4 ≤ text.length → (∀ c ∈ text, c.isDigit) →
      (∀ c ∈ [tens, ones], c.isDigit) → (parseWeek (text ++ ['-', 'W', tens, ones]) = some (year, week, []) ↔
        year = ofDigitChars 10 text 0 ∧ week = ofDigitChars 10 [tens, ones] 0 ∧
        ∃ ms : Int, -62135596800000 ≤ ms ∧ ms ≤ 8640000000000000 ∧
          setMillisecondsSinceEpochForWeek ms = some (year, week)) := by
  constructor
  · intro ms low high
    obtain ⟨year, week, set, within, starts, ends⟩ := setMillisecondsSinceEpochForWeek_spec low high
    refine ⟨year, week, set, within.2.2.1, within.2.2.2.1, ?_⟩
    rw [millisecondsSinceEpoch_eq]
    exact ⟨⟨_, rfl, within.monday.1⟩, by omega, by omega, within.parse_toString⟩
  · intro text tens ones year week long digits digits'
    rw [parseWeek_iff long digits digits' year week]
    refine and_congr_right' (and_congr_right' ⟨Within.attained, ?_⟩)
    rintro ⟨ms, low, high, set⟩
    obtain ⟨_, _, set', within, -⟩ := setMillisecondsSinceEpochForWeek_spec low high
    cases set.symm.trans set'
    exact within

theorem iso_week_53_of_2020 :
    (∃ year week, setMillisecondsSinceEpochForWeek 0 = some (year, week) ∧
      parseWeek (toString year week) = some (year, week, [])) ∧
    ∃ ms, setMillisecondsSinceEpochForWeek ms = some (2020, 53) := by
  obtain ⟨year, week, set, _, _, _, _, _, parsed⟩ := iso_weeks.1 0 (by omega) (by omega)
  have accepted := iso_weeks.2 "2020".toList '5' '3' 2020 53 (by decide) (List.all_eq_true.mp rfl)
    (List.all_eq_true.mp rfl)
  obtain ⟨_, _, ms, _, _, attained⟩ := accepted.mp (by decide +kernel)
  exact ⟨⟨year, week, set, parsed⟩, ms, attained⟩

end Odyssey.Dates
