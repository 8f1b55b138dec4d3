/-
  Dates of the Gregorian calendar, extended to all years.

  Years are counted from March on, so that the day a leap year
  adds is the last one of its year.  A cycle of 400 years has
  146097 days, all but the last of its centuries have 36524,
  all but the last group of four years in a century 1461.

  Key definitions include:
    * `Date`
    * `Date.IsValid`
    * `Date.toDays`
    * `Date.ofDays`

  The main statements are:
    * `Date.toDays_ofDays`
    * `Date.isValid_ofDays`
-/

------------------------------------------------------------
-- Dates
------------------------------------------------------------

namespace Matchbook

/- A year, a month and a day of the month. -/
structure Date where
  year : Int
  month : Int
  day : Int
deriving DecidableEq

namespace Date

/- Whether a year has 366 days. -/
def IsLeap (year : Int) : Prop :=
  year % 4 = 0 ∧ (year % 100 ≠ 0 ∨ year % 400 = 0)

instance (year : Int) : Decidable (IsLeap year) :=
  inferInstanceAs (Decidable (_ ∧ _))

/- The number of days of a month. -/
def daysInMonth (year month : Int) : Int :=
  if month = 2 then
    if IsLeap year then 29 else 28
  else if month = 4 ∨ month = 6 ∨ month = 9 ∨
      month = 11 then
    30
  else
    31

/- Whether the calendar has the date. -/
def IsValid (d : Date) : Prop :=
  (1 ≤ d.month ∧ d.month ≤ 12) ∧
    1 ≤ d.day ∧ d.day ≤ daysInMonth d.year d.month

instance (d : Date) : Decidable d.IsValid :=
  inferInstanceAs (Decidable (_ ∧ _))

------------------------------------------------------------
-- Counting days
------------------------------------------------------------

/- Days from the first of March of the year 0 to that of a
year. -/
def daysToMarch (year : Int) : Int :=
  365 * year + year / 4 - year / 100 + year / 400

/- Days from the first of March to the first day of a month,
counted from March as zero. -/
def daysToMonth (fromMarch : Int) : Int :=
  (153 * fromMarch + 2) / 5

/- Days from 1970-01-01 to the first of March of the year 0,
backwards. -/
def epochDays : Int := 719468

/- The day number of a date, counted from 1970-01-01. -/
def toDays (d : Date) : Int :=
  if d.month ≤ 2 then
    daysToMarch (d.year - 1) + daysToMonth (d.month + 9) +
      (d.day - 1) - epochDays
  else
    daysToMarch d.year + daysToMonth (d.month - 3) +
      (d.day - 1) - epochDays

/- The year from March on that a day falls in, and the days
since its first of March. -/
def marchYear (days : Int) : Int × Int :=
  let cycle := days / 146097
  let inCycle := days % 146097
  let century := min 3 (inCycle / 36524)
  let inCentury := inCycle - 36524 * century
  let group := inCentury / 1461
  let inGroup := inCentury % 1461
  let single := min 3 (inGroup / 365)
  (400 * cycle + 100 * century + 4 * group + single,
    inGroup - 365 * single)

/- The date with a day number. -/
def ofDays (days : Int) : Date :=
  let (year, inYear) := marchYear (days + epochDays)
  let fromMarch := (5 * inYear + 2) / 153
  let day := inYear - daysToMonth fromMarch + 1
  if fromMarch < 10 then
    ⟨year, fromMarch + 3, day⟩
  else
    ⟨year + 1, fromMarch - 9, day⟩

------------------------------------------------------------
-- Dates and day numbers
------------------------------------------------------------

/- A day falls into its year, and only a leap year is long
enough for day 365. -/
theorem marchYear_spec (days : Int) :
    daysToMarch (marchYear days).1 + (marchYear days).2 =
        days ∧
      0 ≤ (marchYear days).2 ∧
      (marchYear days).2 ≤ 365 ∧
      ((marchYear days).2 = 365 →
        IsLeap ((marchYear days).1 + 1)) := by
  have hCycle := Int.mul_ediv_add_emod days 146097
  have hLow : 0 ≤ days % 146097 :=
    Int.emod_nonneg _ (by decide)
  have hHigh : days % 146097 < 146097 :=
    Int.emod_lt_of_pos _ (by decide)
  simp only [marchYear]
  generalize days / 146097 = cycle at *
  generalize days % 146097 = inCycle at *
  obtain ⟨century, hCentury⟩ :
      ∃ c, c = min 3 (inCycle / 36524) := ⟨_, rfl⟩
  rw [← hCentury]
  obtain ⟨inCentury, hInCentury⟩ :
      ∃ r, r = inCycle - 36524 * century := ⟨_, rfl⟩
  rw [← hInCentury]
  obtain ⟨group, hGroup⟩ :
      ∃ g, g = inCentury / 1461 := ⟨_, rfl⟩
  obtain ⟨inGroup, hInGroup⟩ :
      ∃ r, r = inCentury % 1461 := ⟨_, rfl⟩
  rw [← hGroup, ← hInGroup]
  obtain ⟨single, hSingle⟩ :
      ∃ s, s = min 3 (inGroup / 365) := ⟨_, rfl⟩
  rw [← hSingle]
  have hCenturyBounds :
      0 ≤ century ∧ century ≤ 3 ∧ 0 ≤ inCentury ∧
        inCentury ≤ 36524 ∧
        (inCentury = 36524 → century = 3) := by
    omega
  have hGroupBounds :
      0 ≤ group ∧ group ≤ 24 ∧ 0 ≤ inGroup ∧
        inGroup ≤ 1460 ∧
        (group = 24 → inGroup = 1460 → century = 3) ∧
        inCentury = 1461 * group + inGroup := by
    omega
  have hSingleBounds :
      0 ≤ single ∧ single ≤ 3 ∧
        0 ≤ inGroup - 365 * single ∧
        inGroup - 365 * single ≤ 365 ∧
        (inGroup - 365 * single = 365 →
          single = 3 ∧ inGroup = 1460) := by
    omega
  clear hCentury hGroup hInGroup hSingle
  have hFour :
      (400 * cycle + 100 * century + 4 * group + single) /
          4 =
        100 * cycle + 25 * century + group := by
    omega
  have hHundred :
      (400 * cycle + 100 * century + 4 * group + single) /
          100 =
        4 * cycle + century := by
    omega
  have hFourHundred :
      (400 * cycle + 100 * century + 4 * group + single) /
          400 =
        cycle := by
    omega
  simp only [daysToMarch, hFour, hHundred, hFourHundred]
  refine ⟨by omega, by omega, by omega, ?_⟩
  intro hLast
  obtain ⟨hThree, hFull⟩ := hSingleBounds.2.2.2.2 hLast
  simp only [IsLeap]
  by_cases hEnd : group = 24
  · have := hGroupBounds.2.2.2.2.1 hEnd hFull
    omega
  · omega

/- The day number of a date is the one it was made from. -/
theorem toDays_ofDays (days : Int) :
    (ofDays days).toDays = days := by
  obtain ⟨hSum, hLow, hHigh, _⟩ :=
    marchYear_spec (days + epochDays)
  unfold ofDays
  generalize marchYear (days + epochDays) = y at *
  obtain ⟨year, inYear⟩ := y
  dsimp only at *
  split
  · unfold toDays
    dsimp only
    rw [if_neg (by omega)]
    simp only [daysToMonth] at *
    omega
  · unfold toDays
    dsimp only
    rw [if_pos (by omega)]
    have hYear : year + 1 - 1 = year := by omega
    rw [hYear]
    simp only [daysToMonth] at *
    omega

/- Every day number has a date of the calendar. -/
theorem isValid_ofDays (days : Int) :
    (ofDays days).IsValid := by
  obtain ⟨_, hLow, hHigh, hLeap⟩ :=
    marchYear_spec (days + epochDays)
  unfold ofDays
  generalize marchYear (days + epochDays) = y at *
  obtain ⟨year, inYear⟩ := y
  dsimp only at *
  simp only [IsValid, daysInMonth, daysToMonth]
  split <;> dsimp only
  · refine ⟨by omega, by omega, ?_⟩
    repeat' split
    all_goals omega
  · refine ⟨by omega, by omega, ?_⟩
    repeat' split
    all_goals first | omega | (simp only [IsLeap] at *; omega)

end Date

end Matchbook
