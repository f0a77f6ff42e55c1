import Mathlib.Tactic.IntervalCases
import IncidentDesk.Datetime

namespace incidentdesk.datetime

/-- The days of a year that lie before one of its months. -/
def daysBeforeMonth (y m : Int) : Int := ((List.range (m - 1).toNat).map fun n : Nat => daysInMonth y ((n : Int) + 1)).sum

/-- The month and the day of a day of the year, counted from zero. The month is
estimated from above, and the estimate is at most one too large. -/
def monthDay (y n : Int) : Int × Int :=
  let month := (n + 50) / 32
  let month := if daysBeforeMonth y month > n then month - 1 else month
  (month, n - daysBeforeMonth y month + 1)

/-- `date.fromordinal`, from zero. -/
def fromordinal (n : Int) : Int × Int × Int :=
  let n400 := n / 146097
  let n := n % 146097
  let n100 := n / 36524
  let n := n % 36524
  let n4 := n / 1461
  let n := n % 1461
  let n1 := n / 365
  let n := n % 365
  let year := n400 * 400 + 1 + n100 * 100 + n4 * 4 + n1
  -- the last day of a leap year, which is one too many for the years before it
  if n1 = 4 ∨ n100 = 4 then (year - 1, 12, 31)
  else (year, monthDay year n)

/-- A day of the calendar, in any year. -/
structure IsDate (y m d : Int) : Prop where
  month : 1 ≤ m ∧ m ≤ 12
  day : 1 ≤ d ∧ d ≤ daysInMonth y m

variable {y m d n : Int}

theorem toordinal_eq :
    toordinal y m d = (y - 1) * 365 + (y - 1) / 4 - (y - 1) / 100 + (y - 1) / 400 + daysBeforeMonth y m + d - 1 := rfl

/-- The days of a year up to one of its own. -/
theorem dayOfYear_bounds (hm : 1 ≤ m ∧ m ≤ 12) (hd : 1 ≤ d ∧ d ≤ daysInMonth y m) :
    1 ≤ daysBeforeMonth y m + d ∧ daysBeforeMonth y m + d ≤ if isLeap y then 366 else 365 := by
  obtain ⟨hm, hm'⟩ := hm
  obtain ⟨hd, hd'⟩ := hd
  interval_cases m <;> cases hleap : isLeap y <;> simp [daysBeforeMonth, daysInMonth, hleap, List.range_succ] at hd' ⊢ <;>
    omega

theorem IsDate.day_le (h : IsDate y m d) : d ≤ 31 := by
  have hday := h.day.2
  simp only [daysInMonth] at hday
  split_ifs at hday <;> omega

theorem daysBeforeMonth_one : daysBeforeMonth y 1 = 0 := rfl

theorem daysBeforeMonth_succ (hm : 1 ≤ m) : daysBeforeMonth y (m + 1) = daysBeforeMonth y m + daysInMonth y m := by
  have htoNat : (m + 1 - 1).toNat = (m - 1).toNat + 1 := by omega
  have hcast : ((m - 1).toNat : Int) + 1 = m := by omega
  rw [daysBeforeMonth, htoNat, List.range_succ, List.map_append, List.sum_append, List.map_singleton, List.sum_singleton,
    hcast, daysBeforeMonth]

/-- The estimate of the month is right or one too large. -/
theorem month_estimate (hlow : 0 ≤ n) (hhigh : n < if isLeap y then 366 else 365) :
    (1 ≤ (n + 50) / 32 ∧ (n + 50) / 32 ≤ 12) ∧
      daysBeforeMonth y ((n + 50) / 32 - 1) ≤ n ∧ n < daysBeforeMonth y ((n + 50) / 32) + daysInMonth y ((n + 50) / 32) := by
  have hbounds : 1 ≤ (n + 50) / 32 ∧ (n + 50) / 32 ≤ 12 := by
    split at hhigh <;> omega
  refine ⟨hbounds, ?_⟩
  obtain ⟨hmonth, hmonth'⟩ := hbounds
  generalize hm : (n + 50) / 32 = month at *
  interval_cases month <;> cases hleap : isLeap y <;>
    simp [daysBeforeMonth, daysInMonth, hleap, List.range_succ] at hhigh ⊢ <;> omega

theorem monthDay_spec (hlow : 0 ≤ n) (hhigh : n < if isLeap y then 366 else 365) :
    IsDate y (monthDay y n).1 (monthDay y n).2 ∧ daysBeforeMonth y (monthDay y n).1 + (monthDay y n).2 = n + 1 := by
  obtain ⟨⟨hmonth, hmonth'⟩, hbefore, hafter⟩ := month_estimate hlow hhigh
  simp only [monthDay]
  generalize (n + 50) / 32 = month at *
  refine ⟨?_, by omega⟩
  split
  · rename_i hlarge
    have hne : month ≠ 1 := by
      rintro rfl
      rw [daysBeforeMonth_one] at hlarge
      omega
    have hsucc := daysBeforeMonth_succ (y := y) (m := month - 1) (by omega)
    rw [Int.sub_add_cancel] at hsucc
    exact ⟨by omega, by omega⟩
  · exact ⟨⟨hmonth, hmonth'⟩, by omega⟩

theorem isLeap_iff : isLeap y = true ↔ y % 4 = 0 ∧ (y % 100 ≠ 0 ∨ y % 400 = 0) := by
  simp [isLeap]

/-- The days before a year that is the `n1`-th of a cycle of four years in a
century of a cycle of four centuries. -/
theorem toordinal_of_digits {n400 n100 n4 n1 : Int} (hy : y = n400 * 400 + 1 + n100 * 100 + n4 * 4 + n1)
    (h100 : 0 ≤ n100 ∧ n100 < 4) (h4 : 0 ≤ n4 ∧ n4 < 25) (h1 : 0 ≤ n1 ∧ n1 < 4) :
    toordinal y m d =
      n400 * 146097 + n100 * 36524 + n4 * 1461 + n1 * 365 + (daysBeforeMonth y m + d - 1) := by
  rw [toordinal_eq]
  omega

theorem daysBeforeMonth_twelve : daysBeforeMonth y 12 = if isLeap y then 335 else 334 := by
  cases hleap : isLeap y <;> simp [daysBeforeMonth, daysInMonth, hleap, List.range_succ]

theorem fromordinal_spec (hlow : 0 ≤ n) :
    ∃ y m d, fromordinal n = (y, m, d) ∧ 1 ≤ y ∧ IsDate y m d ∧ toordinal y m d = n := by
  simp only [fromordinal]
  generalize h400 : n / 146097 = n400
  generalize h100 : n % 146097 / 36524 = n100
  generalize h4 : n % 146097 % 36524 / 1461 = n4
  generalize h1 : n % 146097 % 36524 % 1461 / 365 = n1
  generalize hrest : n % 146097 % 36524 % 1461 % 365 = rest
  have hsum : n = n400 * 146097 + n100 * 36524 + n4 * 1461 + n1 * 365 + rest := by omega
  have hbounds : 0 ≤ n400 ∧ (0 ≤ n100 ∧ n100 ≤ 4) ∧ (0 ≤ n4 ∧ n4 ≤ 24) ∧ (0 ≤ n1 ∧ n1 ≤ 4) ∧ 0 ≤ rest ∧ rest < 365 := by
    omega
  have hcentury : n100 = 4 → n4 = 0 ∧ n1 = 0 ∧ rest = 0 := by omega
  have hcycle : n1 = 4 → n4 < 24 ∧ rest = 0 := by omega
  clear h400 h100 h4 h1 hrest
  obtain ⟨h400, h100, h4, h1, hrest⟩ := hbounds
  generalize hyear : n400 * 400 + 1 + n100 * 100 + n4 * 4 + n1 = year
  split
  · rename_i hlast
    have hleap : isLeap (year - 1) = true := by
      rw [isLeap_iff]
      omega
    refine ⟨year - 1, 12, 31, rfl, by omega, ⟨by omega, by simp [daysInMonth]⟩, ?_⟩
    have hbefore := daysBeforeMonth_twelve (y := year - 1)
    rw [hleap, if_pos rfl] at hbefore
    rw [toordinal_eq, hbefore]
    omega
  · rename_i hordinary
    rw [not_or] at hordinary
    obtain ⟨hdate, hday⟩ := monthDay_spec (y := year) hrest.1 (by split <;> omega)
    refine ⟨year, _, _, rfl, by omega, hdate, ?_⟩
    rw [toordinal_of_digits hyear.symm (by omega) (by omega) (by omega)]
    omega

theorem daysBeforeMonth_mono {m' : Int} (hm : 1 ≤ m) (h : m ≤ m') : daysBeforeMonth y m ≤ daysBeforeMonth y m' := by
  induction m', h using Int.leInduction with
  | base => exact le_rfl
  | succ k hk ih =>
    have hdays : 0 ≤ daysInMonth y k := by
      simp only [daysInMonth]
      split_ifs <;> omega
    rw [daysBeforeMonth_succ (by omega)]
    omega

/-- The earlier one of two days has the earlier year, or the earlier month of the
same year, or the earlier day of the same month. -/
theorem lex_of_toordinal_lt {y' m' d' : Int} (hdate : IsDate y m d) (hdate' : IsDate y' m' d')
    (h : toordinal y m d < toordinal y' m' d') : y < y' ∨ y = y' ∧ (m < m' ∨ m = m' ∧ d < d') := by
  by_contra hnot
  obtain ⟨hlow, -⟩ := dayOfYear_bounds hdate.month hdate.day
  obtain ⟨-, hhigh⟩ := dayOfYear_bounds hdate'.month hdate'.day
  simp only [toordinal_eq] at h
  obtain hyear | rfl : y' < y ∨ y = y' := by omega
  · cases hleap : isLeap y' with
    | true =>
      rw [hleap, if_pos rfl] at hhigh
      rw [isLeap_iff] at hleap
      omega
    | false =>
      rw [hleap, if_neg Bool.false_ne_true] at hhigh
      omega
  · obtain hmonth | ⟨rfl, hday⟩ : m' < m ∨ m = m' ∧ d' ≤ d := by omega
    · have hfirst := hdate'.month.1
      have hday := hdate.day.1
      have hday' := hdate'.day.2
      have hmono := daysBeforeMonth_mono (y := y) (show 1 ≤ m' + 1 by omega) (show m' + 1 ≤ m by omega)
      rw [daysBeforeMonth_succ hfirst] at hmono
      omega
    · omega

/-- The days that Python has. -/
theorem year_le (hdate : IsDate y m d) (h : toordinal y m d < 3652059) : y ≤ 9999 := by
  obtain ⟨hlow, -⟩ := dayOfYear_bounds hdate.month hdate.day
  simp only [toordinal_eq] at h
  omega

end incidentdesk.datetime
