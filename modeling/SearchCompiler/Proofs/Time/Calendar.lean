import Mathlib.Tactic.SplitIfs
import SearchCompiler.Time.DateTime

/-! # The calendar, there and back

A day has a year, a month and a day of the month, and they have the day as theirs. The year is one
whose first day is not after the day while the first day of the next year is; the month is found by
taking the lengths of the months before it off what is left.

* `Calendar.firstDay_le_and_lt`: the year of a day.
* `Calendar.monthDay_spec`: month and day of the month.
* `Calendar.civil_spec`: the day of a year, month and day.
* `Date.ofCivil?_civil`: a date is that of its year, month and day. -/

namespace SearchCompiler

namespace Calendar

/-! ### Years -/

/-- The estimate of the year is off by one at most. -/
theorem firstDay_estimate (day : Int) {year : Int} (h : year = (day + 719162) * 400 / 146097 + 1) :
    firstDay (year - 1) ≤ day ∧ day < firstDay (year + 2) := by
  simp only [firstDay]
  omega

/-- **The year of a day** begins on the day or before it, and the next one after it. -/
theorem firstDay_le_and_lt (day : Int) :
    firstDay (yearOf day) ≤ day ∧ day < firstDay (yearOf day + 1) := by
  have hestimate := firstDay_estimate day rfl
  rw [yearOf]
  generalize (day + 719162) * 400 / 146097 + 1 = year at hestimate ⊢
  split_ifs with hbefore hafter
  · rw [Int.sub_add_cancel]
    exact ⟨hestimate.1, hbefore⟩
  · rw [Int.add_assoc]
    exact ⟨hafter, hestimate.2⟩
  · exact ⟨Int.not_lt.mp hbefore, Int.not_le.mp hafter⟩

theorem totalDays_monthLengths (year : Int) :
    (totalDays (monthLengths (isLeap year)) : Int) = firstDay (year + 1) - firstDay year := by
  have hleap : isLeap year = true ↔ year % 4 = 0 ∧ (year % 100 ≠ 0 ∨ year % 400 = 0) := by
    simp [isLeap]
  have htotal : totalDays (monthLengths (isLeap year)) = if isLeap year then 366 else 365 := by
    cases isLeap year <;> rfl
  rw [htotal]
  simp only [hleap, firstDay]
  split_ifs <;> omega

/-! ### Months -/

/-- **Month and day of the month**: the month is one of those to come, the day is one of its days,
and the months before it and the days up to it are what was left. -/
theorem monthDay_spec {lengths : List Nat} {month left m d : Nat}
    (h : monthDay lengths month left = (m, d)) (hleft : left < totalDays lengths) :
    ∃ i, m = month + i ∧ i < lengths.length ∧ 1 ≤ d ∧ d ≤ lengths.getD i 0 ∧
      totalDays (lengths.take i) + d = left + 1 := by
  induction lengths generalizing month left with
  | nil => exact absurd hleft (Nat.not_lt_zero left)
  | cons n lengths ih =>
    rw [monthDay] at h
    split at h
    · next hlt =>
      obtain ⟨rfl, rfl⟩ := Prod.mk.inj h
      refine ⟨0, rfl, Nat.succ_pos _, Nat.succ_pos _, hlt, ?_⟩
      simp [totalDays]
    · next hge =>
      have htotal : totalDays (n :: lengths) = n + totalDays lengths := rfl
      obtain ⟨i, rfl, hi, hd, hle, hsum⟩ := ih h (by omega)
      refine ⟨i + 1, by omega, Nat.succ_lt_succ hi, hd, hle, ?_⟩
      rw [List.take_succ_cons]
      have htake : totalDays (n :: lengths.take i) = n + totalDays (lengths.take i) := rfl
      omega

/-! ### Days -/

theorem isCivil_iff {c : Civil} : isCivil c = true ↔
    1 ≤ c.month ∧ c.month ≤ 12 ∧ 1 ≤ c.day ∧ c.day ≤ daysInMonth c.year c.month := by
  simp [isCivil, and_assoc]

theorem length_monthLengths (leap : Bool) : (monthLengths leap).length = 12 := rfl

theorem daysInMonth_le (year : Int) (month : Nat) : daysInMonth year month ≤ 31 := by
  have hall : ∀ n ∈ monthLengths (isLeap year), n ≤ 31 := by cases isLeap year <;> decide
  rw [daysInMonth, List.getD_eq_getElem?_getD]
  cases h : (monthLengths (isLeap year))[month - 1]? with
  | none => exact Nat.zero_le 31
  | some n => exact hall n (List.mem_of_getElem? h)

/-- **A day is that of its year, month and day of the month**, and the calendar has them. -/
theorem civil_spec (day : Int) : dayNumber (civil day) = day ∧ isCivil (civil day) = true := by
  obtain ⟨hle, hlt⟩ := firstDay_le_and_lt day
  have htotal := totalDays_monthLengths (yearOf day)
  obtain ⟨m, d, hmd⟩ : ∃ m d, monthDay (monthLengths (isLeap (yearOf day))) 1
      (day - firstDay (yearOf day)).toNat = (m, d) := ⟨_, _, rfl⟩
  have hcivil : civil day = ⟨yearOf day, m, d⟩ := by rw [civil, hmd]
  obtain ⟨i, rfl, hi, hd, hlength, hsum⟩ := monthDay_spec hmd (by omega)
  rw [length_monthLengths] at hi
  have hindex : 1 + i - 1 = i := Nat.add_sub_cancel_left 1 i
  have hmonth : 1 ≤ 1 + i ∧ 1 + i ≤ 12 := by omega
  rw [hcivil, isCivil_iff, dayNumber, daysInMonth]
  dsimp only
  rw [hindex]
  exact ⟨by omega, hmonth.1, hmonth.2, hd, hlength⟩

end Calendar

namespace Date

theorem isCivil_civil (d : Date) : Calendar.isCivil d.civil = true :=
  (Calendar.civil_spec d.day).2

/-- **A date is that of its year, month and day.** -/
theorem ofCivil?_civil (d : Date) : ofCivil? d.civil = some d :=
  (if_pos d.isCivil_civil).trans (ofDay?_eq_some_iff.mpr (Calendar.civil_spec d.day).1.symm)

end Date

end SearchCompiler
