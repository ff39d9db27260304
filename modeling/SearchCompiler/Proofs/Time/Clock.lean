import Mathlib.Logic.Basic
import SearchCompiler.Proofs.Time.Calendar
import SearchCompiler.Time.Pattern

/-! # Times as a clock shows them

A clock shows the hour, the minute, the second and its fraction, and what it shows is a time again.
The last second of a minute may be a leap second, and is then shown as second 60. A second in the
middle of a minute that goes on for longer than a second is shown as the next one, though, and so it
is the next one that is read. As a count of nanoseconds both are the same instant.

* `DateTime.shift?_eq_some_iff`: the time some seconds later.
* `DateTime.IsClockTime`: the times that a clock shows as themselves.
* `DateTime.settled`, `DateTime.dateTime?_parts`: the time that a clock shows. -/

namespace SearchCompiler

namespace DateTime

variable {t t' : DateTime} {n : Int}

theorem ext (hd : t.date = t'.date) (hs : t.second = t'.second) (hn : t.nano = t'.nano) :
    t = t' := by
  cases t; cases t'; cases hd; cases hs; cases hn; rfl

/-! ### Counting seconds -/

theorem ofSeconds?_eq_some_iff {nano : Nat} (hn : nano < 2000000000) :
    ofSeconds? n nano hn = some t ↔ t.seconds = n ∧ t.nano = nano := by
  obtain ⟨d, second, nano', hsecond, hnano⟩ := t
  simp only [ofSeconds?, Option.map_eq_some_iff, Date.ofDay?_eq_some_iff, seconds, mk.injEq,
    secondsPerDay]
  constructor
  · rintro ⟨d', hd', rfl, hs, rfl⟩
    omega
  · rintro ⟨h, rfl⟩
    exact ⟨d, by omega, rfl, by omega, rfl⟩

/-- **The time some seconds later** has the same fraction of a second. -/
theorem shift?_eq_some_iff : t.shift? n = some t' ↔ t'.seconds = t.seconds + n ∧ t'.nano = t.nano :=
  ofSeconds?_eq_some_iff t.nano_lt

theorem div_and_mod_of_shift? (h : t.shift? n = some t') :
    (t.seconds + n) / secondsPerDay = t'.date.day ∧
      ((t.seconds + n) % secondsPerDay).toNat = t'.second := by
  have hlt := t'.second_lt
  have hseconds : t'.date.day * 86400 + t'.second = t.seconds + n := (shift?_eq_some_iff.mp h).1
  rw [secondsPerDay]
  omega

theorem ofClock?_eq_some_iff {d : Date} {second nano : Nat} :
    ofClock? d second nano = some t ↔ t.date = d ∧ t.second = second ∧ t.nano = nano := by
  obtain ⟨d', second', nano', hsecond, hnano⟩ := t
  unfold ofClock?
  split
  · next h => simp [eq_comm]
  · next h =>
    refine iff_of_false nofun ?_
    rintro ⟨-, rfl, rfl⟩
    exact h ⟨hsecond, hnano⟩

/-! ### Instants -/

/-- **The instant**, in nanoseconds since 1970-01-01. -/
def instant (t : DateTime) : Int := t.seconds * 1000000000 + t.nano

/-- **The time cut to microseconds.** -/
def toMicros (t : DateTime) : DateTime where
  date := t.date
  second := t.second
  nano := t.nano / 1000 * 1000
  second_lt := t.second_lt
  nano_lt := by have := t.nano_lt; omega

theorem instant_toMicros (t : DateTime) : t.toMicros.instant = t.instant / 1000 * 1000 := by
  have hseconds : t.toMicros.seconds = t.seconds := rfl
  have hnano : t.toMicros.nano = t.nano / 1000 * 1000 := rfl
  rw [instant, instant, hseconds, hnano]
  omega

/-! ### What a clock shows -/

/-- **Does a clock show the time as itself?** Only the last second of a minute goes on for longer
than a second. -/
def IsClockTime (t : DateTime) : Prop := t.nano < 1000000000 ∨ t.second % 60 = 59

instance (t : DateTime) : Decidable t.IsClockTime := by
  unfold IsClockTime; infer_instance

theorem isClockTime_toMicros : t.toMicros.IsClockTime ↔ t.IsClockTime := by
  have hnano : t.toMicros.nano = t.nano / 1000 * 1000 := rfl
  exact or_congr (by omega) Iff.rfl

/-- **The time that a clock shows**: of a second that is too long in the middle of a minute, the
next one. -/
def settled (t : DateTime) : DateTime :=
  if h : t.IsClockTime then t
  else
    { date := t.date
      second := t.second + 1
      nano := t.nano - 1000000000
      second_lt := by have := t.second_lt; unfold IsClockTime at h; omega
      nano_lt := by have := t.nano_lt; omega }

theorem settled_of_isClockTime (h : t.IsClockTime) : t.settled = t := dif_pos h

theorem settled_of_not_isClockTime (h : ¬ t.IsClockTime) : t.settled.date = t.date ∧
    t.settled.second = t.second + 1 ∧ t.settled.nano = t.nano - 1000000000 := by
  rw [settled, dif_neg h]
  exact ⟨rfl, rfl, rfl⟩

theorem seconds_settled_of_not_isClockTime (h : ¬ t.IsClockTime) :
    t.settled.seconds = t.seconds + 1 := by
  obtain ⟨hdate, hsecond, -⟩ := settled_of_not_isClockTime h
  rw [seconds, seconds, hdate, hsecond]
  omega

theorem emod_seconds_of_not_isClockTime (h : ¬ t.IsClockTime) : t.seconds % 60 ≠ 59 := by
  unfold IsClockTime at h
  rw [seconds, secondsPerDay]
  omega

/-- **A clock shows the instant.** -/
theorem instant_settled (t : DateTime) : t.settled.instant = t.instant := by
  by_cases h : t.IsClockTime
  · rw [settled_of_isClockTime h]
  · obtain ⟨-, -, hnano⟩ := settled_of_not_isClockTime h
    rw [instant, instant, seconds_settled_of_not_isClockTime h, hnano]
    unfold IsClockTime at h
    omega

/-- **The parts that a clock shows.** -/
def parts (t : DateTime) : Pattern.Parts where
  year := t.date.civil.year
  month := t.date.civil.month
  day := t.date.civil.day
  hour := t.second / 3600
  minute := t.second / 60 % 60
  second := t.second % 60 + t.nano / 1000000000
  nano := t.nano % 1000000000

/-- **The parts are put together again** to the time that is shown. -/
theorem dateTime?_parts (t : DateTime) : t.parts.dateTime? = some t.settled := by
  have hlt := t.second_lt
  have hnano := t.nano_lt
  have hdate : t.parts.date? = some t.date := t.date.ofCivil?_civil
  rw [Pattern.Parts.dateTime?, hdate, Option.bind_some]
  by_cases hclock : t.IsClockTime
  · rw [settled_of_isClockTime hclock]
    unfold IsClockTime at hclock
    by_cases hleap : t.parts.second = 60
    · rw [if_pos hleap]
      simp only [parts] at hleap
      refine ofClock?_eq_some_iff.mpr ⟨rfl, ?_, ?_⟩ <;> simp only [parts] <;> omega
    · rw [if_neg hleap]
      simp only [parts] at hleap
      refine ofClock?_eq_some_iff.mpr ⟨rfl, ?_, ?_⟩ <;> simp only [parts] <;> omega
  · obtain ⟨hd, hs, hn⟩ := settled_of_not_isClockTime hclock
    unfold IsClockTime at hclock
    have hshort : t.parts.second ≠ 60 := by simp only [parts]; omega
    rw [if_neg hshort]
    refine ofClock?_eq_some_iff.mpr ⟨hd, ?_, ?_⟩ <;> simp only [parts] <;> omega

/-! ### Some seconds away -/

/-- **A second that is too long, some seconds away.** Unless it has become the last one of a minute,
it is still the next one that is shown, on the same day. -/
theorem shift?_settled_of_not_isClockTime (h : ¬ t.IsClockTime) (hn : (t.seconds + n) % 60 ≠ 59) :
    t.settled.shift? n = (t.shift? n).map settled := by
  obtain ⟨-, -, hnano⟩ := settled_of_not_isClockTime h
  have hseconds : t.settled.seconds + n = t.seconds + n + 1 := by
    rw [seconds_settled_of_not_isClockTime h]
    omega
  have hday : (t.seconds + n + 1) / secondsPerDay = (t.seconds + n) / secondsPerDay := by
    rw [secondsPerDay]
    omega
  rw [shift?, shift?]
  simp only [hseconds, hnano]
  rw [ofSeconds?, ofSeconds?, hday]
  cases Date.ofDay? ((t.seconds + n) / secondsPerDay) with
  | none => rfl
  | some d =>
    have hlong : ¬ IsClockTime ⟨d, ((t.seconds + n) % secondsPerDay).toNat, t.nano, by
        rw [secondsPerDay]; omega, t.nano_lt⟩ := by
      unfold IsClockTime at h ⊢
      simp only [secondsPerDay]
      omega
    obtain ⟨hdate', hsecond', hnano'⟩ := settled_of_not_isClockTime hlong
    refine congrArg some (ext hdate'.symm ?_ hnano'.symm)
    rw [hsecond']
    simp only [secondsPerDay]
    omega

/-- **Some whole minutes away** a clock shows what it shows here. -/
theorem shift?_settled (h : 60 ∣ n) : t.settled.shift? n = (t.shift? n).map settled := by
  have hseconds : t.seconds = t.date.day * 86400 + t.second := rfl
  by_cases hclock : t.IsClockTime
  · rw [settled_of_isClockTime hclock]
    cases ht : t.shift? n with
    | none => rfl
    | some t' =>
      obtain ⟨hn, hnano⟩ := shift?_eq_some_iff.mp ht
      have hseconds' : t'.seconds = t'.date.day * 86400 + t'.second := rfl
      have hclock' : t'.IsClockTime := by unfold IsClockTime at hclock ⊢; omega
      rw [Option.map_some, settled_of_isClockTime hclock']
  · have hminute := emod_seconds_of_not_isClockTime hclock
    exact shift?_settled_of_not_isClockTime hclock (by omega)

end DateTime

end SearchCompiler
