import SearchCompiler.Numeral

/-! # Spans of time

A span is a number of whole seconds, whose milliseconds are at most the greatest 64-bit integer, in
either direction. Days have a span unless one of two limits is in the way: that of their seconds, a
product of 64 bits, and that of the span itself.

* `Span.ofDays?_eq_some_iff`, `Span.exists_ofDays?_iff`: the span of some days, and if there is one.
* `Span.days_of_ofDays?`: its days are the ones given. -/

namespace SearchCompiler

/-- **A span of time.** -/
structure Span where
  seconds : Int64
  inRange : (seconds.toInt * 1000).natAbs ≤ 9223372036854775807
  deriving DecidableEq

namespace Span

/-- The span of some seconds, if there is one. -/
def ofSeconds? (n : Int64) : Option Span :=
  if h : (n.toInt * 1000).natAbs ≤ 9223372036854775807 then some ⟨n, h⟩ else none

/-- **The span of some days**, if there is one. -/
def ofDays? (n : Int64) : Option Span := (mulInt64? n 86400).bind ofSeconds?

/-- The whole days of a span. -/
def days (s : Span) : Int := s.seconds.toInt.tdiv 86400

variable {n : Int64} {s : Span}

theorem ofSeconds?_eq_some_iff : ofSeconds? n = some s ↔ s.seconds = n := by
  unfold ofSeconds?
  constructor
  · intro h
    split at h
    · cases h; rfl
    · cases h
  · rintro rfl
    exact dif_pos s.inRange

theorem ofDays?_eq_some_iff : ofDays? n = some s ↔ s.seconds.toInt = n.toInt * 86400 := by
  simp only [ofDays?, Option.bind_eq_some_iff, mulInt64?_eq_some_iff, ofSeconds?_eq_some_iff]
  constructor
  · rintro ⟨m, hm, rfl⟩
    exact hm
  · exact fun h => ⟨s.seconds, h, rfl⟩

theorem days_of_ofDays? (h : ofDays? n = some s) : s.days = n.toInt := by
  rw [days, ofDays?_eq_some_iff.1 h]
  exact Int.mul_tdiv_cancel _ (by decide)

/-- **The limit of a span** is the one in the way first: below it, the seconds have 64 bits. -/
theorem exists_ofDays?_iff :
    (∃ s, ofDays? n = some s) ↔ (n.toInt * 86400000).natAbs ≤ 9223372036854775807 := by
  simp only [ofDays?_eq_some_iff]
  constructor
  · rintro ⟨s, hs⟩
    have hrange := s.inRange
    omega
  · intro h
    have hseconds : (Int64.ofInt (n.toInt * 86400)).toInt = n.toInt * 86400 :=
      Int64.toInt_ofInt_of_le (by omega) (by omega)
    refine ⟨⟨Int64.ofInt (n.toInt * 86400), ?_⟩, hseconds⟩
    rw [hseconds]
    omega

end Span

end SearchCompiler
