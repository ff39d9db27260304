import SearchCompiler.Proofs.Time.Dashed

/-! # The UTC form, read back

A moment enters a document in its UTC form. If its year has four digits, that is a strict form of a
moment, and it is read as the moment that is shown: what is cut off stays off. A year with more
digits or before zero is shown with a sign. The strict form has none, and the patterns with a sign
have no `Z`: such a text is not read at all.

* `DateTime.utcText_toMicros`, `DateTime.utcText_settled`: times with the same UTC form.
* `Moment.read?_utcText`, `Moment.read?_utcText_eq_none`: what is read. -/

namespace SearchCompiler

open Numeral (padded)

namespace DateTime

open Moment (monthDayChars clockChars)

variable {t t' : DateTime}

/-- The UTC form after the second. -/
def tailChars (t : DateTime) : List Char :=
  '.' :: ((padded 6 (t.nano % 1000000000 / 1000)).toList ++ ['Z'])

theorem toList_utcText (t : DateTime) : t.utcText.toList = t.chars t.tailChars := by
  rw [utcText, String.toList_append, String.toList_append, String.toList_append, toList_timeText,
    chars_append, chars_append, chars_append]
  simp [tailChars]

theorem fraction?_tailChars (t : DateTime) : Pattern.fraction? t.tailChars =
    some (t.nano % 1000000000 / 1000 * 1000, ['Z']) := by
  have hmicro : t.nano % 1000000000 / 1000 < Nat.pow 10 6 := by
    have hpow : Nat.pow 10 6 = 1000000 := rfl
    omega
  exact Pattern.fraction?_padded (by decide) (by decide) hmicro (by rintro _ ⟨⟩; rfl)

/-! ### Times with the same UTC form -/

/-- The UTC form shows minutes, the second after them, and microseconds. -/
theorem utcText_congr (hdate : t'.date = t.date) (hminute : t'.second / 60 = t.second / 60)
    (hsecond : t'.second % 60 + t'.nano / 1000000000 = t.second % 60 + t.nano / 1000000000)
    (hmicro : t'.nano % 1000000000 / 1000 = t.nano % 1000000000 / 1000) :
    t'.utcText = t.utcText := by
  have hhour : t'.second / 3600 = t.second / 3600 := by omega
  rw [utcText, utcText, clockText, clockText, hdate, hhour, hminute, hsecond, hmicro]

/-- Nanoseconds are not shown. -/
theorem utcText_toMicros (t : DateTime) : t.toMicros.utcText = t.utcText := by
  refine utcText_congr rfl rfl ?_ ?_ <;> simp only [toMicros] <;> omega

/-- A second that is too long in the middle of a minute is shown as the next one. -/
theorem utcText_settled (t : DateTime) : t.settled.utcText = t.utcText := by
  by_cases h : t.IsClockTime
  · rw [settled_of_isClockTime h]
  · obtain ⟨hdate, hsecond, hnano⟩ := settled_of_not_isClockTime h
    have hlt := t.nano_lt
    unfold IsClockTime at h
    exact utcText_congr hdate (by omega) (by omega) (by omega)

/-! ### What the UTC form shows -/

theorem parts_toMicros (t : DateTime) :
    t.toMicros.parts = { t.parts with nano := t.nano % 1000000000 / 1000 * 1000 } := by
  have hsecond : t.nano / 1000 * 1000 / 1000000000 = t.nano / 1000000000 := by omega
  have hnano : t.nano / 1000 * 1000 % 1000000000 = t.nano % 1000000000 / 1000 * 1000 := by omega
  simp only [parts, toMicros, hsecond, hnano]

theorem ofLocal?_zero (t : DateTime) : Stamp.ofLocal? t 0 = some ⟨t, 0⟩ := by
  have hshift : t.shift? (-0) = some t := shift?_eq_some_iff.mpr ⟨by omega, rfl⟩
  rw [Stamp.ofLocal?, hshift, Option.map_some]

/-- **A year of four digits**: the UTC form is strict. -/
theorem strict?_utcText (h : t.HasPlainYear) :
    Moment.strict? t.utcText.toList = some ⟨t.toMicros.settled, 0⟩ := by
  have hoffset : Moment.strictOffset? ['Z'] = some (0, []) := rfl
  have hstamp : { t.toMicros.parts with offset := 0 }.stamp? = some ⟨t.toMicros.settled, 0⟩ :=
    (stamp?_parts t.toMicros (by decide)).trans (ofLocal?_zero _)
  rw [toList_utcText, strict?_chars h t.fraction?_tailChars, hoffset, ← hstamp, parts_toMicros]
  rfl

theorem exists_signed_utcText (h : ¬ t.HasPlainYear) : ∃ c cs y, (c = '-' ∨ c = '+') ∧
    t.utcText.toList = c :: cs ∧ Pattern.year? (c :: cs) = some (y, '-' ::
      monthDayChars t.date.civil ('T' :: clockChars t.second t.nano t.tailChars)) := by
  have hyear : Calendar.yearText t.date.civil.year =
      (if t.date.civil.year < 0 then "-" else "+") ++ padded 4 t.date.civil.year.natAbs := if_neg h
  obtain ⟨c, hc, hsign⟩ : ∃ c, (c = '-' ∨ c = '+') ∧
      (if t.date.civil.year < 0 then "-" else "+").toList = [c] := by
    split
    · exact ⟨'-', Or.inl rfl, rfl⟩
    · exact ⟨'+', Or.inr rfl, rfl⟩
  obtain ⟨y, hy⟩ := Pattern.exists_year?_signed hc (Nat.succ_pos 3) t.date.civil.year.natAbs _
  refine ⟨c, _, y, hc, ?_, hy⟩
  rw [toList_utcText, chars, dateChars, hyear, String.toList_append, hsign]
  rfl

theorem trimChars_utcText (t : DateTime) : Text.trimChars t.utcText.toList = t.utcText.toList := by
  rw [toList_utcText]
  refine Text.trimChars_of_forall (isBlank_of_mem_chars ?_)
  simp only [tailChars, List.forall_mem_cons, List.forall_mem_append]
  exact ⟨rfl, isBlank_of_mem_padded, rfl, nofun⟩

end DateTime

namespace Moment

variable {t : DateTime}

/-- **The UTC form of a plain year** is read as the moment that it shows. -/
theorem read?_utcText (h : t.HasPlainYear) :
    read? t.utcText = some (.aware ⟨t.toMicros.settled, 0⟩) := by
  rw [read?, t.trimChars_utcText, aware?, DateTime.strict?_utcText h]
  rfl

/-- **The UTC form of any other year** is not read. -/
theorem read?_utcText_eq_none (h : ¬ t.HasPlainYear) : read? t.utcText = none := by
  obtain ⟨c, cs, y, hc, hcs, hyear⟩ := DateTime.exists_signed_utcText h
  have hcivil : Calendar.isCivil t.date.civil = true := t.date.isCivil_civil
  have hsign : Text.isBlank c = false ∧ c.isDigit = false := by
    rcases hc with rfl | rfl <;> exact ⟨rfl, rfl⟩
  have hmonth : ∀ items, Pattern.Misses (.month :: .mark '/' :: items) (c :: cs) := fun _ =>
    Pattern.misses_small .month (by rintro _ ⟨⟩; exact hsign)
  -- A `Z` is left after the fraction, which no pattern takes off.
  have hfraction : Pattern.Misses (.mark 'T' :: toFraction)
      ('T' :: clockChars t.second t.nano t.tailChars) := by
    have hend : Pattern.Misses [] ['Z'] := Pattern.misses_nil 'Z' []
    have htime := misses_timeFraction t.second_lt t.nano_lt t.fraction?_tailChars hend
    rwa [List.append_nil] at htime
  have hoffset : Pattern.Misses [.offset] ['Z'] := Pattern.misses_of_stop fun p => rfl
  have haware := misses_awarePatterns hcivil hyear (not_blank_markT _)
    (misses_timeFraction t.second_lt t.nano_lt t.fraction?_tailChars hoffset)
  have hwall := misses_wallPatterns hcivil hyear (not_blank_markT _) hfraction
    (misses_timeMinute t.second_lt _) hmonth
  have hdate := misses_datePatterns hcivil hyear hmonth
  have hstrict : strict? (c :: cs) = none := by
    rw [strict?, exactly?, Pattern.digits?_cons_of_not hsign.2 (by decide)]
    rfl
  rw [read?, t.trimChars_utcText, hcs, aware?, wall?, date?, hstrict,
    Pattern.findSome?_eq_none haware, Pattern.findSome?_eq_none hwall,
    Pattern.findSome?_eq_none hdate]
  rfl

end Moment

end SearchCompiler
