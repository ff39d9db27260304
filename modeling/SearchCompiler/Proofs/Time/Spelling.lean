import SearchCompiler.Proofs.Time.Dashed

/-! # Dates, times and timestamps, read back from their texts

A date, a wall-clock time and a timestamp whose year is shown without a sign are read back from the
texts in which they are quoted: a timestamp by the strict form, a time by the first pattern of a
wall-clock time, a date by the first pattern of a date. Whatever is tried before does not fit: a
date is followed by no time, and a time by no offset.

* `Pattern.fraction?_fractionText`, `Moment.strictOffset?_minuteOffsetText`: the ends of the texts.
* `Stamp.HasPlainYear`: the timestamps whose year has no sign.
* `Moment.read?_dateText`, `Moment.read?_timeText`, `Moment.read?_stampText`: what is read. -/

namespace SearchCompiler

open Numeral (padded)
open DateTime (fractionText)

/-! ### Fractions and offsets -/

/-- **A fraction** is read back in as many digits as it was shown. -/
theorem Pattern.fraction?_fractionText (nano : Nat) {rest : List Char}
    (h : ∀ c ∈ rest.head?, c.isDigit = false ∧ c ≠ '.') :
    fraction? ((fractionText nano).toList ++ rest) = some (nano % 1000000000, rest) := by
  have hlt : nano % 1000000000 < 1000000000 := Nat.mod_lt _ (by decide)
  have hend : ∀ c ∈ rest.head?, c.isDigit = false := fun c hc => (h c hc).1
  rw [fractionText]
  generalize nano % 1000000000 = n at hlt ⊢
  split_ifs with hzero hmillis hmicros
  · subst hzero
    rw [String.toList_empty, List.nil_append, fraction?.eq_2]
    rintro cs rfl
    exact (h '.' rfl).2 rfl
  · have hpow : Nat.pow 10 (9 - 3) = 1000000 := rfl
    have hfits : n / 1000000 < Nat.pow 10 3 := Nat.div_lt_of_lt_mul hlt
    have hn : n / 1000000 * 1000000 = n := by omega
    simpa [hpow, hn] using fraction?_padded (by decide) (by decide) hfits hend
  · have hpow : Nat.pow 10 (9 - 6) = 1000 := rfl
    have hfits : n / 1000 < Nat.pow 10 6 := Nat.div_lt_of_lt_mul hlt
    have hn : n / 1000 * 1000 = n := by omega
    simpa [hpow, hn] using fraction?_padded (by decide) (by decide) hfits hend
  · have hpow : Nat.pow 10 (9 - 9) = 1 := rfl
    have hfits : n < Nat.pow 10 9 := hlt
    simpa [hpow] using fraction?_padded (by decide) (by decide) hfits hend

theorem Pattern.offset?_padded {c : Char} {rest : List Char} {sign : Int} {hours minutes : Nat}
    (hsign : ∀ cs, sign? (c :: cs) = some (sign, cs)) (hh : hours < 100) (hm : minutes ≤ 59) :
    offset? (mark? ':')
        (c :: ((padded 2 hours).toList ++ ':' :: ((padded 2 minutes).toList ++ rest))) =
      some (sign * (hours * 3600 + minutes * 60 : Nat), rest) := by
  have hpow : Nat.pow 10 2 = 100 := rfl
  have htwo {n : Nat} {cs : List Char} (hn : n < 100) :
      digits? 2 2 ((padded 2 n).toList ++ cs) = some (n, cs) :=
    digits?_padded (by decide) (hpow ▸ hn) (by decide)
  have hminutes : minutes < 100 := by omega
  rw [offset?, hsign]
  simp only [Option.bind_eq_bind, Option.bind_some, htwo hh, htwo hminutes, mark?_self,
    if_neg (Nat.not_lt.mpr hm)]
  rfl

/-- **An offset of whole minutes** is shown as a sign, hours and minutes. -/
theorem Moment.exists_signed_minuteOffsetText {o : Int} (hm : 60 ∣ o) : ∃ c sign,
    (c = '-' ∧ sign = -1 ∨ c = '+' ∧ sign = 1) ∧ sign * (o.natAbs : Int) = o ∧
      (minuteOffsetText o).toList = c :: ((padded 2 (o.natAbs / 3600)).toList ++
        ':' :: ((padded 2 (o.natAbs / 60 % 60)).toList ++ [])) := by
  have hminutes : (o.natAbs + 30) / 60 = o.natAbs / 60 := by omega
  have hhours : o.natAbs / 60 / 60 = o.natAbs / 3600 := Nat.div_div_eq_div_mul _ _ _
  by_cases hneg : o < 0
  · exact ⟨'-', -1, Or.inl ⟨rfl, rfl⟩, by omega,
      by simp [minuteOffsetText, hneg, hminutes, hhours]⟩
  · exact ⟨'+', 1, Or.inr ⟨rfl, rfl⟩, by omega,
      by simp [minuteOffsetText, hneg, hminutes, hhours]⟩

theorem Moment.strictOffset?_minuteOffsetText {o : Int} (hm : 60 ∣ o) (hd : o.natAbs < 86400) :
    strictOffset? (minuteOffsetText o).toList = some (o, []) := by
  obtain ⟨c, sign, hc, hvalue, htext⟩ := exists_signed_minuteOffsetText hm
  have hsign (cs : List Char) : Pattern.sign? (c :: cs) = some (sign, cs) := by
    rcases hc with ⟨rfl, rfl⟩ | ⟨rfl, rfl⟩ <;> rfl
  have hstrict (cs : List Char) :
      strictOffset? (c :: cs) = Pattern.offset? (Pattern.mark? ':') (c :: cs) := by
    rcases hc with ⟨rfl, -⟩ | ⟨rfl, -⟩ <;> rfl
  have hsum : o.natAbs / 3600 * 3600 + o.natAbs / 60 % 60 * 60 = o.natAbs := by omega
  rw [htext, hstrict, Pattern.offset?_padded hsign (by omega) (by omega), hsum, hvalue]

/-! ### The texts -/

/-- The year that the clock of a timestamp shows. -/
def Stamp.wallYear (s : Stamp) : Int :=
  (Calendar.civil ((s.utc.seconds + s.offset) / DateTime.secondsPerDay)).year

/-- **Is the year of a timestamp shown without a sign?** -/
def Stamp.HasPlainYear (s : Stamp) : Prop := 0 ≤ s.wallYear ∧ s.wallYear ≤ 9999

instance (s : Stamp) : Decidable s.HasPlainYear := by
  unfold Stamp.HasPlainYear; infer_instance

namespace DateTime

open Moment (monthDayChars)

variable {t : DateTime} {rest : List Char}

theorem toList_text (t : DateTime) : t.text.toList = t.chars (fractionText t.nano).toList := by
  rw [text, String.toList_append, toList_timeText, chars_append, List.nil_append]

theorem toList_stampText {s : Stamp} (hs : s.utc.shift? s.offset = some t) : s.text.toList =
    t.chars ((fractionText s.utc.nano).toList ++ (minuteOffsetText s.offset).toList) := by
  obtain ⟨hday, hclock⟩ := div_and_mod_of_shift? hs
  have hnano : t.nano = s.utc.nano := (shift?_eq_some_iff.mp hs).2
  have hwall : s.wallText = t.text := by
    rw [Stamp.wallText, hday, hclock, ← hnano]
    rfl
  rw [Stamp.text, String.toList_append, hwall, toList_text, chars_append, hnano]

/-- **A timestamp whose year is shown without a sign** shows a time. -/
theorem exists_shift?_of_plain {s : Stamp} (h : s.HasPlainYear) :
    ∃ t, s.utc.shift? s.offset = some t ∧ t.HasPlainYear := by
  obtain ⟨d, hd⟩ : ∃ d, Date.ofDay? ((s.utc.seconds + s.offset) / secondsPerDay) = some d := by
    obtain ⟨hle, hlt⟩ := Calendar.firstDay_le_and_lt ((s.utc.seconds + s.offset) / secondsPerDay)
    have hyear : Calendar.yearOf ((s.utc.seconds + s.offset) / secondsPerDay) = s.wallYear := rfl
    obtain ⟨hlow, hhigh⟩ := h
    rw [hyear] at hle hlt
    refine ⟨_, dif_pos ?_⟩
    simp only [Calendar.minDay, Calendar.maxDay, Calendar.firstDay] at hle hlt ⊢
    omega
  obtain ⟨t, ht⟩ : ∃ t, s.utc.shift? s.offset = some t :=
    ⟨_, by rw [shift?, ofSeconds?, hd, Option.map_some]⟩
  have hyear : t.date.civil.year = s.wallYear := by
    rw [Stamp.wallYear, (div_and_mod_of_shift? ht).1]
    rfl
  refine ⟨t, ht, ?_⟩
  rw [HasPlainYear, hyear]
  exact h

/-- A clock that is set in whole minutes shows a second that is too long as the next one. -/
theorem ofLocal?_settled {s : Stamp} (hs : s.utc.shift? s.offset = some t) (hm : 60 ∣ s.offset) :
    Stamp.ofLocal? t.settled s.offset = some ⟨s.utc.settled, s.offset⟩ := by
  obtain ⟨hseconds, hnano⟩ := shift?_eq_some_iff.mp hs
  have hback : t.shift? (-s.offset) = some s.utc :=
    shift?_eq_some_iff.mpr ⟨by omega, hnano.symm⟩
  rw [Stamp.ofLocal?, shift?_settled (Int.dvd_neg.mpr hm), hback]
  rfl

theorem isBlank_of_mem_fractionText (nano : Nat) :
    ∀ c ∈ (fractionText nano).toList, Text.isBlank c = false := by
  have hpoint : ∀ c ∈ ".".toList, Text.isBlank c = false := List.forall_mem_singleton.mpr rfl
  rw [fractionText]
  split_ifs
  · exact nofun
  all_goals
    rw [String.toList_append, List.forall_mem_append]
    exact ⟨hpoint, isBlank_of_mem_padded⟩

theorem HasPlainYear.year?_dateChars (h : t.HasPlainYear) (rest : List Char) :
    Pattern.year? (t.dateChars rest) =
      some (t.date.civil.year, '-' :: monthDayChars t.date.civil rest) := by
  rw [dateChars_of_plain h, Pattern.year?_padded h.toNat_le, h.cast_toNat]

theorem HasPlainYear.misses_monthSlash (h : t.HasPlainYear) (rest : List Char)
    (items : List Pattern.Item) :
    Pattern.Misses (.month :: .mark '/' :: items) (t.dateChars rest) := by
  rw [dateChars_of_plain h]
  exact Moment.misses_monthSlash h.toNat_le _ items

end DateTime

namespace Moment

open DateTime (isBlank_of_mem_chars isBlank_of_mem_dateChars isBlank_of_mem_padded)

variable {t : DateTime}

/-- **A date is read back** as its midnight. -/
theorem read?_dateText {d : Date} (h : (DateTime.midnight d).HasPlainYear) :
    read? d.text = some (.wall (.midnight d)) := by
  have hcivil : Calendar.isCivil d.civil = true := d.isCivil_civil
  have htrim : Text.trimChars d.text.toList = (DateTime.midnight d).dateChars [] := by
    rw [DateTime.toList_dateText]
    exact Text.trimChars_of_forall (isBlank_of_mem_dateChars nofun)
  have hyear := h.year?_dateChars []
  have hnothing : ∀ items, Pattern.Misses (.mark 'T' :: items) [] := fun _ =>
    Pattern.misses_of_stop fun p => rfl
  have haware := misses_awarePatterns hcivil hyear nofun (hnothing _)
  have hwall := misses_wallPatterns hcivil hyear nofun (hnothing _) (hnothing _)
    (h.misses_monthSlash [])
  have hfirst : (Pattern.read? dashedDate ((DateTime.midnight d).dateChars [])).bind (·.date?) =
      some d := by
    rw [Pattern.read?, take?_dashedDate hcivil hyear]
    exact d.ofCivil?_civil
  have hdate : date? ((DateTime.midnight d).dateChars []) = some d :=
    (List.findSome?_cons_of_isSome (by rw [hfirst]; rfl)).trans hfirst
  rw [read?, htrim, aware?, wall?, hdate, DateTime.strict?_dateChars h,
    Pattern.findSome?_eq_none haware, Pattern.findSome?_eq_none hwall]
  rfl

/-- **A wall-clock time is read back** as it is shown. -/
theorem read?_timeText (h : t.HasPlainYear) : read? t.text = some (.wall t.settled) := by
  have hcivil : Calendar.isCivil t.date.civil = true := t.date.isCivil_civil
  have htrim : Text.trimChars t.text.toList = t.chars (fractionText t.nano).toList := by
    rw [DateTime.toList_text]
    exact Text.trimChars_of_forall
      (isBlank_of_mem_chars (DateTime.isBlank_of_mem_fractionText t.nano))
  have hyear := h.year?_dateChars ('T' :: clockChars t.second t.nano (fractionText t.nano).toList)
  have hfraction : Pattern.fraction? (fractionText t.nano).toList =
      some (t.nano % 1000000000, []) := by
    have hnothing : ∀ c ∈ [].head?, c.isDigit = false ∧ c ≠ '.' := nofun
    have hread := Pattern.fraction?_fractionText t.nano hnothing
    rwa [List.append_nil] at hread
  have hstrict : strict? (t.chars (fractionText t.nano).toList) = none :=
    DateTime.strict?_chars h hfraction
  have haware := misses_awarePatterns hcivil hyear (not_blank_markT _)
    (misses_timeFraction t.second_lt t.nano_lt hfraction (Pattern.misses_of_stop fun p => rfl))
  have hparts : Pattern.read? (dashedDate ++ .mark 'T' :: toFraction)
      (t.chars (fractionText t.nano).toList) = some t.parts := by
    rw [Pattern.read?, Pattern.take?_append, DateTime.chars, take?_dashedDate hcivil hyear]
    simp only [Option.bind_some, Pattern.take?_mark,
      take?_toFraction t.second_lt t.nano_lt hfraction]
    rfl
  have hfirst : (Pattern.read? (dashedDate ++ .mark 'T' :: toFraction)
      (t.chars (fractionText t.nano).toList)).bind (·.dateTime?) = some t.settled := by
    rw [hparts]
    exact t.dateTime?_parts
  have hwall : wall? (t.chars (fractionText t.nano).toList) = some t.settled :=
    (List.findSome?_cons_of_isSome (by rw [hfirst]; rfl)).trans hfirst
  rw [read?, htrim, aware?, hwall, hstrict, DateTime.chars, Pattern.findSome?_eq_none haware]
  rfl

/-- **A timestamp is read back** with its offset, and as it is shown. -/
theorem read?_stampText {s : Stamp} (h : s.HasPlainYear) (hm : 60 ∣ s.offset)
    (hd : s.offset.natAbs < 86400) :
    read? s.text = some (.aware ⟨s.utc.settled, s.offset⟩) := by
  obtain ⟨t, hs, ht⟩ := DateTime.exists_shift?_of_plain h
  have hnano : t.nano = s.utc.nano := (DateTime.shift?_eq_some_iff.mp hs).2
  obtain ⟨c, sign, hc, -, htext⟩ := exists_signed_minuteOffsetText hm
  have hstart : Text.isBlank c = false ∧ c.isDigit = false ∧ c ≠ '.' := by
    rcases hc with ⟨rfl, -⟩ | ⟨rfl, -⟩ <;> decide
  have hfraction : Pattern.fraction? ((fractionText s.utc.nano).toList ++
      (minuteOffsetText s.offset).toList) =
        some (t.nano % 1000000000, (minuteOffsetText s.offset).toList) := by
    rw [← hnano, Pattern.fraction?_fractionText]
    rw [htext]
    rintro _ ⟨⟩
    exact hstart.2
  have hstrict : strict? s.text.toList = some ⟨s.utc.settled, s.offset⟩ := by
    rw [DateTime.toList_stampText hs, ← DateTime.ofLocal?_settled hs hm]
    exact DateTime.strict?_chars_offset ht hfraction (strictOffset?_minuteOffsetText hm hd) hd
  have htrim : Text.trimChars s.text.toList = s.text.toList := by
    rw [DateTime.toList_stampText hs, htext]
    refine Text.trimChars_of_forall (isBlank_of_mem_chars ?_)
    simp only [List.forall_mem_append, List.forall_mem_cons]
    exact ⟨DateTime.isBlank_of_mem_fractionText _, hstart.1, isBlank_of_mem_padded, rfl,
      isBlank_of_mem_padded, nofun⟩
  rw [read?, htrim, aware?, hstrict]
  rfl

end Moment

end SearchCompiler
