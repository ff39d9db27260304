import SearchCompiler.Proofs.Time.Clock
import SearchCompiler.Proofs.Time.Reading
import SearchCompiler.Time.Moment

/-! # Texts that begin with a date

Dates, wall-clock times and timestamps are written with a year, a month and a day between dashes in
front, and a time after a `T`. The strict form reads such a text number by number, and so do the
patterns that begin with dashes, whatever follows. All other patterns stop at the first dash, or,
if they begin with the month, at a slash that is not there.

* `DateTime.dateChars`, `DateTime.chars`: the characters of a date and of a time.
* `DateTime.strict?_chars`: the strict form.
* `Moment.take?_dashedDate`, `Moment.take?_toFraction`: the patterns.
* `Moment.misses_awarePatterns`, `Moment.misses_wallPatterns`, `Moment.misses_datePatterns`: the
  patterns that do not fit. -/

namespace SearchCompiler

open Numeral (padded)

/-! ### The characters of a date and of a time -/

namespace Moment

/-- Month and day, and what follows. -/
def monthDayChars (c : Civil) (rest : List Char) : List Char :=
  (padded 2 c.month).toList ++ '-' :: ((padded 2 c.day).toList ++ rest)

/-- Hour, minute and second, and what follows. -/
def clockChars (second nano : Nat) (rest : List Char) : List Char :=
  (padded 2 (second / 3600)).toList ++ ':' :: ((padded 2 (second / 60 % 60)).toList ++ ':' ::
    ((padded 2 (second % 60 + nano / 1000000000)).toList ++ rest))

theorem toList_dayText (day : Int) : (Calendar.dayText day).toList =
    (Calendar.yearText (Calendar.civil day).year).toList ++
      '-' :: monthDayChars (Calendar.civil day) [] := by
  simp [Calendar.dayText, monthDayChars]

variable {c : Civil} {second nano n : Nat} {cs rest : List Char} {y : Int}

theorem bounds_of_isCivil (hc : Calendar.isCivil c = true) :
    (1 ≤ c.month ∧ c.month ≤ 12) ∧ 1 ≤ c.day ∧ c.day ≤ 31 := by
  obtain ⟨hmonth, hmonth', hday, hday'⟩ := Calendar.isCivil_iff.mp hc
  exact ⟨⟨hmonth, hmonth'⟩, hday, Nat.le_trans hday' (Calendar.daysInMonth_le _ _)⟩

end Moment

namespace DateTime

open Moment (monthDayChars clockChars)

variable {t : DateTime} {cs : List Char}

/-- The characters of the date of a time, and what follows. -/
def dateChars (t : DateTime) (rest : List Char) : List Char :=
  (Calendar.yearText t.date.civil.year).toList ++ '-' :: monthDayChars t.date.civil rest

/-- **The characters of a time** up to the second, and what follows. -/
def chars (t : DateTime) (rest : List Char) : List Char :=
  t.dateChars ('T' :: clockChars t.second t.nano rest)

theorem toList_dateText (d : Date) : d.text.toList = (midnight d).dateChars [] :=
  Moment.toList_dayText d.day

theorem toList_timeText (t : DateTime) :
    (t.date.text ++ "T" ++ clockText t.second t.nano).toList = t.chars [] := by
  simp [chars, dateChars, toList_dateText, midnight, clockText, monthDayChars, clockChars]

theorem chars_append (t : DateTime) (cs rest : List Char) :
    t.chars cs ++ rest = t.chars (cs ++ rest) := by
  simp [chars, dateChars, monthDayChars, clockChars]

/-- **Is the year shown without a sign?** -/
def HasPlainYear (t : DateTime) : Prop := 0 ≤ t.date.civil.year ∧ t.date.civil.year ≤ 9999

instance (t : DateTime) : Decidable t.HasPlainYear := by
  unfold HasPlainYear; infer_instance

theorem dateChars_of_plain (h : t.HasPlainYear) (rest : List Char) : t.dateChars rest =
    (padded 4 t.date.civil.year.toNat).toList ++ '-' :: monthDayChars t.date.civil rest := by
  have hyear : Calendar.yearText t.date.civil.year = padded 4 t.date.civil.year.toNat := if_pos h
  rw [dateChars, hyear]

theorem HasPlainYear.toNat_le (h : t.HasPlainYear) : t.date.civil.year.toNat ≤ 9999 := by
  have hle := h.2
  omega

theorem HasPlainYear.cast_toNat (h : t.HasPlainYear) :
    (t.date.civil.year.toNat : Int) = t.date.civil.year := Int.toNat_of_nonneg h.1

theorem isBlank_of_mem_padded {width n : Nat} :
    ∀ c ∈ (padded width n).toList, Text.isBlank c = false := fun _ hc =>
  Text.isBlank_of_isDigit (Numeral.isDigit_of_mem_padded hc)

theorem isBlank_of_mem_dateChars (h : ∀ c ∈ cs, Text.isBlank c = false) :
    ∀ c ∈ t.dateChars cs, Text.isBlank c = false := by
  have hyear : ∀ c ∈ (Calendar.yearText t.date.civil.year).toList, Text.isBlank c = false := by
    rw [Calendar.yearText]
    split
    · exact isBlank_of_mem_padded
    · rw [String.toList_append, List.forall_mem_append]
      refine ⟨?_, isBlank_of_mem_padded⟩
      split <;> exact List.forall_mem_singleton.mpr rfl
  simp only [dateChars, monthDayChars, List.forall_mem_append, List.forall_mem_cons]
  exact ⟨hyear, rfl, isBlank_of_mem_padded, rfl, isBlank_of_mem_padded, h⟩

theorem isBlank_of_mem_chars (h : ∀ c ∈ cs, Text.isBlank c = false) :
    ∀ c ∈ t.chars cs, Text.isBlank c = false := by
  refine isBlank_of_mem_dateChars ?_
  simp only [clockChars, List.forall_mem_append, List.forall_mem_cons]
  exact ⟨rfl, isBlank_of_mem_padded, rfl, isBlank_of_mem_padded, rfl, isBlank_of_mem_padded, h⟩

end DateTime

/-! ### The strict form -/

namespace Moment

variable {n : Nat} {rest : List Char}

theorem exactly?_padded {width lo hi : Nat} (hw : 0 < width) (hn : n < Nat.pow 10 width)
    (hb : lo ≤ n ∧ n ≤ hi) :
    exactly? width lo hi ((padded width n).toList ++ rest) = some (n, rest) := by
  rw [exactly?, Pattern.digits?_padded hw hn (Nat.le_refl width)]
  exact if_pos hb

theorem exactly?_year (hn : n ≤ 9999) :
    exactly? 4 0 9999 ((padded 4 n).toList ++ rest) = some (n, rest) :=
  exactly?_padded (by decide) (Nat.lt_succ_of_le hn) ⟨Nat.zero_le n, hn⟩

theorem exactly?_two {lo hi : Nat} (hn : n < 100) (hb : lo ≤ n ∧ n ≤ hi) :
    exactly? 2 lo hi ((padded 2 n).toList ++ rest) = some (n, rest) :=
  exactly?_padded (by decide) hn hb

theorem bind_of_eq_some {α β : Type} {x : Option α} {a : α} (h : x = some a) (f : α → Option β) :
    (x >>= f) = f a := by
  rw [h]
  rfl

end Moment

namespace DateTime

open Moment

variable {t : DateTime} {cs rest : List Char} {o : Int}

/-- **What a clock shows**, with an offset, is the moment at which it is shown. -/
theorem stamp?_parts (t : DateTime) (ho : o.natAbs < 86400) :
    { t.parts with offset := o }.stamp? = Stamp.ofLocal? t.settled o := by
  have hdateTime : { t.parts with offset := o }.dateTime? = some t.settled := t.dateTime?_parts
  rw [Pattern.Parts.stamp?, hdateTime, Option.bind_some]
  exact if_pos ho

/-- **The strict form** of a time, read number by number up to the offset. -/
theorem strict?_chars (h : t.HasPlainYear) {n : Nat}
    (hfraction : Pattern.fraction? cs = some (n, rest)) :
    strict? (t.chars cs) = (strictOffset? rest).bind fun p =>
      if p.2.isEmpty then { t.parts with nano := n, offset := p.1 }.stamp? else none := by
  obtain ⟨hmonth, hday⟩ := bounds_of_isCivil t.date.isCivil_civil
  have hsecond := t.second_lt
  have hnano := t.nano_lt
  rw [chars, dateChars_of_plain h, strict?]
  refine (bind_of_eq_some (exactly?_year h.toNat_le) _).trans ?_
  refine (bind_of_eq_some (Pattern.mark?_self '-' _) _).trans ?_
  refine (bind_of_eq_some (exactly?_two (by omega) hmonth) _).trans ?_
  refine (bind_of_eq_some (Pattern.mark?_self '-' _) _).trans ?_
  refine (bind_of_eq_some (exactly?_two (by omega) hday) _).trans ?_
  refine (bind_of_eq_some (show strictMark? ('T' :: _) = some _ from rfl) _).trans ?_
  refine (bind_of_eq_some (exactly?_two (by omega) (by omega)) _).trans ?_
  refine (bind_of_eq_some (Pattern.mark?_self ':' _) _).trans ?_
  refine (bind_of_eq_some (exactly?_two (by omega) (by omega)) _).trans ?_
  refine (bind_of_eq_some (Pattern.mark?_self ':' _) _).trans ?_
  refine (bind_of_eq_some (exactly?_two (by omega) (by omega)) _).trans ?_
  refine (bind_of_eq_some hfraction _).trans ?_
  rw [h.cast_toNat]
  rfl

/-- The offset that follows is that of the moment. -/
theorem strict?_chars_offset (h : t.HasPlainYear)
    (hfraction : Pattern.fraction? cs = some (t.nano % 1000000000, rest))
    (hoffset : strictOffset? rest = some (o, [])) (ho : o.natAbs < 86400) :
    strict? (t.chars cs) = Stamp.ofLocal? t.settled o := by
  rw [strict?_chars h hfraction, hoffset]
  exact stamp?_parts t ho

theorem strict?_dateChars (h : t.HasPlainYear) : strict? (t.dateChars []) = none := by
  obtain ⟨hmonth, hday⟩ := bounds_of_isCivil t.date.isCivil_civil
  rw [dateChars_of_plain h, strict?]
  refine (bind_of_eq_some (exactly?_year h.toNat_le) _).trans ?_
  refine (bind_of_eq_some (Pattern.mark?_self '-' _) _).trans ?_
  refine (bind_of_eq_some (exactly?_two (by omega) hmonth) _).trans ?_
  refine (bind_of_eq_some (Pattern.mark?_self '-' _) _).trans ?_
  exact bind_of_eq_some (exactly?_two (by omega) hday) _

end DateTime

/-! ### Patterns that fit -/

namespace Moment

open Pattern

variable {c : Civil} {second nano n : Nat} {cs rest : List Char} {y : Int}

/-- **A date between dashes**, up to what follows. -/
theorem take?_dashedDate (hc : Calendar.isCivil c = true)
    (hyear : year? cs = some (y, '-' :: monthDayChars c rest)) (p : Parts) :
    take? dashedDate p cs = some ({ p with year := y, month := c.month, day := c.day }, rest) := by
  obtain ⟨hmonth, hday⟩ := bounds_of_isCivil hc
  have hmonths (rest : List Char) :
      small? 1 12 ((padded 2 c.month).toList ++ rest) = some (c.month, rest) :=
    small?_padded (by omega) hmonth
  have hdays : small? 1 31 ((padded 2 c.day).toList ++ rest) = some (c.day, rest) :=
    small?_padded (by omega) hday
  simp only [dashedDate, take?, Item.read?, hyear, monthDayChars, mark?_self, hmonths, hdays,
    Option.map_some, Option.bind_some]

/-- **A time up to the minute.** -/
theorem take?_toMinute (hsecond : second < 86400) (p : Parts) :
    take? toMinute p (clockChars second nano cs) =
      some ({ p with hour := second / 3600, minute := second / 60 % 60 },
        ':' :: ((padded 2 (second % 60 + nano / 1000000000)).toList ++ cs)) := by
  have hhours (rest : List Char) :
      small? 0 23 ((padded 2 (second / 3600)).toList ++ rest) = some (second / 3600, rest) :=
    small?_padded (by omega) (by omega)
  have hminutes (rest : List Char) :
      small? 0 59 ((padded 2 (second / 60 % 60)).toList ++ rest) =
        some (second / 60 % 60, rest) :=
    small?_padded (by omega) (by omega)
  simp only [toMinute, take?, Item.read?, clockChars, mark?_self, hhours, hminutes,
    Option.map_some, Option.bind_some]

/-- **A time with its fraction.** -/
theorem take?_toFraction (hsecond : second < 86400) (hnano : nano < 2000000000)
    (hfraction : fraction? cs = some (n, rest)) (p : Parts) :
    take? toFraction p (clockChars second nano cs) =
      some ({ p with hour := second / 3600, minute := second / 60 % 60,
                     second := second % 60 + nano / 1000000000, nano := n }, rest) := by
  have hseconds (rest : List Char) :
      small? 0 60 ((padded 2 (second % 60 + nano / 1000000000)).toList ++ rest) =
        some (second % 60 + nano / 1000000000, rest) :=
    small?_padded (by omega) (by omega)
  rw [toFraction, toSecond, take?_append, take?_append, take?_toMinute hsecond, Option.bind_some]
  simp only [take?, Item.read?, mark?_self, hseconds, hfraction, Option.map_some,
    Option.bind_some]

/-! ### Patterns that do not fit -/

theorem not_blank_markT (cs : List Char) :
    ∀ d ∈ ('T' :: cs).head?, Text.isBlank d = false ∧ d.isDigit = false := by
  rintro _ ⟨⟩
  exact ⟨rfl, rfl⟩

theorem misses_timeMinute (hsecond : second < 86400) (cs : List Char) :
    Misses (.mark 'T' :: toMinute) ('T' :: clockChars second nano cs) := by
  have htime : Takes toMinute (clockChars second nano cs) _ :=
    fun p => ⟨_, take?_toMinute hsecond p⟩
  exact (Takes.mark htime).misses_self

/-- What follows a time has to fit what follows it in a pattern. -/
theorem misses_timeFraction {items : List Item} (hsecond : second < 86400)
    (hnano : nano < 2000000000) (hfraction : fraction? cs = some (n, rest))
    (h : Misses items rest) :
    Misses (.mark 'T' :: (toFraction ++ items)) ('T' :: clockChars second nano cs) := by
  have htime : Takes toFraction (clockChars second nano cs) rest :=
    fun p => ⟨_, take?_toFraction hsecond hnano hfraction p⟩
  exact (Takes.mark htime).misses h

theorem misses_dashedDate {items : List Item} (hc : Calendar.isCivil c = true)
    (hyear : year? cs = some (y, '-' :: monthDayChars c rest)) (h : Misses items rest) :
    Misses (dashedDate ++ items) cs :=
  Takes.misses (fun p => ⟨_, take?_dashedDate hc hyear p⟩) h

theorem misses_of_mark {m : Char} (hm : '-' ≠ m)
    (hyear : year? cs = some (y, '-' :: monthDayChars c rest)) (items : List Item) :
    Misses (.year :: .mark m :: items) cs :=
  (Takes.year hyear (takes_nil _)).misses (misses_mark hm)

theorem misses_digits (hyear : year? cs = some (y, '-' :: monthDayChars c rest))
    (items : List Item) : Misses (.year :: .month :: items) cs := by
  refine (Takes.year hyear (takes_nil _)).misses (misses_small .month ?_)
  rintro _ ⟨⟩
  exact ⟨rfl, rfl⟩

/-- The digits of a year are no month before a slash. -/
theorem misses_monthSlash {year : Nat} (hyear : year ≤ 9999) (cs : List Char)
    (items : List Item) :
    Misses (.month :: .mark '/' :: items) ((padded 4 year).toList ++ cs) := by
  have hlength : (padded 4 year).toList.length = 4 :=
    Numeral.length_padded (by decide) (Nat.lt_succ_of_le hyear)
  exact misses_smallMark .month (fun c => Numeral.isDigit_of_mem_padded) (by omega) rfl

section
variable (hc : Calendar.isCivil c = true)
  (hyear : year? cs = some (y, '-' :: monthDayChars c rest))
  (hstart : ∀ d ∈ rest.head?, Text.isBlank d = false ∧ d.isDigit = false)

include hc hyear hstart

/-- If what follows the date is no time with an offset, no pattern with an offset fits. -/
theorem misses_awarePatterns (hoffset : Misses (.mark 'T' :: (toFraction ++ [.offset])) rest) :
    ∀ p ∈ awarePatterns, Misses p cs := by
  simp only [awarePatterns, List.forall_mem_cons, List.append_assoc]
  exact ⟨misses_dashedDate hc hyear (misses_gap .hour hstart), misses_dashedDate hc hyear hoffset,
    misses_of_mark (by decide) hyear _, fun p hp => nomatch hp⟩

/-- If it is no time, no pattern of a wall-clock time fits. -/
theorem misses_wallPatterns (hfraction : Misses (.mark 'T' :: toFraction) rest)
    (hminute : Misses (.mark 'T' :: toMinute) rest)
    (hmonth : ∀ items, Misses (.month :: .mark '/' :: items) cs) :
    ∀ p ∈ wallPatterns, Misses p cs := by
  simp only [wallPatterns, List.forall_mem_cons]
  exact ⟨misses_dashedDate hc hyear hfraction, misses_dashedDate hc hyear (misses_gap .hour hstart),
    misses_dashedDate hc hyear hminute, misses_dashedDate hc hyear (misses_gap .hour hstart),
    misses_of_mark (by decide) hyear _, misses_of_mark (by decide) hyear _, misses_digits hyear _,
    hmonth _, fun p hp => nomatch hp⟩

end

/-- If anything follows the date, no pattern of a date fits. -/
theorem misses_datePatterns {d : Char} (hc : Calendar.isCivil c = true)
    (hyear : year? cs = some (y, '-' :: monthDayChars c (d :: rest)))
    (hmonth : ∀ items, Misses (.month :: .mark '/' :: items) cs) :
    ∀ p ∈ datePatterns, Misses p cs := by
  have hdate : Takes dashedDate cs (d :: rest) := fun p => ⟨_, take?_dashedDate hc hyear p⟩
  simp only [datePatterns, List.forall_mem_cons]
  exact ⟨hdate.misses_self, misses_of_mark (by decide) hyear _,
    misses_of_mark (by decide) hyear _, misses_digits hyear _, hmonth _, fun p hp => nomatch hp⟩

end Moment

end SearchCompiler
