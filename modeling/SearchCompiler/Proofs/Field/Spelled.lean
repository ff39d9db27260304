import SearchCompiler.Proofs.Field.Idempotent
import SearchCompiler.Proofs.Time.Spelling
import SearchCompiler.Proofs.Zone.Minutes

/-! # Moments, however they are spelled

A field for moments takes dates, wall-clock times, timestamps and texts. It makes the same of a
value and of the text in which the value is quoted, as long as the year is shown without a sign: the
same moment, or a refusal for the same reason. Only the value that a refusal quotes is another. A
date counts as its midnight. The moment that is given is cut to microseconds, and is itself a text
that the field takes and gives back.

A second that goes on for longer than a second in the middle of a minute is read back as the next
one. This is the same moment, but a zone may give the next second another offset, or make the first
of them a leap second.

* `FieldError.quoting`: a refusal that quotes another value.
* `Value.IsPlainMoment`: the values that have such a text.
* `Field.validate_utcText`: the moments that are given.
* `Field.validate_text_eq`: a value and its text. -/

namespace SearchCompiler

/-- **A refusal that quotes another value**, for the same reason. -/
def FieldError.quoting (v : Value) : FieldError → FieldError
  | .invalid field kind _ reason => .invalid field kind v reason
  | e => e

/-- **A date, a wall-clock time or a timestamp** whose year is shown without a sign. The clock of a
timestamp is set in whole minutes, and less than a day from UTC. -/
inductive Value.IsPlainMoment : Value → Prop
  | date {d : Date} (h : (DateTime.midnight d).HasPlainYear) : IsPlainMoment (.date d)
  | wallTime {t : DateTime} (h : t.HasPlainYear) : IsPlainMoment (.wallTime t)
  | timestamp {s : Stamp} (h : s.HasPlainYear) (hm : 60 ∣ s.offset)
    (hd : s.offset.natAbs < 86400) : IsPlainMoment (.timestamp s)

namespace Validate

variable {zone : Zone} {t : DateTime}

theorem mapError_quoting_blame {α : Type} (label kind : String) (v w : Value)
    (x : Except Rejection α) :
    (blame label kind v x).mapError (·.quoting w) = blame label kind w x := by
  cases x <;> rfl

theorem moment_settled (t : DateTime) : moment t.settled = moment t :=
  congrArg Value.str t.utcText_settled

theorem placed_settled (h : t.IsClockTime ∨ zone.KeepsMinute t) :
    placed zone t.settled = placed zone t := by
  by_cases ht : t.IsClockTime
  · rw [DateTime.settled_of_isClockTime ht]
  · have hmoment : moment ∘ DateTime.settled = moment := funext moment_settled
    rw [placed, placed, (h.resolve_left ht).localize?_settled ht, Option.map_map, hmoment]

theorem timestamp_of_aware {s : String} {m : Stamp} (h : Moment.read? s = some (.aware m)) :
    timestamp zone (.str s) = .ok (moment m.utc) := by
  rw [timestamp, momentText, h]

theorem timestamp_of_wall {s : String} (h : Moment.read? s = some (.wall t)) :
    timestamp zone (.str s) = placed zone t := by
  rw [timestamp, momentText, h]

/-- **The text of a wall-clock time** is taken like the time that is shown. -/
theorem timestamp_timeText (h : t.HasPlainYear) :
    timestamp zone (.str (Value.wallTime t).text) = timestamp zone (.wallTime t.settled) :=
  timestamp_of_wall (Moment.read?_timeText h)

/-- **The text of a moment** is taken like the moment. -/
theorem timestamp_text {v : Value} (hv : v.IsPlainMoment)
    (hclock : ∀ t, v = .wallTime t → t.IsClockTime ∨ zone.KeepsMinute t) :
    timestamp zone (.str v.text) = timestamp zone v := by
  cases hv with
  | date h => exact timestamp_of_wall (Moment.read?_dateText h)
  | wallTime h => exact (timestamp_timeText h).trans (placed_settled (hclock _ rfl))
  | timestamp h hm hd =>
    exact (timestamp_of_aware (Moment.read?_stampText h hm hd)).trans
      (congrArg Except.ok (moment_settled _))

end Validate

namespace Field

variable {f : Field} {zone : Zone} {v w : Value} {t : DateTime}

theorem validate_of_timestamp (hf : f.kind = .timestamp zone) (v : Value) :
    f.validate v = Validate.blame f.label "timestamp" v (Validate.timestamp zone v) := by
  rw [validate_eq, hf, Kind.validate]

theorem validate_eq_mapError (hf : f.kind = .timestamp zone)
    (h : Validate.timestamp zone v = Validate.timestamp zone w) :
    f.validate v = (f.validate w).mapError (·.quoting v) := by
  rw [validate_of_timestamp hf, validate_of_timestamp hf, Validate.mapError_quoting_blame, h]

/-- **A moment in UTC form is read back.** If its year has no sign, the text is read as the moment
cut to microseconds: as the same instant, and, if it is one that a clock shows as itself, as the
same time. Hence every field for moments gives the text back unchanged. -/
theorem validate_utcText (h : t.HasPlainYear) :
    (∃ t', Moment.read? t.utcText = some (.aware ⟨t', 0⟩) ∧
        t'.instant = t.instant / 1000 * 1000 ∧ (t.IsClockTime → t' = t.toMicros)) ∧
      ∀ (f : Field) (zone : Zone), f.kind = .timestamp zone →
        f.validate (.str t.utcText) = .ok (.str t.utcText) := by
  refine ⟨⟨t.toMicros.settled, Moment.read?_utcText h, ?_, fun hclock => ?_⟩, fun f zone hf => ?_⟩
  · rw [DateTime.instant_settled, DateTime.instant_toMicros]
  · exact DateTime.settled_of_isClockTime (DateTime.isClockTime_toMicros.mpr hclock)
  · have hmoment : Validate.timestamp zone (.str t.utcText) = .ok (.str t.utcText) :=
      Validate.timestamp_of_plain zone h
    rw [validate_of_timestamp hf, hmoment]
    rfl

/-- The last second of 2016, a leap second. -/
def leapSecond : DateTime := ⟨⟨17166, by decide⟩, 86399, 1123456789, by decide, by decide⟩

theorem validate_utcText_leapSecond : leapSecond.HasPlainYear ∧
    leapSecond.utcText = "2016-12-31T23:59:60.123456Z" ∧
    (ofKind (.timestamp .standard)).validate (.str leapSecond.utcText) =
      .ok (.str leapSecond.utcText) := by
  have hyear : leapSecond.HasPlainYear := by decide
  exact ⟨hyear, rfl, (validate_utcText hyear).2 _ _ rfl⟩

/-- **A moment means the same however it is spelled.** A field for moments makes the same of a value
and of its text, up to which of them a refusal quotes, and the same of a date and of its midnight. A
wall-clock time that no clock shows as itself is spelled as the next second, and means the same
where the zone leaves both in one minute. -/
theorem validate_text_eq (hf : f.kind = .timestamp zone) :
    (∀ v : Value, v.IsPlainMoment →
        (∀ t, v = .wallTime t → t.IsClockTime ∨ zone.KeepsMinute t) →
        f.validate (.str v.text) = (f.validate v).mapError (·.quoting (.str v.text))) ∧
      (∀ t : DateTime, t.HasPlainYear → f.validate (.str (Value.wallTime t).text) =
        (f.validate (.wallTime t.settled)).mapError (·.quoting (.str (Value.wallTime t).text))) ∧
      ∀ d, f.validate (.date d) =
        (f.validate (.wallTime (.midnight d))).mapError (·.quoting (.date d)) :=
  ⟨fun _ hv hclock => validate_eq_mapError hf (Validate.timestamp_text hv hclock),
    fun _ ht => validate_eq_mapError hf (Validate.timestamp_timeText ht),
    fun _ => validate_eq_mapError hf rfl⟩

/-- The clocks of a region around the day on which they are put forward by an hour. -/
def putForward (wall standard : Int) : Clocks := fun t =>
  if t.seconds < wall then .once standard
  else if t.seconds < wall + 3600 then .skipped
  else .once (standard + 3600)

/-- New York from November 2020 to November 2021. -/
def newYork : Zone := .region "America/New_York" (putForward 1615687200 (-18000))

/-- A time that the clocks of New York skipped. -/
def skipped : DateTime := ⟨⟨18700, by decide⟩, 9000, 500000000, by decide, by decide⟩

/-- A leap second in Newfoundland. -/
def leapStamp : Stamp := ⟨leapSecond, -12600⟩

/-- A second in the middle of a minute that goes on for longer than a second. -/
def overlong : DateTime := ⟨⟨18700, by decide⟩, 60, 1500000000, by decide, by decide⟩

theorem validate_text_eq_newYork :
    (Value.wallTime skipped).IsPlainMoment ∧ (Value.timestamp leapStamp).IsPlainMoment ∧
    (Value.wallTime overlong).IsPlainMoment ∧ newYork.KeepsMinute overlong ∧
    (ofKind (.timestamp newYork)).validate (.str "2021-03-14T02:30:00.500") =
      .error (.invalid "<unnamed>" "timestamp" (.str "2021-03-14T02:30:00.500")
        (.skippedTime "America/New_York")) ∧
    (ofKind (.timestamp newYork)).validate (.str "2016-12-31T20:29:60.123456789-03:30") =
      .ok (.str "2016-12-31T23:59:60.123456Z") ∧
    (ofKind (.timestamp newYork)).validate (.str "2021-03-14T00:01:01.500") =
      .ok (.str "2021-03-14T05:01:01.500000Z") ∧
    (ofKind (.timestamp newYork)).validate (.date skipped.date) =
      .ok (.str "2021-03-14T05:00:00.000000Z") := by
  have hskipped : (Value.wallTime skipped).IsPlainMoment := .wallTime (by decide)
  have hleap : (Value.timestamp leapStamp).IsPlainMoment :=
    .timestamp (by decide) (by decide) (by decide)
  have hlong : (Value.wallTime overlong).IsPlainMoment := .wallTime (by decide)
  have hkind : (ofKind (.timestamp newYork)).kind = .timestamp newYork := rfl
  have hminute : newYork.KeepsMinute overlong :=
    Zone.keepsMinute_of_dvd (by decide) rfl (List.forall_mem_singleton.mpr (by decide))
  obtain ⟨htext, -, hdate⟩ := validate_text_eq hkind
  refine ⟨hskipped, hleap, hlong, hminute, (htext _ hskipped fun t ht => Or.inl ?_).trans rfl,
    (htext _ hleap fun _ h => nomatch h).trans rfl, (htext _ hlong fun t ht => Or.inr ?_).trans rfl,
    (hdate skipped.date).trans rfl⟩
  · obtain rfl := Value.wallTime.inj ht
    decide
  · obtain rfl := Value.wallTime.inj ht
    exact hminute

/-- The Azores from October 2020 to October 2021. -/
def azores : Zone := .region "Atlantic/Azores" (putForward 1616889600 (-3600))

/-- A day that began at one o'clock in the Azores. -/
def shortDay : Date := ⟨18714, by decide⟩

/-- **A clock that is a second fast** is in the middle of a minute when a minute of UTC ends: a
second that goes on there is a leap second, and the next one, as which it is spelled, is not. Where
midnight was skipped, a date and its midnight are refused, each with a text of its own. -/
theorem not_validate_text_eq :
    ((Value.wallTime overlong).IsPlainMoment ∧
      (ofKind (.timestamp (.fixed 1))).validate (.wallTime overlong) =
        .ok (.str "2021-03-14T00:00:60.500000Z") ∧
      (ofKind (.timestamp (.fixed 1))).validate (.str (Value.wallTime overlong).text) =
        .ok (.str "2021-03-14T00:01:00.500000Z")) ∧
    (ofKind (.timestamp azores)).validate (.date shortDay) =
      .error (.invalid "<unnamed>" "timestamp" (.date shortDay) (.skippedTime "Atlantic/Azores")) ∧
    (ofKind (.timestamp azores)).validate (.wallTime (.midnight shortDay)) =
      .error (.invalid "<unnamed>" "timestamp" (.wallTime (.midnight shortDay))
        (.skippedTime "Atlantic/Azores")) ∧
    (Value.date shortDay).text ≠ (Value.wallTime (.midnight shortDay)).text :=
  ⟨⟨.wallTime (by decide), rfl, rfl⟩, rfl, rfl, by decide⟩

end Field

end SearchCompiler
