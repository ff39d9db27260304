import SearchCompiler.Proofs.Text.Blank
import SearchCompiler.Proofs.Text.Numeral
import SearchCompiler.Time.Bound

/-! # Days relative to the present one

An offset has a sign, digits and a unit, and is read through a number of 64 bits, its product with
the days of the unit, and the span that these days make. Each step has a limit, and only the first
one shows: days that are beyond the limits of product and span are more than the calendar has, so
that there would be no date for them anyway.

* `TimeBound.days?_eq_some_iff`: what product and span let through.
* `TimeBound.offset?_eq_some_iff`: the days of an offset.
* `Date.natAbs_sub_le`: no two dates are further apart than a span goes.
* `Date.ofBound?_relative`: the date that an offset leads to, and when there is none. -/

namespace SearchCompiler

namespace TimeBound

open Numeral (IsDigits)

/-! ### Signs and units -/

/-- **The signs of an offset**: is it one into the future or into the past? -/
inductive IsSign : Char → Int → Prop
  | later : IsSign '+' 1
  | earlier : IsSign '-' (-1)

/-- **The units of an offset** with their days. Those of the clock have none. -/
inductive IsUnit : Char → Nat → Prop
  | year : IsUnit 'y' 365
  | month : IsUnit 'M' 30
  | week : IsUnit 'w' 7
  | day : IsUnit 'd' 1
  | hour : IsUnit 'h' 0
  | hourOfDay : IsUnit 'H' 0
  | minute : IsUnit 'm' 0
  | second : IsUnit 's' 0

variable {c u : Char} {sign m : Int} {days : Nat} {ds : List Char} {amount unit : Int64}

theorem IsSign.sign?_eq (h : IsSign c sign) : sign? c = some sign := by
  cases h <;> rfl

theorem IsSign.natAbs_mul (h : IsSign c sign) (m : Int) : (sign * m).natAbs = m.natAbs := by
  cases h with
  | later => rw [Int.one_mul]
  | earlier => rw [Int.neg_one_mul, Int.natAbs_neg]

theorem IsUnit.exists_unitDays? (h : IsUnit u days) :
    ∃ unit, unitDays? u = some unit ∧ unit.toInt = days := by
  cases h <;> exact ⟨_, rfl, rfl⟩

theorem IsUnit.isBlank_eq_false (h : IsUnit u days) : Text.isBlank u = false := by
  cases h <;> rfl

/-! ### Offsets -/

/-- **The days of a number of units** are their product, unless it is beyond the limit of a span.
That of the product is greater. -/
theorem days?_eq_some_iff : days? amount unit = some m ↔
    m = amount.toInt * unit.toInt ∧ (m * 86400000).natAbs ≤ 9223372036854775807 := by
  simp only [days?, Option.bind_eq_bind, Option.bind_eq_some_iff, Option.pure_def,
    Option.some.injEq, mulInt64?_eq_some_iff]
  constructor
  · rintro ⟨product, hproduct, span, hspan, rfl⟩
    rw [Span.days_of_ofDays? hspan]
    exact ⟨hproduct, Span.exists_ofDays?_iff.mp ⟨span, hspan⟩⟩
  · rintro ⟨hm, hlimit⟩
    have hproduct : (Int64.ofInt m).toInt = m := Int64.toInt_ofInt_of_le (by omega) (by omega)
    obtain ⟨span, hspan⟩ := Span.exists_ofDays?_iff.mpr (hproduct.symm ▸ hlimit)
    exact ⟨_, hproduct.trans hm, span, hspan, (Span.days_of_ofDays? hspan).trans hproduct⟩

/-- **The days of an offset**, the number being one of 64 bits and the days within a span. -/
theorem offset?_eq_some_iff (hsign : IsSign c sign) (hunit : IsUnit u days) (hds : IsDigits ds) :
    offset? (c :: (ds ++ [u])) = some m ↔ (Numeral.value ds : Int) ≤ Int64.maxValue.toInt ∧
      m = sign * (Numeral.value ds * days) ∧ (m * 86400000).natAbs ≤ 9223372036854775807 := by
  obtain ⟨unit, hu, hdays⟩ := hunit.exists_unitDays?
  simp only [offset?, hsign.sign?_eq, List.getLast?_concat, List.dropLast_concat, hu, hds.readNat?,
    Option.bind_eq_bind, Option.bind_eq_some_iff, toInt64?_eq_some_iff, days?_eq_some_iff, hdays,
    Option.pure_def, Option.some.injEq, exists_eq_left']
  constructor
  · rintro ⟨amount, hamount, product, ⟨rfl, hlimit⟩, rfl⟩
    have hmax := amount.toInt_le
    rw [hamount] at hmax hlimit ⊢
    refine ⟨hmax, rfl, ?_⟩
    rwa [Int.mul_assoc, hsign.natAbs_mul]
  · rintro ⟨hmax, rfl, hlimit⟩
    have hgreatest : Int64.maxValue.toInt = 9223372036854775807 := rfl
    have hamount : (Int64.ofInt (Numeral.value ds)).toInt = Numeral.value ds :=
      Int64.toInt_ofInt_of_le (by omega) (by omega)
    rw [Int.mul_assoc, hsign.natAbs_mul] at hlimit
    exact ⟨_, hamount, _, ⟨by rw [hamount], hlimit⟩, rfl⟩

/-! ### The texts of offsets -/

theorem dateDigits?_now (cs : List Char) : dateDigits? ('n' :: cs) = none := by
  have hletter : Text.isDecimalDigit 'n' = false := by decide
  have hyear : takeDigits? 4 ('n' :: cs) = none := if_neg (by simp [hletter])
  rw [dateDigits?, hyear]
  rfl

end TimeBound

namespace Date

open TimeBound

variable {today : Date} {s : String} {before ds after : List Char} {c u : Char} {sign : Int}
  {days : Nat}

theorem day_mem_range (d : Date) : -96465292 ≤ d.day ∧ d.day ≤ 95026236 := by
  have hmin : Calendar.minDay = -96465292 := by decide
  have hmax : Calendar.maxDay = 95026236 := by decide
  rw [← hmin, ← hmax]
  exact d.inRange

/-- **No two dates are further apart** than a span goes. -/
theorem natAbs_sub_le (d e : Date) :
    ((d.day - e.day) * 86400000).natAbs ≤ 9223372036854775807 := by
  have hd := d.day_mem_range
  have he := e.day_mem_range
  omega

/-- An offset after `now`, with blanks around both, is what the days are read from. -/
theorem ofBound?_eq_bind (hbefore : ∀ b ∈ before, Text.isBlank b = true)
    (hafter : ∀ b ∈ after, Text.isBlank b = true) (hunit : IsUnit u days)
    (hs : s.toList = before ++ ('n' :: 'o' :: 'w' :: c :: (ds ++ [u])) ++ after) :
    today.ofBound? s = (offset? (c :: (ds ++ [u]))).bind today.addDays? := by
  have hback : ∀ b ∈ [u].getLast?, Text.isBlank b = false := by
    rintro _ ⟨⟩
    exact hunit.isBlank_eq_false
  have htrim : Text.trimChars s.toList = 'n' :: 'o' :: 'w' :: c :: (ds ++ [u]) := by
    rw [hs, Text.trimChars_append hbefore hafter]
    exact Text.trimChars_between (a := ['n', 'o', 'w', c]) (by simp) (by simp)
      (by rintro _ ⟨⟩; rfl) hback ds
  rw [ofBound?, htrim]
  simp only [dateDigits?_now]
  rfl

/-- **The date that an offset leads to** is exactly so many days away, however many digits its
number has and whatever the blanks around the text. There is none exactly if the number is greater
than any of 64 bits or if the calendar has no such date. -/
theorem ofBound?_relative (hbefore : ∀ b ∈ before, Text.isBlank b = true)
    (hafter : ∀ b ∈ after, Text.isBlank b = true) (hsign : IsSign c sign) (hunit : IsUnit u days)
    (hds : Numeral.IsDigits ds)
    (hs : s.toList = before ++ ('n' :: 'o' :: 'w' :: c :: (ds ++ [u])) ++ after) :
    let n := Nat.ofDigitChars 10 ds 0
    (∀ d, today.ofBound? s = some d ↔
      n ≤ Int64.maxValue.toInt ∧ d.day = today.day + sign * (n * days)) ∧
    (today.ofBound? s = none ↔
      Int64.maxValue.toInt < n ∨ ∀ d : Date, d.day ≠ today.day + sign * (n * days)) := by
  intro n
  have hsome : ∀ d, today.ofBound? s = some d ↔
      n ≤ Int64.maxValue.toInt ∧ d.day = today.day + sign * (n * days) := by
    intro d
    have hfar := natAbs_sub_le d today
    rw [ofBound?_eq_bind hbefore hafter hunit hs, Option.bind_eq_some_iff]
    simp only [offset?_eq_some_iff hsign hunit hds, addDays?_eq_some_iff,
      Numeral.value_eq_ofDigitChars]
    constructor
    · rintro ⟨_, ⟨hmax, rfl, -⟩, hd⟩
      exact ⟨hmax, hd⟩
    · rintro ⟨hmax, hd⟩
      -- the date itself shows that no limit on the way was in reach
      have hoffset : d.day - today.day = sign * (n * days) := by omega
      exact ⟨_, ⟨hmax, rfl, hoffset ▸ hfar⟩, hd⟩
  refine ⟨hsome, ?_⟩
  rw [Option.eq_none_iff_forall_ne_some]
  simp only [ne_eq, hsome]
  by_cases hmax : (n : Int) ≤ Int64.maxValue.toInt
  · simp [hmax, Int.not_lt.mpr hmax]
  · simp [hmax, Int.not_le.mp hmax]

/-- Ten days before the middle of June, with zeros and blanks; and one day more than a span has. -/
theorem ofBound?_ten_days_ago : IsSign '-' (-1) ∧ IsUnit 'd' 1 ∧ Numeral.IsDigits "0010".toList ∧
    ofBound? ⟨18428, by decide⟩ "\tnow-0010d " = some ⟨18418, by decide⟩ ∧
    Numeral.IsDigits "106751991168".toList ∧
    ofBound? ⟨18428, by decide⟩ "now-106751991168d" = none := by
  have hten : Numeral.IsDigits "0010".toList := ⟨by decide, List.all_eq_true.mp rfl⟩
  have hmany : Numeral.IsDigits "106751991168".toList := ⟨by decide, List.all_eq_true.mp rfl⟩
  have htab : ∀ b ∈ ['\t'], Text.isBlank b = true := List.forall_mem_singleton.mpr rfl
  have hspace : ∀ b ∈ [' '], Text.isBlank b = true := List.forall_mem_singleton.mpr rfl
  have hnone : ∀ b ∈ [], Text.isBlank b = true := List.forall_mem_nil _
  refine ⟨.earlier, .day, hten, ?_, hmany, ?_⟩
  · exact ((ofBound?_relative htab hspace .earlier .day hten rfl).1 _).mpr (by decide)
  · refine (ofBound?_relative hnone hnone .earlier .day hmany rfl).2.mpr (Or.inr fun d hd => ?_)
    have hrange := d.day_mem_range
    have hnumber : Nat.ofDigitChars 10 "106751991168".toList 0 = 106751991168 := by decide
    rw [hnumber] at hd
    dsimp only at hd
    omega

end Date

end SearchCompiler
