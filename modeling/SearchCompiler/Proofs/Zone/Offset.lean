import SearchCompiler.Proofs.Text.Numeral
import SearchCompiler.Proofs.Zone.Reading

/-! # Offsets in text

After the sign of an offset come the hours, in one or two digits; the hours and the minutes, in two
digits each; or both on either side of a colon. Hours and minutes are read as integers, though,
which may have a sign of their own, and hours that stand alone are read whatever their length, unless
they fill the four places of hours and minutes. The seconds are counted in 32 bits: hours far below
zero wrap around to an offset of either sign.

* `Zone.IsOffset`: the forms of an offset, with the hours and the minutes.
* `Zone.Spells`: all that is read as hours and minutes.
* `Zone.read_eq_fixed_iff`: which texts are read as which offset. -/

namespace SearchCompiler

open Numeral (IsDigits IsNumeral)

/-! ### Cutting at a colon -/

theorem Text.splitOnce?_append {sep : Char} {a : List Char} (ha : sep ∉ a) (b : List Char) :
    splitOnce? sep (a ++ sep :: b) = some (a, b) := by
  induction a with
  | nil => exact if_pos rfl
  | cons c a ih =>
    obtain ⟨hc, ha⟩ := not_or.mp (List.mem_cons.not.mp ha)
    rw [List.cons_append, splitOnce?, if_neg (Ne.symm hc), ih ha, Option.map_some]

theorem Text.eq_append_of_splitOnce? {sep : Char} {cs a b : List Char}
    (h : splitOnce? sep cs = some (a, b)) : cs = a ++ sep :: b := by
  induction cs generalizing a with
  | nil => exact nomatch h
  | cons c cs ih =>
    rw [splitOnce?] at h
    split at h
    · next hc =>
      cases h
      rw [hc, List.nil_append]
    · obtain ⟨⟨a', b'⟩, hcut, h⟩ := Option.map_eq_some_iff.mp h
      cases h
      rw [ih hcut, List.cons_append]

namespace Zone

variable {regions : Regions} {rest a b : List Char} {h m o : Int}

/-! ### Hours and minutes -/

/-- **The forms of an offset** after its sign: hours in one or two digits, hours and minutes in two
digits each, or both in digits on either side of a colon. -/
inductive IsOffset : List Char → Nat → Nat → Prop
  | hours {ds : List Char} (hds : IsDigits ds) (hlength : ds.length ≤ 2) :
    IsOffset ds (Numeral.value ds) 0
  | packed {a b : List Char} (ha : IsDigits a) (hb : IsDigits b) (hlength : a.length = 2)
    (hlength' : b.length = 2) : IsOffset (a ++ b) (Numeral.value a) (Numeral.value b)
  | apart {a b : List Char} (ha : IsDigits a) (hb : IsDigits b) :
    IsOffset (a ++ ':' :: b) (Numeral.value a) (Numeral.value b)

/-- **All that is read as hours and minutes**: numerals in place of digits, and hours of any length
but that of hours and minutes. -/
inductive Spells : List Char → Int → Int → Prop
  | hours {cs : List Char} {h : Int} (hcs : IsNumeral cs h) (hlength : cs.length ≠ 4) :
    Spells cs h 0
  | packed {a b : List Char} {h m : Int} (ha : IsNumeral a h) (hb : IsNumeral b m)
    (hlength : a.length = 2) (hlength' : b.length = 2) : Spells (a ++ b) h m
  | apart {a b : List Char} {h m : Int} (ha : IsNumeral a h) (hb : IsNumeral b m) :
    Spells (a ++ ':' :: b) h m

/-- **Does a text look like an offset**, with no second sign in it, and of the length of one if
there is no colon in it? -/
def IsPlain (rest : List Char) : Prop :=
  '+' ∉ rest ∧ '-' ∉ rest ∧ (':' ∈ rest ∨ rest.length ≤ 2 ∨ rest.length = 4)

instance (rest : List Char) : Decidable (IsPlain rest) := by
  unfold IsPlain; infer_instance

theorem not_sign_of_isDigits {ds : List Char} (hds : IsDigits ds) : '+' ∉ ds ∧ '-' ∉ ds :=
  ⟨fun hc => absurd (hds.2 _ hc) (by decide), fun hc => absurd (hds.2 _ hc) (by decide)⟩

theorem IsOffset.isPlain {hours minutes : Nat} (ho : IsOffset rest hours minutes) :
    IsPlain rest := by
  cases ho with
  | hours hds hlength =>
    obtain ⟨hplus, hminus⟩ := not_sign_of_isDigits hds
    exact ⟨hplus, hminus, Or.inr (Or.inl hlength)⟩
  | packed hh hm hlength hlength' =>
    obtain ⟨hplus, hminus⟩ := not_sign_of_isDigits hh
    obtain ⟨hplus', hminus'⟩ := not_sign_of_isDigits hm
    exact ⟨by simp [hplus, hplus'], by simp [hminus, hminus'],
      Or.inr (Or.inr (by simp [hlength, hlength']))⟩
  | apart hh hm =>
    obtain ⟨hplus, hminus⟩ := not_sign_of_isDigits hh
    obtain ⟨hplus', hminus'⟩ := not_sign_of_isDigits hm
    exact ⟨by simp [hplus, hplus'], by simp [hminus, hminus'], Or.inl (by simp)⟩

theorem IsOffset.spells {hours minutes : Nat} (ho : IsOffset rest hours minutes) :
    Spells rest hours minutes := by
  cases ho with
  | hours hds hlength => exact .hours (.plain hds) (by omega)
  | packed hh hm hlength hlength' => exact .packed (.plain hh) (.plain hm) hlength hlength'
  | apart hh hm => exact .apart (.plain hh) (.plain hm)

/-- **What looks like an offset and is read as one** has the form of one. -/
theorem Spells.isOffset (hs : Spells rest h m) (hplain : IsPlain rest) :
    ∃ hours minutes : Nat, IsOffset rest hours minutes ∧ h = hours ∧ m = minutes := by
  obtain ⟨hplus, hminus, hlong⟩ := hplain
  cases hs with
  | hours hcs hlength =>
    obtain ⟨hds, rfl⟩ := hcs.digits hplus hminus
    have hshort : rest.length ≤ 2 :=
      hlong.elim (fun hcolon => absurd hcolon hcs.colon_not_mem) fun hlong =>
        hlong.resolve_right hlength
    exact ⟨_, _, .hours hds hshort, rfl, rfl⟩
  | packed ha hb hlength hlength' =>
    rw [List.mem_append, not_or] at hplus hminus
    obtain ⟨hh, rfl⟩ := ha.digits hplus.1 hminus.1
    obtain ⟨hm, rfl⟩ := hb.digits hplus.2 hminus.2
    exact ⟨_, _, .packed hh hm hlength hlength', rfl, rfl⟩
  | apart ha hb =>
    rw [List.mem_append, List.mem_cons, not_or, not_or] at hplus hminus
    obtain ⟨hh, rfl⟩ := ha.digits hplus.1 hminus.1
    obtain ⟨hm, rfl⟩ := hb.digits hplus.2.2 hminus.2.2
    exact ⟨_, _, .apart hh hm, rfl, rfl⟩

/-! ### Cutting hours from minutes -/

theorem byteLength_of_isNumeral (ha : IsNumeral a h) : byteLength a = a.length := by
  have hone : ∀ c ∈ a, c.utf8Size = 1 := by
    intro c hc
    rcases ha.mem hc with hdigit | rfl | rfl
    · rw [Char.utf8Size_eq_one_iff]
      simp only [Char.isDigit, Bool.and_eq_true, decide_eq_true_eq] at hdigit
      exact UInt32.le_trans hdigit.2 (by decide)
    · rfl
    · rfl
  clear ha
  induction a with
  | nil => rfl
  | cons c a ih =>
    obtain ⟨hc, ha⟩ := List.forall_mem_cons.mp hone
    rw [byteLength_cons, hc, ih ha, List.length_cons, Nat.add_comm]

theorem byteLength_append (a b : List Char) :
    byteLength (a ++ b) = byteLength a + byteLength b := by
  induction a with
  | nil => exact (Nat.zero_add _).symm
  | cons c a ih => rw [List.cons_append, byteLength_cons, byteLength_cons, ih, Nat.add_assoc]

/-- **The hours and minutes of a text** that is cut into two numerals. -/
theorem spells_iff : Spells rest h m ↔
    ∃ a b, hoursAndMinutes? rest = some (a, b) ∧ IsNumeral a h ∧ IsNumeral b m := by
  constructor
  · intro hs
    cases hs with
    | hours hcs hlength =>
      refine ⟨rest, ['0'], ?_, hcs, Numeral.readInt?_eq_some_iff.mp rfl⟩
      rw [hoursAndMinutes?, Text.splitOnce?_eq_none_iff.mpr hcs.colon_not_mem]
      exact if_neg (byteLength_of_isNumeral hcs ▸ hlength)
    | @packed a b _ _ ha hb hlength hlength' =>
      have hcolon : ':' ∉ a ++ b :=
        List.mem_append.not.mpr (not_or.mpr ⟨ha.colon_not_mem, hb.colon_not_mem⟩)
      have htwo : byteLength a = 2 := (byteLength_of_isNumeral ha).trans hlength
      have hfour : byteLength (a ++ b) = 4 := by
        rw [byteLength_append, htwo, byteLength_of_isNumeral hb, hlength']
      refine ⟨a, b, ?_, ha, hb⟩
      rw [hoursAndMinutes?, Text.splitOnce?_eq_none_iff.mpr hcolon]
      exact (if_pos hfour).trans (htwo ▸ cutAt?_append a b)
    | @apart a b _ _ ha hb =>
      refine ⟨a, b, ?_, ha, hb⟩
      rw [hoursAndMinutes?, Text.splitOnce?_append ha.colon_not_mem]
  · rintro ⟨a, b, hcut, ha, hb⟩
    rw [hoursAndMinutes?] at hcut
    split at hcut
    · next p hp =>
      obtain rfl := Option.some.inj hcut
      rw [Text.eq_append_of_splitOnce? hp]
      exact .apart ha hb
    · split at hcut
      · next hfour =>
        obtain ⟨rfl, htwo⟩ := eq_append_of_cutAt? hcut
        rw [byteLength_append, htwo, byteLength_of_isNumeral hb] at hfour
        rw [byteLength_of_isNumeral ha] at htwo
        exact .packed ha hb htwo (by omega)
      · next hfour =>
        cases hcut
        obtain rfl : 0 = m := Option.some.inj (Numeral.readInt?_eq_some_iff.mpr hb)
        exact .hours ha (byteLength_of_isNumeral ha ▸ hfour)

/-! ### Offsets -/

theorem toInt_seconds (sign h m : Int32) : (sign * (h * 3600 + m * 60)).toInt =
    (sign.toInt * ((h.toInt * 60 + m.toInt) * 60)).bmod (2 ^ 32) := by
  have hhour : (3600 : Int32).toInt = 3600 := rfl
  have hminute : (60 : Int32).toInt = 60 := rfl
  have hsum : h.toInt * 3600 + m.toInt * 60 = (h.toInt * 60 + m.toInt) * 60 := by
    rw [Int.add_mul, Int.mul_assoc]
    rfl
  rw [Int32.toInt_mul, Int32.toInt_add, Int32.toInt_mul, Int32.toInt_mul, hhour, hminute,
    Int.bmod_add_bmod, Int.add_bmod_bmod, Int.mul_bmod_bmod, hsum]

theorem offset?_eq_some_iff {sign : Int32} : offset? sign a b = some o ↔
    ∃ h m : Int32, IsNumeral a h.toInt ∧ IsNumeral b m.toInt ∧ h.toInt ≤ 23 ∧ m.toInt ≤ 59 ∧
      o = (sign.toInt * ((h.toInt * 60 + m.toInt) * 60)).bmod (2 ^ 32) ∧ o.natAbs < 86400 := by
  have hlater (x y : Int32) : ¬ x < y ↔ y.toInt ≤ x.toInt := by
    rw [Int32.lt_iff_toInt_lt, Int.not_lt]
  simp only [offset?, Option.bind_eq_bind, Option.bind_eq_some_iff, Numeral.readInt32?_eq_some_iff,
    toInt_seconds]
  constructor
  · rintro ⟨h, ha, m, hb, ho⟩
    split_ifs at ho with hbound hday
    obtain ⟨hh, hm⟩ := not_or.mp hbound
    obtain rfl := Option.some.inj ho
    exact ⟨h, m, ha, hb, (hlater _ _).mp hh, (hlater _ _).mp hm, rfl, hday⟩
  · rintro ⟨h, m, ha, hb, hh, hm, rfl, hday⟩
    refine ⟨h, ha, m, hb, ?_⟩
    rw [if_neg (not_or.mpr ⟨(hlater _ _).mpr hh, (hlater _ _).mpr hm⟩), if_pos hday]

theorem named_ne_fixed (regions : Regions) (cs : List Char) (o : Int) :
    named regions cs ≠ .ok (.fixed o) := by
  rw [named]
  split <;> simp

theorem signed_eq_fixed_iff {sign : Int32} {text : List Char} :
    signed regions sign text rest = .ok (.fixed o) ↔
      ∃ a b, hoursAndMinutes? rest = some (a, b) ∧ offset? sign a b = some o := by
  rw [signed]
  cases hcut : hoursAndMinutes? rest with
  | none => simp
  | some p =>
    obtain ⟨a, b⟩ := p
    dsimp only
    constructor
    · intro hs
      split at hs
      · next o' ho =>
        cases hs
        exact ⟨a, b, rfl, ho⟩
      · exact absurd hs (named_ne_fixed _ _ _)
    · rintro ⟨_, _, ⟨⟩, ho⟩
      rw [ho]

/-- The sign of an offset. -/
def direction (sign : Char) : Int := if sign = '+' then 1 else -1

theorem toInt_direction (sign : Char) :
    (if sign = '+' then 1 else -1 : Int32).toInt = direction sign := by
  rw [direction]
  split <;> rfl

/-- **What is read as an offset**: two numerals of 32 bits, with upper bounds for both and a sum
that comes to less than a day. -/
theorem read_eq_fixed_iff_spells {s : String} {sign : Char} (hsign : sign = '+' ∨ sign = '-')
    (hs : (Text.trim s).toList = sign :: rest) : read regions s = .ok (.fixed o) ↔
      ∃ h m : Int32, Spells rest h.toInt m.toInt ∧ h.toInt ≤ 23 ∧ m.toInt ≤ 59 ∧
        o = (direction sign * ((h.toInt * 60 + m.toInt) * 60)).bmod (2 ^ 32) ∧
        o.natAbs < 86400 := by
  rw [Text.toList_trim] at hs
  rw [read_of_sign hsign hs, signed_eq_fixed_iff]
  simp only [offset?_eq_some_iff, toInt_direction, spells_iff]
  constructor
  · rintro ⟨a, b, hcut, h, m, ha, hb, ho⟩
    exact ⟨h, m, ⟨a, b, hcut, ha, hb⟩, ho⟩
  · rintro ⟨h, m, ⟨a, b, hcut, ha, hb⟩, ho⟩
    exact ⟨a, b, hcut, h, m, ha, hb, ho⟩

/-- The seconds of a time of day do not wrap around. -/
theorem bmod_of_time (sign : Char) {hours minutes : Nat} (hh : hours ≤ 23) (hm : minutes ≤ 59) :
    (direction sign * ((hours * 60 + minutes) * 60)).bmod (2 ^ 32) =
      direction sign * ((hours * 60 + minutes) * 60) ∧
    (direction sign * ((hours * 60 + minutes) * 60)).natAbs < 86400 := by
  have hday : (direction sign * ((hours * 60 + minutes) * 60)).natAbs < 86400 := by
    rw [direction]
    split <;> omega
  exact ⟨Int.bmod_eq_of_le_mul_two (by omega) (by omega), hday⟩

/-- **Which texts are read as which offset.** What looks like an offset is read as one iff it has
the form of one, with hours and minutes of a day; the offset has the sign that is written. Any other
text is read as one iff it is spelled by numerals of 32 bits within the upper bounds, that is, with
a second sign or with leading zeros, and the seconds come to less than a day, wrapped around. -/
theorem read_eq_fixed_iff (regions : Regions) {s : String} {sign : Char}
    (hsign : sign = '+' ∨ sign = '-') (hs : (Text.trim s).toList = sign :: rest) (o : Int) :
    (IsPlain rest → (read regions s = .ok (.fixed o) ↔
        ∃ hours minutes : Nat, IsOffset rest hours minutes ∧ hours ≤ 23 ∧ minutes ≤ 59 ∧
          o = direction sign * ((hours * 60 + minutes) * 60))) ∧
      (¬ IsPlain rest → (read regions s = .ok (.fixed o) ↔
        ∃ h m : Int32, Spells rest h.toInt m.toInt ∧ h.toInt ≤ 23 ∧ m.toInt ≤ 59 ∧
          o = (direction sign * ((h.toInt * 60 + m.toInt) * 60)).bmod (2 ^ 32) ∧
          o.natAbs < 86400)) := by
  refine ⟨fun hplain => ?_, fun _ => read_eq_fixed_iff_spells hsign hs⟩
  rw [read_eq_fixed_iff_spells hsign hs]
  constructor
  · rintro ⟨h, m, hspells, hh, hm, ho, -⟩
    obtain ⟨hours, minutes, hoffset, hhours, hminutes⟩ := hspells.isOffset hplain
    rw [hhours] at hh ho
    rw [hminutes] at hm ho
    have hhours' : hours ≤ 23 := by omega
    have hminutes' : minutes ≤ 59 := by omega
    exact ⟨hours, minutes, hoffset, hhours', hminutes',
      ho.trans (bmod_of_time sign hhours' hminutes').1⟩
  · rintro ⟨hours, minutes, hoffset, hh, hm, rfl⟩
    obtain ⟨hwrap, hday⟩ := bmod_of_time sign hh hm
    have hhours : (Int32.ofInt hours).toInt = hours := Int32.toInt_ofInt_of_le (by omega) (by omega)
    have hminutes : (Int32.ofInt minutes).toInt = minutes :=
      Int32.toInt_ofInt_of_le (by omega) (by omega)
    refine ⟨Int32.ofInt hours, Int32.ofInt minutes, ?_⟩
    rw [hhours, hminutes]
    exact ⟨hoffset.spells, by omega, by omega, hwrap.symm, hday⟩

/-- Half past five hours west, with blanks around it. -/
theorem read_eq_fixed_iff_west : ('-' = '+' ∨ '-' = '-') ∧
    (Text.trim " -0530 ").toList = '-' :: "0530".toList ∧ IsPlain "0530".toList ∧
    read noRegions " -0530 " = .ok (.fixed (-19800)) := by
  have htrim : (Text.trim " -0530 ").toList = '-' :: "0530".toList := by decide
  have hplain : IsPlain "0530".toList := by decide
  have hhours : IsDigits ['0', '5'] := ⟨by decide, List.all_eq_true.mp rfl⟩
  have hminutes : IsDigits ['3', '0'] := ⟨by decide, List.all_eq_true.mp rfl⟩
  have hoffset : IsOffset "0530".toList 5 30 := .packed hhours hminutes rfl rfl
  exact ⟨Or.inr rfl, htrim, hplain, ((read_eq_fixed_iff noRegions (Or.inr rfl) htrim _).1 hplain).mpr
    ⟨5, 30, hoffset, by decide, by decide, rfl⟩⟩

/-- **Eight hours east with a minus sign** are eight hours west, and three digits of hours are read
too; neither has the form of an offset. -/
theorem not_isOffset_of_read : (read noRegions "+-8" = .ok (.fixed (-28800)) ∧
      ∀ hours minutes, ¬ IsOffset "-8".toList hours minutes) ∧
    read noRegions "+008" = .ok (.fixed 28800) ∧
      ∀ hours minutes, ¬ IsOffset "008".toList hours minutes := by
  have hsigned : ¬ IsPlain "-8".toList := by decide
  have hlong : ¬ IsPlain "008".toList := by decide
  exact ⟨⟨rfl, fun _ _ ho => hsigned ho.isPlain⟩, rfl, fun _ _ ho => hlong ho.isPlain⟩

/-- A million hours and more to the west wrap around to half an hour east. -/
example : read noRegions "+-1193046" = .ok (.fixed 1696) := rfl

end Zone

end SearchCompiler
