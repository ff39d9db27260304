import Mathlib.Data.List.TakeWhile
import SearchCompiler.Proofs.Decimal.Whole
import SearchCompiler.Value.Basic

/-! # The sign of an integer and of its float

A value that reads as a 64-bit integer reads as a float too. It is the float that is asked whether
it is zero or below zero, and the integer that is computed with. The two readings have one sign: a
float has the sign of the mantissa and the bit in front of it, and the integer in a text has the
sign of the float nearest to it.

* `Decimal.shows_parts`: what a float is by its parts.
* `Decimal.readFloat?_of_readInt64?`: an integer in text, read as a float.
* `Value.float?_of_int64?`: a value that reads as an integer, read as a float. -/

namespace SearchCompiler

namespace Decimal

open Float.Model Float.Model.UnpackedFloat

/-! ### Floats -/

theorem toNat_unpackExponent (b : BitVec Format.binary64.numBits) :
    (unpackExponent b).toNat = b.toNat / leastNormal % 2048 := by
  simp [unpackExponent, leastNormal, Nat.shiftRight_eq_div_pow]

theorem toNat_unpackMantissa (b : BitVec Format.binary64.numBits) :
    (unpackMantissa b).toNat = b.toNat % leastNormal := by
  simp [unpackMantissa, leastNormal]

theorem toNat_unpackSign (b : BitVec Format.binary64.numBits) :
    (unpackSign b).toNat = b.toNat / 9223372036854775808 := by
  have hlt : b.toNat < 2 ^ 64 := b.isLt
  have hbit : (unpackSign b).toNat = (b.toNat >>> 63) % 2 := rfl
  rw [hbit, Nat.shiftRight_eq_div_pow]
  omega

/-- The sign of a float. -/
def sign (negative : Bool) : Sign := if negative then .negative else .positive

theorem ofBitVec_unpackSign (b : BitVec Format.binary64.numBits) :
    Sign.ofBitVec (unpackSign b) = sign (decide (9223372036854775808 ≤ b.toNat)) := by
  have hlt : b.toNat < 2 ^ 64 := b.isLt
  have hbit := toNat_unpackSign b
  have hzero : unpackSign b = 0#1 ↔ ¬ 9223372036854775808 ≤ b.toNat := by
    rw [← BitVec.toNat_inj, hbit, BitVec.toNat_ofNat]
    omega
  rw [Sign.ofBitVec, sign]
  by_cases hneg : 9223372036854775808 ≤ b.toNat
  · rw [if_neg (hzero.not.mpr (not_not.mpr hneg)), decide_eq_true hneg, if_pos rfl]
  · rw [if_pos (hzero.mpr hneg), decide_eq_false hneg, if_neg Bool.false_ne_true]

/-- **What a float is** by its parts. -/
inductive Shows : Parts → UnpackedFloat → Prop
  | nan : Shows .nan .notANumber
  | infinite (s : Bool) : Shows (.infinite s) (.infinity (sign s))
  | zero (s : Bool) (e : Int) : Shows (.finite s 0 e) (.zero (sign s))
  | finite (s : Bool) (m : Nat) (e : Int) (hm : 0 < m) :
    Shows (.finite s m e) (.finite (sign s) m e hm)

theorem Shows.of_eq {s : Bool} {m m' : Nat} {e e' : Int} (hm : m = m') (he : e = e')
    (hpos : 0 < m') : Shows (.finite s m e) (.finite (sign s) m' e' hpos) := by
  subst hm he
  exact .finite s m e hpos

theorem shows_unpack {x : Float} {b : BitVec Format.binary64.numBits}
    (hb : x.toBits.toNat = b.toNat) :
    Shows (parts x) (UnpackedFloat.unpack Format.binary64 b) := by
  have hones : unpackExponent b = -1#_ ↔ b.toNat / leastNormal % 2048 = 2047 := by
    rw [← BitVec.toNat_inj, toNat_unpackExponent]
    rfl
  have hnone : unpackExponent b = 0#_ ↔ b.toNat / leastNormal % 2048 = 0 := by
    rw [← BitVec.toNat_inj, toNat_unpackExponent]
    rfl
  have hzero : unpackMantissa b = 0#_ ↔ b.toNat % leastNormal = 0 := by
    rw [← BitVec.toNat_inj, toNat_unpackMantissa]
    rfl
  have hexp := toNat_unpackExponent b
  have hbias : (Format.binary64.exponentBias : Int) = 1023 := by decide
  unfold parts UnpackedFloat.unpack
  dsimp only
  rw [hb, ofBitVec_unpackSign]
  by_cases hexponent : unpackExponent b = -1#_
  · rw [if_pos hexponent, if_pos (hones.mp hexponent)]
    by_cases hmantissa : unpackMantissa b = 0#_
    · rw [if_pos hmantissa, if_pos (hzero.mp hmantissa)]
      exact .infinite _
    · rw [if_neg hmantissa, if_neg (hzero.not.mp hmantissa)]
      exact .nan
  · rw [if_neg hexponent, if_neg (hones.not.mp hexponent)]
    by_cases hleast : unpackExponent b = 0#_
    · have hnone := hnone.mp hleast
      rw [if_pos hleast, if_pos hnone]
      by_cases hmantissa : unpackMantissa b = 0#_
      · rw [dif_pos hmantissa, hzero.mp hmantissa]
        exact .zero _ _
      · rw [dif_neg hmantissa]
        exact .of_eq (toNat_unpackMantissa b).symm (by omega) _
    · rw [if_neg hleast, if_neg (hnone.not.mp hleast)]
      refine .of_eq ?_ (by omega) _
      rw [toNat_one_append, toNat_unpackMantissa]
      rfl

/-- The parts are those of the model of a float. -/
theorem shows_parts (x : Float) : Shows (parts x) x.toModel.unpack := shows_unpack rfl

/-- **A finite float equals zero** iff its mantissa is zero. -/
theorem beq_zero_iff_of_parts {x : Float} {s : Bool} {m : Nat} {e : Int}
    (h : parts x = .finite s m e) : (x == 0) = true ↔ m = 0 := by
  have hshows := shows_parts x
  rw [beq_zero_iff]
  rw [h] at hshows
  generalize x.toModel.unpack = u at hshows
  cases hshows with
  | zero s e => exact iff_of_true ⟨_, rfl⟩ rfl
  | finite s m e hm => exact iff_of_false nofun hm.ne'

/-- **A finite float is below zero** iff it is negative and its mantissa is not zero. -/
theorem lt_zero_iff_of_parts {x : Float} {s : Bool} {m : Nat} {e : Int}
    (h : parts x = .finite s m e) : x < 0 ↔ s = true ∧ 0 < m := by
  have hshows := shows_parts x
  rw [lt_zero_iff]
  rw [h] at hshows
  generalize x.toModel.unpack = u at hshows
  cases hshows with
  | zero s e => exact iff_of_false id fun h => Nat.lt_irrefl 0 h.2
  | finite s m e hm =>
    cases s with
    | true => exact iff_of_true rfl ⟨rfl, hm⟩
    | false => exact iff_of_false nofun fun h => Bool.false_ne_true h.1

theorem Parts.scaled_eq_zero_iff {m : Nat} {e : Int} (h : (scaled m e).2 = true) :
    (scaled m e).1 = 0 ↔ m = 0 := by
  have hpow : ∀ n, Nat.pow 2 n ≠ 0 := fun n => (Nat.two_pow_pos n).ne'
  unfold scaled at h ⊢
  dsimp only at h ⊢
  by_cases he : 0 ≤ e
  · rw [if_pos he]
    exact Nat.mul_eq_zero.trans (or_iff_left (hpow _))
  · rw [if_neg he] at h ⊢
    have hrest : m % Nat.pow 2 (-e).toNat = 0 := of_decide_eq_true h
    have hwhole := Nat.div_add_mod m (Nat.pow 2 (-e).toNat)
    constructor
    · intro hdiv
      have hdiv : m / Nat.pow 2 (-e).toNat = 0 := hdiv
      rw [← hwhole, hdiv, hrest]
      rfl
    · rintro rfl
      exact Nat.zero_div _

/-- **A float that is an integer has its sign.** -/
theorem hasSignOf_of_integerPart? {x : Float} {n : Int} (h : integerPart? x = some (n, true)) :
    HasSignOf x n := by
  unfold integerPart? at h
  cases hparts : parts x with
  | finite s m e =>
    rw [hparts] at h
    have h : some (if s then -((Parts.scaled m e).1 : Int) else (Parts.scaled m e).1,
        (Parts.scaled m e).2) = some (n, true) := h
    obtain ⟨hn, hexact⟩ := Prod.mk.inj (Option.some.inj h)
    have hzero := Parts.scaled_eq_zero_iff hexact
    constructor
    · rw [beq_zero_iff_of_parts hparts, ← hzero, ← hn]
      cases s <;> simp
    · have hpos : 0 < m ↔ 0 < (Parts.scaled m e).1 := by
        rw [Nat.pos_iff_ne_zero, Nat.pos_iff_ne_zero]
        exact not_congr hzero.symm
      rw [lt_zero_iff_of_parts hparts, hpos, ← hn]
      cases s <;> simp
  | _ => simp [hparts] at h

/-! ### Text -/

theorem toLower_of_isDigit {c : Char} (h : c.isDigit = true) : c.toLower = c := by
  have hle : c.toNat ≤ '9'.toNat := (Char.isDigit_iff_toNat.mp h).2
  unfold Char.toLower
  rw [dif_neg]
  intro hc
  have hge : 'A'.toNat ≤ c.toNat := hc.1
  exact absurd (hge.trans hle) (by decide)

theorem word?_of_digits {ds : List Char} (hne : ds ≠ []) (hds : ∀ d ∈ ds, d.isDigit = true) :
    word? ds = none := by
  obtain ⟨d, rest, rfl⟩ := List.exists_cons_of_ne_nil hne
  have hd : d.isDigit = true := hds d List.mem_cons_self
  have hword : ∀ c w, c.isDigit = false →
      String.ofList ((d :: rest).map Char.toLower) ≠ String.ofList (c :: w) := by
    intro c w hc heq
    have hhead := (List.cons.inj (String.ofList_inj.mp heq)).1
    rw [toLower_of_isDigit hd] at hhead
    exact absurd (hhead ▸ hd) (by simp [hc])
  unfold word?
  split
  · next h => exact absurd h (hword 'i' ['n', 'f'] rfl)
  · next h => exact absurd h (hword 'i' ['n', 'f', 'i', 'n', 'i', 't', 'y'] rfl)
  · next h => exact absurd h (hword 'n' ['a', 'n'] rfl)
  · rfl

theorem unsigned?_of_digits {ds : List Char} (hne : ds ≠ []) (hds : ∀ d ∈ ds, d.isDigit = true) :
    unsigned? ds = some (nearest (Numeral.value ds) 0) := by
  have htake : ds.takeWhile Char.isDigit = ds := List.takeWhile_eq_self_iff.mpr hds
  have hdrop : ds.dropWhile Char.isDigit = [] := List.dropWhile_eq_nil_iff.mpr hds
  have hempty : ds.isEmpty = false := List.isEmpty_eq_false_iff.mpr hne
  simp [unsigned?, digitRun, htake, hdrop, hempty, exponentPart?]

/-- The magnitudes of 64-bit integers are near enough to zero to be read as they are. -/
theorem nearest_zero_eq {m : Nat} (hm : 0 < m) (hlt : m < 10 ^ 20) :
    nearest m 0 = Float.ofNat m := by
  have hlength : (Nat.toDigits 10 m).length ≤ 20 :=
    (Nat.length_toDigits_le_iff (by decide) (by decide)).mpr hlt
  unfold nearest
  dsimp only
  rw [if_neg hm.ne', if_neg (by omega), if_neg (by omega)]
  rfl

theorem hasSignOf_nearest {m : Nat} (hlt : m < 10 ^ 20) :
    HasSignOf (nearest m 0) m ∧ HasSignOf (-nearest m 0) (-m) := by
  rcases Nat.eq_zero_or_pos m with rfl | hm
  · exact hasSignOf_ofNat 0
  · rw [nearest_zero_eq hm hlt]
    exact hasSignOf_ofNat m

theorem magnitude?_of_readNat? {ds : List Char} {m : Nat} (h : Numeral.readNat? ds = some m) :
    magnitude? ds = some (nearest m 0) := by
  obtain ⟨hne, hall, rfl⟩ := Numeral.readNat?_eq_some_iff.mp h
  have hds : ∀ d ∈ ds, d.isDigit = true := List.all_eq_true.mp hall
  rw [magnitude?, word?_of_digits hne hds, unsigned?_of_digits hne hds]
  rfl

/-- A numeral is a natural number, which may have a sign before it. -/
theorem exists_of_readInt? {cs : List Char} {n : Int} (h : Numeral.readInt? cs = some n) :
    ∃ ds m, Numeral.readNat? ds = some m ∧ (cs = '-' :: ds ∧ n = -(m : Int) ∨
      n = m ∧ (cs = '+' :: ds ∨ cs = ds ∧ (∀ r, cs ≠ '+' :: r) ∧ ∀ r, cs ≠ '-' :: r)) := by
  unfold Numeral.readInt? at h
  split at h
  · obtain ⟨m, hm, rfl⟩ : ∃ m, Numeral.readNat? _ = some m ∧ (m : Int) = n := by
      simpa [Option.bind_eq_some_iff] using h
    exact ⟨_, m, hm, Or.inr ⟨rfl, Or.inl rfl⟩⟩
  · obtain ⟨m, hm, rfl⟩ : ∃ m, Numeral.readNat? _ = some m ∧ -(m : Int) = n := by
      simpa [Option.bind_eq_some_iff] using h
    exact ⟨_, m, hm, Or.inl ⟨rfl, rfl⟩⟩
  · next hplus hminus =>
    obtain ⟨m, hm, rfl⟩ : ∃ m, Numeral.readNat? cs = some m ∧ (m : Int) = n := by
      simpa [Option.bind_eq_some_iff] using h
    exact ⟨cs, m, hm, Or.inr ⟨rfl, Or.inr ⟨rfl, hplus, hminus⟩⟩⟩

/-- **An integer in text is read as a float** of its sign. -/
theorem readFloat?_of_readInt64? {cs : List Char} {k : Int64}
    (h : Numeral.readInt64? cs = some k) :
    ∃ x, readFloat? cs = some x ∧ HasSignOf x k.toInt := by
  obtain ⟨n, hn, hk⟩ := Option.bind_eq_some_iff.mp h
  have hk : k.toInt = n := toInt64?_eq_some_iff.mp hk
  obtain ⟨ds, m, hm, hsign⟩ := exists_of_readInt? hn
  have hlt : m < 10 ^ 20 := by
    have hlow := k.le_toInt
    have hhigh := k.toInt_lt
    rcases hsign with ⟨-, rfl⟩ | ⟨rfl, -⟩ <;> omega
  obtain ⟨hplus, hminus⟩ := hasSignOf_nearest hlt
  have hread := magnitude?_of_readNat? hm
  rw [hk]
  rcases hsign with ⟨rfl, rfl⟩ | ⟨rfl, rfl | ⟨rfl, hnoplus, hnominus⟩⟩
  · exact ⟨_, congrArg (Option.map fun x => -x) hread, hminus⟩
  · exact ⟨_, hread, hplus⟩
  · refine ⟨_, ?_, hplus⟩
    unfold readFloat?
    split
    · exact absurd rfl (hnoplus _)
    · exact absurd rfl (hnominus _)
    · exact hread

end Decimal

/-! ### Values -/

/-- **A value that reads as an integer reads as a float** of its sign. -/
theorem Value.float?_of_int64? {v : Value} {k : Int64} (h : v.int64? = some k) :
    ∃ x, v.float? = some x ∧ Decimal.HasSignOf x k.toInt := by
  cases v with
  | int n =>
    obtain rfl := Option.some.inj h
    exact ⟨_, rfl, Decimal.hasSignOf_ofInt n.toInt⟩
  | float x =>
    rw [int64?] at h
    split at h
    · next n hn =>
      rw [toInt64?_eq_some_iff.mp h]
      exact ⟨x, rfl, Decimal.hasSignOf_of_integerPart? hn⟩
    · exact nomatch h
  | str s => exact Decimal.readFloat?_of_readInt64? h
  | json j =>
    cases j with
    | num m =>
      cases m with
      | int n =>
        have hn : k.toInt = n := toInt64?_eq_some_iff.mp h
        rw [hn]
        exact ⟨_, rfl, Decimal.hasSignOf_ofInt n⟩
      | float x => exact nomatch h
    | _ => exact nomatch h
  | _ => exact nomatch h

end SearchCompiler
