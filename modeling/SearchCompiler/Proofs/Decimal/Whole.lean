import Mathlib.Algebra.Order.Ring.Nat
import SearchCompiler.Json.Basic

/-! # Whole numbers as floats

A whole number is read as a float before it is asked whether it is zero, or below zero. No whole
number other than zero becomes the float zero: what is computed on the way is an infinity or has all
of its 53 bits, and neither is lost by rounding. The sign is kept as well.

* `Decimal.IsFull`: infinities, and floats with all bits of their mantissa, of some sign.
* `Decimal.isFull_roundWithAccuracy`, `Decimal.isFull_unpack_pack`: rounding and storing keep them.
* `Decimal.HasSignOf`: a float is zero or below zero iff an integer is.
* `Decimal.hasSignOf_ofInt`: the float of a whole number has its sign. -/

namespace SearchCompiler.Decimal

open Float.Model Float.Model.UnpackedFloat

/-- **Infinities, and floats with a mantissa of all bits**, of some sign, in the range of exponents
from which they can be stored. -/
def IsFull (s : Sign) : UnpackedFloat → Prop
  | .infinity s' => s' = s
  | .finite s' m e _ => s' = s ∧ m.log2 = 52 ∧ -1074 ≤ e
  | _ => False

/-! ### Rounding -/

theorem mantissa_shiftRight (em : ExtendedMantissa) (k : Nat) :
    (em >>> k).mantissa = em.mantissa / 2 ^ k := by
  induction k with
  | zero => exact (Nat.div_one _).symm
  | succ k ih =>
    have hstep : (em >>> (k + 1)).mantissa = (em >>> k).mantissa / 2 := rfl
    rw [hstep, ih, Nat.div_div_eq_div_mul, Nat.pow_succ]

theorem log2_div_two_pow {m k : Nat} (h : k ≤ m.log2) : (m / 2 ^ k).log2 = m.log2 - k := by
  rcases Nat.eq_zero_or_pos m with rfl | hm
  · simp
  have hpow : 2 ^ (m.log2 - k) * 2 ^ k = 2 ^ m.log2 := by
    rw [← Nat.pow_add, Nat.sub_add_cancel h]
  have hlow : 2 ^ (m.log2 - k) ≤ m / 2 ^ k := by
    rw [Nat.le_div_iff_mul_le (Nat.two_pow_pos k), hpow]
    exact Nat.log2_self_le hm.ne'
  have hhigh : m / 2 ^ k < 2 ^ (m.log2 - k + 1) := by
    rw [Nat.div_lt_iff_lt_mul (Nat.two_pow_pos k), Nat.pow_succ, Nat.mul_right_comm, hpow,
      ← Nat.pow_succ]
    exact Nat.lt_log2_self
  have hpos : m / 2 ^ k ≠ 0 := (Nat.lt_of_lt_of_le (Nat.two_pow_pos _) hlow).ne'
  exact (Nat.log2_eq_iff hpos).mpr ⟨hlow, hhigh⟩

theorem targetExponent_eq {m : Nat} {e : Int} (he : -1022 ≤ m.log2 + e) :
    Format.binary64.targetExponent (totalExponent m e) = m.log2 + e - 52 := by
  have hbits : (Format.binary64.mantissaBits : Int) = 53 := rfl
  have hmin : Format.binary64.minExponent = -1074 := rfl
  unfold Format.targetExponent totalExponent
  omega

/-- A mantissa with enough bits is shifted to just all of them. -/
theorem log2_shiftToTargetExponent {m : Nat} {e : Int} (hm : 52 ≤ m.log2)
    (he : -1022 ≤ m.log2 + e) :
    (shiftToTargetExponent Format.binary64 m e .exact).1.mantissa.log2 = 52 ∧
      (shiftToTargetExponent Format.binary64 m e .exact).2 = m.log2 + e - 52 := by
  have hshift : (m.log2 + e - 52 - e).toNat = m.log2 - 52 := by omega
  have hlog : (m / 2 ^ (m.log2 - 52)).log2 = 52 := by
    rw [log2_div_two_pow (Nat.sub_le _ 52)]
    omega
  simp only [shiftToTargetExponent, shiftToExponent, targetExponent_eq he, hshift,
    mantissa_shiftRight, ExtendedMantissa.ofMantissaAndAccuracy, hlog, true_and]
  omega

theorem mantissa_le_roundedMantissa (em : ExtendedMantissa) :
    em.mantissa ≤ em.roundedMantissa := by
  obtain ⟨m, r, s⟩ := em
  cases r <;> cases s <;>
    simp [ExtendedMantissa.roundedMantissa, ExtendedMantissa.accuracy,
      Accuracy.roundToNearestEven]

/-- **Rounding what has enough bits** gives all of them. -/
theorem isFull_roundWithAccuracy {m : Nat} {e : Int} (s : Sign) (hm : 52 ≤ m.log2)
    (he : -1022 ≤ m.log2 + e) : IsFull s (roundWithAccuracy Format.binary64 s m e .exact) := by
  obtain ⟨hlog, hexponent⟩ := log2_shiftToTargetExponent hm he
  unfold roundWithAccuracy
  generalize shiftToTargetExponent Format.binary64 m e .exact = first at hlog hexponent ⊢
  obtain ⟨em, e₁⟩ := first
  dsimp only at hlog hexponent ⊢
  -- rounding up can only add a bit, which the second shift takes away
  have hrounded : 52 ≤ em.roundedMantissa.log2 := by
    have hle := mantissa_le_roundedMantissa em
    have hne : em.mantissa ≠ 0 := fun h => by simp [h] at hlog
    have hpow : 2 ^ 52 ≤ em.mantissa := hlog ▸ Nat.log2_self_le hne
    exact (Nat.le_log2 (by omega)).mpr (hpow.trans hle)
  obtain ⟨hlog', hexponent'⟩ := log2_shiftToTargetExponent (e := e₁) hrounded (by omega)
  generalize shiftToTargetExponent Format.binary64 em.roundedMantissa e₁ .exact = second
    at hlog' hexponent' ⊢
  have hne : second.1.mantissa ≠ 0 := fun h => by simp [h] at hlog'
  rw [dif_neg hne]
  exact ⟨rfl, hlog', by omega⟩

/-! ### Storing -/

theorem ofBitVec_unpackSign_packComponents (s : Sign) (e : BitVec Format.binary64.exponentBits)
    (m : BitVec Format.binary64.mantissaBitsWithoutImplicit) :
    Sign.ofBitVec (unpackSign (packComponents Format.binary64 s e m)) = s := by
  have hfirst : unpackSign (packComponents Format.binary64 s e m) =
      (s.toBitVec ++ e ++ m).extractLsb' 63 1 := rfl
  rw [hfirst, BitVec.extractLsb'_append_eq_of_le (by decide),
    BitVec.extractLsb'_append_eq_of_le (by decide)]
  cases s <;> rfl

theorem toNat_one_append (b : BitVec 52) : (1#1 ++ b).toNat = 2 ^ 52 + b.toNat := by
  rw [BitVec.toNat_append, ← Nat.shiftLeft_add_eq_or_of_lt b.isLt]
  rfl

theorem log2_one_append (b : BitVec 52) : (1#1 ++ b).toNat.log2 = 52 := by
  have hb := b.isLt
  rw [toNat_one_append, Nat.log2_eq_iff (by omega)]
  omega

/-- Bits with an exponent other than zero are a full mantissa or an infinity. -/
theorem isFull_unpack {b : BitVec Format.binary64.numBits} (h : unpackExponent b ≠ 0#_)
    (hvalid : unpackExponent b = -1#_ → unpackMantissa b = 0#_) :
    IsFull (Sign.ofBitVec (unpackSign b)) (UnpackedFloat.unpack Format.binary64 b) := by
  unfold UnpackedFloat.unpack
  dsimp only
  by_cases hones : unpackExponent b = -1#_
  · rw [if_pos hones, if_pos (hvalid hones)]
    rfl
  · have hpos : 0 < (unpackExponent b).toNat := by
      rw [Nat.pos_iff_ne_zero]
      exact fun hzero => h (BitVec.eq_of_toNat_eq hzero)
    have hbias : (Format.binary64.exponentBias : Int) = 1023 := by decide
    rw [if_neg hones, if_neg h]
    refine ⟨rfl, log2_one_append (unpackMantissa b), ?_⟩
    omega

theorem isFull_unpack_packComponents (s : Sign) {e : BitVec Format.binary64.exponentBits}
    {m : BitVec Format.binary64.mantissaBitsWithoutImplicit} (h : e ≠ 0#_)
    (hvalid : e = -1#_ → m = 0#_) : IsFull s (UnpackedFloat.unpack Format.binary64
      (packComponents Format.binary64 s e m)) := by
  have hfull : IsFull (Sign.ofBitVec (unpackSign (packComponents Format.binary64 s e m)))
      (UnpackedFloat.unpack Format.binary64 (packComponents Format.binary64 s e m)) := by
    refine isFull_unpack ?_ ?_
    · rwa [unpackExponent_packComponents]
    · rwa [unpackExponent_packComponents, unpackMantissa_packComponents]
  rwa [ofBitVec_unpackSign_packComponents] at hfull

theorem isFull_packedInfinity (s : Sign) :
    IsFull s (UnpackedFloat.unpack Format.binary64 (packedInfinity Format.binary64 s)) :=
  isFull_unpack_packComponents s (by simp) fun _ => rfl

/-- **Storing a full float** keeps it full, or makes it an infinity. -/
theorem isFull_unpack_pack {s : Sign} {u : UnpackedFloat} (h : IsFull s u) :
    IsFull s (Float.Model.pack u).unpack := by
  have hunpack : (Float.Model.pack u).unpack =
      UnpackedFloat.unpack Format.binary64 (UnpackedFloat.pack Format.binary64 u) := rfl
  rw [hunpack]
  cases u with
  | notANumber => exact h.elim
  | zero s => exact h.elim
  | infinity s' =>
    obtain rfl : s' = s := h
    exact isFull_packedInfinity s'
  | finite s' m e hm =>
    obtain ⟨rfl, hlog, he⟩ := h
    unfold UnpackedFloat.pack
    dsimp only
    split
    · exact isFull_packedInfinity s'
    · next hfits =>
      have hbits : m.log2 + 1 = Format.binary64.mantissaBits := by rw [hlog]; rfl
      have hbias : (Format.binary64.exponentBias : Int) = 1023 := by decide
      rw [if_pos hbits]
      have hexponent : ∀ x : BitVec 11, x.toNat ≠ (e + Format.binary64.exponentBias + 52).toNat →
          BitVec.ofNat 11 (e + Format.binary64.exponentBias + 52).toNat ≠ x := by
        intro x hx heq
        have hnat := congrArg BitVec.toNat heq
        rw [BitVec.toNat_ofNat, Nat.mod_eq_of_lt (by omega)] at hnat
        exact hx hnat.symm
      refine isFull_unpack_packComponents s' ?_ fun hones => ?_
      · refine hexponent _ ?_
        rw [BitVec.toNat_zero]
        omega
      · refine absurd hones (hexponent _ ?_)
        have hmax : (-1#11 : BitVec 11).toNat = 2047 := by decide
        rw [hmax]
        omega

/-! ### Whole numbers -/

/-- A whole number with at most all bits is shifted to just all of them. -/
theorem isFull_round {n : Nat} (s : Sign) (hn : 0 < n) (h : n < 2 ^ 53) :
    IsFull s (UnpackedFloat.round Format.binary64 s n 0) := by
  have hlog : n.log2 ≤ 52 := by
    have hlt : n.log2 < 53 := (Nat.log2_lt hn.ne').mpr h
    omega
  have hshift : (0 - (n.log2 + (0 : Int) - 52)).toNat = 52 - n.log2 := by omega
  have hfull : 2 ^ 52 ≤ n <<< (52 - n.log2) := by
    have hpow : 2 ^ n.log2 * 2 ^ (52 - n.log2) = 2 ^ 52 := by
      rw [← Nat.pow_add, Nat.add_sub_cancel' hlog]
    rw [Nat.shiftLeft_eq, ← hpow]
    exact Nat.mul_le_mul_right _ (Nat.log2_self_le hn.ne')
  have hbits : 52 ≤ (n <<< (52 - n.log2)).log2 := (Nat.le_log2 (by omega)).mpr hfull
  unfold UnpackedFloat.round
  simp only [targetExponent_eq (m := n) (e := 0) (by omega), decreaseExponent, hshift]
  exact isFull_roundWithAccuracy s hbits (by omega)

theorem isFull_mul_one {s : Sign} {u : UnpackedFloat} (h : IsFull s u) : IsFull s
    (UnpackedFloat.mul Format.binary64 u (.finite .positive (2 ^ 52) (-52) (by decide))) := by
  have hsign (s' : Sign) : s' * .positive = s' := by cases s' <;> rfl
  cases u with
  | notANumber => exact h.elim
  | zero s' => exact h.elim
  | infinity s' => exact (hsign s').trans h
  | finite s' m e hm =>
    obtain ⟨rfl, hlog, he⟩ := h
    have hpow : 2 ^ 52 ≤ m := hlog ▸ Nat.log2_self_le hm.ne'
    have hbits : 104 ≤ (m * 2 ^ 52).log2 := (Nat.le_log2 (by omega)).mpr (by omega)
    have hmul : UnpackedFloat.mul Format.binary64 (.finite s' m e hm)
        (.finite .positive (2 ^ 52) (-52) (by decide)) =
          roundWithAccuracy Format.binary64 (s' * .positive) (m * 2 ^ 52) (e + -52) .exact := rfl
    rw [hmul, hsign]
    exact isFull_roundWithAccuracy s' (by omega) (by omega)

theorem isFull_normalize {n : Nat} (hn : 0 < n) (h : n < 2 ^ 53) :
    IsFull .positive (UnpackedFloat.normalize Format.binary64 n 0 .positive) := by
  have hpos : compare (n : Int) 0 = .gt := by
    rw [Std.compare_eq_gt]
    omega
  unfold UnpackedFloat.normalize
  rw [hpos]
  exact isFull_round .positive hn h

theorem ofScientific_zero_eq {n : Nat} (hn : n ≠ 0) :
    UnpackedFloat.ofScientific Format.binary64 n 0 =
      roundWithAccuracy Format.binary64 .positive (n <<< 53 * 1) (-53) .exact := by
  have hrange : (2 ^ Format.binary64.exponentBits : Int) = 2048 := rfl
  have hhigh : ¬ (0 : Int) > 2 ^ Format.binary64.exponentBits := by omega
  have hlow : ¬ (0 : Int) < -(2 ^ Format.binary64.exponentBits + n.log2) := by omega
  rw [UnpackedFloat.ofScientific, dif_neg hn, if_neg hhigh, if_neg hlow, if_pos (Int.le_refl 0)]
  rfl

theorem isFull_ofScientific {n : Nat} (hn : 0 < n) :
    IsFull .positive (UnpackedFloat.ofScientific Format.binary64 n 0) := by
  have hfull : 2 ^ 53 ≤ n <<< 53 * 1 := by
    rw [Nat.mul_one, Nat.shiftLeft_eq]
    exact Nat.le_mul_of_pos_left _ hn
  rw [ofScientific_zero_eq hn.ne']
  generalize n <<< 53 * 1 = m at hfull ⊢
  have hbits : 53 ≤ m.log2 := (Nat.le_log2 (by omega)).mpr hfull
  exact isFull_roundWithAccuracy _ (by omega) (by omega)

/-- **A whole number other than zero is full** as a float. -/
theorem isFull_ofNat {n : Nat} (hn : 0 < n) :
    IsFull .positive (Float.ofNat n).toModel.unpack := by
  have hofNat : Float.ofNat n = Float.ofScientific n false 0 := rfl
  rw [hofNat, Float.ofScientific]
  split
  · next h =>
    have hone : Float.exactlyRepresentablePowersOfTen[0].toModel.unpack =
        .finite .positive (2 ^ 52) (-52) (by decide) := rfl
    have hnat : n.toUInt64.toNat = n := Nat.mod_eq_of_lt (by omega)
    have hword : IsFull .positive n.toUInt64.toFloat.toModel.unpack := by
      have hvalue : UnpackedFloat.ofUInt64 Format.binary64 n.toUInt64 =
          UnpackedFloat.normalize Format.binary64 (n : Nat) 0 .positive := by
        rw [UnpackedFloat.ofUInt64, hnat]
        rfl
      refine isFull_unpack_pack ?_
      rw [hvalue]
      exact isFull_normalize hn h.1
    have hproduct : IsFull .positive (UnpackedFloat.mul Format.binary64
        n.toUInt64.toFloat.toModel.unpack
        Float.exactlyRepresentablePowersOfTen[0].toModel.unpack) := by
      rw [hone]
      exact isFull_mul_one hword
    exact isFull_unpack_pack hproduct
  · exact isFull_unpack_pack (isFull_ofScientific hn)

theorem isFull_neg {s : Sign} {u : UnpackedFloat} (h : IsFull s u) : IsFull (-s) u.neg := by
  cases u with
  | notANumber => exact h.elim
  | zero s' => exact h.elim
  | infinity s' => exact congrArg Neg.neg h
  | finite s' m e hm => exact ⟨congrArg Neg.neg h.1, h.2⟩

/-! ### Signs -/

/-- **Is a float zero, or below zero, iff an integer is?** -/
structure HasSignOf (x : Float) (n : Int) : Prop where
  beq_zero : (x == 0) = true ↔ n = 0
  lt_zero : x < 0 ↔ n < 0

/-- Infinities and finite floats below zero. -/
def IsNegative : UnpackedFloat → Prop
  | .infinity s => s = .negative
  | .finite s _ _ _ => s = .negative
  | _ => False

theorem beq_zero_iff {x : Float} : (x == 0) = true ↔ ∃ s, x.toModel.unpack = .zero s := by
  have hmodel : (x == 0) = x.toModel.unpack.beq (.zero .positive) := rfl
  rw [hmodel]
  cases x.toModel.unpack with
  | notANumber => exact iff_of_false Bool.false_ne_true nofun
  | zero s => exact iff_of_true rfl ⟨s, rfl⟩
  | infinity s => exact iff_of_false (by cases s <;> exact Bool.false_ne_true) nofun
  | finite s m e hm => exact iff_of_false (by cases s <;> exact Bool.false_ne_true) nofun

theorem lt_zero_iff {x : Float} : x < 0 ↔ IsNegative x.toModel.unpack := by
  have hmodel : x < 0 ↔ x.toModel.unpack.lt (.zero .positive) = true := decide_eq_true_iff
  rw [hmodel]
  cases x.toModel.unpack with
  | notANumber => exact iff_of_false Bool.false_ne_true id
  | zero s => exact iff_of_false Bool.false_ne_true id
  | infinity s =>
    cases s with
    | negative => exact iff_of_true rfl rfl
    | positive => exact iff_of_false Bool.false_ne_true nofun
  | finite s m e hm =>
    cases s with
    | negative => exact iff_of_true rfl rfl
    | positive => exact iff_of_false Bool.false_ne_true nofun

theorem IsFull.isNegative_iff {s : Sign} {u : UnpackedFloat} (h : IsFull s u) :
    IsNegative u ↔ s = .negative := by
  cases u with
  | notANumber => exact h.elim
  | zero s' => exact h.elim
  | infinity s' =>
    obtain rfl : s' = s := h
    exact Iff.rfl
  | finite s' m e hm =>
    obtain ⟨rfl, -⟩ := h
    exact Iff.rfl

/-- A full float is not equal to zero, and below zero if it is negative. -/
theorem hasSignOf_of_isFull {s : Sign} {x : Float} (h : IsFull s x.toModel.unpack) {n : Int}
    (hn : n ≠ 0) (hs : s = .negative ↔ n < 0) : HasSignOf x n where
  beq_zero := by
    refine beq_zero_iff.trans (iff_of_false ?_ hn)
    rintro ⟨s', hzero⟩
    rw [hzero] at h
    exact h
  lt_zero := lt_zero_iff.trans (h.isNegative_iff.trans hs)

theorem hasSignOf_ofNat (n : Nat) :
    HasSignOf (Float.ofNat n) n ∧ HasSignOf (-Float.ofNat n) (-n) := by
  rcases Nat.eq_zero_or_pos n with rfl | hn
  · exact ⟨⟨by decide, by decide⟩, by decide, by decide⟩
  · have hfull := isFull_ofNat hn
    exact ⟨hasSignOf_of_isFull hfull (by omega) (iff_of_false nofun (by omega)),
      hasSignOf_of_isFull (isFull_unpack_pack (isFull_neg hfull)) (by omega)
        (iff_of_true rfl (by omega))⟩

/-- **The float of a whole number has its sign.** -/
theorem hasSignOf_ofInt (n : Int) : HasSignOf (Float.ofInt n) n := by
  cases n with
  | ofNat n => exact (hasSignOf_ofNat n).1
  | negSucc n => exact (hasSignOf_ofNat (n + 1)).2

end SearchCompiler.Decimal
