import Mathlib.Data.Rat.Floor
import SearchCompiler.Proofs.Leaf.Finite

/-! # Integer fields and fractions

A field for integers cuts off the fraction of a number that it is compared with. The operator stays
the same, so the comparison may say something else afterwards: between a number and its integer part
lies no integer but possibly the integer part itself. There, and nowhere else, a comparison can
change, and whether it does depends on the operator and the sign of the number.

* `Decimal.truncate`: the integer part of a rational number.
* `Validate.toJson_of_integer`: a field for integers normalizes a number to its integer part.
* `Op.compares_truncate_of_ne`, `Op.compares_truncate_self_iff`: where cutting off a fraction keeps
  a comparison.
* `Leaf.holdsAt_clause_of_number`: what the clause of a comparison with a number says. -/

namespace SearchCompiler

/-! ### Numbers as rationals -/

namespace Decimal

/-- **The integer part** of a number, cut toward zero. -/
def truncate (q : ℚ) : Int := if 0 ≤ q then ⌊q⌋ else ⌈q⌉

@[simp] theorem truncate_intCast (n : Int) : truncate n = n := by
  unfold truncate
  split
  · exact Int.floor_intCast n
  · exact Int.ceil_intCast n

theorem truncate_neg {q : ℚ} (h : 0 ≤ q) : truncate (-q) = -⌊q⌋ := by
  unfold truncate
  split
  · next hneg =>
    have h0 : q = 0 := le_antisymm (neg_nonneg.mp hneg) h
    rw [h0, neg_zero, Int.floor_zero, neg_zero]
  · exact Int.ceil_neg

theorem truncate_le {q : ℚ} (h : 0 ≤ q) : (truncate q : ℚ) ≤ q := by
  rw [truncate, if_pos h]
  exact Int.floor_le q

theorem le_truncate {q : ℚ} (h : q ≤ 0) : q ≤ truncate q := by
  rcases h.lt_or_eq with h | rfl
  · rw [truncate, if_neg (not_le.mpr h)]
    exact Int.le_ceil q
  · exact (congrArg Int.cast (truncate_intCast 0)).ge

/-- On the way from a number to its integer part there is no other integer. -/
theorem lt_truncate_iff {q : ℚ} {x : Int} (hx : x ≠ truncate q) : x < truncate q ↔ (x : ℚ) < q := by
  rcases le_total 0 q with h | h
  · rw [truncate, if_pos h] at hx ⊢
    have hle : x ≤ ⌊q⌋ ↔ (x : ℚ) ≤ q := Int.le_floor
    constructor
    · intro hlt
      have hfloor : (⌊q⌋ : ℚ) ≤ q := Int.floor_le q
      exact lt_of_lt_of_le (Int.cast_lt.mpr hlt) hfloor
    · exact fun hlt => lt_of_le_of_ne (hle.mpr hlt.le) hx
  · rcases h.lt_or_eq with h | rfl
    · rw [truncate, if_neg (not_le.mpr h)]
      exact Int.lt_ceil
    · have h0 : truncate 0 = 0 := truncate_intCast 0
      rw [h0]
      exact_mod_cast Iff.rfl

theorem truncate_lt_iff {q : ℚ} {x : Int} (hx : x ≠ truncate q) : truncate q < x ↔ q < (x : ℚ) := by
  have hlt := lt_truncate_iff hx
  have hne : (x : ℚ) ≠ q := fun h => hx (by rw [← h, truncate_intCast])
  constructor
  · intro h
    have hge : q ≤ x := not_lt.mp fun hc => absurd (hlt.mpr hc) (not_lt.mpr h.le)
    exact lt_of_le_of_ne hge hne.symm
  · intro h
    have hge : truncate q ≤ x := not_lt.mp fun hc => absurd (hlt.mp hc) (not_lt.mpr h.le)
    exact lt_of_le_of_ne hge hx.symm

/-- The number that the parts of a float stand for. -/
def Parts.rat? : Parts → Option ℚ
  | .finite negative mantissa exponent =>
    let magnitude : ℚ := mantissa * 2 ^ exponent
    some (if negative then -magnitude else magnitude)
  | _ => none

/-- **The number that a float stands for**, exactly. -/
def rat? (x : Float) : Option ℚ := (parts x).rat?

theorem scaled_eq_floor (m : Nat) (e : Int) :
    ((Parts.scaled m e).1 : Int) = ⌊(m : ℚ) * 2 ^ e⌋ := by
  unfold Parts.scaled
  split
  · next he =>
    obtain ⟨n, rfl⟩ := Int.eq_ofNat_of_zero_le he
    have hcast : (m : ℚ) * 2 ^ (n : Int) = ((m * 2 ^ n : Nat) : ℚ) := by push_cast; rfl
    rw [hcast, Int.floor_natCast]
    rfl
  · next he =>
    obtain ⟨n, hn⟩ := Int.eq_ofNat_of_zero_le (show 0 ≤ -e by omega)
    have hcast : (m : ℚ) * 2 ^ e = (m : ℚ) / (2 ^ n : Nat) := by
      rw [show e = -(n : Int) by omega, zpow_neg, zpow_natCast, div_eq_mul_inv]
      push_cast
      rfl
    have hpow : (-e).toNat = n := by omega
    rw [hcast, Rat.floor_natCast_div_natCast, hpow]
    rfl

theorem integerPart?_of_rat? {x : Float} {q : ℚ} (h : rat? x = some q) :
    ∃ exact, integerPart? x = some (truncate q, exact) ∧ isFinite x = true := by
  unfold rat? at h
  unfold integerPart? isFinite
  cases hp : parts x with
  | nan => exact nomatch hp ▸ h
  | infinite negative => exact nomatch hp ▸ h
  | finite negative m e =>
    rw [hp] at h
    have hpos : (0 : ℚ) ≤ m * 2 ^ e := mul_nonneg m.cast_nonneg (zpow_nonneg (by norm_num) e)
    have hfloor := scaled_eq_floor m e
    refine ⟨(Parts.scaled m e).2, ?_, rfl⟩
    rw [← Option.some.inj h]
    cases negative with
    | true =>
      simp only [if_true]
      rw [truncate_neg hpos, hfloor]
    | false =>
      simp only [Bool.false_eq_true, if_false]
      rw [truncate, if_pos hpos, hfloor]

end Decimal

open Decimal (truncate)

/-- The number that a number of JSON stands for. -/
def Number.rat? : Number → Option ℚ
  | .int n => some n
  | .float x => Decimal.rat? x

/-- **The number that a numeric literal stands for**; NaN and the infinities stand for none. -/
def Value.rat? : Value → Option ℚ
  | .int n => some n.toInt
  | .float x => Decimal.rat? x
  | .json (.num n) => n.rat?
  | _ => none

/-! ### Normalized numbers -/

namespace Validate

theorem toJson_of_truncated {x : Float} {q : ℚ} {w : Value} (hq : Decimal.rat? x = some q)
    (h : truncated x = .ok w) : w.toJson = .num (.int (truncate q)) := by
  obtain ⟨exact, hpart, -⟩ := Decimal.integerPart?_of_rat? hq
  rw [truncated, hpart, Option.bind_some] at h
  cases hn : toInt64? (truncate q) with
  | none => exact nomatch hn ▸ h
  | some i =>
    rw [hn] at h
    rw [← Except.ok.inj h, Value.toJson, Json.ofInt64, toInt64?_eq_some_iff.mp hn]

/-- **A field for integers normalizes a number to its integer part.** -/
theorem toJson_of_integer {v w : Value} {q : ℚ} (hq : v.rat? = some q)
    (hmin : (Decimal.leastInt64 : ℚ) ≤ q) (hmax : q ≤ Decimal.greatestInt64)
    (h : integer v = .ok w) : w.toJson = .num (.int (truncate q)) := by
  cases v with
  | int n =>
    have hn : (n.toInt : ℚ) = q := Option.some.inj hq
    rw [← Except.ok.inj h, ← hn, Decimal.truncate_intCast]
    rfl
  | float x =>
    obtain ⟨-, -, hfinite⟩ := Decimal.integerPart?_of_rat? hq
    rw [integer, if_pos hfinite] at h
    exact toJson_of_truncated hq h
  | json j =>
    cases j with
    | num k =>
      cases k with
      | int n =>
        have hn : (n : ℚ) = q := Option.some.inj hq
        rw [← hn] at hmin hmax ⊢
        have hrange : Decimal.leastInt64 ≤ n ∧ n ≤ Decimal.greatestInt64 :=
          ⟨Int.cast_le.mp hmin, Int.cast_le.mp hmax⟩
        obtain ⟨i, hi⟩ : ∃ i, toInt64? n = some i := by
          refine Option.ne_none_iff_exists'.mp fun hnone => ?_
          have hout := toInt64?_eq_none_iff.mp hnone
          unfold Decimal.leastInt64 Decimal.greatestInt64 at hrange
          omega
        have hint : Number.toInt64? (.int n) = some i := hi
        simp only [integer, hint] at h
        rw [← Except.ok.inj h, Decimal.truncate_intCast, ← toInt64?_eq_some_iff.mp hi]
        rfl
      | float x => exact toJson_of_truncated hq h
    | _ => exact nomatch hq
  | _ => exact nomatch hq

end Validate

/-! ### Comparisons with an integer part -/

namespace Op

variable {o : Op} {q : ℚ} {x : Int}

/-- **Away from the integer part** of a number every comparison stays what it was. -/
theorem compares_truncate_of_ne (o : Op) (hx : x ≠ truncate q) :
    o.compares x (truncate q) ↔ o.compares (x : ℚ) q := by
  have hlt := Decimal.lt_truncate_iff hx
  have hgt := Decimal.truncate_lt_iff hx
  have hne : (x : ℚ) ≠ q := fun h => hx (by rw [← h, Decimal.truncate_intCast])
  cases o with
  | eq => exact iff_of_false hx hne
  | ne => exact iff_of_true hx hne
  | lt => exact hlt
  | lte => exact not_lt.symm.trans ((not_congr hgt).trans not_lt)
  | gt => exact hgt
  | gte => exact not_lt.symm.trans ((not_congr hlt).trans not_lt)
  | _ => exact Iff.rfl

/-- **At the integer part** a comparison stays what it was if there is no fraction, or the number is
on the side of its integer part that the operator asks for. -/
theorem compares_truncate_self_iff (ho : o.isComparison = true) :
    (o.compares (truncate q) (truncate q) ↔ o.compares (truncate q : ℚ) q) ↔
      q = truncate q ∨ (0 < q ∧ (o = .gt ∨ o = .lte)) ∨ (q < 0 ∧ (o = .lt ∨ o = .gte)) := by
  have hle : (truncate q : ℚ) ≤ q ↔ q = truncate q ∨ 0 < q := by
    constructor
    · intro h
      rcases lt_or_ge 0 q with hq | hq
      · exact Or.inr hq
      · exact Or.inl (le_antisymm (Decimal.le_truncate hq) h)
    · rintro (h | h)
      · exact h.ge
      · exact Decimal.truncate_le h.le
  have hge : q ≤ truncate q ↔ q = truncate q ∨ q < 0 := by
    constructor
    · intro h
      rcases lt_or_ge q 0 with hq | hq
      · exact Or.inr hq
      · exact Or.inl (le_antisymm h (Decimal.truncate_le hq))
    · rintro (h | h)
      · exact h.le
      · exact Decimal.le_truncate h.le
  cases o with
  | eq => simp [compares, eq_comm]
  | ne => simp [compares, eq_comm]
  | lt => simpa [compares] using hge
  | lte => simpa [compares] using hle
  | gt => simpa [compares] using hle
  | gte => simpa [compares] using hge
  | _ => exact absurd ho (by decide)

end Op

/-! ### Clauses -/

/-- **Does a leaf hold** where the fields have these values? Only a clause can, and one that is to
be negated does if the clause does not. -/
def Compiled.holdsAt (ρ : String → Int) : Compiled → Prop
  | .clause c inverted => if inverted then ¬ c.holdsAt ρ else c.holdsAt ρ
  | _ => False

namespace Leaf

variable {v : Version} {o : Op} {f : Field} {n : String} {w : Value} {q : ℚ}

theorem yields_of_field {c : Clause} {inverted : Bool} (hn : f.name = some n)
    (h : compile v (.node o (.field f) (.value w)) = .ok (.clause c inverted)) :
    Comparison.Yields v ⟨⟨n, some f⟩, none, w, true⟩ o c inverted := by
  obtain ⟨-, sl, sr, cmp, hl, hr, hcmp, hc⟩ := compile_eq_clause_iff.mp h
  have href : FieldRef.ofField o f = .ok ⟨n, some f⟩ := by simp [FieldRef.ofField, hn]
  obtain rfl : Side.field ⟨n, some f⟩ none = sl := by
    rw [side, href] at hl
    exact Except.ok.inj hl
  obtain rfl : (⟨⟨n, some f⟩, none, w, true⟩ : Comparison) = cmp := by
    cases w <;> cases hr <;> exact Except.ok.inj hcmp
  exact Comparison.clause_eq_ok_iff.mp hc

/-- A number that an integer field is compared with is embedded as its integer part. -/
theorem prepared_of_number (hf : f.kind = .integer) (hq : w.rat? = some q)
    (hmin : (Decimal.leastInt64 : ℚ) ≤ q) (hmax : q ≤ Decimal.greatestInt64) {j : Json}
    (h : Comparison.prepared ⟨⟨n, some f⟩, none, w, true⟩ = .ok j) :
    j = .num (.int (truncate q)) := by
  obtain ⟨x, hx, rfl⟩ : ∃ x, f.validate w = .ok x ∧ j = x.toJson := by
    cases w with
    | list => exact nomatch hq
    | _ =>
      obtain ⟨x, hx, h⟩ := Outcome.bind_eq_ok.mp h
      obtain ⟨y, hy, hx⟩ := Outcome.bind_eq_ok.mp hx
      obtain rfl := Except.ok.inj hx
      exact ⟨y, Outcome.mapError_eq_ok.mp hy, (Except.ok.inj h).symm⟩
  obtain ⟨_, kind, _, _, _⟩ := f
  obtain rfl : kind = .integer := hf
  exact Validate.toJson_of_integer hq hmin hmax (Validate.blame_eq_ok_iff.mp hx)

/-- **What a comparison of an integer field with a number says** once it is compiled: it compares
with the integer part of the number. So it says what it said before about every integer but the
integer part, and about that one too iff there is no fraction, or the fraction points to the side
that the operator asks for. -/
theorem holdsAt_clause_of_number (hf : f.kind = .integer) (hn : f.name = some n)
    (ho : o.isComparison = true) (hq : w.rat? = some q) (hmin : (Decimal.leastInt64 : ℚ) ≤ q)
    (hmax : q ≤ Decimal.greatestInt64) {c : Clause} {inverted : Bool}
    (h : compile v (.node o (.field f) (.value w)) = .ok (.clause c inverted)) :
    (∀ ρ, (Compiled.clause c inverted).holdsAt ρ ↔ o.compares (ρ n) (truncate q)) ∧
      (∀ ρ, ρ n ≠ truncate q →
        ((Compiled.clause c inverted).holdsAt ρ ↔ o.compares (ρ n : ℚ) q)) ∧
      ((∀ ρ, (Compiled.clause c inverted).holdsAt ρ ↔ o.compares (ρ n : ℚ) q) ↔
        q = truncate q ∨ (0 < q ∧ (o = .gt ∨ o = .lte)) ∨ (q < 0 ∧ (o = .lt ∨ o = .gte))) := by
  have hy := yields_of_field hn h
  obtain ⟨j, hj, -⟩ := hy.embedded_eq ho
  obtain rfl := prepared_of_number hf hq hmin hmax hj
  have hcut : ∀ ρ, (Compiled.clause c inverted).holdsAt ρ ↔ o.compares (ρ n) (truncate q) :=
    fun ρ => hy.holdsAt_iff ho hj ρ
  have haway : ∀ ρ, ρ n ≠ truncate q →
      ((Compiled.clause c inverted).holdsAt ρ ↔ o.compares (ρ n : ℚ) q) := fun ρ hx =>
    (hcut ρ).trans (Op.compares_truncate_of_ne o hx)
  refine ⟨hcut, haway, ?_⟩
  rw [← Op.compares_truncate_self_iff ho]
  constructor
  · intro hall
    exact (hcut fun _ => truncate q).symm.trans (hall fun _ => truncate q)
  · intro hself ρ
    by_cases hx : ρ n = truncate q
    · rw [hcut ρ, hx]
      exact hself
    · exact haway ρ hx

/-- A declared field for integers. -/
def lineno : Field := { name := some "lineno", kind := .integer }

theorem rat?_threeAndAHalf : (Value.float 3.5).rat? = some (7 / 2) := by
  have hparts : Decimal.parts 3.5 = .finite false 7881299347898368 (-51) := by decide +kernel
  rw [Value.rat?, Decimal.rat?, hparts]
  norm_num [Decimal.Parts.rat?]

/-- Above three and a half is above three. -/
theorem holdsAt_clause_above_threeAndAHalf : ∃ c inverted,
    compile .standard (.node .gt (.field lineno) (.value (.float 3.5))) =
      .ok (.clause c inverted) ∧
    ∀ ρ, (Compiled.clause c inverted).holdsAt ρ ↔ (7 / 2 : ℚ) < ρ "lineno" := by
  obtain ⟨c, inverted, h⟩ : ∃ c inverted, compile .standard
      (.node .gt (.field lineno) (.value (.float 3.5))) = .ok (.clause c inverted) := ⟨_, _, rfl⟩
  have hmin : (Decimal.leastInt64 : ℚ) ≤ 7 / 2 := by norm_num [Decimal.leastInt64]
  have hmax : (7 / 2 : ℚ) ≤ Decimal.greatestInt64 := by norm_num [Decimal.greatestInt64]
  obtain ⟨-, -, hkeeps⟩ :=
    holdsAt_clause_of_number (n := "lineno") rfl rfl rfl rat?_threeAndAHalf hmin hmax h
  refine ⟨c, inverted, h, hkeeps.mpr (Or.inr (Or.inl ⟨by norm_num, Or.inl rfl⟩))⟩

/-- Three is below three and a half, but not below three. -/
theorem not_holdsAt_clause_below_threeAndAHalf : (Value.float 3.5).rat? = some (7 / 2) ∧
    Op.lt.compares ((3 : Int) : ℚ) (7 / 2) ∧ ∃ c inverted,
      compile .standard (.node .lt (.field lineno) (.value (.float 3.5))) =
        .ok (.clause c inverted) ∧
      ¬ (Compiled.clause c inverted).holdsAt fun _ => 3 := by
  have hnew : FieldClause.new .range "lineno" .standard = .ok ⟨"lineno", .empty .standard []⟩ := rfl
  refine ⟨rat?_threeAndAHalf, by norm_num [Op.compares], _, _, rfl, fun h => ?_⟩
  exact lt_irrefl (3 : Int) ((Range.holdsAt_withBound_new (fun _ => 3) hnew .lt 3).mp h)

end Leaf

end SearchCompiler
