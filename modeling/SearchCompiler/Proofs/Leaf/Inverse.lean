import Mathlib.Algebra.Order.Field.Basic
import SearchCompiler.Compile.Inverse
import SearchCompiler.Proofs.Decimal.Sign
import SearchCompiler.Proofs.Leaf.Integers

/-! # Solving an arithmetic node

An arithmetic node with an integer constant is a function of its field over the rationals,
`Position.node`. It is increasing or decreasing, and `Inverse.flipsOrder` says which; the integer
that the constant is moved to is where it takes the value of the comparison.

* `Position.solve?_eq_some_iff`: the integer solutions of a node.
* `Inverse.compares_node_iff`: comparing two values of a node is comparing the fields. -/

namespace SearchCompiler

namespace Position

variable {p : Position} {o : Op} {fieldOnLeft : Bool}

/-- **The value of an arithmetic node** with constant `k` whose field has the value `x`. -/
def node (p : Position) (k x : ℚ) : ℚ :=
  match p with
  | addend => x + k
  | minuend => x - k
  | subtrahend => k - x
  | factor => x * k
  | dividend => x / k

theorem arith?_of_ofOp (h : ofOp o fieldOnLeft = .ok p) {k : ℚ} (hk : p.isScaled = true → k ≠ 0)
    (x : ℚ) : (if fieldOnLeft then o.arith? x k else o.arith? k x) = some (p.node k x) := by
  unfold ofOp at h
  split at h <;> cases h
  · cases fieldOnLeft
    · exact congrArg some (add_comm k x)
    · rfl
  · rfl
  · rfl
  · cases fieldOnLeft
    · exact congrArg some (mul_comm k x)
    · rfl
  · exact if_neg (hk rfl)

/-- **The integer solutions of a node** with an integer constant. -/
theorem solve?_eq_some_iff {k v z : Int} (hk : p.isScaled = true → k ≠ 0) :
    p.solve? k v = some z ↔ p.node k z = v := by
  cases p with
  | addend =>
    have h : ((z : ℚ) + k = v) ↔ z + k = v := by exact_mod_cast Iff.rfl
    simp only [solve?, node, Option.some.injEq, h]
    omega
  | minuend =>
    have h : ((z : ℚ) - k = v) ↔ z - k = v := by exact_mod_cast Iff.rfl
    simp only [solve?, node, Option.some.injEq, h]
    omega
  | subtrahend =>
    have h : ((k : ℚ) - z = v) ↔ k - z = v := by exact_mod_cast Iff.rfl
    simp only [solve?, node, Option.some.injEq, h]
    omega
  | factor =>
    have h : ((z : ℚ) * k = v) ↔ z * k = v := by exact_mod_cast Iff.rfl
    simp only [solve?, node, h]
    constructor
    · intro hs
      split at hs
      · next hr =>
        rw [← Option.some.inj hs]
        exact Int.ediv_mul_cancel (Int.dvd_of_emod_eq_zero hr)
      · cases hs
    · rintro rfl
      rw [if_pos (Int.mul_emod_left z k), Int.mul_ediv_cancel z (hk rfl)]
  | dividend =>
    have hk' : (k : ℚ) ≠ 0 := by exact_mod_cast hk rfl
    have h : ((z : ℚ) = v * k) ↔ z = v * k := by exact_mod_cast Iff.rfl
    simp only [solve?, node, Option.some.injEq, div_eq_iff hk', h]
    exact eq_comm

section
variable {k : ℚ}

theorem strictMono_node (h : p = addend ∨ p = minuend ∨ p.isScaled = true ∧ 0 < k) :
    StrictMono (p.node k) := by
  intro x y hxy
  cases p with
  | addend => exact add_lt_add_left hxy k
  | minuend => exact sub_lt_sub_right hxy k
  | subtrahend => simp [isScaled] at h
  | factor => exact mul_lt_mul_of_pos_right hxy (by simpa [isScaled] using h)
  | dividend => exact div_lt_div_of_pos_right hxy (by simpa [isScaled] using h)

theorem strictAnti_node (h : p = subtrahend ∨ p.isScaled = true ∧ k < 0) :
    StrictAnti (p.node k) := by
  intro x y hxy
  cases p with
  | addend => simp [isScaled] at h
  | minuend => simp [isScaled] at h
  | subtrahend => exact sub_lt_sub_left hxy k
  | factor => exact mul_lt_mul_of_neg_right hxy (by simpa [isScaled] using h)
  | dividend => exact (div_lt_div_right_of_neg (by simpa [isScaled] using h)).mpr hxy

end

end Position

theorem Constant.ofValue_eq_ok {k : Value} {c : Constant} (h : Constant.ofValue k = .ok c) :
    k.float? = some c.number ∧ c.whole = k.int64? := by
  unfold Constant.ofValue at h
  split at h
  · cases h
  · next x hx =>
    split at h <;> cases h
    exact ⟨hx, rfl⟩

/-- The float that is asked for its sign has that of the integer. -/
theorem Constant.hasSignOf_of_ofValue {k : Value} {c : Constant} {m : Int64}
    (h : Constant.ofValue k = .ok c) (hk : k.int64? = some m) :
    Decimal.HasSignOf c.number m.toInt := by
  obtain ⟨x, hx, hsign⟩ := Value.float?_of_int64? hk
  obtain rfl := Option.some.inj ((Constant.ofValue_eq_ok h).1.symm.trans hx)
  exact hsign

theorem Json.ofFloat_ne_int (x : Float) (z : Int) : Json.ofFloat x ≠ .num (.int z) := by
  unfold Json.ofFloat
  split <;> exact nofun

namespace Inverse

variable {i : Inverse} {o : Op} {k v : Value} {fieldOnLeft : Bool} {m n : Int64}

/-- **An inverse** of an operator with an integer constant. -/
theorem new_eq_ok (h : new o k fieldOnLeft = .ok i) (hk : k.int64? = some m) :
    Position.ofOp o fieldOnLeft = .ok i.position ∧ i.constant.whole = some m ∧
      Decimal.HasSignOf i.constant.number m.toInt ∧
      (i.position.isScaled = true → m.toInt ≠ 0) := by
  obtain ⟨c, hc, h⟩ := Outcome.bind_eq_ok.mp h
  obtain ⟨p, hp, h⟩ := Outcome.bind_eq_ok.mp h
  have hm : c.whole = some m := (Constant.ofValue_eq_ok hc).2.trans hk
  have hsign : Decimal.HasSignOf c.number m.toInt := Constant.hasSignOf_of_ofValue hc hk
  split at h
  · cases h
  · next hz =>
    cases h
    refine ⟨hp, hm, hsign, fun hs h0 => hz ?_⟩
    rw [hs, Constant.isZero, hsign.beq_zero.mpr h0]
    rfl

theorem flipsOrder_iff (hsign : Decimal.HasSignOf i.constant.number m.toInt) :
    i.flipsOrder = true ↔
      i.position = .subtrahend ∨ i.position.isScaled = true ∧ (m.toInt : ℚ) < 0 := by
  have hneg : i.constant.isNegative = true ↔ (m.toInt : ℚ) < 0 := by
    rw [Constant.isNegative, decide_eq_true_iff, hsign.lt_zero, Int.cast_lt_zero]
  unfold flipsOrder
  cases i.position <;> simp [Position.isScaled, hneg]

/-- **Comparing two values of a node is comparing the fields**, the other way round if the inverse
flips. -/
theorem compares_node_iff (hsign : Decimal.HasSignOf i.constant.number m.toInt)
    (h0 : i.position.isScaled = true → m.toInt ≠ 0) (o : Op) (x y : ℚ) :
    o.compares (i.position.node m.toInt x) (i.position.node m.toInt y) ↔
      (if i.flipsOrder then o.converse else o).compares x y := by
  by_cases hf : i.flipsOrder = true
  · rw [if_pos hf]
    exact Op.compares_apply_iff_of_strictAnti
      (Position.strictAnti_node ((flipsOrder_iff hsign).mp hf)) o x y
  · rw [if_neg hf]
    rw [flipsOrder_iff hsign, not_or, not_and, not_lt] at hf
    refine Op.compares_apply_iff_of_strictMono (Position.strictMono_node ?_) o x y
    have hpos : i.position.isScaled = true → (0 : ℚ) < m.toInt := fun hs =>
      lt_of_le_of_ne (hf.2 hs) (Ne.symm (Int.cast_ne_zero.mpr (h0 hs)))
    have hp := hf.1
    revert hpos hp
    cases i.position <;> simp [Position.isScaled]

theorem solve?_of_apply {w : Value} {z : Int} (h : i.apply v = .ok w)
    (hm : i.constant.whole = some m) (hn : v.int64? = some n) (hz : w.toJson = .num (.int z)) :
    i.position.solve? m.toInt n.toInt = some z := by
  have hfloat : i.applyFloat v ≠ .ok w := by
    intro hw
    unfold applyFloat at hw
    split at hw <;> cases hw
    exact Json.ofFloat_ne_int _ z hz
  simp only [apply, hm, hn, applyWhole] at h
  split at h
  · exact absurd h hfloat
  · next x hx =>
    split at h
    · next y hy =>
      cases h
      have hxy : y.toInt = z := by simpa [Value.toJson, Json.ofInt64] using hz
      rw [hx, ← hxy, toInt64?_eq_some_iff.mp hy]
    · cases h

end Inverse

end SearchCompiler
