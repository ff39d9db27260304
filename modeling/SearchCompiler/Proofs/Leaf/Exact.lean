import SearchCompiler.Proofs.Leaf.Inverse

/-! # Moving integers exactly

Where the constant of an arithmetic node and the value it is compared with are integers, the node
has one solution among the rationals. If that is a 64-bit integer, it is what the constant is moved
to; if it is an integer beyond 64 bits, the move fails; if it is no integer, a float stands in for
it. A factor is never zero, whichever way it is read, so there always is a solution.

* `Op.Solves`: the solutions of a node.
* `Position.solves_iff`: the one solution.
* `Inverse.apply_of_int64?`: what an inverse makes of an integer. -/

namespace SearchCompiler

/-- **Does the field solve a node** that is to be `v`, on the left or on the right of a constant? -/
def Op.Solves (o : Op) (fieldOnLeft : Bool) (k v x : ℚ) : Prop :=
  (if fieldOnLeft then o.arith? x k else o.arith? k x) = some v

namespace Position

variable {p : Position} {o : Op} {fieldOnLeft : Bool} {k : ℚ}

/-- **The solution of a node** with constant `k` that is to be `v`. -/
def solution (p : Position) (k v : ℚ) : ℚ :=
  match p with
  | addend => v - k
  | minuend => v + k
  | subtrahend => k - v
  | factor => v / k
  | dividend => v * k

theorem node_eq_iff (hk : p.isScaled = true → k ≠ 0) (v x : ℚ) :
    p.node k x = v ↔ x = p.solution k v := by
  cases p with
  | addend => exact eq_sub_iff_add_eq.symm
  | minuend => exact sub_eq_iff_eq_add
  | subtrahend => exact sub_eq_iff_eq_add.trans (eq_sub_iff_add_eq'.trans eq_comm).symm
  | factor => exact (eq_div_iff (hk rfl)).symm
  | dividend => exact div_eq_iff (hk rfl)

/-- **A node has one solution.** -/
theorem solves_iff (h : ofOp o fieldOnLeft = .ok p) (hk : p.isScaled = true → k ≠ 0) (v x : ℚ) :
    o.Solves fieldOnLeft k v x ↔ x = p.solution k v := by
  rw [Op.Solves, arith?_of_ofOp h hk, Option.some.injEq]
  exact node_eq_iff hk v x

theorem solve?_eq_some_iff_solution {k v z : Int} (hk : p.isScaled = true → k ≠ 0) :
    p.solve? k v = some z ↔ (z : ℚ) = p.solution k v := by
  have hk' : p.isScaled = true → (k : ℚ) ≠ 0 := fun hs => Int.cast_ne_zero.mpr (hk hs)
  rw [solve?_eq_some_iff hk]
  exact node_eq_iff hk' v z

theorem isScaled_of_ofOp (h : ofOp o fieldOnLeft = .ok p) :
    p.isScaled = true ↔ o = .mul ∨ o = .div := by
  unfold ofOp at h
  split at h <;> cases h <;> decide

end Position

namespace Inverse

variable {i : Inverse} {o : Op} {c v : Value} {fieldOnLeft : Bool} {k n : Int64}

/-- An inverse makes of an integer its solution if there is one of 64 bits, a failure if there is
one beyond them, and a float if there is none. -/
theorem apply_cases (hm : i.constant.whole = some k) (hn : v.int64? = some n) :
    (∃ x, i.position.solve? k.toInt n.toInt = some x.toInt ∧ i.apply v = .ok (.int x)) ∨
      (∃ z fault, i.position.solve? k.toInt n.toInt = some z ∧ toInt64? z = none ∧
        i.apply v = .error (.arithmetic fault)) ∨
      (∃ y, i.position.solve? k.toInt n.toInt = none ∧ i.apply v = .ok (.float y)) := by
  have hwhole : i.apply v = i.applyWhole k n v := by rw [apply, hm, hn]
  rw [hwhole, applyWhole]
  cases hz : i.position.solve? k.toInt n.toInt with
  | none =>
    obtain ⟨x, hx, -⟩ := Value.float?_of_int64? hn
    exact Or.inr (Or.inr ⟨_, rfl, by rw [applyFloat, hx]⟩)
  | some z =>
    dsimp only
    cases hx : toInt64? z with
    | none => exact Or.inr (Or.inl ⟨z, _, rfl, hx, rfl⟩)
    | some x => exact Or.inl ⟨x, by rw [toInt64?_eq_some_iff.mp hx], rfl⟩

section
variable (hm : i.constant.whole = some k) (hn : v.int64? = some n)
include hm hn

theorem apply_eq_int_iff (x : Int64) : i.apply v = .ok (.int x) ↔
    i.position.solve? k.toInt n.toInt = some x.toInt := by
  rcases apply_cases hm hn with ⟨y, hs, h⟩ | ⟨z, fault, hs, hz, h⟩ | ⟨y, hs, h⟩
  · simp [h, hs, Int64.toInt_inj]
  · have hne : z ≠ x.toInt := by
      rintro rfl
      rw [toInt64?_toInt] at hz
      cases hz
    simp [h, hs, hne]
  · simp [h, hs]

theorem apply_eq_error_iff : (∃ fault, i.apply v = .error (.arithmetic fault)) ↔
    ∃ z, i.position.solve? k.toInt n.toInt = some z ∧ toInt64? z = none := by
  rcases apply_cases hm hn with ⟨y, hs, h⟩ | ⟨z, fault, hs, hz, h⟩ | ⟨y, hs, h⟩
  · simp [h, hs]
  · simp [h, hs, hz]
  · simp [h, hs]

theorem apply_eq_float_iff : (∃ y, i.apply v = .ok (.float y)) ↔
    i.position.solve? k.toInt n.toInt = none := by
  rcases apply_cases hm hn with ⟨y, hs, h⟩ | ⟨z, fault, hs, hz, h⟩ | ⟨y, hs, h⟩
  · simp [h, hs]
  · simp [h, hs]
  · simp [h, hs]

end

/-- **Integers are moved exactly.** A node with an integer constant that is to be an integer has one
solution among the rationals. The move gives an integer iff it is the solution, it fails iff the
solution is an integer beyond 64 bits, and it gives a float iff the solution is no integer. A factor
is not zero, neither as an integer nor as a float. -/
theorem apply_of_int64? (h : new o c fieldOnLeft = .ok i) (hk : c.int64? = some k)
    (hn : v.int64? = some n) :
    ∃ q : ℚ, (∀ x, o.Solves fieldOnLeft k.toInt n.toInt x ↔ x = q) ∧
      (∀ x : Int64, i.apply v = .ok (.int x) ↔ (x.toInt : ℚ) = q) ∧
      ((∃ fault, i.apply v = .error (.arithmetic fault)) ↔
        ∃ z : Int, (z : ℚ) = q ∧ (z < Decimal.leastInt64 ∨ Decimal.greatestInt64 < z)) ∧
      ((∃ y, i.apply v = .ok (.float y)) ↔ ∀ z : Int, (z : ℚ) ≠ q) ∧
      (o = .mul ∨ o = .div → k ≠ 0 ∧ (i.constant.number == 0) = false) := by
  obtain ⟨hp, hm, hsign, h0⟩ := new_eq_ok h hk
  have h0' : i.position.isScaled = true → (k.toInt : ℚ) ≠ 0 := fun hs =>
    Int.cast_ne_zero.mpr (h0 hs)
  have hsolve : ∀ z, i.position.solve? k.toInt n.toInt = some z ↔
      (z : ℚ) = i.position.solution k.toInt n.toInt := fun z =>
    Position.solve?_eq_some_iff_solution h0
  refine ⟨i.position.solution k.toInt n.toInt, Position.solves_iff hp h0' n.toInt,
    fun x => ?_, ?_, ?_, fun hscaled => ?_⟩
  · rw [apply_eq_int_iff hm hn, hsolve]
  · rw [apply_eq_error_iff hm hn]
    refine exists_congr fun z => and_congr (hsolve z) ?_
    rw [toInt64?_eq_none_iff, Decimal.leastInt64, Decimal.greatestInt64]
    omega
  · rw [apply_eq_float_iff hm hn, Option.eq_none_iff_forall_ne_some]
    exact forall_congr' fun z => not_congr (hsolve z)
  · have hk0 : k.toInt ≠ 0 := h0 ((Position.isScaled_of_ofOp hp).mpr hscaled)
    exact ⟨fun hk => hk0 (Int64.toInt_inj.mpr hk),
      Bool.eq_false_iff.mpr fun hz => hk0 (hsign.beq_zero.mp hz)⟩

/-- The factor minus one brings the least integer beyond 64 bits. -/
theorem apply_of_int64?_least : ∃ i, new .mul (.str "-1") true = .ok i ∧
    (Value.str "-1").int64? = some (-1) ∧
    (Value.int Int64.minValue).int64? = some Int64.minValue ∧
    ∃ fault, i.apply (.int Int64.minValue) = .error (.arithmetic fault) := by
  have hk : (Value.str "-1").int64? = some (-1) := by decide
  have hn : (Value.int Int64.minValue).int64? = some Int64.minValue := rfl
  obtain ⟨i, hi⟩ : ∃ i, new .mul (.str "-1") true = .ok i := ⟨_, rfl⟩
  obtain ⟨q, hq, -, herror, -⟩ := apply_of_int64? hi hk hn
  refine ⟨i, hi, hk, hn, herror.mpr ⟨9223372036854775808, (hq _).mp ?_, Or.inr (by decide)⟩⟩
  have hone : (-1 : Int64).toInt = -1 := rfl
  have hleast : Int64.minValue.toInt = -9223372036854775808 := rfl
  rw [Op.Solves, hone, hleast]
  norm_num [Op.arith?]

end Inverse

end SearchCompiler
