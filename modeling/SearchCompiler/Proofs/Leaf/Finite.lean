import SearchCompiler.Proofs.Field.Conforms
import SearchCompiler.Proofs.Leaf.Integers

/-! # Values without a number in JSON

NaN and the infinities become `null` in JSON, and a bound of `null` is none. A value goes through
three hands on its way into a clause: the field normalizes it, the constant of an arithmetic node is
moved to it, and then it is written as JSON. None of the first two turns it into null, and none of
them asks whether a float is finite.

* `Inverse.isNormal_of_apply`: a moved value is normalized, as one that a field accepts.
* `Leaf.Comparison.Loses`: a value that comes out as no number.
* `Leaf.null_mem_compared_iff`: the clause of a comparison has a null iff such a value is lost. -/

namespace SearchCompiler

namespace Value

/-- The items of a value that is a list, else the value itself. -/
def items : Value → List Value
  | list vs => vs
  | json (.arr js) => js.map json
  | v => [v]

variable {v x : Value}

theorem isNull_of_items (h : ∀ w ∈ v.items, w.isNull = false) : v.isNull = false := by
  cases v with
  | json j => cases j <;> first | rfl | exact h _ (List.mem_singleton_self _)
  | null => exact h _ (List.mem_singleton_self _)
  | _ => rfl

theorem isNull_of_isNormal (h : x.isNormal = true) : x.isNull = false := by
  cases x with
  | json j => cases j <;> first | rfl | exact nomatch h
  | _ => first | rfl | exact nomatch h

theorem eq_json_of_arr? {js : List Json} (hx : x.list? = none) (h : x.toJson.arr? = some js) :
    x = .json (.arr js) := by
  cases x with
  | json j =>
    cases j with
    | arr js' => exact congrArg (json ∘ .arr) (Option.some.inj h)
    | _ => exact nomatch h
  | float y => exact nomatch (arr?_of_isNormal (x := .float y) rfl).symm.trans h
  | list vs => exact nomatch hx
  | _ => exact nomatch h

/-- **Only null and the floats of no number are null in JSON.** -/
theorem toJson_eq_null_iff : x.toJson = .null ↔
    x.isNull = true ∨ ∃ y, x = .float y ∧ Decimal.isFinite y = false := by
  cases x with
  | json j => cases j <;> simp [toJson, isNull, Json.isNull]
  | float y => cases hy : Decimal.isFinite y <;> simp [toJson, isNull, Json.ofFloat, hy]
  | _ => simp [toJson, isNull, Json.ofInt64]

end Value

/-! ### Moved values -/

/-- **Moving a constant to a value gives a number.** -/
theorem Inverse.isNormal_of_apply {i : Inverse} {v x : Value} (h : i.apply v = .ok x) :
    x.isNormal = true := by
  have hfloat : i.applyFloat v = .ok x → x.isNormal = true := fun h => by
    unfold applyFloat at h
    split at h
    · exact Except.ok.inj h ▸ rfl
    · exact nomatch h
  unfold apply at h
  split at h
  · unfold applyWhole at h
    split at h
    · exact hfloat h
    · split at h
      · exact Except.ok.inj h ▸ rfl
      · exact nomatch h
  · exact hfloat h

/-! ### Values in a clause -/

/-- **The values that the field of a clause is compared with**; a list counts by its items. -/
def Clause.compared : Clause → List Json
  | .terms c => c.values
  | c => c.embedded.flatMap fun j => j.arr?.getD [j]

namespace Leaf

namespace Comparison

/-- The values of a comparison by an operator, each of which is prepared alone. -/
def operands (c : Comparison) (o : Op) : List Value :=
  if o = .isIn then valuesOf c.value else c.value.list?.getD [c.value]

/-- **A comparison loses a value** if it comes out as a float of no number. -/
def Loses (c : Comparison) (w : Value) : Prop :=
  ∃ y, c.prepare w = .ok (.float y) ∧ Decimal.isFinite y = false

variable {cmp : Comparison} {w x : Value}

/-- A prepared value is normalized, unless it is the value itself. -/
theorem eq_or_isNormal_of_prepare (h : cmp.prepare w = .ok x) : x = w ∨ x.isNormal = true := by
  obtain ⟨y, hy, h⟩ := Outcome.bind_eq_ok.mp h
  split at h
  · exact Or.inr (Inverse.isNormal_of_apply h)
  · obtain rfl := Except.ok.inj h
    unfold FieldRef.validate at hy
    split at hy
    · exact Or.inr (Field.isNormal_of_validate (Outcome.mapError_eq_ok.mp hy))
    · exact Or.inl (Except.ok.inj hy).symm

theorem toJson_eq_null_iff_loses (h : cmp.prepare w = .ok x) (hw : w.isNull = false) :
    x.toJson = .null ↔ cmp.Loses w := by
  have hx : x.isNull = false := by
    rcases eq_or_isNormal_of_prepare h with rfl | hx
    · exact hw
    · exact Value.isNull_of_isNormal hx
  rw [Value.toJson_eq_null_iff, hx, Loses, h]
  simp

/-- A list of prepared values has a null iff one of the values is lost. -/
theorem null_mem_prepareAll_iff {ws : List Value} {js : List Json}
    (h : cmp.prepareAll ws = .ok js) (hws : ∀ w ∈ ws, w.isNull = false) :
    .null ∈ js ↔ ∃ w ∈ ws, cmp.Loses w := by
  obtain ⟨hforth, hback⟩ := Outcome.exists_of_mem_mapM h
  have hitem : ∀ w ∈ ws, ∀ j, (do return (← cmp.prepare w).toJson : Compile Json) = .ok j →
      (j = .null ↔ cmp.Loses w) := fun w hw j hj => by
    obtain ⟨x, hx, hj⟩ := Outcome.bind_eq_ok.mp hj
    rw [← Except.ok.inj hj]
    exact toJson_eq_null_iff_loses hx (hws w hw)
  constructor
  · intro hnull
    obtain ⟨w, hw, hj⟩ := hback _ hnull
    exact ⟨w, hw, (hitem w hw _ hj).mp rfl⟩
  · rintro ⟨w, hw, hl⟩
    obtain ⟨j, hj, hwj⟩ := hforth w hw
    exact (hitem w hw j hwj).mpr hl ▸ hj

/-- Moving a constant makes no operator a membership, and a membership nothing else. -/
theorem effectiveOp_eq_isIn_iff {o : Op} : cmp.effectiveOp o = .isIn ↔ o = .isIn := by
  have hc : ∀ o : Op, o.converse = .isIn ↔ o = .isIn := fun o => by cases o <;> decide
  obtain ⟨f, inverse, value, onLeft⟩ := cmp
  cases inverse with
  | none => cases onLeft <;> simp [effectiveOp, hc]
  | some i => cases onLeft <;> cases hf : i.flipsOrder <;> simp [effectiveOp, hc, hf]

theorem isNull_of_mem_valuesOf {v : Value} (hv : ∀ w ∈ v.items, w.isNull = false) :
    ∀ w ∈ valuesOf v, w.isNull = false := by
  have htext : ∀ s, ∀ w ∈ valuesOfText s, w.isNull = false := fun s w hw => by
    obtain ⟨_, -, rfl⟩ := List.mem_map.mp hw
    rfl
  unfold valuesOf
  split
  · exact hv
  · exact hv
  · exact htext _

theorem null_mem_items_iff (h : cmp.prepare w = .ok x) (hlist : w.list? = none)
    (hw : ∀ u ∈ w.items, u.isNull = false) :
    .null ∈ x.toJson.arr?.getD [x.toJson] ↔ cmp.Loses w := by
  rw [← toJson_eq_null_iff_loses h (Value.isNull_of_items hw)]
  cases hj : x.toJson.arr? with
  | none => simp [eq_comm]
  | some js =>
    -- only a list in JSON to which nothing is done comes out as a list
    have hxw : x = w := (eq_or_isNormal_of_prepare h).resolve_right fun hn =>
      nomatch (Value.arr?_of_isNormal hn).symm.trans hj
    obtain rfl : x = .json (.arr js) := Value.eq_json_of_arr? (hxw ▸ hlist) hj
    subst hxw
    exact iff_of_false (fun hmem => nomatch hw _ (List.mem_map_of_mem hmem)) (fun h => nomatch h)

/-- A prepared value is null, or a list with a null in it, iff one of the values is lost. -/
theorem null_mem_prepared_iff {j : Json} (h : cmp.prepared = .ok j)
    (hv : ∀ w ∈ cmp.value.items, w.isNull = false) :
    .null ∈ j.arr?.getD [j] ↔ ∃ w ∈ cmp.value.list?.getD [cmp.value], cmp.Loses w := by
  obtain ⟨f, i, value, onLeft⟩ := cmp
  cases hlist : value.list? with
  | some ws =>
    obtain rfl : value = .list ws := by
      cases value with
      | list ws' => exact congrArg _ (Option.some.inj hlist)
      | _ => exact nomatch hlist
    obtain ⟨js, hjs, h⟩ := Outcome.bind_eq_ok.mp h
    rw [← Except.ok.inj h]
    exact null_mem_prepareAll_iff hjs hv
  | none =>
    obtain ⟨x, hx, rfl⟩ : ∃ x, prepare ⟨f, i, value, onLeft⟩ value = .ok x ∧ j = x.toJson := by
      cases value with
      | list ws => exact nomatch hlist
      | _ =>
        obtain ⟨x, hx, h⟩ := Outcome.bind_eq_ok.mp h
        exact ⟨x, hx, (Except.ok.inj h).symm⟩
    rw [null_mem_items_iff hx hlist hv]
    simp

variable {v : Version} {o : Op} {c : Clause} {inverted : Bool}

theorem Yields.compared_of_isIn (h : Yields v cmp .isIn c inverted) :
    cmp.prepareAll (valuesOf cmp.value) = .ok c.compared := by
  cases h with
  | range ho => exact nomatch ho
  | term ho => rcases ho with ho | ho <;> exact nomatch ho
  | terms hc hv =>
    rw [Clause.compared, Terms.values_withValues_new hc]
    exact hv
  | search hs => exact absurd hs (by decide)

theorem Yields.compared_of_ne (h : Yields v cmp o c inverted) (ho : o ≠ .isIn) :
    ∃ j, cmp.prepared = .ok j ∧ c.compared = j.arr?.getD [j] := by
  obtain ⟨j, hj, he⟩ := h.embedded_eq_of_ne ho
  have hc : c.compared = c.embedded.flatMap fun j => j.arr?.getD [j] := by
    cases h <;> first | rfl | exact absurd rfl ho
  exact ⟨j, hj, by rw [hc, he, List.flatMap_singleton]⟩

end Comparison

/-- **What a comparison loses.** Among the values that a clause compares with there is a null, though
no item of the value was one, iff a value came out as a float of no number. -/
theorem null_mem_compared_iff {v : Version} {o : Op} {l r : Operand} {c : Clause} {inverted : Bool}
    (h : compile v (.node o l r) = .ok (.clause c inverted)) :
    ∃ sl sr cmp, side v o l = .ok sl ∧ side v o r = .ok sr ∧
      Comparison.ofSides o sl sr = .ok cmp ∧ ((∀ w ∈ cmp.value.items, w.isNull = false) →
        (.null ∈ c.compared ↔ ∃ w ∈ cmp.operands o, cmp.Loses w)) := by
  obtain ⟨-, sl, sr, cmp, hl, hr, hcmp, hc⟩ := compile_eq_clause_iff.mp h
  refine ⟨sl, sr, cmp, hl, hr, hcmp, fun hv => ?_⟩
  have hy := Comparison.clause_eq_ok_iff.mp hc
  unfold Comparison.operands
  split
  · next ho =>
    rw [Comparison.effectiveOp_eq_isIn_iff.mpr ho] at hy
    exact Comparison.null_mem_prepareAll_iff hy.compared_of_isIn
      (Comparison.isNull_of_mem_valuesOf hv)
  · next ho =>
    obtain ⟨j, hj, hcompared⟩ :=
      hy.compared_of_ne fun he => ho (Comparison.effectiveOp_eq_isIn_iff.mp he)
    rw [hcompared]
    exact Comparison.null_mem_prepared_iff hj hv

/-- A declared field for floats, in a list of two texts. -/
def listedRatio : Expr :=
  .node .isIn (.field { name := some "ratio", kind := .float }) (.value (.list [.str "1.5", .str "NaN"]))

/-- One of two texts is lost. -/
theorem null_mem_compared_listedRatio : ∃ c inverted,
    compile .standard listedRatio = .ok (.clause c inverted) ∧ .null ∈ c.compared := by
  obtain ⟨c, inverted, h⟩ :
      ∃ c inverted, compile .standard listedRatio = .ok (.clause c inverted) := ⟨_, _, rfl⟩
  refine ⟨c, inverted, h, ?_⟩
  obtain ⟨sl, sr, cmp, hl, hr, hcmp, hnull⟩ := null_mem_compared_iff h
  cases hl
  cases hr
  cases hcmp
  have hitems : ∀ w ∈ [Value.str "1.5", .str "NaN"], w.isNull = false := by simp [Value.isNull]
  exact (hnull hitems).mpr ⟨.str "NaN", by simp [Comparison.operands, Comparison.valuesOf], _, rfl,
    by decide +kernel⟩

/-- A bare field plus one, below infinity. -/
def belowInfinity : Expr :=
  .node .lt (.expr (.node .add (.name "ratio") (.value (.int 1)))) (.value (.float (1 / 0)))

/-- The range of a comparison with infinity has null as its bound. -/
theorem null_mem_compared_belowInfinity : (Value.float (1 / 0)).isNull = false ∧
    ∃ c, compile .standard belowInfinity = .ok (.clause c false) ∧ c.compared = [.null] := by
  have hlost : Json.ofFloat ((1 / 0 : Float) - Float.ofInt 1) = .null := by
    rw [Json.ofFloat, if_neg (by decide +kernel)]
  exact ⟨rfl, _, rfl, congrArg ([·]) hlost⟩

end Leaf

end SearchCompiler
