import SearchCompiler.Proofs.Leaf.Inverse

/-! # Moving a constant keeps a comparison

A comparison of an arithmetic node with an integer compiles to a clause on the field of the node,
with the constant moved to the value. Two things may turn the comparison round, the node standing on
the right and the inverse that flips; together they leave what the comparison says unchanged, as
long as the moved value is an integer. Where it is none it is embedded as a float, and nothing is
said about it here.

* `holdsAt_clause_of_arithmetic`: the clause says what the comparison says. -/

namespace SearchCompiler

/-- An operator with one of its sides on the left or on the right. -/
def Expr.arranged (o : Op) (onLeft : Bool) (x y : Operand) : Expr :=
  if onLeft then .node o x y else .node o y x

theorem Expr.holdsAt_arranged {ρ : String → Int} {o : Op} {onLeft : Bool} {x y : Operand} {p q : ℚ}
    (hx : x.rat? ρ = some p) (hy : y.rat? ρ = some q) :
    (Expr.arranged o onLeft x y).holdsAt ρ ↔
      (if onLeft then o else o.converse).compares p q := by
  cases onLeft with
  | true => simp [arranged, holdsAt, hx, hy]
  | false => simp [arranged, holdsAt, hx, hy, Op.compares_converse]

/-- A bare name or a declared field for integers. -/
def Operand.IsIntegerField : Operand → Prop
  | .name _ => True
  | .field f => f.kind = .integer
  | _ => False

/-- The field that an operand names. -/
def Operand.fieldRef? : Operand → Option FieldRef
  | .name n => some (.bare n)
  | .field f => f.name.map fun n => ⟨n, some f⟩
  | _ => none

theorem Operand.rat?_of_fieldRef? {x : Operand} {r : FieldRef} (h : x.fieldRef? = some r)
    (ρ : String → Int) : x.rat? ρ = some (ρ r.name : ℚ) := by
  cases x with
  | name n => cases h; rfl
  | field f =>
    obtain ⟨n, hn, rfl⟩ := Option.map_eq_some_iff.mp h
    simp [rat?, hn]
  | _ => cases h

/-! ### Values -/

theorem Validate.int64?_of_integer {v w : Value} {n : Int64} (h : Validate.integer v = .ok w)
    (hn : v.int64? = some n) : w.int64? = some n := by
  have htext : ∀ s, integerText s = .ok w → Numeral.readInt64? (Text.trimChars s.toList) = some n →
      w.int64? = some n := by
    intro s h hs
    rw [integerText, hs] at h
    cases h
    rfl
  cases v with
  | int k =>
    cases h
    exact hn
  | str s => exact htext s h hn
  | float x =>
    simp only [Validate.integer, Value.int64?] at h hn
    split at hn
    · next z hz =>
      split at h
      · rw [truncated, hz, Option.bind_some, hn] at h
        cases h
        rfl
      · cases h
    · cases hn
  | json j =>
    cases j with
    | num k =>
      have hk : k.toInt64? = some n := hn
      simp only [Validate.integer, hk] at h
      cases h
      rfl
    | _ => cases hn
  | _ => cases hn

theorem FieldRef.int64?_of_validate {x : Operand} {r : FieldRef} {v w : Value} {n : Int64}
    (hx : x.IsIntegerField) (hr : x.fieldRef? = some r) (h : r.validate v = .ok w)
    (hn : v.int64? = some n) : w.int64? = some n := by
  cases x with
  | name =>
    cases hr
    cases h
    exact hn
  | field f =>
    obtain ⟨name, -, rfl⟩ := Option.map_eq_some_iff.mp hr
    obtain ⟨_, kind, _, _, _⟩ := f
    obtain rfl : kind = .integer := hx
    have h := Outcome.mapError_eq_ok.mp h
    simp only [Field.validate, Kind.validate, Validate.blame] at h
    split at h
    · next hv =>
      cases h
      exact Validate.int64?_of_integer hv hn
    · cases h
  | _ => exact hx.elim

namespace Leaf

variable {v : Version} {o a : Op} {x : Operand} {k w : Value} {m n : Int64}
  {nodeOnLeft fieldOnLeft : Bool} {r : FieldRef} {i : Inverse}

/-! ### Sides -/

theorem ofField_eq_ok {f : Field} (h : FieldRef.ofField a f = .ok r) :
    (Operand.field f).fieldRef? = some r := by
  unfold FieldRef.ofField at h
  split at h
  · next n hn =>
    cases h
    simp [Operand.fieldRef?, hn]
  · cases h

theorem operand_of_arranged (hx : x.IsIntegerField)
    (h : compile v (.arranged a fieldOnLeft x (.value k)) = .ok (.operand r i)) :
    x.fieldRef? = some r ∧ Inverse.new a k fieldOnLeft = .ok i := by
  have ha : (if fieldOnLeft then arithmetic a x (.value k) else arithmetic a (.value k) x) =
      .ok (r, i) := by
    cases fieldOnLeft
    · exact (compile_eq_operand_iff.mp h).2
    · exact (compile_eq_operand_iff.mp h).2
  have hxor : a ≠ .xor := by
    rintro rfl
    cases fieldOnLeft <;> cases ha
  -- the field first, then the inverse, on whichever side the field stands
  have hparts : ∀ y : Compile FieldRef,
      (y >>= fun r' => Inverse.new a k fieldOnLeft >>= fun i' => .ok (r', i')) = .ok (r, i) →
      y = .ok r ∧ Inverse.new a k fieldOnLeft = .ok i := by
    intro y hy
    obtain ⟨r', hr, hy⟩ := Outcome.bind_eq_ok.mp hy
    obtain ⟨i', hi, hy⟩ := Outcome.bind_eq_ok.mp hy
    cases hy
    exact ⟨hr, hi⟩
  cases x with
  | name n =>
    have h' : Inverse.new a k fieldOnLeft >>= (fun i' => .ok (FieldRef.bare n, i')) =
        .ok (r, i) := by
      simp only [arithmetic, if_neg hxor] at ha
      cases fieldOnLeft <;> exact ha
    obtain ⟨hr, hi⟩ := hparts (.ok (.bare n)) h'
    exact ⟨congrArg some (Except.ok.inj hr), hi⟩
  | field f =>
    have h' : FieldRef.ofField a f >>= (fun r' => Inverse.new a k fieldOnLeft >>=
        fun i' => .ok (r', i')) = .ok (r, i) := by
      simp only [arithmetic, if_neg hxor] at ha
      cases fieldOnLeft <;> exact ha
    obtain ⟨hr, hi⟩ := hparts _ h'
    exact ⟨ofField_eq_ok hr, hi⟩
  | _ => exact hx.elim

theorem ofSides_value {s : Side} (h : side v o (.value w) = .ok s) (r : FieldRef)
    (i : Option Inverse) :
    Comparison.ofSides o (.field r i) s = .ok ⟨r, i, w, true⟩ ∧
      Comparison.ofSides o s (.field r i) = .ok ⟨r, i, w, false⟩ := by
  cases w <;> cases h <;> exact ⟨rfl, rfl⟩

/-! ### The comparison -/

/-- **The parts of a comparison** of an arithmetic node with a literal. -/
theorem clause_of_arranged (hx : x.IsIntegerField) {c : Clause} {inverted : Bool}
    (h : compile v (.arranged o nodeOnLeft (.expr (.arranged a fieldOnLeft x (.value k)))
      (.value w)) = .ok (.clause c inverted)) :
    ∃ r i, x.fieldRef? = some r ∧ Inverse.new a k fieldOnLeft = .ok i ∧
      Comparison.Yields v ⟨r, some i, w, nodeOnLeft⟩
        (Comparison.effectiveOp ⟨r, some i, w, nodeOnLeft⟩ o) c inverted := by
  have hsides : ∃ s t, side v o (.expr (.arranged a fieldOnLeft x (.value k))) = .ok s ∧
      side v o (.value w) = .ok t ∧ ∃ cmp,
        (if nodeOnLeft then Comparison.ofSides o s t else Comparison.ofSides o t s) = .ok cmp ∧
        cmp.clause v (cmp.effectiveOp o) = .ok (c, inverted) := by
    cases nodeOnLeft
    · obtain ⟨-, t, s, cmp, ht, hs, hcmp, hc⟩ := compile_eq_clause_iff.mp h
      exact ⟨s, t, hs, ht, cmp, hcmp, hc⟩
    · obtain ⟨-, s, t, cmp, hs, ht, hcmp, hc⟩ := compile_eq_clause_iff.mp h
      exact ⟨s, t, hs, ht, cmp, hcmp, hc⟩
  obtain ⟨s, t, hs, ht, cmp, hcmp, hc⟩ := hsides
  obtain ⟨r, i, hr, rfl⟩ := side_expr_eq_ok hs
  obtain ⟨hf, hi⟩ := operand_of_arranged hx hr
  obtain rfl : (⟨r, some i, w, nodeOnLeft⟩ : Comparison) = cmp := by
    cases nodeOnLeft
    · exact Except.ok.inj ((ofSides_value ht r (some i)).2.symm.trans hcmp)
    · exact Except.ok.inj ((ofSides_value ht r (some i)).1.symm.trans hcmp)
  exact ⟨r, i, hf, hi, Comparison.clause_eq_ok_iff.mp hc⟩

/-- The moved value of a literal that is an integer solves the node. -/
theorem solve?_of_prepared {z : Int} (hx : x.IsIntegerField) (hr : x.fieldRef? = some r)
    (hm : i.constant.whole = some m) (hw : w.int64? = some n)
    (h : Comparison.prepared ⟨r, some i, w, nodeOnLeft⟩ = .ok (.num (.int z))) :
    i.position.solve? m.toInt n.toInt = some z := by
  have hprep : ∃ u, Comparison.prepare ⟨r, some i, w, nodeOnLeft⟩ w = .ok u ∧
      u.toJson = .num (.int z) := by
    cases w with
    | list => cases hw
    | _ =>
      obtain ⟨u, hu, hj⟩ := Outcome.bind_eq_ok.mp h
      exact ⟨u, hu, Except.ok.inj hj⟩
  obtain ⟨u, hu, hj⟩ := hprep
  obtain ⟨w', hw', hu⟩ := Outcome.bind_eq_ok.mp hu
  exact Inverse.solve?_of_apply hu hm (FieldRef.int64?_of_validate hx hr hw' hw) hj

theorem rat?_arranged (hr : x.fieldRef? = some r) (hk : k.int64? = some m)
    (hi : Inverse.new a k fieldOnLeft = .ok i) (ρ : String → Int) :
    (Expr.arranged a fieldOnLeft x (.value k)).rat? ρ =
      some (i.position.node m.toInt (ρ r.name)) := by
  obtain ⟨hp, -, -, h0⟩ := Inverse.new_eq_ok hi hk
  have hnode := Position.arith?_of_ofOp (k := (m.toInt : ℚ)) hp
    (fun hs => Int.cast_ne_zero.mpr (h0 hs)) (ρ r.name)
  have hv : (Operand.value k).rat? ρ = some (m.toInt : ℚ) := by simp [Operand.rat?, hk]
  rw [← hnode]
  cases fieldOnLeft <;>
    simp [Expr.arranged, Expr.rat?, Operand.rat?_of_fieldRef? hr ρ, hv]

/-- **Moving a constant keeps a comparison.** Whichever side the node stands on and the field inside
it, the clause with its inversion flag holds for the values of the fields for which the comparison
holds over the rationals, if what the clause embeds is an integer. -/
theorem holdsAt_clause_of_arithmetic (nodeOnLeft fieldOnLeft : Bool) (hx : x.IsIntegerField)
    (ho : o.isComparison = true) (hk : k.int64? = some m) (hw : w.int64? = some n)
    {c : Clause} {inverted : Bool}
    (h : compile v (.arranged o nodeOnLeft (.expr (.arranged a fieldOnLeft x (.value k)))
      (.value w)) = .ok (.clause c inverted))
    (hz : ∀ j ∈ c.embedded, ∃ z : Int, j = .num (.int z)) (ρ : String → Int) :
    (if inverted then ¬ c.holdsAt ρ else c.holdsAt ρ) ↔
      (Expr.arranged o nodeOnLeft (.expr (.arranged a fieldOnLeft x (.value k))) (.value w)).holdsAt
        ρ := by
  obtain ⟨r, i, hr, hi, hy⟩ := clause_of_arranged hx h
  obtain ⟨-, hm, hsign, h0⟩ := Inverse.new_eq_ok hi hk
  -- the side that the node stands on turns the comparison round
  generalize ho' : (if nodeOnLeft then o else o.converse) = o'
  have heff : Comparison.effectiveOp ⟨r, some i, w, nodeOnLeft⟩ o =
      if i.flipsOrder then o'.converse else o' := by rw [← ho']; rfl
  have hnum : (Comparison.effectiveOp ⟨r, some i, w, nodeOnLeft⟩ o).isComparison = true := by
    rw [heff, ← ho']
    cases nodeOnLeft <;> cases i.flipsOrder <;> simpa using ho
  obtain ⟨j, hj, hc⟩ := hy.embedded_eq hnum
  obtain ⟨z, rfl⟩ := hz j (by rw [hc]; exact List.mem_singleton_self j)
  have hsol := (Position.solve?_eq_some_iff h0).mp (solve?_of_prepared hx hr hm hw hj)
  have hnode : (Operand.expr (.arranged a fieldOnLeft x (.value k))).rat? ρ =
      some (i.position.node m.toInt (ρ r.name)) := rat?_arranged hr hk hi ρ
  have hval : (Operand.value w).rat? ρ = some (n.toInt : ℚ) := by simp [Operand.rat?, hw]
  calc (if inverted then ¬ c.holdsAt ρ else c.holdsAt ρ)
      ↔ (if i.flipsOrder then o'.converse else o').compares (ρ r.name) z := by
        rw [hy.holdsAt_iff hnum hj ρ, heff]
    _ ↔ (if i.flipsOrder then o'.converse else o').compares (ρ r.name : ℚ) (z : ℚ) :=
        (Op.compares_apply_iff_of_strictMono Int.cast_strictMono _ _ _).symm
    _ ↔ o'.compares (i.position.node m.toInt (ρ r.name)) (n.toInt : ℚ) := by
        rw [← Inverse.compares_node_iff hsign h0, hsol]
    _ ↔ _ := by
        rw [← ho']
        exact (Expr.holdsAt_arranged hnode hval).symm

/-- Turned round twice, 60 is at most 100 less a score if the score is at most 40. -/
theorem holdsAt_clause_of_hundred_sub_score :
    ∃ c inverted, compile .standard (.node .lte (.value (.int 60))
        (.expr (.node .sub (.value (.int 100)) (.name "score")))) = .ok (.clause c inverted) ∧
      c.embedded = [.num (.int 40)] ∧ ∀ ρ, (if inverted then ¬ c.holdsAt ρ else c.holdsAt ρ) ↔
        (Expr.node .lte (.value (.int 60))
          (.expr (.node .sub (.value (.int 100)) (.name "score")))).holdsAt ρ := by
  refine ⟨_, _, rfl, rfl, ?_⟩
  exact holdsAt_clause_of_arithmetic (v := .standard) (o := .lte) (a := .sub) (x := .name "score")
    (k := .int 100) (w := .int 60) false false trivial rfl rfl rfl rfl
    fun j hj => ⟨40, List.mem_singleton.mp hj⟩

end Leaf

end SearchCompiler
