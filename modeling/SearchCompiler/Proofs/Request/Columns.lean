import SearchCompiler.Compile.Request
import SearchCompiler.Proofs.Outcome

/-! # The columns of a statement

An output column is an aggregation or has a name. On success no column is dropped: the metrics of a
statement are those of its aggregations and the selected columns are the names of the others, each
in their order, and every field to group by has a name.

* `Projection.ofColumns_eq_ok_iff`, `Projection.groupNames_eq_ok_iff` -/

namespace SearchCompiler

/-- The name of a column; what is neither a field nor a text has none. -/
def Operand.columnName? : Operand → Option String
  | .field f => f.name
  | .name n => some n
  | .value (.str n) => some n
  | _ => none

/-- **The metric of a column**, if it is an aggregation over something with a name. -/
def Operand.metric? : Operand → Option Metric
  | .expr (.node o x _) => o.metric?.bind fun kind => x.columnName?.map fun n => ⟨n, kind⟩
  | _ => none

variable {v : Version} {x : Operand}

theorem Leaf.aggregation_eq_ok_iff {o : Op} {r : Operand} {y : Compiled} :
    aggregation o x = .ok y ↔
      ∃ m, (Operand.expr (.node o x r)).metric? = some m ∧ y = .metric m.field m.kind := by
  simp only [Operand.metric?, Option.bind_eq_some_iff, Option.map_eq_some_iff]
  unfold aggregation
  cases ho : o.metric? with
  | none => simp
  | some kind =>
    have hm : (∃ m : Metric, (∃ k, some kind = some k ∧ ∃ n, x.columnName? = some n ∧ ⟨n, k⟩ = m) ∧
        y = .metric m.field m.kind) ↔ ∃ n, x.columnName? = some n ∧ y = .metric n kind := by
      constructor
      · rintro ⟨_, ⟨k, hk, n, hn, rfl⟩, hy⟩
        cases hk
        exact ⟨n, hn, hy⟩
      · rintro ⟨n, hn, hy⟩
        exact ⟨_, ⟨kind, rfl, n, hn, rfl⟩, hy⟩
    rw [hm]
    cases x with
    | expr e => simp [Operand.columnName?]
    | field f => cases hf : f.name <;> simp [Operand.columnName?, FieldRef.ofField, hf, eq_comm]
    | name n => simp [Operand.columnName?, eq_comm]
    | value w => cases w <;> simp [Operand.columnName?, eq_comm]

namespace Projection

variable {p p' : Projection}

theorem columnName_eq_ok_iff {role : ColumnRole} {n : String} :
    columnName role x = .ok n ↔ x.columnName? = some n := by
  cases x with
  | expr e => simp [columnName, Operand.columnName?]
  | field f => cases hf : f.name <;> simp [columnName, Operand.columnName?, hf]
  | name n => simp [columnName, Operand.columnName?]
  | value w => cases w <;> simp [columnName, Operand.columnName?]

/-- The names of the fields to group by. -/
theorem groupNames_eq_ok_iff {groups : List Operand} {ns : List String} :
    groupNames groups = .ok ns ↔ groups.map Operand.columnName? = ns.map some := by
  rw [groupNames, Outcome.mapM_eq_ok_iff, Outcome.map_eq_map_iff]
  simp only [columnName_eq_ok_iff]

theorem metric?_eq_ok_iff (h : isAggregation x = true) {m : Option Metric} :
    metric? v x = .ok m ↔ ∃ m', x.metric? = some m' ∧ m = some m' := by
  cases x with
  | expr e =>
    obtain ⟨o, l, r⟩ := e
    have ho : o.cls = .aggregation := of_decide_eq_true (by simpa [isAggregation, Expr.op] using h)
    rw [metric?, Leaf.compile.eq_def]
    simp only [ho, Outcome.bind_eq_ok, Leaf.aggregation_eq_ok_iff (r := r)]
    constructor
    · rintro ⟨_, ⟨m', hm, rfl⟩, h⟩
      exact ⟨m', hm, (Except.ok.inj h).symm⟩
    · rintro ⟨m', hm, rfl⟩
      exact ⟨_, ⟨m', hm, rfl⟩, rfl⟩
  | _ => exact absurd h Bool.false_ne_true

theorem add_eq_ok_iff : add v p x = .ok p' ↔
    (isAggregation x = true ∧ ∃ m, x.metric? = some m ∧
      p' = { p with metrics := p.metrics ++ [m] }) ∨
    (isAggregation x = false ∧ ∃ n, x.columnName? = some n ∧
      p' = { p with sources := p.sources ++ [n] }) := by
  unfold add
  cases ha : isAggregation x with
  | true =>
    simp only [if_true, Outcome.bind_eq_ok, metric?_eq_ok_iff ha, true_and, Bool.true_eq_false,
      false_and, or_false]
    constructor
    · rintro ⟨_, ⟨m, hm, rfl⟩, h⟩
      exact ⟨m, hm, (Except.ok.inj h).symm⟩
    · rintro ⟨m, hm, rfl⟩
      exact ⟨_, ⟨m, hm, rfl⟩, rfl⟩
  | false =>
    simp only [Bool.false_eq_true, if_false, Outcome.bind_eq_ok, columnName_eq_ok_iff, true_and,
      false_and, false_or]
    constructor
    · rintro ⟨n, hn, h⟩
      exact ⟨n, hn, (Except.ok.inj h).symm⟩
    · rintro ⟨n, hn, rfl⟩
      exact ⟨n, hn, rfl⟩

theorem foldlM_add_eq_ok_iff {columns : List Operand} :
    columns.foldlM (add v) p = .ok p' ↔ ∃ sources metrics,
      (columns.filter fun x => !isAggregation x).map Operand.columnName? = sources.map some ∧
      (columns.filter isAggregation).map Operand.metric? = metrics.map some ∧
      p' = ⟨p.sources ++ sources, p.metrics ++ metrics⟩ := by
  induction columns generalizing p with
  | nil =>
    simp only [List.foldlM_nil, Outcome.pure_eq_ok, List.filter_nil, List.map_nil]
    constructor
    · intro h
      exact ⟨[], [], rfl, rfl, by simp [← Except.ok.inj h]⟩
    · rintro ⟨sources, metrics, hs, hm, rfl⟩
      simp [List.map_eq_nil_iff.mp hs.symm, List.map_eq_nil_iff.mp hm.symm]
  | cons x columns ih =>
    simp only [List.foldlM_cons, Outcome.bind_eq_ok, add_eq_ok_iff, ih]
    cases ha : isAggregation x with
    | true =>
      simp only [List.filter_cons, ha, Bool.not_true, Bool.false_eq_true, if_true, if_false,
        List.map_cons, true_and, Bool.true_eq_false, false_and, or_false]
      constructor
      · rintro ⟨_, ⟨m, hx, rfl⟩, sources, metrics, hs, hm, rfl⟩
        exact ⟨sources, m :: metrics, hs, by rw [hx, hm]; rfl, by simp⟩
      · rintro ⟨sources, metrics, hs, hm, rfl⟩
        obtain ⟨m, metrics, rfl, hx, hm⟩ := List.map_eq_cons_iff.mp hm.symm
        exact ⟨_, ⟨m, hx.symm, rfl⟩, sources, metrics, hs, hm.symm, by simp⟩
    | false =>
      simp only [List.filter_cons, ha, Bool.not_false, Bool.false_eq_true, if_true, if_false,
        List.map_cons, true_and, false_and, false_or]
      constructor
      · rintro ⟨_, ⟨n, hx, rfl⟩, sources, metrics, hs, hm, rfl⟩
        exact ⟨n :: sources, metrics, by rw [hx, hs]; rfl, hm, by simp⟩
      · rintro ⟨sources, metrics, hs, hm, rfl⟩
        obtain ⟨n, sources, rfl, hx, hs⟩ := List.map_eq_cons_iff.mp hs.symm
        exact ⟨_, ⟨n, hx.symm, rfl⟩, sources, metrics, hs.symm, hm, by simp⟩

/-- **No column is dropped.** -/
theorem ofColumns_eq_ok_iff {columns : List Operand} : ofColumns v columns = .ok p ↔
    (columns.filter fun x => !isAggregation x).map Operand.columnName? = p.sources.map some ∧
      (columns.filter isAggregation).map Operand.metric? = p.metrics.map some := by
  rw [ofColumns, foldlM_add_eq_ok_iff]
  constructor
  · rintro ⟨sources, metrics, hs, hm, rfl⟩
    exact ⟨hs, hm⟩
  · rintro ⟨hs, hm⟩
    exact ⟨_, _, hs, hm, rfl⟩

end Projection

end SearchCompiler
