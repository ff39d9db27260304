import SearchCompiler.Proofs.Predicate.Aggregation
import SearchCompiler.Proofs.Query.Conjunction
import SearchCompiler.Proofs.Request.Ordering

/-! # Orderings by a metric

An ordering can name a metric in text, as in `max(size) desc`. It is kept under the key of the metric
until the query compiles. Then the key is looked up among the selected metrics: if the metric is one
of them, or the number of documents, the entry is for buckets; otherwise the key is taken for the name
of a field, and the documents are sorted by it.

* `OrderSource.entry_text`: the entry of such a text.
* `Query.orderBy_of_step`, `Query.get?_orderBy_of_foldlM`: what a step does to the ordering, and what
  later steps leave alone.
* `Buckets.isMetricKey_key_iff`: when the entry is for buckets.
* `Query.orders_by_metric`: what becomes of the entry. -/

namespace SearchCompiler

/-- An ordering by a metric has the key of the metric. -/
theorem OrderSource.entry_text {s : String} {o : Op} {m : Metric} {d : SortOrder}
    (ho : o.metric? = some m.kind)
    (hs : OrderEntry.read s = .ok ⟨.aggregate (.aggregate o (.name m.field)), d⟩) :
    (text s).entry = .ok (m.key, d) := by
  have hkey : (Expr.aggregate o (.name m.field)).orderKey = .ok m.key := by
    simp only [Expr.orderKey, Expr.aggregate, Expr.op, Expr.lhs, ho]
  rw [entry, Compile.ofPredicate, Outcome.mapError_eq_ok.mpr hs, Outcome.ok_bind,
    Selection.orderKey, hkey]
  rfl

namespace Query

variable {q q' : Query} {k : String} {d : SortOrder}

/-! ### Steps of a query -/

/-- **A step of building a query.** -/
inductive Step
  | select (columns : List Operand)
  | restrict (p : PredicateSource)
  | groupBy (groups : List Operand)
  | orderBy (entry : OrderSource)
  | limit (n : Nat)
  | offset (n : Nat)
  | withIndex (s : String)
  | withDocType (s : String)

/-- Takes a step. -/
def step (q : Query) : Step → Compile Query
  | .select columns => q.select columns
  | .restrict p => q.restrict p
  | .groupBy groups => .ok (q.groupBy groups)
  | .orderBy entry => q.orderBy entry
  | .limit n => .ok (q.limit n)
  | .offset n => .ok (q.offset n)
  | .withIndex s => .ok (q.withIndex s)
  | .withDocType s => .ok (q.withDocType s)

/-- The entry that a step adds to the ordering, if it adds one. -/
def Step.entry? : Step → Option (String × SortOrder)
  | .orderBy entry => entry.entry.toOption
  | _ => none

theorem orderBy_eq_ok_iff {entry : OrderSource} : q.orderBy entry = .ok q' ↔
    ∃ k d, entry.entry = .ok (k, d) ∧
      q' = { q with statement := { q.statement with orderBy := q.statement.orderBy.insert k d } } := by
  rw [orderBy, Outcome.bind_eq_ok]
  constructor
  · rintro ⟨⟨k, d⟩, he, h⟩
    exact ⟨k, d, he, (Except.ok.inj h).symm⟩
  · rintro ⟨k, d, he, rfl⟩
    exact ⟨(k, d), he, rfl⟩

/-- **What a step does to the ordering:** it inserts the entry that it adds. -/
theorem orderBy_of_step {t : Step} (h : q.step t = .ok q') : q'.statement.orderBy =
    t.entry?.elim q.statement.orderBy fun e => q.statement.orderBy.insert e.1 e.2 := by
  cases t with
  | select columns =>
    obtain ⟨_, -, h⟩ := Outcome.bind_eq_ok.mp h
    rw [← Except.ok.inj h]
    rfl
  | restrict p =>
    obtain ⟨_, -, rfl⟩ := restrict_eq_ok_iff.mp h
    rfl
  | orderBy entry =>
    obtain ⟨k, d, he, rfl⟩ := orderBy_eq_ok_iff.mp h
    rw [Step.entry?, he]
    rfl
  | _ =>
    rw [← Except.ok.inj h]
    rfl

theorem get?_orderBy_of_step {t : Step} (h : q.step t = .ok q')
    (ht : t.entry?.map Prod.fst ≠ some k) :
    q'.statement.orderBy.get? k = q.statement.orderBy.get? k := by
  rw [orderBy_of_step h]
  cases he : t.entry? with
  | none => rfl
  | some e =>
    rw [he] at ht
    exact OrderBy.get?_insert_of_ne (fun hk => ht (congrArg some hk.symm)) _ _

/-- **Steps that do not order by a key leave its entry alone.** -/
theorem get?_orderBy_of_foldlM {ts : List Step} (h : ts.foldlM step q = .ok q')
    (ht : ∀ t ∈ ts, t.entry?.map Prod.fst ≠ some k) :
    q'.statement.orderBy.get? k = q.statement.orderBy.get? k := by
  induction ts generalizing q with
  | nil => rw [← Except.ok.inj h]
  | cons t ts ih =>
    rw [List.foldlM_cons] at h
    obtain ⟨q₁, hstep, h⟩ := Outcome.bind_eq_ok.mp h
    rw [ih h fun t' ht' => ht t' (List.mem_cons_of_mem _ ht')]
    exact get?_orderBy_of_step hstep (ht t List.mem_cons_self)

/-! ### The request -/

/-- **What becomes of an ordering by a metric.** If the metric is selected, or is the number of
documents, no documents are sorted by its key, and buckets take the entry as they take any entry for a
metric. Otherwise the documents are sorted by the key and no buckets are. Steps that come later change
nothing about this unless they order by the same key. -/
theorem orders_by_metric {q₁ : Query} {s : String} {o : Op} {m : Metric} {ts : List Step}
    {c : Config} {doc : Json} (ho : o.metric? = some m.kind)
    (hs : OrderEntry.read s = .ok ⟨.aggregate (.aggregate o (.name m.field)), d⟩)
    (hq : q.orderBy (.text s) = .ok q₁) (hts : ts.foldlM step q₁ = .ok q')
    (hother : ∀ t ∈ ts, t.entry?.map Prod.fst ≠ some m.key) (hdoc : q'.compile c = .ok doc) :
    ∃ groups ms, q'.statement.groupBy.map Operand.columnName? = groups.map some ∧
      (q'.statement.columns.filter Projection.isAggregation).map Operand.metric? = ms.map some ∧
      (doc.sortCount m.key = 0 ↔ (m.kind ≠ .count → m ∈ ms)) ∧
      ((∃ field, doc.HasBucket field (.byMetric m.key d)) ↔ (m.kind ≠ .count → m ∈ ms) ∧
        Buckets.TakesMetric q'.statement.orderBy ms groups m.key d) := by
  have hentry : (m.key, d) ∈ q'.statement.orderBy.entries := by
    obtain ⟨k, d', he, rfl⟩ := orderBy_eq_ok_iff.mp hq
    obtain ⟨rfl, rfl⟩ := Prod.mk.inj (Except.ok.inj ((OrderSource.entry_text ho hs).symm.trans he))
    refine OrderBy.get?_eq_some_iff.mp ?_
    rw [get?_orderBy_of_foldlM hts hother]
    exact OrderBy.get?_insert_self _ _ _
  obtain ⟨p, rfl⟩ := Statement.compile_eq_ok_iff.mp hdoc
  refine ⟨p.groups, p.columns.metrics, Projection.groupNames_eq_ok_iff.mp p.groups_eq,
    (Projection.ofColumns_eq_ok_iff.mp p.columns_eq).2, ?_, ?_⟩
  · rw [p.sortCount_document, ← Buckets.isMetricKey_key_iff]
    simp [OrderBy.mem_keys_of_mem hentry]
  · simp only [p.hasBucket_iff, ← Buckets.isMetricKey_key_iff]
    constructor
    · rintro ⟨field, h⟩
      have hk := Buckets.isMetricKey_of_mem_levels h
      exact ⟨hk, (Buckets.exists_mem_levels_byMetric_iff hk hentry).mp ⟨field, h⟩⟩
    · exact fun ⟨hk, h⟩ => (Buckets.exists_mem_levels_byMetric_iff hk hentry).mpr h

/-- The hosts with these columns, to be ordered by the last line of each. -/
def byHost (columns : List Operand) : Query where
  statement := { columns := columns, groupBy := [.name "host"] }

theorem exists_orderBy_lastLine (q : Query) : ∃ o : Op, o.metric? = some .max ∧
    OrderEntry.read "max(lineno) desc" = .ok ⟨.aggregate (.aggregate o (.name "lineno")), .desc⟩ ∧
    q.orderBy (.text "max(lineno) desc") = .ok { q with
      statement := { q.statement with orderBy := q.statement.orderBy.insert "max_lineno" .desc } } := by
  have htext : (Metric.mk "lineno" .max).orderText (some .desc) = "max(lineno) desc" := rfl
  obtain ⟨o, ho, hs⟩ :=
    OrderEntry.read_orderText (m := ⟨"lineno", .max⟩) (by decide) rfl (some .desc)
  rw [htext] at hs
  exact ⟨o, ho, hs, orderBy_eq_ok_iff.mpr ⟨_, _, OrderSource.entry_text ho hs, rfl⟩⟩

/-- If the last line is selected, it orders the hosts. -/
theorem orders_by_metric_selected : ∃ q₁ q' doc,
    (byHost [.expr (.aggregate .max (.name "lineno"))]).orderBy (.text "max(lineno) desc") = .ok q₁ ∧
    [Step.limit 10].foldlM step q₁ = .ok q' ∧ q'.compile {} = .ok doc ∧
    doc.sortCount "max_lineno" = 0 ∧
    ∃ field, doc.HasBucket field (.byMetric "max_lineno" .desc) := by
  obtain ⟨o, ho, hs, hq⟩ :=
    exists_orderBy_lastLine (byHost [.expr (.aggregate .max (.name "lineno"))])
  have hother : ∀ t ∈ [Step.limit 10], t.entry?.map Prod.fst ≠ some "max_lineno" := by decide
  refine ⟨_, _, _, hq, rfl, rfl, ?_⟩
  obtain ⟨groups, ms, hg, hm, hsort, hbucket⟩ :=
    orders_by_metric (m := ⟨"lineno", .max⟩) (c := {}) ho hs hq rfl hother rfl
  obtain rfl : ["host"] = groups := List.map_injective_iff.mpr (fun _ _ => Option.some.inj) hg
  obtain rfl : [⟨"lineno", .max⟩] = ms := List.map_injective_iff.mpr (fun _ _ => Option.some.inj) hm
  refine ⟨hsort.mpr fun _ => List.mem_singleton_self _,
    hbucket.mpr ⟨fun _ => List.mem_singleton_self _, ?_⟩⟩
  exact .innermost rfl rfl (show _ = [] ++ _ from rfl) fun _ he => nomatch he

/-- Otherwise the documents are sorted by a field of that name, and no buckets are ordered by it. -/
theorem not_orders_by_metric_unselected : ∃ q₁ doc,
    (byHost []).orderBy (.text "max(lineno) desc") = .ok q₁ ∧ q₁.compile {} = .ok doc ∧
    doc.sortCount "max_lineno" = 1 ∧
    ∀ field d, ¬ doc.HasBucket field (.byMetric "max_lineno" d) := by
  obtain ⟨-, -, -, hq⟩ := exists_orderBy_lastLine (byHost [])
  let p : Request.Parts {} { (byHost []).statement with
      orderBy := (byHost []).statement.orderBy.insert "max_lineno" .desc } :=
    ⟨rfl, _, rfl, ⟨[], []⟩, rfl, _, rfl, _, rfl, _, rfl⟩
  refine ⟨_, p.document, hq, Statement.compile_eq_ok_iff.mpr ⟨p, rfl⟩, ?_, fun field d h => ?_⟩
  · rw [p.sortCount_document, if_pos ⟨List.mem_singleton_self _, by decide⟩]
  · have hk := Buckets.isMetricKey_of_mem_levels (m := ⟨"lineno", .max⟩) (p.hasBucket_iff.mp h)
    exact absurd hk (by decide)

end Query

end SearchCompiler
