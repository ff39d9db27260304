import Mathlib.Data.List.Dedup
import SearchCompiler.Proofs.Request.Columns
import SearchCompiler.Proofs.Request.Members

/-! # Buckets inside buckets

The aggregations of a statement are a chain: the buckets of every field to group by hold those of the
next one, and the innermost ones hold the metrics. The buckets of a field are ordered by its values,
by their number of documents, or by a metric that they hold themselves.

* `Metric.IsTable`: the metrics in a container, each one once.
* `Buckets.IsChain`: the chain.
* `Buckets.exists_ofGroups`: the groups and the metrics make up such a chain.
* `aggs_of_compile`: the aggregations in the request of a statement. -/

namespace SearchCompiler

theorem Json.mkObj_pair (k k' : String) (j j' : Json) :
    mkObj [(k, j), (k', j')] = setField (.obj [(k, j)]) k' j' := rfl

/-! ### Metrics -/

theorem MetricKind.metricName_inj {k k' : MetricKind} {f f' : String}
    (h : k.metricName f = k'.metricName f') : k = k' ∧ f = f' := by
  have hl := congrArg String.toList h
  cases k <;> cases k' <;> simp [metricName, key] at hl ⊢ <;> exact String.toList_inj.mp hl

theorem MetricKind.metricName_ne (k : MetricKind) (f s : String) : k.metricName f ≠ "_" ++ s := by
  intro h
  have hl := congrArg String.toList h
  cases k <;> simp [metricName, key] at hl

namespace Metric

/-- Is the metric asked for? The number of documents is known without that. -/
def isAsked (m : Metric) : Bool := m.kind != .count

/-- **The name of a metric and its node.** -/
def entry (m : Metric) : String × Json :=
  (m.kind.key ++ "_" ++ m.field, .single m.kind.key (.single "field" (.str m.field)))

theorem entry_key_inj {m m' : Metric} (h : m.entry.1 = m'.entry.1) : m = m' := by
  obtain ⟨hk, hf⟩ := MetricKind.metricName_inj (show m.kind.metricName m.field = _ from h)
  cases m
  cases m'
  cases hk
  cases hf
  rfl

theorem key_of_isAsked {m : Metric} (h : m.isAsked = true) : m.key = m.entry.1 := by
  obtain ⟨f, k⟩ := m
  cases k <;> first | rfl | exact nomatch h

theorem key_of_not_isAsked {m : Metric} (h : m.isAsked = false) : m.key = countKey := by
  obtain ⟨f, k⟩ := m
  cases k <;> first | rfl | exact nomatch h

/-- **A container with these metrics**, each one once and the number of documents left out. -/
def IsTable (ms : List Metric) (j : Json) : Prop :=
  ∃ es : Assoc Json, j = .obj es ∧ es.Perm ((ms.filter isAsked).dedup.map entry)

/-- The entries of a container of metrics. -/
def table (ms : List Metric) : Assoc Json := Assoc.ofEntries ((ms.filter isAsked).map entry)

theorem mem_table_iff {ms : List Metric} {e : String × Json} :
    e ∈ table ms ↔ ∃ m ∈ ms, m.isAsked = true ∧ m.entry = e := by
  have hc : Assoc.Consistent ((ms.filter isAsked).map entry) := by
    intro e he e' he' hk
    obtain ⟨m, -, rfl⟩ := List.mem_map.mp he
    obtain ⟨m', -, rfl⟩ := List.mem_map.mp he'
    rw [entry_key_inj hk]
  rw [table, Assoc.mem_ofEntries_iff hc]
  simp only [List.mem_map, List.mem_filter, and_assoc]

theorem isTable_table (ms : List Metric) : IsTable ms (.obj (table ms)) := by
  have hd : ((ms.filter isAsked).dedup.map entry).Nodup :=
    (List.nodup_dedup _).map fun m m' h => entry_key_inj (congrArg Prod.fst h)
  refine ⟨table ms, rfl, ?_⟩
  have hs : (table ms).Nodup := (Assoc.sorted_ofEntries _).nodup
  refine (List.perm_ext_iff_of_nodup hs hd).mpr fun e => ?_
  rw [mem_table_iff]
  simp only [List.mem_map, List.mem_dedup, List.mem_filter, and_assoc]

theorem table_eq_nil_iff {ms : List Metric} :
    table ms = [] ↔ ∀ m ∈ ms, m.kind = .count := by
  rw [List.eq_nil_iff_forall_not_mem]
  simp only [mem_table_iff]
  constructor
  · intro h m hm
    by_contra hk
    exact h m.entry ⟨m, hm, bne_iff_ne.mpr hk, rfl⟩
  · rintro h e ⟨m, hm, ha, -⟩
    exact bne_iff_ne.mp ha (h m hm)

end Metric

namespace Buckets

/-- **The buckets of a field**, with an order and a container inside. -/
def bucket (field : String) (o : BucketOrder) (child : Option Json) : Json :=
  .single ("group_by_" ++ field) (.mkObj
    (("terms", .mkObj [("field", .str field), ("order", .single o.key (.str o.order.text))]) ::
      child.toList.map (("aggs", ·))))

/-- **The order of the buckets is in scope**: by the values of the field if it is in the ordering,
else by the number of documents or a metric in the buckets. -/
structure InScope (b : OrderBy) (field : String) (child : Option Json) (o : BucketOrder) : Prop where
  byKey : o.key = "_key" ↔ ∃ d, b.get? field = some d
  direction : ∀ d, b.get? field = some d → o.order = d
  scope : o.key = "_key" ∨ o.key = "_count" ∨
    ∃ (es : Assoc Json) (m : Metric), child = some (.obj es) ∧ m.entry ∈ es ∧ o.key = m.entry.1

/-- **A chain of buckets** with metrics in the innermost ones. -/
inductive IsChain (b : OrderBy) (ms : List Metric) : List String → Json → Prop
  | innermost {field : String} {o : BucketOrder} {child : Option Json}
    (ho : InScope b field child o) (hc : child.isSome = true ↔ ms ≠ [])
    (hm : ∀ j ∈ child, Metric.IsTable ms j) : IsChain b ms [field] (bucket field o child)
  | outer {field next : String} {rest : List String} {o : BucketOrder} {child : Json}
    (ho : InScope b field (some child) o) (hc : IsChain b ms (next :: rest) child) :
    IsChain b ms (field :: next :: rest) (bucket field o (some child))

variable {v : Version} {b : OrderBy} {ms : List Metric} {field : String}

/-! ### Orders -/

theorem inScope_byKey {d : SortOrder} (h : b.get? field = some d) (child : Option Json) :
    InScope b field child (.byKey d) where
  byKey := ⟨fun _ => ⟨d, h⟩, fun _ => rfl⟩
  direction _ h' := Option.some.inj (h.symm.trans h')
  scope := Or.inl rfl

theorem inScope_byCount (h : b.get? field = none) (child : Option Json) (d : SortOrder) :
    InScope b field child (.byCount d) where
  byKey := ⟨fun hk => by simp [BucketOrder.byCount] at hk, fun ⟨_, hd⟩ => nomatch h.symm.trans hd⟩
  direction _ hd := nomatch h.symm.trans hd
  scope := Or.inr (Or.inl rfl)

theorem inScope_byMetric (h : b.get? field = none) {m : Metric} {es : Assoc Json}
    (hm : m.entry ∈ es) (d : SortOrder) :
    InScope b field (some (.obj es)) (.byMetric m.entry.1 d) where
  byKey := ⟨fun hk => absurd hk (m.kind.metricName_ne m.field "key"),
    fun ⟨_, hd⟩ => nomatch h.symm.trans hd⟩
  direction _ hd := nomatch h.symm.trans hd
  scope := Or.inr (Or.inr ⟨es, m, rfl, hm, rfl⟩)

/-- A metric that orders buckets is one of those in them, or the number of documents. -/
theorem inScope_metricOrder (h : b.get? field = none) {o : BucketOrder}
    (ho : metricOrder? b ms = some o) :
    InScope b field (if ms.isEmpty then none else some (.obj (Metric.table ms))) o := by
  obtain ⟨⟨k, d⟩, hf, rfl⟩ := Option.map_eq_some_iff.mp ho
  have hk : isMetricKey ms k = true := List.find?_some (p := fun e : String × SortOrder => isMetricKey ms e.1) hf
  rw [isMetricKey, Bool.or_eq_true, beq_iff_eq, List.any_eq_true] at hk
  rcases hk with rfl | ⟨m, hm, hk⟩
  · exact inScope_byCount h _ d
  · obtain rfl := beq_iff_eq.mp hk
    cases ha : m.isAsked with
    | false =>
      rw [Metric.key_of_not_isAsked ha]
      exact inScope_byCount h _ d
    | true =>
      have hne : ms.isEmpty = false := by
        cases ms with
        | nil => exact nomatch hm
        | cons => rfl
      rw [Metric.key_of_isAsked ha, hne]
      exact inScope_byMetric h (Metric.mem_table_iff.mpr ⟨m, hm, ha, rfl⟩) d

theorem inScope_order_outer (b : OrderBy) (ms : List Metric) (field : String)
    (child : Option Json) : InScope b field child (order b ms field false) := by
  cases h : b.get? field with
  | some d =>
    simp only [order, h]
    exact inScope_byKey h child
  | none =>
    simp only [order, h]
    exact inScope_byCount h child .asc

theorem inScope_order_innermost (b : OrderBy) (ms : List Metric) (field : String) :
    InScope b field (if ms.isEmpty then none else some (.obj (Metric.table ms)))
      (order b ms field true) := by
  cases h : b.get? field with
  | some d =>
    simp only [order, h]
    exact inScope_byKey h _
  | none =>
    simp only [order, h, if_true]
    cases hm : metricOrder? b ms with
    | none => exact inScope_byCount h _ .asc
    | some o => exact inScope_metricOrder h hm

/-! ### Containers -/

/-- A container with entries of mappings, in order. -/
structure Formed (v : Version) (a : Aggs) : Prop where
  params : a.params = ⟨a.params.entries, v, []⟩
  sorted : a.params.entries.Sorted
  mappings : ∀ e ∈ a.params.entries, e.2.isMapping = true

theorem foldl_metric {a : Aggs} (ms : List Metric) :
    ms.foldl (fun aggs m => aggs.metric m.field m.kind none) a =
      ⟨a.params.putAll ((ms.filter Metric.isAsked).map Metric.entry)⟩ := by
  induction ms generalizing a with
  | nil => rfl
  | cons m ms ih =>
    refine ih.trans ?_
    cases ha : m.isAsked with
    | false =>
      have hk : m.kind = .count := by simpa [Metric.isAsked] using ha
      rw [List.filter_cons_of_neg (by simp [ha])]
      simp only [Aggs.metric, if_pos hk]
    | true =>
      have hk : m.kind ≠ .count := bne_iff_ne.mp ha
      rw [List.filter_cons_of_pos ha]
      simp only [Aggs.metric, if_neg hk]
      rfl

theorem metrics_eq (hv : v.isSupported = true) (ms : List Metric) :
    metrics v ms = .ok (if ms.isEmpty then none else some ⟨⟨Metric.table ms, v, []⟩⟩) := by
  have hn : Compile.ofClause (Aggs.new v) = .ok ⟨.empty v []⟩ :=
    Outcome.mapError_eq_ok.mpr (Aggs.new_eq_ok_iff.mpr ⟨hv, rfl⟩)
  unfold metrics
  split
  · rfl
  · rw [hn, Outcome.ok_bind, foldl_metric, Params.putAll_empty]
    rfl

theorem formed_table (v : Version) (ms : List Metric) : Formed v ⟨⟨Metric.table ms, v, []⟩⟩ where
  params := rfl
  sorted := Assoc.sorted_ofEntries _
  mappings e he := by
    obtain ⟨m, -, -, rfl⟩ := Metric.mem_table_iff.mp he
    rfl

theorem nest_singleton (v : Version) (name : String) (node : Assoc Json) (child : Aggs) :
    Aggs.nest ⟨⟨[(name, .obj node)], v, []⟩⟩ name child =
      .ok ⟨⟨[(name, Json.setField (.obj node) "aggs" child.document)], v, []⟩⟩ := by
  have hg : Params.get? ⟨[(name, .obj node)], v, []⟩ name = some (.obj node) := if_pos rfl
  have hp : ∀ j, Params.put ⟨[(name, .obj node)], v, []⟩ name j = ⟨[(name, j)], v, []⟩ := fun j => by
    rw [Params.put_of_not_gated rfl, Assoc.insert, if_neg (String.lt_irrefl _), if_pos rfl]
  simp only [Aggs.nest, hg, hp]

/-- **A level of the chain**: the container is put into the buckets that have just been made. -/
theorem exists_level (hv : v.isSupported = true) (field : String) (o : BucketOrder)
    (child : Option Aggs) : ∃ a, level v field o child = .ok a ∧ Formed v a ∧
      a.document = bucket field o (child.map Aggs.document) := by
  have hn : Compile.ofClause (Aggs.new v) = .ok ⟨.empty v []⟩ :=
    Outcome.mapError_eq_ok.mpr (Aggs.new_eq_ok_iff.mpr ⟨hv, rfl⟩)
  have hf : ∀ node, Formed v ⟨⟨[(bucketName field, .obj node)], v, []⟩⟩ := fun node =>
    ⟨rfl, List.pairwise_singleton _ _, fun e he => by rw [List.mem_singleton.mp he]; rfl⟩
  have ht : (⟨.empty v []⟩ : Aggs).terms field none o =
      ⟨⟨[(bucketName field, Aggs.bucketNode field o)], v, []⟩⟩ := rfl
  unfold level
  rw [hn, Outcome.ok_bind, ht]
  cases child with
  | none => exact ⟨_, rfl, hf _, rfl⟩
  | some child =>
    refine ⟨_, congrArg Compile.ofClause (nest_singleton v _ _ child), hf _, ?_⟩
    exact congrArg (Json.single _) (Json.mkObj_pair ..).symm

/-- The buckets of the groups are a chain, if the innermost ones hold the metrics. -/
theorem exists_nested (hv : v.isSupported = true) (b : OrderBy) (ms : List Metric) (field : String)
    (rest : List String) : ∃ a, nested v b ms
      (if ms.isEmpty then none else some ⟨⟨Metric.table ms, v, []⟩⟩) (field :: rest) =
        .ok (some a) ∧ Formed v a ∧ IsChain b ms (field :: rest) a.document := by
  induction rest generalizing field with
  | nil =>
    obtain ⟨a, ha, hf, hd⟩ := exists_level hv field (order b ms field true)
      (if ms.isEmpty then none else some ⟨⟨Metric.table ms, v, []⟩⟩)
    refine ⟨a, ?_, hf, ?_⟩
    · rw [nested, nested, Outcome.pure_eq_ok, Outcome.ok_bind]
      exact Outcome.bind_eq_ok.mpr ⟨a, ha, rfl⟩
    · rw [hd, apply_ite (Option.map Aggs.document)]
      refine .innermost (inScope_order_innermost ..) ?_ fun j hj => ?_
      · cases ms <;> simp
      · split at hj
        · exact nomatch hj
        · rw [← Option.some.inj hj]
          exact Metric.isTable_table ms
  | cons next rest ih =>
    obtain ⟨child, hc, -, hchain⟩ := ih next
    obtain ⟨a, ha, hf, hd⟩ := exists_level hv field (order b ms field false) (some child)
    refine ⟨a, ?_, hf, ?_⟩
    · rw [nested, hc, Outcome.ok_bind]
      exact Outcome.bind_eq_ok.mpr ⟨a, ha, rfl⟩
    · rw [hd]
      exact .outer (inScope_order_outer ..) hchain

/-- **The aggregations of a statement**: the chain of its groups; without groups the metrics alone,
if there are any. -/
theorem exists_ofGroups (hv : v.isSupported = true) (b : OrderBy) (ms : List Metric)
    (groups : List String) : ∃ a, ofGroups v b ms groups = .ok a ∧ (∀ t ∈ a, Formed v t) ∧
      (groups ≠ [] → ∃ t, a = some t ∧ IsChain b ms groups t.document) ∧
      (groups = [] → (a = none ↔ ∀ m ∈ ms, m.kind = .count) ∧
        ∀ t ∈ a, Metric.IsTable ms t.document) := by
  unfold ofGroups
  rw [metrics_eq hv, Outcome.ok_bind]
  cases groups with
  | nil =>
    have hsome : ∀ t, Option.filter (fun aggs : Aggs => !aggs.isEmpty)
        (if ms.isEmpty then none else some ⟨⟨Metric.table ms, v, []⟩⟩) = some t →
        t = ⟨⟨Metric.table ms, v, []⟩⟩ := fun t ht => by
      obtain ⟨ht, -⟩ := Option.filter_eq_some_iff.mp ht
      split at ht
      · exact nomatch ht
      · exact (Option.some.inj ht).symm
    refine ⟨_, rfl, fun t ht => ?_, fun h => absurd rfl h, fun _ => ⟨?_, fun t ht => ?_⟩⟩
    · rw [hsome t ht]
      exact formed_table v ms
    · rw [← Metric.table_eq_nil_iff]
      cases ms with
      | nil => exact iff_of_true rfl rfl
      | cons m ms => simp [Option.filter_eq_none_iff, Aggs.isEmpty]
    · rw [hsome t ht]
      exact Metric.isTable_table ms
  | cons field rest =>
    obtain ⟨a, ha, hf, hc⟩ := exists_nested hv b ms field rest
    refine ⟨some a, ha, ?_, fun _ => ⟨a, rfl, hc⟩, fun h => nomatch h⟩
    rintro t ht
    rwa [← Option.some.inj ht]

/-- The only failure is that of an unsupported version. -/
theorem ofGroups_ne_unknownBucket (v : Version) (b : OrderBy) (ms : List Metric)
    (groups : List String) (n : String) :
    ofGroups v b ms groups ≠ .error (.clause (.unknownBucket n)) := by
  intro h
  by_cases hv : v.isSupported = true
  · obtain ⟨a, ha, -⟩ := exists_ofGroups hv b ms groups
    rw [ha] at h
    cases h
  · have hn : Compile.ofClause (Aggs.new v) = .error (.clause (.version (.unsupported v))) := by
      simp [Aggs.new, Params.new, Version.ensureSupported, hv, Compile.ofClause]
    have hnest : ∀ inner groups, nested v b ms inner groups = .ok inner ∨
        nested v b ms inner groups = .error (.clause (.version (.unsupported v))) := by
      intro inner groups
      induction groups with
      | nil => exact Or.inl rfl
      | cons field rest ih =>
        refine Or.inr ?_
        rcases ih with ih | ih
        · rw [nested, ih, Outcome.ok_bind, level, hn]
          rfl
        · rw [nested, ih]
          rfl
    unfold ofGroups metrics at h
    split at h
    · rw [Outcome.pure_eq_ok, Outcome.ok_bind] at h
      split at h
      · cases h
      · rcases hnest none groups with hg | hg <;> rw [hg] at h <;> cases h
    · rw [hn] at h
      cases h

end Buckets

/-- **The aggregations in the request of a statement.** With groups they are the chain of them, the
metrics in the innermost one; without groups they are the metrics, if one is asked for. A container
is only ever put into a bucket that is there. -/
theorem aggs_of_compile (c : Config) (s : Statement) :
    (∀ doc, s.compile c = .ok doc → ∃ groups ms,
      s.groupBy.map Operand.columnName? = groups.map some ∧
      (s.columns.filter Projection.isAggregation).map Operand.metric? = ms.map some ∧
      (groups ≠ [] → ∃ j, doc.get? "aggs" = some j ∧ Buckets.IsChain s.orderBy ms groups j) ∧
      (groups = [] → (doc.get? "aggs" = none ↔ ∀ m ∈ ms, m.kind = .count) ∧
        ∀ j, doc.get? "aggs" = some j → Metric.IsTable ms j)) ∧
    ∀ ms groups n,
      Buckets.ofGroups c.version s.orderBy ms groups ≠ .error (.clause (.unknownBucket n)) := by
  refine ⟨fun doc h => ?_, fun ms groups n =>
    Buckets.ofGroups_ne_unknownBucket _ _ ms groups n⟩
  obtain ⟨p, rfl⟩ := Statement.compile_eq_ok_iff.mp h
  have hget : p.document.get? "aggs" = p.aggs.map Aggs.document := Option.ext fun j => by
    rw [p.get?_document]
    simp [Request.Parts.options, eq_comm]
  refine ⟨p.groups, p.columns.metrics, Projection.groupNames_eq_ok_iff.mp p.groups_eq,
    (Projection.ofColumns_eq_ok_iff.mp p.columns_eq).2, ?_⟩
  obtain ⟨a, ha, -, hc, hm⟩ :=
    Buckets.exists_ofGroups p.supported s.orderBy p.columns.metrics p.groups
  obtain rfl := Except.ok.inj (p.aggs_eq.symm.trans ha)
  rw [hget]
  refine ⟨fun hg => ?_, fun hg => ⟨?_, fun j hj => ?_⟩⟩
  · obtain ⟨t, ht, hchain⟩ := hc hg
    exact ⟨t.document, by rw [ht]; rfl, hchain⟩
  · rw [Option.map_eq_none_iff]
    exact (hm hg).1
  · obtain ⟨t, ht, rfl⟩ := Option.map_eq_some_iff.mp hj
    exact (hm hg).2 t ht

/-- Two groups, an average that orders the inner one, and a count. -/
def Statement.grouped : Statement where
  columns := [.expr (.aggregate .avg (.name "size")), .expr (.aggregate .count (.name "id"))]
  groupBy := [.name "host", .name "level"]
  orderBy := .ofList [("avg_size", .desc)]

/-- What it compiles to: hosts by their number of documents, their levels by the average size, and
no metric for the count. -/
def Statement.groupedDocument : Json :=
  .obj
    [("aggs", .single "group_by_host" (.obj
      [("aggs", .single "group_by_level" (.obj
        [("aggs", .single "avg_size" (.single "avg" (.single "field" (.str "size")))),
         ("terms", .obj [("field", .str "level"), ("order", .single "avg_size" (.str "desc"))])])),
       ("terms", .obj [("field", .str "host"), ("order", .single "_count" (.str "asc"))])])),
     ("query", .single "bool" (.single "filter" (.single "bool" (.obj []))))]

theorem aggs_of_grouped :
    Statement.grouped.compile {} = .ok Statement.groupedDocument ∧
    Statement.grouped.groupBy.map Operand.columnName? = ["host", "level"].map some ∧
    (Statement.grouped.columns.filter Projection.isAggregation).map Operand.metric? =
      [⟨"size", .avg⟩, ⟨"id", .count⟩].map some ∧
    ∃ j, Statement.groupedDocument.get? "aggs" = some j ∧
      Buckets.IsChain Statement.grouped.orderBy [⟨"size", .avg⟩, ⟨"id", .count⟩]
        ["host", "level"] j := by
  have hd : Statement.grouped.compile {} = .ok Statement.groupedDocument := rfl
  have hg : Statement.grouped.groupBy.map Operand.columnName? = ["host", "level"].map some := rfl
  have hm : (Statement.grouped.columns.filter Projection.isAggregation).map Operand.metric? =
      [⟨"size", .avg⟩, ⟨"id", .count⟩].map some := rfl
  obtain ⟨groups, ms, hgroups, hms, hchain, -⟩ := (aggs_of_compile {} Statement.grouped).1 _ hd
  obtain rfl : ["host", "level"] = groups :=
    List.map_inj_right (fun _ _ => Option.some.inj) |>.mp (hg.symm.trans hgroups)
  obtain rfl : [⟨"size", .avg⟩, ⟨"id", .count⟩] = ms :=
    List.map_inj_right (fun _ _ => Option.some.inj) |>.mp (hm.symm.trans hms)
  exact ⟨hd, hg, hm, hchain (List.cons_ne_nil _ _)⟩

end SearchCompiler
