import SearchCompiler.Proofs.Request.Buckets

/-! # Where the entries of an ordering go

The ordering of a statement has entries for fields and entries for metrics. An entry for a field
sorts the documents, and it orders the buckets of its field by their values. An entry for a metric
can order the innermost buckets only, and only one of them can: the first one, unless the buckets are
ordered by their values already. No other part of the request takes it, so that without such buckets
it is dropped.

* `Json.sortKeys`, `Json.HasBucket`: the sort keys and the buckets in a request.
* `Request.Parts.sortKeys_document`, `Request.Parts.hasBucket_iff`: those of a statement.
* `Buckets.TakesMetric`: when buckets take an entry for a metric.
* `places_entry_iff`: which entries are in the request. -/

namespace SearchCompiler

/-! ### Sort keys and buckets of a request -/

/-- The list of sort keys of a request. -/
def Json.sortKeys (request : Json) : List Json := ((request.get? "sort").bind arr?).getD []

/-- The number of sort keys for a field. -/
def Json.sortCount (request : Json) (k : String) : Nat :=
  request.sortKeys.countP fun j => (j.get? k).isSome

/-- The sort key of an entry of an ordering. -/
def SortKey.ofEntry (k : String) (d : SortOrder) : Json := .single k (.single "order" (.str d.text))

/-- **A bucket in a container of aggregations**, at any depth: it is on this field and has this
order. -/
inductive Json.InAggs (field : String) (o : BucketOrder) : Json → Prop
  | here {aggs node : Json} {name : String} (hn : aggs.get? name = some node)
    (ht : node.get? "terms" = some (.mkObj [("field", .str field), ("order", o.toJson)])) :
    InAggs field o aggs
  | inside {aggs node child : Json} {name : String} (hn : aggs.get? name = some node)
    (hc : node.get? "aggs" = some child) (h : InAggs field o child) : InAggs field o aggs

/-- **Does a request have a bucket** on this field with this order? -/
def Json.HasBucket (request : Json) (field : String) (o : BucketOrder) : Prop :=
  ∃ aggs ∈ request.get? "aggs", aggs.InAggs field o

theorem Json.get?_single {k k' : String} {j j' : Json} :
    (single k j).get? k' = some j' ↔ k' = k ∧ j = j' := by
  by_cases h : k' = k <;> simp [single, get?, Assoc.get?, h]

theorem Json.get?_mkObj_pair {k k' : String} (h : k ≠ k') (j j' : Json) :
    (mkObj [(k, j), (k', j')]).get? k = some j ∧ (mkObj [(k, j), (k', j')]).get? k' = some j' := by
  rw [mkObj_pair]
  exact ⟨(get?_setField_of_ne h _ j').trans (if_pos rfl), get?_setField_self _ k' j'⟩

theorem SortOrder.text_inj {d d' : SortOrder} (h : d.text = d'.text) : d = d' := by
  cases d <;> cases d' <;> first | rfl | exact absurd h (by decide)

theorem SortKey.ofEntry_inj {k k' : String} {d d' : SortOrder} (h : ofEntry k d = ofEntry k' d') :
    k = k' ∧ d = d' := by
  simp only [ofEntry, Json.single, Json.obj.injEq, List.cons.injEq, Prod.mk.injEq, Json.str.injEq,
    true_and, and_true] at h
  exact ⟨h.1, SortOrder.text_inj h.2⟩

namespace Buckets

variable {b : OrderBy} {ms : List Metric} {field field' k : String} {o o' : BucketOrder}
  {d : SortOrder} {groups : List String}

theorem terms_inj (h : Json.mkObj [("field", .str field), ("order", o.toJson)] =
    Json.mkObj [("field", .str field'), ("order", o'.toJson)]) : field = field' ∧ o = o' := by
  have hget := fun (f : String) (o : BucketOrder) =>
    Json.get?_mkObj_pair (show "field" ≠ "order" by decide) (.str f) o.toJson
  have hf := (hget field o).1.symm.trans ((congrArg (Json.get? "field") h).trans (hget field' o').1)
  have ho := (hget field o).2.symm.trans ((congrArg (Json.get? "order") h).trans (hget field' o').2)
  obtain ⟨k, d⟩ := o
  obtain ⟨k', d'⟩ := o'
  simp only [BucketOrder.toJson, Json.single, Option.some.injEq, Json.obj.injEq, List.cons.injEq,
    Prod.mk.injEq, Json.str.injEq, and_true] at hf ho
  exact ⟨hf, by rw [ho.1, SortOrder.text_inj ho.2]⟩

/-- The buckets in a bucket: itself and those in its container. -/
theorem inAggs_bucket_iff {child : Option Json} :
    (bucket field' o' child).InAggs field o ↔
      (field = field' ∧ o = o') ∨ ∃ j ∈ child, j.InAggs field o := by
  obtain ⟨node, hnode, ht, hc⟩ : ∃ node, bucket field' o' child = .single (bucketName field') node ∧
      node.get? "terms" = some (.mkObj [("field", .str field'), ("order", o'.toJson)]) ∧
      node.get? "aggs" = child := by
    cases child with
    | none => exact ⟨_, rfl, rfl, rfl⟩
    | some j => exact ⟨_, rfl, Json.get?_mkObj_pair (by decide) _ j⟩
  rw [hnode]
  constructor
  · rintro (⟨hn, hb⟩ | ⟨hn, hb, h⟩)
    · obtain ⟨-, rfl⟩ := Json.get?_single.mp hn
      rw [ht] at hb
      obtain ⟨rfl, rfl⟩ := terms_inj (Option.some.inj hb)
      exact Or.inl ⟨rfl, rfl⟩
    · obtain ⟨-, rfl⟩ := Json.get?_single.mp hn
      exact Or.inr ⟨_, hc.symm.trans hb, h⟩
  · rintro (⟨rfl, rfl⟩ | ⟨j, hj, h⟩)
    · exact .here (Json.get?_single.mpr ⟨rfl, rfl⟩) ht
    · exact .inside (Json.get?_single.mpr ⟨rfl, rfl⟩) (hc.trans hj) h

theorem not_inAggs_table (ms : List Metric) : ¬ (Json.obj (Metric.table ms)).InAggs field o := by
  have hnode : ∀ name node, (Json.obj (Metric.table ms)).get? name = some node →
      node.get? "terms" = none ∧ node.get? "aggs" = none := fun name node hn => by
    obtain ⟨⟨f, kind⟩, -, -, he⟩ := Metric.mem_table_iff.mp (Assoc.mem_of_get? hn)
    obtain rfl := congrArg Prod.snd he
    cases kind <;> exact ⟨rfl, rfl⟩
  rintro (⟨hn, ht⟩ | ⟨hn, hc, -⟩)
  · exact nomatch (hnode _ _ hn).1.symm.trans ht
  · exact nomatch (hnode _ _ hn).2.symm.trans hc

/-! ### The chain of buckets -/

/-- The fields to group by with the orders of their buckets, from the outermost one. -/
def levels (b : OrderBy) (ms : List Metric) : List String → List (String × BucketOrder)
  | [] => []
  | field :: rest => (field, order b ms field rest.isEmpty) :: levels b ms rest

/-- Buckets inside buckets, with a container in the innermost ones. -/
def chain (inner : Option Json) : List (String × BucketOrder) → Option Json
  | [] => inner
  | (field, o) :: rest => some (bucket field o (chain inner rest))

theorem exists_nested_eq_chain {v : Version} (hv : v.isSupported = true) (b : OrderBy)
    (ms : List Metric) (inner : Option Aggs) (groups : List String) :
    ∃ a, nested v b ms inner groups = .ok a ∧
      a.map Aggs.document = chain (inner.map Aggs.document) (levels b ms groups) := by
  induction groups with
  | nil => exact ⟨inner, rfl, rfl⟩
  | cons field rest ih =>
    obtain ⟨child, hc, hdoc⟩ := ih
    obtain ⟨a, ha, -, hd⟩ := exists_level hv field (order b ms field rest.isEmpty) child
    refine ⟨some a, ?_, ?_⟩
    · rw [nested, hc, Outcome.ok_bind]
      exact Outcome.bind_eq_ok.mpr ⟨a, ha, rfl⟩
    · rw [Option.map_some, hd, hdoc]
      rfl

theorem exists_inAggs_chain_iff {inner : Option Json} {ls : List (String × BucketOrder)} :
    (∃ j ∈ chain inner ls, j.InAggs field o) ↔
      (field, o) ∈ ls ∨ ∃ j ∈ inner, j.InAggs field o := by
  induction ls with
  | nil => simp [chain]
  | cons l ls ih =>
    obtain ⟨field', o'⟩ := l
    have hhead : (∃ j ∈ chain inner ((field', o') :: ls), j.InAggs field o) ↔
        (bucket field' o' (chain inner ls)).InAggs field o := by
      simp [chain]
    rw [hhead, inAggs_bucket_iff, ih, List.mem_cons, Prod.mk.injEq, or_assoc]

/-- **The buckets of a statement** are those of its groups. -/
theorem exists_inAggs_ofGroups_iff {v : Version} (hv : v.isSupported = true) {a : Option Aggs}
    (h : ofGroups v b ms groups = .ok a) :
    (∃ j ∈ a.map Aggs.document, j.InAggs field o) ↔ (field, o) ∈ levels b ms groups := by
  have hinner : ¬ ∃ j ∈ (if ms.isEmpty then none else some ⟨⟨Metric.table ms, v, []⟩⟩ :
      Option Aggs).map Aggs.document, j.InAggs field o := by
    rintro ⟨j, hj, hin⟩
    split at hj
    · exact nomatch hj
    · obtain rfl := Option.some.inj hj
      exact not_inAggs_table ms hin
  unfold ofGroups at h
  rw [metrics_eq hv, Outcome.ok_bind] at h
  cases groups with
  | nil =>
    rw [← Except.ok.inj h]
    refine iff_of_false (fun ⟨j, hj, hin⟩ => ?_) List.not_mem_nil
    obtain ⟨t, ht, rfl⟩ := Option.map_eq_some_iff.mp hj
    exact hinner ⟨_, Option.map_eq_some_iff.mpr ⟨t, (Option.filter_eq_some_iff.mp ht).1, rfl⟩, hin⟩
  | cons g rest =>
    obtain ⟨a', ha, hdoc⟩ := exists_nested_eq_chain hv b ms
      (if ms.isEmpty then none else some ⟨⟨Metric.table ms, v, []⟩⟩) (g :: rest)
    obtain rfl := Except.ok.inj (ha.symm.trans h)
    rw [hdoc, exists_inAggs_chain_iff]
    exact or_iff_left hinner

theorem mem_levels_iff : (field, o) ∈ levels b ms groups ↔
    field ∈ groups.dropLast ∧ o = order b ms field false ∨
      groups.getLast? = some field ∧ o = order b ms field true := by
  induction groups with
  | nil => simp [levels]
  | cons g rest ih =>
    rw [levels, List.mem_cons, ih]
    cases rest with
    | nil =>
      simp only [List.dropLast_nil, List.not_mem_nil, List.getLast?_nil, List.dropLast_singleton,
        List.getLast?_singleton, Prod.mk.injEq, List.isEmpty_nil, reduceCtorEq, false_and, or_false,
        false_or, Option.some.injEq]
      constructor
      · rintro ⟨rfl, rfl⟩
        exact ⟨rfl, rfl⟩
      · rintro ⟨rfl, rfl⟩
        exact ⟨rfl, rfl⟩
    | cons g' rest =>
      simp only [List.dropLast_cons_cons, List.getLast?_cons_cons, List.mem_cons, List.isEmpty_cons,
        Prod.mk.injEq]
      constructor
      · rintro (⟨rfl, rfl⟩ | ⟨h, ho⟩ | h)
        · exact Or.inl ⟨Or.inl rfl, rfl⟩
        · exact Or.inl ⟨Or.inr h, ho⟩
        · exact Or.inr h
      · rintro (⟨rfl | h, ho⟩ | h)
        · exact Or.inl ⟨rfl, ho⟩
        · exact Or.inr (Or.inl ⟨h, ho⟩)
        · exact Or.inr (Or.inr h)

/-! ### Orders of buckets -/

/-- The only key of a metric with an underscore in front is that of the number of documents. -/
theorem key_ne_underscore {s : String} (h : "_" ++ s ≠ Metric.countKey) (m : Metric) :
    m.key ≠ "_" ++ s := by
  cases ha : m.isAsked with
  | true =>
    rw [Metric.key_of_isAsked ha]
    exact m.kind.metricName_ne m.field s
  | false =>
    rw [Metric.key_of_not_isAsked ha]
    exact h.symm

theorem isMetricKey_underscore {s : String} (h : "_" ++ s ≠ Metric.countKey) (ms : List Metric) :
    isMetricKey ms ("_" ++ s) = false := by
  simpa [isMetricKey, h] using fun m _ => key_ne_underscore h m

/-- The key of a metric is one for buckets if the metric is selected. That of the number of documents
always is. -/
theorem isMetricKey_key_iff {m : Metric} :
    isMetricKey ms m.key = true ↔ (m.kind ≠ .count → m ∈ ms) := by
  rw [← bne_iff_ne]
  change _ ↔ (m.isAsked = true → m ∈ ms)
  cases ha : m.isAsked with
  | false => simp [isMetricKey, Metric.key_of_not_isAsked ha]
  | true =>
    have hcount : m.entry.1 ≠ Metric.countKey := m.kind.metricName_ne m.field "count"
    rw [isMetricKey, Metric.key_of_isAsked ha]
    simp only [Bool.or_eq_true, beq_iff_eq, hcount, false_or, List.any_eq_true, true_imp_iff]
    constructor
    · rintro ⟨m', hm', hk⟩
      cases ha' : m'.isAsked with
      | false => exact absurd (hk.symm.trans (Metric.key_of_not_isAsked ha')) hcount
      | true =>
        rw [Metric.key_of_isAsked ha'] at hk
        exact Metric.entry_key_inj hk ▸ hm'
    · exact fun h => ⟨m, h, Metric.key_of_isAsked ha⟩

theorem metricOrder?_eq_some_iff : metricOrder? b ms = some (.byMetric k d) ↔
    isMetricKey ms k = true ∧ ∃ before after, b.entries = before ++ (k, d) :: after ∧
      ∀ e ∈ before, isMetricKey ms e.1 = false := by
  have hinj : ∀ e : String × SortOrder,
      BucketOrder.byMetric e.1 e.2 = .byMetric k d ↔ e = (k, d) := fun e => by
    simp [BucketOrder.byMetric, Prod.ext_iff]
  simp only [metricOrder?, Option.map_eq_some_iff, hinj, exists_eq_right,
    List.find?_eq_some_iff_append, Bool.not_eq_true']

theorem ne_key_of_isMetricKey (hk : isMetricKey ms k = true) : k ≠ "_key" := by
  rintro rfl
  exact nomatch hk.symm.trans (isMetricKey_underscore (s := "key") (by decide) ms)

theorem order_eq_byKey_iff {innermost : Bool} :
    order b ms field innermost = .byKey d ↔ b.get? field = some d := by
  have hcount : (default : BucketOrder) ≠ .byKey d := fun he =>
    absurd (congrArg BucketOrder.key he) (show "_count" ≠ "_key" by decide)
  cases hf : b.get? field with
  | some d' => simp [order, hf, BucketOrder.byKey]
  | none =>
    simp only [order, hf, reduceCtorEq, iff_false]
    split
    · cases hm : metricOrder? b ms with
      | none => exact hcount
      | some o =>
        obtain ⟨e, he, rfl⟩ := Option.map_eq_some_iff.mp hm
        have hk := ne_key_of_isMetricKey (metricOrder?_eq_some_iff.mp hm).1
        exact fun h => hk (congrArg BucketOrder.key h)
    · exact hcount

theorem get?_eq_none_of_order {innermost : Bool} (hk : k ≠ "_key")
    (h : order b ms field innermost = .byMetric k d) : b.get? field = none := by
  refine Option.eq_none_iff_forall_ne_some.mpr fun d' hd => hk ?_
  exact congrArg BucketOrder.key (h.symm.trans (order_eq_byKey_iff.mpr hd))

theorem isMetricKey_of_mem_levels {m : Metric}
    (h : (field, .byMetric m.key d) ∈ levels b ms groups) : isMetricKey ms m.key = true := by
  obtain ⟨innermost, ho⟩ : ∃ innermost, order b ms field innermost = .byMetric m.key d := by
    rcases mem_levels_iff.mp h with ⟨-, ho⟩ | ⟨-, ho⟩ <;> exact ⟨_, ho.symm⟩
  have hcount : BucketOrder.byMetric m.key d = default → isMetricKey ms m.key = true := fun he => by
    have hk : m.key = Metric.countKey := congrArg BucketOrder.key he
    simp [isMetricKey, hk]
  have hf := get?_eq_none_of_order (key_ne_underscore (s := "key") (by decide) m) ho
  simp only [order, hf] at ho
  split at ho
  · cases hm : metricOrder? b ms with
    | none => exact hcount (by rw [← ho, hm]; rfl)
    | some o =>
      rw [hm] at ho
      exact (metricOrder?_eq_some_iff.mp (hm.trans (congrArg some ho))).1
  · exact hcount ho.symm

/-- **Buckets take an entry for a metric.** The innermost ones take the first such entry, unless
they are ordered by their values. Buckets around them have the order of fewest documents first,
which may happen to be that of the entry. -/
inductive TakesMetric (b : OrderBy) (ms : List Metric) (groups : List String) (k : String)
    (d : SortOrder) : Prop
  | innermost {field : String} {before after : List (String × SortOrder)}
    (hg : groups.getLast? = some field) (hf : b.get? field = none)
    (hb : b.entries = before ++ (k, d) :: after)
    (hfirst : ∀ e ∈ before, isMetricKey ms e.1 = false) : TakesMetric b ms groups k d
  | outer {field : String} (hg : field ∈ groups.dropLast) (hf : b.get? field = none)
    (hk : k = Metric.countKey) (hd : d = .asc) : TakesMetric b ms groups k d

theorem mem_levels_byKey_iff :
    (k, .byKey d) ∈ levels b ms groups ↔ k ∈ groups ∧ b.get? k = some d := by
  rw [mem_levels_iff, eq_comm, order_eq_byKey_iff, eq_comm (a := BucketOrder.byKey d),
    order_eq_byKey_iff, ← or_and_right]
  refine and_congr_left fun _ => ?_
  rcases List.eq_nil_or_concat groups with rfl | ⟨outer, g, rfl⟩
  · simp
  · simp [eq_comm]

theorem exists_mem_levels_byMetric_iff (hk : isMetricKey ms k = true) (he : (k, d) ∈ b.entries) :
    (∃ field, (field, .byMetric k d) ∈ levels b ms groups) ↔ TakesMetric b ms groups k d := by
  -- the ordering has an entry for a metric, so that there is a first one
  obtain ⟨first, hfirst⟩ : ∃ o, metricOrder? b ms = some o := by
    rw [← Option.isSome_iff_exists, metricOrder?, Option.isSome_map, List.find?_isSome]
    exact ⟨(k, d), he, hk⟩
  constructor
  · rintro ⟨field, h⟩
    have hkey := ne_key_of_isMetricKey hk
    obtain ⟨hg, ho⟩ | ⟨hg, ho⟩ := mem_levels_iff.mp h
    · have hf := get?_eq_none_of_order hkey ho.symm
      simp only [order, hf] at ho
      cases ho
      exact .outer hg hf rfl rfl
    · have hf := get?_eq_none_of_order hkey ho.symm
      simp only [order, hf, hfirst, if_true, Option.getD_some] at ho
      obtain ⟨-, before, after, hb, hbefore⟩ :=
        metricOrder?_eq_some_iff.mp (hfirst.trans (congrArg some ho.symm))
      exact .innermost hg hf hb hbefore
  · rintro (⟨hg, hf, hb, hbefore⟩ | ⟨hg, hf, rfl, rfl⟩)
    · have hm := metricOrder?_eq_some_iff.mpr ⟨hk, _, _, hb, hbefore⟩
      exact ⟨_, mem_levels_iff.mpr (Or.inr ⟨hg, by simp [order, hf, hm]⟩)⟩
    · exact ⟨_, mem_levels_iff.mpr (Or.inl ⟨hg, by simp only [order, hf]; rfl⟩)⟩

end Buckets

/-! ### The request of a statement -/

namespace Request.Parts

variable {c : Config} {s : Statement}

theorem get?_sort (p : Parts c s) : p.document.get? "sort" = sort? p.sorts :=
  p.get?_eq_of_mem (by simp [options])

/-- **The sort keys of a statement** are the entries of its ordering, those of metrics left out. -/
theorem sortKeys_document (p : Parts c s) : p.document.sortKeys =
    (s.orderBy.entries.filter fun e => !Buckets.isMetricKey p.columns.metrics e.1).map
      fun e => SortKey.ofEntry e.1 e.2 := by
  have hlist : p.document.sortKeys = p.sorts.map (·.document) := by
    rw [Json.sortKeys, p.get?_sort, sort?]
    cases p.sorts <;> rfl
  rw [hlist, eq_comm, Outcome.map_eq_map_iff]
  refine (Outcome.mapM_eq_ok_iff.mp p.sorts_eq).imp fun e key h => ?_
  obtain ⟨key', hnew, h⟩ := Outcome.bind_eq_ok.mp h
  obtain ⟨-, -, rfl⟩ := FieldClause.new_eq_ok_iff.mp (Outcome.mapError_eq_ok.mp hnew)
  rw [← Except.ok.inj h]
  rfl

theorem mem_sortKeys_iff (p : Parts c s) {k : String} {d : SortOrder}
    (he : (k, d) ∈ s.orderBy.entries) : SortKey.ofEntry k d ∈ p.document.sortKeys ↔
      Buckets.isMetricKey p.columns.metrics k = false := by
  rw [p.sortKeys_document, List.mem_map]
  constructor
  · rintro ⟨e, hmem, heq⟩
    obtain ⟨-, hk⟩ := List.mem_filter.mp hmem
    obtain rfl : e.1 = k := (SortKey.ofEntry_inj heq).1
    simpa using hk
  · intro hk
    exact ⟨(k, d), List.mem_filter.mpr ⟨he, by simp [hk]⟩, rfl⟩

/-- The documents are sorted once by a key of the ordering, unless it is one of a metric. -/
theorem sortCount_document (p : Parts c s) (k : String) : p.document.sortCount k =
    if k ∈ s.orderBy.keys ∧ Buckets.isMetricKey p.columns.metrics k = false then 1 else 0 := by
  have hkey : ∀ e ∈ s.orderBy.entries, (((SortKey.ofEntry e.1 e.2).get? k).isSome &&
      !Buckets.isMetricKey p.columns.metrics e.1) = true ↔
        (e.1 == k && !Buckets.isMetricKey p.columns.metrics k) = true := fun e _ => by
    by_cases hk : k = e.1
    · simp [SortKey.ofEntry, Json.single, Json.get?, Assoc.get?, hk]
    · simp [SortKey.ofEntry, Json.single, Json.get?, Assoc.get?, hk, eq_comm (a := e.1)]
  rw [Json.sortCount, p.sortKeys_document, List.countP_map, List.countP_filter]
  refine (List.countP_congr hkey).trans ?_
  cases hm : Buckets.isMetricKey p.columns.metrics k with
  | true => simp
  | false =>
    have hcount := s.orderBy.nodup.count (a := k)
    rw [List.count, List.countP_map] at hcount
    simp only [Bool.not_false, Bool.and_true, eq_self, and_true]
    exact hcount

theorem hasBucket_iff (p : Parts c s) {field : String} {o : BucketOrder} :
    p.document.HasBucket field o ↔
      (field, o) ∈ Buckets.levels s.orderBy p.columns.metrics p.groups := by
  have hget : p.document.get? "aggs" = p.aggs.map Aggs.document :=
    p.get?_eq_of_mem (by simp [options])
  rw [Json.HasBucket, hget]
  exact Buckets.exists_inAggs_ofGroups_iff p.supported p.aggs_eq

end Request.Parts

/-- **An entry of an ordering is in a request**: it sorts the documents, or it orders the buckets of
its field by their values, or it orders buckets by the metric that it is for. -/
def Json.Places (request : Json) (ms : List Metric) (k : String) (d : SortOrder) : Prop :=
  SortKey.ofEntry k d ∈ request.sortKeys ∨ request.HasBucket k (.byKey d) ∨
    Buckets.isMetricKey ms k = true ∧ ∃ field, request.HasBucket field (.byMetric k d)

/-- **Which entries of an ordering are in the request.** All of those for fields are. One for a
metric is if the statement groups by a field of this name or if buckets take the entry; otherwise it
is dropped. -/
theorem places_entry_iff {c : Config} {s : Statement} {doc : Json} (h : s.compile c = .ok doc) :
    ∃ groups ms, s.groupBy.map Operand.columnName? = groups.map some ∧
      (s.columns.filter Projection.isAggregation).map Operand.metric? = ms.map some ∧
      ∀ k d, (k, d) ∈ s.orderBy.entries →
        (doc.Places ms k d ↔ (Buckets.isMetricKey ms k = true →
          k ∈ groups ∨ Buckets.TakesMetric s.orderBy ms groups k d)) := by
  obtain ⟨p, rfl⟩ := Statement.compile_eq_ok_iff.mp h
  refine ⟨p.groups, p.columns.metrics, Projection.groupNames_eq_ok_iff.mp p.groups_eq,
    (Projection.ofColumns_eq_ok_iff.mp p.columns_eq).2, fun k d he => ?_⟩
  have hvalues : p.document.HasBucket k (.byKey d) ↔ k ∈ p.groups := by
    rw [p.hasBucket_iff, Buckets.mem_levels_byKey_iff]
    exact and_iff_left (OrderBy.get?_eq_some_iff.mpr he)
  rw [Json.Places, p.mem_sortKeys_iff he, hvalues]
  cases hk : Buckets.isMetricKey p.columns.metrics k with
  | false => simp
  | true =>
    simp only [p.hasBucket_iff, Buckets.exists_mem_levels_byMetric_iff hk he, Bool.true_eq_false,
      false_or, true_and, true_imp_iff]

namespace Statement

/-- Two metrics for the buckets of one field, and a field to sort by. -/
def ranked : Statement where
  columns := [.expr (.aggregate .avg (.name "size")), .expr (.aggregate .max (.name "size"))]
  groupBy := [.name "host"]
  orderBy := .ofList [("avg_size", .desc), ("max_size", .asc), ("name", .asc)]

/-- An ordering by the number of documents, without groups. -/
def byCount : Statement where
  orderBy := .ofList [("_count", .desc)]

end Statement

/-- Of two metrics the first one orders the buckets of the only group, and the second is dropped. -/
theorem places_entry_ranked : Statement.ranked.orderBy.entries =
      [("avg_size", .desc), ("max_size", .asc), ("name", .asc)] ∧
    ∃ doc, Statement.ranked.compile {} = .ok doc ∧ ∃ ms, doc.Places ms "avg_size" .desc ∧
      ¬ doc.Places ms "max_size" .asc ∧ doc.Places ms "name" .asc := by
  obtain ⟨doc, hd⟩ : ∃ doc, Statement.ranked.compile {} = .ok doc := ⟨_, rfl⟩
  obtain ⟨groups, ms, hg, hm, h⟩ := places_entry_iff hd
  obtain rfl : ["host"] = groups := List.map_injective_iff.mpr (fun _ _ => Option.some.inj) hg
  obtain rfl : [⟨"size", .avg⟩, ⟨"size", .max⟩] = ms :=
    List.map_injective_iff.mpr (fun _ _ => Option.some.inj) hm
  have hmem : ∀ e ∈ [("avg_size", SortOrder.desc), ("max_size", .asc), ("name", .asc)],
      e ∈ Statement.ranked.orderBy.entries := fun e he => he
  refine ⟨rfl, doc, hd, _, (h _ _ (hmem _ (by simp))).mpr fun _ => Or.inr ?_,
    fun hp => ?_, (h _ _ (hmem _ (by simp))).mpr fun hk => absurd hk (by decide)⟩
  · have hfirst : Statement.ranked.orderBy.entries =
        [] ++ ("avg_size", .desc) :: [("max_size", .asc), ("name", .asc)] := rfl
    exact .innermost rfl rfl hfirst fun _ he => nomatch he
  · rcases (h _ _ (hmem _ (by simp))).mp hp (by decide) with hk | ⟨-, -, hb, hbefore⟩ | ⟨hk, -⟩
    · exact absurd hk (by decide)
    · exact absurd (Buckets.metricOrder?_eq_some_iff.mpr ⟨by decide, _, _, hb, hbefore⟩)
        (by decide)
    · exact nomatch hk

/-- Without groups an ordering by the number of documents is dropped. -/
theorem not_places_byCount : ("_count", .desc) ∈ Statement.byCount.orderBy.entries ∧
    ∃ doc, Statement.byCount.compile {} = .ok doc ∧ ∀ ms, ¬ doc.Places ms "_count" .desc := by
  obtain ⟨doc, hd⟩ : ∃ doc, Statement.byCount.compile {} = .ok doc := ⟨_, rfl⟩
  refine ⟨List.mem_singleton_self _, doc, hd, fun ms => ?_⟩
  obtain ⟨p, rfl⟩ := Statement.compile_eq_ok_iff.mp hd
  obtain hg : [] = p.groups := Except.ok.inj p.groups_eq
  have hnone : ∀ field o, ¬ p.document.HasBucket field o := fun field o h => by
    rw [p.hasBucket_iff, ← hg] at h
    exact nomatch h
  rintro (h | h | ⟨-, field, h⟩)
  · exact nomatch (p.mem_sortKeys_iff (List.mem_singleton_self _)).mp h
  · exact hnone _ _ h
  · exact hnone _ _ h

end SearchCompiler
