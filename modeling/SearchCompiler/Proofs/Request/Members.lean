import Mathlib.Data.List.Nodup
import SearchCompiler.Compile.Request
import SearchCompiler.Proofs.Group.Walk

/-! # The members of a request

The request of a statement is put together from its parts. Every part is written under a key of its
own, and what is not asked for is not written: the document has these members and no others.

* `Request.Parts`: what a statement compiles to, part by part.
* `compile_eq_ok_iff`: the document of a statement is that of its parts.
* `Request.Parts.get?_document`: what is under a key. -/

namespace SearchCompiler

/-! ### Writing one key after the other -/

namespace Params

variable {p : Params} {k : String}

theorem get?_putAll_of_forall_ne {es : List (String × Json)} (h : ∀ e ∈ es, e.1 ≠ k) :
    (p.putAll es).get? k = p.get? k := by
  induction es generalizing p with
  | nil => rfl
  | cons e es ih =>
    have hne : k ≠ e.1 := (h e List.mem_cons_self).symm
    exact (ih fun e' he' => h e' (List.mem_cons_of_mem _ he')).trans (get?_put_of_ne hne e.2)

theorem putOnce_of_get? (h : p.get? k = none) (j : Json) (overwrite : Bool) :
    p.putOnce k j overwrite = p.put k j := by
  simp [putOnce, h]

theorem modify_of_get? (h : p.get? k = none) (f : Option Json → Json) :
    p.modify k f = p.put k (f none) := by
  unfold put modify
  split
  · rfl
  · next hg =>
    rw [get?, if_neg hg] at h
    rw [h]

end Params

namespace Request

/-- The keys for which there is something to write. -/
def given (es : List (String × Option Json)) : List (String × Json) :=
  es.filterMap fun e => e.2.map (e.1, ·)

theorem mem_given_iff {es : List (String × Option Json)} {k : String} {j : Json} :
    (k, j) ∈ given es ↔ (k, some j) ∈ es := by
  simp only [given, List.mem_filterMap, Option.map_eq_some_iff, Prod.mk.injEq]
  constructor
  · rintro ⟨⟨k', o⟩, he, j', rfl, rfl, rfl⟩
    exact he
  · exact fun he => ⟨(k, some j), he, j, rfl, rfl, rfl⟩

theorem keys_given_sublist (es : List (String × Option Json)) :
    ((given es).map Prod.fst).Sublist (es.map Prod.fst) := by
  induction es with
  | nil => exact List.Sublist.slnil
  | cons e es ih =>
    obtain ⟨k, o⟩ := e
    cases o with
    | none => exact ih.cons k
    | some j => exact ih.cons_cons k

/-- A request with some keys written, one after the other. -/
def written (v : Version) (es : List (String × Option Json)) : Request :=
  ⟨(Params.empty v gates).putAll (given es)⟩

section
variable {v : Version} {es : List (String × Option Json)} {k : String}

theorem get?_written (h : k ∉ es.map Prod.fst) : (written v es).params.get? k = none := by
  refine (Params.get?_putAll_of_forall_ne fun e he hk => h ?_).trans (Params.get?_empty v gates)
  exact hk ▸ (keys_given_sublist es).subset (List.mem_map_of_mem he)

theorem put_written (j : Json) : (written v es).put k j = written v (es ++ [(k, some j)]) := by
  simp only [written, given, List.filterMap_append, Params.putAll, List.foldl_append]
  rfl

theorem written_none (k : String) : written v (es ++ [(k, none)]) = written v es := by
  simp only [written, given, List.filterMap_append]
  exact congrArg (fun es => Request.mk (Params.putAll _ es)) (List.append_nil _)

theorem withQuery_written (h : "query" ∉ es.map Prod.fst) (q : Json) (overwrite : Bool) :
    (written v es).withQuery q overwrite = written v (es ++ [("query", some q)]) := by
  rw [withQuery, putOnce, Params.putOnce_of_get? (get?_written h)]
  exact put_written q

theorem withAggs_written (aggs : Option Aggs) :
    aggs.elim (written v es) (written v es).withAggs =
      written v (es ++ [("aggs", aggs.map Aggs.document)]) := by
  cases aggs with
  | none => exact (written_none _).symm
  | some a => exact put_written _

/-- The selection of columns, if there are any. -/
def source? (columns : List String) : Option Json :=
  if columns.isEmpty then none else some (.single "includes" (.ofStrings columns))

theorem withSource_written (h : "_source" ∉ es.map Prod.fst) (columns : List String) :
    (if columns.isEmpty then written v es else (written v es).withSource columns) =
      written v (es ++ [("_source", source? columns)]) := by
  unfold source?
  split
  · exact (written_none _).symm
  · rw [withSource, Params.modify_of_get? (get?_written h)]
    exact put_written _

/-- The list of sort keys, if there are any. -/
def sort? (sorts : List SortKey) : Option Json :=
  if sorts.isEmpty then none else some (.arr (sorts.map (·.document)))

theorem withSorts_written (h : "sort" ∉ es.map Prod.fst) (sorts : List SortKey) :
    (if sorts.isEmpty then written v es else (written v es).withSorts sorts) =
      written v (es ++ [("sort", sort? sorts)]) := by
  unfold sort?
  split
  · exact (written_none _).symm
  · rw [withSorts, append, Params.append, Params.modify_of_get? (get?_written h)]
    exact put_written _

theorem withSize_written (h : "size" ∉ es.map Prod.fst) (n : Option Nat) (overwrite : Bool) :
    n.elim (written v es) (fun n => (written v es).withSize n overwrite) =
      written v (es ++ [("size", n.map Json.ofNat)]) := by
  cases n with
  | none => exact (written_none _).symm
  | some n =>
    rw [Option.elim_some, withSize, putOnce, Params.putOnce_of_get? (get?_written h)]
    exact put_written _

theorem withOffset_written (h : "from" ∉ es.map Prod.fst) (n : Option Nat) (overwrite : Bool) :
    n.elim (written v es) (fun n => (written v es).withOffset n overwrite) =
      written v (es ++ [("from", n.map Json.ofNat)]) := by
  cases n with
  | none => exact (written_none _).symm
  | some n =>
    rw [Option.elim_some, withOffset, putOnce, Params.putOnce_of_get? (get?_written h)]
    exact put_written _

end

/-! ### The parts of a statement -/

/-- **What a statement compiles to**, part by part. -/
structure Parts (c : Config) (s : Statement) where
  supported : c.version.isSupported = true
  query : BoolGroup
  query_eq : compileWhere c s.filter = .ok query
  columns : Projection
  columns_eq : Projection.ofColumns c.version s.columns = .ok columns
  groups : List String
  groups_eq : Projection.groupNames s.groupBy = .ok groups
  aggs : Option Aggs
  aggs_eq : Buckets.ofGroups c.version s.orderBy columns.metrics groups = .ok aggs
  sorts : List SortKey
  sorts_eq : sortKeys c.version s.orderBy columns.metrics = .ok sorts

namespace Parts

variable {c : Config} {s : Statement}

/-- The keys of the request in the order of writing, and what is to be written. -/
def options (p : Parts c s) : List (String × Option Json) :=
  [("query", some p.query.document), ("aggs", p.aggs.map Aggs.document),
    ("_source", source? p.columns.sources), ("sort", sort? p.sorts),
    ("size", s.limit.map Json.ofNat), ("from", s.offset.map Json.ofNat)]

/-- The document of the request. -/
def document (p : Parts c s) : Json := .mkObj (given p.options)

theorem consistent_given (p : Parts c s) : Assoc.Consistent (given p.options) := by
  have hn : ((given p.options).map Prod.fst).Nodup :=
    (show ["query", "aggs", "_source", "sort", "size", "from"].Nodup by decide).sublist (keys_given_sublist _)
  exact fun e he e' he' => List.inj_on_of_nodup_map hn he he'

theorem isGated_eq_false (p : Parts c s) (v : Version) {k : String}
    (h : k ∈ p.options.map Prod.fst) : (Params.empty v gates).isGated k = false := by
  simp only [options, List.map_cons, List.map_nil, List.mem_cons, List.not_mem_nil, or_false] at h
  rcases h with h | h | h | h | h | h <;> rw [h] <;> rfl

theorem sorted_fields (p : Parts c s) : Assoc.Sorted p.document.fields :=
  Assoc.sorted_ofEntries (given p.options)

/-- **The members of the request** are what is to be written. -/
theorem mem_fields_iff (p : Parts c s) {k : String} {j : Json} :
    (k, j) ∈ p.document.fields ↔ (k, some j) ∈ p.options :=
  (Assoc.mem_ofEntries_iff p.consistent_given).trans mem_given_iff

theorem get?_document (p : Parts c s) {k : String} {j : Json} :
    p.document.get? k = some j ↔ (k, some j) ∈ p.options := by
  rw [← p.mem_fields_iff, Json.get?, Assoc.Sorted.mem_iff p.sorted_fields]

theorem get?_eq_of_mem (p : Parts c s) {k : String} {o : Option Json} (h : (k, o) ∈ p.options) :
    p.document.get? k = o := by
  have hn : (p.options.map Prod.fst).Nodup :=
    show ["query", "aggs", "_source", "sort", "size", "from"].Nodup by decide
  refine Option.ext fun j => p.get?_document.trans ⟨fun hj => ?_, fun hj => hj ▸ h⟩
  exact congrArg Prod.snd (List.inj_on_of_nodup_map hn h hj rfl)

theorem written_options (p : Parts c s) :
    written c.version p.options = ⟨⟨p.document.fields, c.version, gates⟩⟩ := by
  have hg : ∀ e ∈ given p.options, (Params.empty c.version gates).isGated e.1 = false :=
    fun e he => p.isGated_eq_false _
      ((keys_given_sublist p.options).subset (List.mem_map_of_mem he))
  rw [written, Params.putAll_of_not_gated hg]
  rfl

theorem document_written (p : Parts c s) : (written c.version p.options).document = p.document := by
  rw [p.written_options]
  rfl

end Parts

theorem ofStatement_eq {c : Config} {s : Statement} (hv : c.version.isSupported = true) :
    ofStatement c s = compileWhere c s.filter >>= fun query =>
      Projection.ofColumns c.version s.columns >>= fun columns =>
        Projection.groupNames s.groupBy >>= fun groups =>
          Buckets.ofGroups c.version s.orderBy columns.metrics groups >>= fun aggs =>
            sortKeys c.version s.orderBy columns.metrics >>= fun sorts =>
              .ok (written c.version
                [("query", some query.document), ("aggs", aggs.map Aggs.document),
                  ("_source", source? columns.sources), ("sort", sort? sorts),
                  ("size", s.limit.map Json.ofNat), ("from", s.offset.map Json.ofNat)]) := by
  have hn : Compile.ofClause (Request.new c.version) = .ok (written c.version []) :=
    Outcome.mapError_eq_ok.mpr (new_eq_ok_iff.mpr ⟨hv, rfl⟩)
  unfold ofStatement
  simp only [hn, Outcome.ok_bind, Outcome.pure_eq_ok]
  refine Outcome.bind_congr fun query _ => Outcome.bind_congr fun columns _ =>
    Outcome.bind_congr fun groups _ => Outcome.bind_congr fun aggs _ =>
    Outcome.bind_congr fun sorts _ => congrArg Except.ok ?_
  rw [withQuery_written (by simp), withAggs_written, withSource_written (by simp),
    withSorts_written (by simp), withSize_written (by simp), withOffset_written (by simp)]
  rfl

/-- **The request of a statement has its parts written.** -/
theorem ofStatement_eq_ok_iff {c : Config} {s : Statement} {r : Request} :
    ofStatement c s = .ok r ↔ ∃ p : Parts c s, r = written c.version p.options := by
  constructor
  · intro h
    obtain ⟨_, hr, -⟩ := Outcome.bind_eq_ok.mp h
    obtain ⟨hv, -⟩ := new_eq_ok_iff.mp (Outcome.mapError_eq_ok.mp hr)
    simp only [ofStatement_eq hv, Outcome.bind_eq_ok] at h
    obtain ⟨query, hq, columns, hc, groups, hg, aggs, ha, sorts, hs, h⟩ := h
    exact ⟨⟨hv, query, hq, columns, hc, groups, hg, aggs, ha, sorts, hs⟩, (Except.ok.inj h).symm⟩
  · rintro ⟨p, rfl⟩
    rw [ofStatement_eq p.supported, p.query_eq, Outcome.ok_bind, p.columns_eq, Outcome.ok_bind,
      p.groups_eq, Outcome.ok_bind, p.aggs_eq, Outcome.ok_bind, p.sorts_eq, Outcome.ok_bind]
    rfl

end Request

/-- **The document of a statement is that of its parts.** -/
theorem Statement.compile_eq_ok_iff {c : Config} {s : Statement} {doc : Json} :
    s.compile c = .ok doc ↔ ∃ p : Request.Parts c s, doc = p.document := by
  rw [compile, Outcome.bind_eq_ok]
  simp only [Request.ofStatement_eq_ok_iff]
  constructor
  · rintro ⟨_, ⟨p, rfl⟩, h⟩
    exact ⟨p, (Except.ok.inj h).symm.trans p.document_written⟩
  · rintro ⟨p, rfl⟩
    exact ⟨_, ⟨p, rfl⟩, congrArg Except.ok p.document_written⟩

theorem Statement.exists_compile_filter_iff {c : Config} {root : Option Expr} :
    (∃ doc, ({ filter := root } : Statement).compile c = .ok doc) ↔
      ∃ g, compileWhere c root = .ok g := by
  simp only [compile_eq_ok_iff]
  constructor
  · rintro ⟨_, p, -⟩
    exact ⟨p.query, p.query_eq⟩
  · rintro ⟨g, hg⟩
    exact ⟨_, ⟨isSupported_of_compileWhere hg, g, hg, _, rfl, _, rfl, _, rfl, _, rfl⟩, rfl⟩

end SearchCompiler
