import SearchCompiler.Proofs.Request.Ordering
import SearchCompiler.Query.Basic

/-! # Pages of a query

A page is compiled like the whole query and differs from it in the keys of paging only: its sort keys
end with the identity of documents, unless the query orders by that itself, and a page after a hit
starts there and passes over nothing. All pages of a query have the same query, aggregations, columns
and size, and the order of their hits is total.

* `Query.pageOf`: the document of a page, made from that of the whole query.
* `Query.page_eq_map_compile`: a page compiles to it, or fails as the whole query does.
* `Query.page_of_compile`: what differs from page to page, and what does not. -/

namespace SearchCompiler

/-! ### Documents -/

/-- The request with the identity of documents as its last sort key. -/
def Json.withTieBreaker (request : Json) : Json :=
  request.setField "sort" (.arr (request.sortKeys ++ [SortKey.ofEntry "_id" .asc]))

/-- The request for what comes after a hit with these sort values. -/
def Json.startingAfter (values : List Json) (request : Json) : Json :=
  (request.eraseField "from").setField "search_after" (.arr values)

/-- **The document of a page**, made from that of the whole query. -/
def Query.pageOf (q : Query) (cursor : Option (List Json)) (request : Json) : Json :=
  let request := if "_id" ∈ q.statement.orderBy.keys then request else request.withTieBreaker
  match cursor with
  | some values => request.startingAfter values
  | none => request

theorem Request.document_append {r : Request} {key : String} (h : r.isGated key = false)
    (items : List Json) : (r.append key items).document =
      r.document.setField key (.arr (Params.itemsOf (r.document.get? key) ++ items)) := by
  have hg : r.params.isGated key = false := h
  rw [append, Params.append, Params.modify, hg]
  rfl

namespace Json

variable {request : Json} {k : String}

theorem sortCount_withTieBreaker (h : request.sortCount "_id" = 0) :
    request.withTieBreaker.sortCount "_id" = 1 := by
  have hs : request.withTieBreaker.sortKeys = request.sortKeys ++ [SortKey.ofEntry "_id" .asc] := by
    rw [withTieBreaker, sortKeys, get?_setField_self]
    rfl
  rw [sortCount, hs, List.countP_append]
  exact congrArg (· + 1) h

theorem get?_withTieBreaker_of_ne (h : k ≠ "sort") : request.withTieBreaker.get? k = request.get? k :=
  get?_setField_of_ne h _ _

theorem get?_startingAfter_self (values : List Json) (request : Json) :
    (request.startingAfter values).get? "from" = none ∧
      (request.startingAfter values).get? "search_after" = some (.arr values) :=
  ⟨(get?_setField_of_ne (by decide) _ _).trans (get?_eraseField_self _ _), get?_setField_self _ _ _⟩

theorem get?_startingAfter_of_ne (hf : k ≠ "from") (ha : k ≠ "search_after") (values : List Json) :
    (request.startingAfter values).get? k = request.get? k :=
  (get?_setField_of_ne ha _ _).trans (get?_eraseField_of_ne hf request)

end Json

namespace Query

variable {q : Query} {c : Config}

/-! ### The members of a page -/

/-- A page differs from the whole query in the keys of paging only. -/
theorem get?_pageOf_of_not_mem {k : String} (h : k ∉ ["sort", "from", "search_after"])
    (cursor : Option (List Json)) (request : Json) :
    (q.pageOf cursor request).get? k = request.get? k := by
  simp only [List.mem_cons, List.not_mem_nil, or_false, not_or] at h
  obtain ⟨hs, hf, ha⟩ := h
  have hnone : (q.pageOf none request).get? k = request.get? k := by
    unfold pageOf
    split
    · rfl
    · exact Json.get?_withTieBreaker_of_ne hs
  cases cursor with
  | none => exact hnone
  | some values => exact (Json.get?_startingAfter_of_ne hf ha values).trans hnone

/-- **The identity of documents stands once among the sort keys of a page.** -/
theorem sortCount_pageOf (p : Request.Parts c q.statement) (cursor : Option (List Json)) :
    (q.pageOf cursor p.document).sortCount "_id" = 1 := by
  have hmetric : Buckets.isMetricKey p.columns.metrics "_id" = false :=
    Buckets.isMetricKey_underscore (s := "id") (by decide) p.columns.metrics
  have hcount := p.sortCount_document "_id"
  have hnone : (q.pageOf none p.document).sortCount "_id" = 1 := by
    unfold pageOf
    split
    · next hk => exact hcount.trans (if_pos ⟨hk, hmetric⟩)
    · next hk => exact Json.sortCount_withTieBreaker (hcount.trans (if_neg fun h => hk h.1))
  cases cursor with
  | none => exact hnone
  | some values =>
    have hsort : (q.pageOf (some values) p.document).get? "sort" =
        (q.pageOf none p.document).get? "sort" :=
      Json.get?_startingAfter_of_ne (by decide) (by decide) values
    rw [Json.sortCount, Json.sortKeys, hsort]
    exact hnone

/-! ### The steps of a page -/

theorem breakTies_written (q : Query) (p : Request.Parts c q.statement) :
    ∃ r, q.breakTies c.version (Request.written c.version p.options) = .ok r ∧
      r.document = (if "_id" ∈ q.statement.orderBy.keys then p.document
        else p.document.withTieBreaker) ∧
      r.isGated "search_after" = false := by
  have hw := p.written_options
  have hcontains : q.statement.orderBy.contains tieBreaker = true ↔
      "_id" ∈ q.statement.orderBy.keys := OrderBy.contains_iff
  unfold breakTies
  by_cases hk : "_id" ∈ q.statement.orderBy.keys
  · rw [if_pos (hcontains.mpr hk), if_pos hk]
    exact ⟨_, rfl, p.document_written, by rw [hw]; rfl⟩
  · have hnew : FieldClause.new .sort tieBreaker c.version = .ok ⟨"_id", .empty c.version []⟩ :=
      FieldClause.new_eq_ok_iff.mpr ⟨by decide +kernel, p.supported, rfl⟩
    have hsort : Params.itemsOf (p.document.get? "sort") = p.document.sortKeys := by
      rw [Json.sortKeys, p.get?_sort, Request.sort?]
      cases p.sorts <;> rfl
    rw [if_neg (hcontains.not.mpr hk), if_neg hk, Compile.ofClause, Outcome.mapError_eq_ok.mpr hnew]
    refine ⟨_, rfl, ?_, ?_⟩
    · have hg : (Request.written c.version p.options).isGated "sort" = false := by rw [hw]; rfl
      refine (Request.document_append hg _).trans ?_
      rw [p.document_written, hsort]
      rfl
    · rw [Request.withSort, Request.withSorts, Request.append, Params.append, Request.isGated,
        Params.isGated_modify, hw]
      rfl

theorem document_startAfter {r : Request} (hg : r.isGated "search_after" = false)
    (hn : r.document.get? "search_after" = none) (cursor : Option (List Json)) :
    (startAfter cursor r).document = cursor.elim r.document fun values =>
      r.document.startingAfter values := by
  cases cursor with
  | none => rfl
  | some values =>
    have hc : r.clearOffset.document = r.document.eraseField "from" := rfl
    have hnone : (r.document.eraseField "from").get? "search_after" = none :=
      (Json.get?_eraseField_of_ne (by decide) _).trans hn
    refine (Request.document_append (r := r.clearOffset) hg values).trans ?_
    rw [hc, hnone]
    rfl

/-- **A page compiles iff the query does**, and its document is made from that of the query. -/
theorem page_eq_map_compile (hl : q.statement.limit.isSome = true)
    (ho : q.statement.orderBy.isEmpty = false) (c : Config) (cursor : Option (List Json)) :
    q.page c cursor = (q.compile c).map fun request => q.search (q.pageOf cursor request) := by
  have hguard : ¬ ((q.statement.limit.isNone || q.statement.orderBy.isEmpty) = true) := by
    rw [ho, ← Option.not_isSome, hl]
    decide
  rw [page, if_neg hguard, compile, Statement.compile]
  cases hr : Request.ofStatement c q.statement with
  | error e => rfl
  | ok r =>
    obtain ⟨p, rfl⟩ := Request.ofStatement_eq_ok_iff.mp hr
    obtain ⟨r, hr, hdoc, hg⟩ := q.breakTies_written p
    have hn : r.document.get? "search_after" = none := by
      have hp : p.document.get? "search_after" = none := Option.eq_none_iff_forall_ne_some.mpr
        fun j hj => by simpa [Request.Parts.options] using p.get?_document.mp hj
      rw [hdoc]
      split
      · exact hp
      · exact (Json.get?_withTieBreaker_of_ne (by decide)).trans hp
    simp only [Outcome.ok_bind, hr, document_startAfter hg hn, hdoc, p.document_written]
    cases cursor <;> rfl

/-- **Pages differ in paging only.** A page of a query with a limit and an ordering fails as the whole
query does. Otherwise its document is that of the whole query with the identity of documents as the
last sort key, unless the query orders by it, and with the cursor in place of an offset. So the
identity stands once in every ordering, and the rest is the same in all pages. -/
theorem page_of_compile (hl : q.statement.limit.isSome = true)
    (ho : q.statement.orderBy.isEmpty = false) (c : Config) (cursor : Option (List Json)) :
    q.page c cursor = (q.compile c).map (fun request => q.search (q.pageOf cursor request)) ∧
      ∀ request, q.compile c = .ok request →
        (q.pageOf cursor request).sortCount "_id" = 1 ∧
        (∀ values ∈ cursor, (q.pageOf cursor request).get? "from" = none ∧
          (q.pageOf cursor request).get? "search_after" = some (.arr values)) ∧
        ∀ k ∉ ["sort", "from", "search_after"],
          (q.pageOf cursor request).get? k = request.get? k := by
  refine ⟨page_eq_map_compile hl ho c cursor, fun request h => ?_⟩
  obtain ⟨p, rfl⟩ := Statement.compile_eq_ok_iff.mp h
  refine ⟨sortCount_pageOf p cursor, ?_, fun k hk => get?_pageOf_of_not_mem hk cursor _⟩
  rintro values rfl
  exact Json.get?_startingAfter_self values _

/-- A query with an offset, ordered by the number of documents in the buckets of a field: no other
sort key is left. -/
def buckets : Query where
  index := some "logs"
  statement :=
    { filter := some (.node .gt (.name "size") (.value (.int 10)))
      groupBy := [.name "host"]
      orderBy := .ofList [("_count", .desc)]
      limit := some 20
      offset := some 40 }

/-- The page after a hit is sorted by the identity of documents, and has no offset. -/
theorem page_of_compile_buckets : ∃ request, buckets.compile {} = .ok request ∧
    request.get? "from" = some (.ofNat 40) ∧ request.get? "sort" = none ∧
    ∃ body, buckets.page {} (some [.str "a"]) = .ok (buckets.search body) ∧
      body.sortCount "_id" = 1 ∧ body.get? "from" = none ∧
      body.get? "search_after" = some (.arr [.str "a"]) ∧
      body.get? "query" = request.get? "query" ∧ body.get? "size" = request.get? "size" := by
  obtain ⟨g, hg⟩ : ∃ g, compileWhere {} buckets.statement.filter = .ok g := by
    rw [show buckets.statement.filter = some _ from rfl, compileWhere_eq rfl]
    exact ⟨_, rfl⟩
  let p : Request.Parts {} buckets.statement := ⟨rfl, g, hg, _, rfl, _, rfl, _, rfl, _, rfl⟩
  have h : buckets.compile {} = .ok p.document := Statement.compile_eq_ok_iff.mpr ⟨p, rfl⟩
  have hfrom : p.document.get? "from" = some (.ofNat 40) :=
    p.get?_eq_of_mem (by simp [Request.Parts.options, buckets])
  obtain ⟨hpage, hbody⟩ := page_of_compile (q := buckets) rfl rfl {} (some [.str "a"])
  obtain ⟨hid, hcursor, hrest⟩ := hbody _ h
  obtain ⟨hfrom', hafter⟩ := hcursor _ rfl
  refine ⟨_, h, hfrom, p.get?_sort, _, by rw [hpage, h]; rfl, hid, hfrom', hafter, ?_, ?_⟩
  · exact hrest "query" (by decide)
  · exact hrest "size" (by decide)

end Query

end SearchCompiler
