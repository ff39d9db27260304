import SearchCompiler.Proofs.Group.Versions
import SearchCompiler.Proofs.Request.Ordering

/-! # Requests for two configurations

All keys that a statement writes exist in every supported version, so that the version of the
backend is nowhere in its document. What the configuration decides is the filter around the query.

* `Statement.agree_compile`: the parts of a statement for two configurations.
* `Statement.compile_eq_up_to_filter`: two configurations have the same outcome, up to the
  filter. -/

namespace SearchCompiler

variable {v w : Version}

namespace Projection

theorem metric?_eq (hv : v.isSupported = true) (hw : w.isSupported = true) (x : Operand) :
    metric? v x = metric? w x := by
  cases x with
  | expr e =>
    refine (Leaf.agree_compile hv hw e).bind_eq fun a b h => ?_
    cases h <;> rfl
  | _ => rfl

theorem ofColumns_eq (hv : v.isSupported = true) (hw : w.isSupported = true)
    (columns : List Operand) : ofColumns v columns = ofColumns w columns := by
  have hadd : add v = add w := by
    funext p x
    unfold add
    rw [metric?_eq hv hw]
  rw [ofColumns, ofColumns, hadd]

end Projection

theorem Buckets.agree_ofGroups (hv : v.isSupported = true) (hw : w.isSupported = true)
    (b : OrderBy) (ms : List Metric) (groups : List String) :
    Outcome.Agree (fun a a' => a.map Aggs.document = a'.map Aggs.document)
      (ofGroups v b ms groups) (ofGroups w b ms groups) := by
  unfold ofGroups
  rw [metrics_eq hv, metrics_eq hw, Outcome.ok_bind, Outcome.ok_bind]
  cases groups with
  | nil =>
    refine .ok ?_
    cases ms with
    | nil => rfl
    | cons m ms =>
      have hkept : ∀ (es : Assoc Json) (v : Version),
          ((some (⟨⟨es, v, []⟩⟩ : Aggs)).filter fun a => !a.isEmpty).map Aggs.document =
            if es.isEmpty then none else some (.obj es) := fun es v => by
        rw [Option.filter_some, Aggs.isEmpty]
        cases es <;> rfl
      exact (hkept _ v).trans (hkept _ w).symm
  | cons field rest =>
    obtain ⟨a, ha, hdoc⟩ := exists_nested_eq_chain hv b ms
      (if ms.isEmpty then none else some ⟨⟨Metric.table ms, v, []⟩⟩) (field :: rest)
    obtain ⟨a', ha', hdoc'⟩ := exists_nested_eq_chain hw b ms
      (if ms.isEmpty then none else some ⟨⟨Metric.table ms, w, []⟩⟩) (field :: rest)
    rw [List.isEmpty_cons, if_neg Bool.false_ne_true, if_neg Bool.false_ne_true, ha, ha']
    refine .ok (hdoc.trans (Eq.trans ?_ hdoc'.symm))
    cases ms <;> rfl

namespace Request

theorem sort?_eq {sorts sorts' : List SortKey}
    (h : sorts.map (·.document) = sorts'.map (·.document)) : sort? sorts = sort? sorts' := by
  have he : sorts.isEmpty = sorts'.isEmpty := by
    rw [← List.isEmpty_map (f := (·.document)), h, List.isEmpty_map]
  rw [sort?, sort?, he, h]

theorem agree_sortKeys (hv : v.isSupported = true) (hw : w.isSupported = true) (b : OrderBy)
    (ms : List Metric) :
    Outcome.Agree (fun ks ks' => ks.map (·.document) = ks'.map (·.document))
      (sortKeys v b ms) (sortKeys w b ms) := by
  have hkey : ∀ e : String × SortOrder,
      Outcome.Agree (fun k k' : SortKey => k.document = k'.document)
        (Compile.ofClause (FieldClause.new .sort e.1 v) >>= fun k =>
          .ok (SortKey.withOrder k e.2))
        (Compile.ofClause (FieldClause.new .sort e.1 w) >>= fun k =>
          .ok (SortKey.withOrder k e.2)) := by
    intro e
    refine (FieldClause.agree_new hv hw .sort e.1).bind fun k k' _ _ h => ?_
    obtain ⟨n, rfl, rfl⟩ := h
    exact .ok rfl
  exact (Outcome.Agree.mapM hkey _).imp fun ks ks' h => Outcome.map_eq_map_iff.mpr h

variable {c c' : Config} {s : Statement}

/-- **The parts of a statement for two configurations**: the same query up to the filter around it,
and the rest of the request the same. -/
structure Parts.Alike (p : Parts c s) (p' : Parts c' s) : Prop where
  core : p.query.core = p'.query.core
  rest : p.options.tail = p'.options.tail

/-- Requests that have all but the query in common differ in that member only. -/
theorem Parts.Alike.document_eq_setField {p : Parts c s} {p' : Parts c' s} (h : p.Alike p') :
    p'.document = p.document.setField "query" p'.query.document := by
  refine congrArg Json.obj (Assoc.Sorted.ext p'.sorted_fields
    (p.sorted_fields.insert "query" p'.query.document) fun k => ?_)
  by_cases hk : k = "query"
  · subst hk
    rw [Assoc.get?_insert_self]
    exact p'.get?_eq_of_mem List.mem_cons_self
  · rw [Assoc.get?_insert_of_ne hk]
    have hother : ∀ (q j : Json) (es : List (String × Option Json)),
        (k, some j) ∈ ("query", some q) :: es ↔ (k, some j) ∈ es := fun q j es =>
      List.mem_cons.trans (or_iff_right fun he => hk (congrArg Prod.fst he))
    refine Option.ext fun j => p'.get?_document.trans (Iff.trans ?_ p.get?_document.symm)
    have hrest : (k, some j) ∈ p'.options.tail ↔ (k, some j) ∈ p.options.tail := by rw [h.rest]
    exact (hother _ j _).trans (hrest.trans (hother _ j _).symm)

end Request

/-- **A statement compiles alike for two configurations**: with the same error, or to the documents
of parts that differ in the filter around the query at most. -/
theorem Statement.agree_compile {c c' : Config} (hv : c.version.isSupported = true)
    (hv' : c'.version.isSupported = true) (s : Statement) :
    Outcome.Agree (fun doc doc' => ∃ (p : Request.Parts c s) (p' : Request.Parts c' s),
      doc = p.document ∧ doc' = p'.document ∧ p.Alike p') (s.compile c) (s.compile c') := by
  have hcolumns := Projection.ofColumns_eq hv hv' s.columns
  rw [compile, compile, Request.ofStatement_eq hv, Request.ofStatement_eq hv', hcolumns]
  simp only [bind_assoc, Outcome.ok_bind]
  refine (agree_compileWhere hv hv' s.filter).bind fun q q' hq hq' hcore => ?_
  refine .bind_left _ fun columns hc => .bind_left _ fun groups hg => ?_
  refine (Buckets.agree_ofGroups hv hv' s.orderBy columns.metrics groups).bind
    fun aggs aggs' ha ha' haggs => ?_
  refine (Request.agree_sortKeys hv hv' s.orderBy columns.metrics).bind
    fun sorts sorts' hs hs' hsorts => ?_
  let p : Request.Parts c s :=
    ⟨hv, q, hq, columns, hcolumns.trans hc, groups, hg, aggs, ha, sorts, hs⟩
  let p' : Request.Parts c' s := ⟨hv', q', hq', columns, hc, groups, hg, aggs', ha', sorts', hs'⟩
  have hrest : p.options.tail = p'.options.tail := by
    simp only [p, p', Request.Parts.options, List.tail_cons, haggs, Request.sort?_eq hsorts]
  exact .ok ⟨p, p', p.document_written, p'.document_written, hcore, hrest⟩

/-- **The configuration decides about the filter around the query and nothing else.** For any two
configurations of supported versions a statement fails in the same way, or it compiles to the same
document, but for the query: one that does not count towards the score is put into a filter. -/
theorem Statement.compile_eq_up_to_filter {c c' : Config} (hv : c.version.isSupported = true)
    (hv' : c'.version.isSupported = true) (s : Statement) :
    (∀ e, s.compile c = .error e ↔ s.compile c' = .error e) ∧
    ∀ doc doc', s.compile c = .ok doc → s.compile c' = .ok doc' →
      (c.filterContext = c'.filterContext → doc' = doc) ∧
      (c.filterContext = false → c'.filterContext = true → ∃ q, doc.get? "query" = some q ∧
        doc' = doc.setField "query" (.single "bool" (.single "filter" q))) := by
  have h := s.agree_compile hv hv'
  refine ⟨h.error_iff, fun doc doc' hd hd' => ?_⟩
  obtain ⟨p, p', rfl, rfl, halike⟩ := h.related hd hd'
  have hf : p.query.filtered = c.filterContext := filtered_of_compileWhere p.query_eq
  have hf' : p'.query.filtered = c'.filterContext := filtered_of_compileWhere p'.query_eq
  have hquery : p.document.get? "query" = some p.query.document :=
    p.get?_eq_of_mem List.mem_cons_self
  refine ⟨fun heq => ?_, fun hoff hon => ⟨p.query.document, hquery, ?_⟩⟩
  · have hq : p'.query.document = p.query.document :=
      BoolGroup.document_eq_of_core (hf'.trans (heq.symm.trans hf.symm)) halike.core.symm
    have hoptions : p'.options = p.options :=
      congrArg₂ List.cons (congrArg (fun q => ("query", some q)) hq) halike.rest.symm
    rw [Request.Parts.document, hoptions, Request.Parts.document]
  · rw [halike.document_eq_setField, BoolGroup.document_of_filtered (hf'.trans hon), ← halike.core,
      ← BoolGroup.document_of_not_filtered (hf.trans hoff)]

/-- A conjunction with an alternative inside it, grouped, with a metric, an ordering and a page. -/
def Statement.groupedPage : Statement :=
  { Statement.grouped with filter := some .mixed, limit := some 5, offset := some 10 }

/-- An old backend without a filter beside a new one with a filter. -/
theorem Statement.compile_groupedPage_eq_up_to_filter : ∃ doc doc',
    groupedPage.compile ⟨⟨5, 1⟩, false⟩ = .ok doc ∧ groupedPage.compile ⟨⟨7, 10⟩, true⟩ = .ok doc' ∧
    ∃ q, doc.get? "query" = some q ∧
      doc' = doc.setField "query" (.single "bool" (.single "filter" q)) := by
  obtain ⟨herror, hok⟩ :=
    @compile_eq_up_to_filter ⟨⟨5, 1⟩, false⟩ ⟨⟨7, 10⟩, true⟩ rfl rfl groupedPage
  have hd : ∃ doc, groupedPage.compile ⟨⟨5, 1⟩, false⟩ = .ok doc := by
    have hq : ∃ g, compileWhere ⟨⟨5, 1⟩, false⟩ (some .mixed) = .ok g :=
      ⟨_, compileWhere_eq_ok_iff.mpr ⟨rfl, _, rfl, rfl⟩⟩
    obtain ⟨g, hq⟩ := hq
    exact ⟨_, compile_eq_ok_iff.mpr ⟨⟨rfl, g, hq, _, rfl, _, rfl, _, rfl, _, rfl⟩, rfl⟩⟩
  obtain ⟨doc, hd⟩ := hd
  cases hd' : groupedPage.compile ⟨⟨7, 10⟩, true⟩ with
  | error e => exact nomatch hd.symm.trans ((herror e).mpr hd')
  | ok doc' => exact ⟨doc, doc', hd, rfl, (hok doc doc' hd hd').2 rfl rfl⟩

end SearchCompiler
