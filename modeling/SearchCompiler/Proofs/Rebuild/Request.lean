import SearchCompiler.Proofs.Rebuild.Predicate
import SearchCompiler.Proofs.Request.Buckets

/-! # Rebuilding the request of a statement

A request is rebuilt member by member: its query is rebuilt as a clause, and every other member that
a statement compiles to is kept.

* `Registry.normalize_request`: what becomes of a request.
* `exists_rebuild_compile_iff`: when the request of a statement is rebuilt as itself. -/

namespace SearchCompiler

namespace Registry

variable {r : Registry} {v : Version}

/-- **A member that is kept** by a request that does not have one of its key yet. -/
def Kept (v : Version) (e : String × Json) : Prop :=
  ∀ req : Request, req.version = v → req.params.get? e.1 = none →
    takeMember req e.1 e.2 = .ok (req.put e.1 e.2)

/-- What becomes of a member of a request whose other members are kept. -/
def normalizeRequestMember (r : Registry) (v : Version) (e : String × Json) :
    Except ClauseError (String × Json) :=
  if e.1 = "query" then do return (e.1, ← r.normalize v e.2) else .ok e

theorem key_of_normalizeRequestMember {e e' : String × Json}
    (h : r.normalizeRequestMember v e = .ok e') : e'.1 = e.1 := by
  unfold normalizeRequestMember at h
  split at h
  · obtain ⟨j, -, h⟩ := Outcome.bind_eq_ok.mp h
    rw [← Except.ok.inj h]
  · rw [Except.ok.inj h]

theorem fillRequest_cons {req : Request} (hv : req.version = v) {e : String × Json}
    (hn : req.params.get? e.1 = none) (hk : e.1 ≠ "query" → Kept v e) (rest : Assoc Json) :
    r.fillRequest v req (e :: rest) = r.normalizeRequestMember v e >>= fun e =>
      r.fillRequest v (req.put e.1 e.2) rest := by
  obtain ⟨k, value⟩ := e
  rw [fillRequest.eq_def]
  unfold normalizeRequestMember
  by_cases hq : k = "query"
  · subst hq
    simp only [if_true, normalize, bind_assoc, Outcome.ok_bind, Outcome.pure_eq_ok]
    refine Outcome.bind_congr fun c _ => ?_
    rw [Request.withQuery, Request.putOnce, Params.putOnce_of_get? hn]
    rfl
  · simp only [hq, if_false, hk hq req hv hn, Outcome.ok_bind]

/-- **A request is filled member by member**, if each has a key of its own. -/
theorem fillRequest_eq (members : Assoc Json) : ∀ {req : Request}, req.version = v →
    (members.map Prod.fst).Nodup → (∀ e ∈ members, req.params.get? e.1 = none) →
    (∀ e ∈ members, e.1 ≠ "query" → Kept v e) →
    r.fillRequest v req members = members.mapM (r.normalizeRequestMember v) >>= fun es =>
      .ok ⟨req.params.putAll es⟩ := by
  induction members with
  | nil =>
    intro req hv hd hn hk
    rw [fillRequest, List.mapM_nil]
    rfl
  | cons e members ih =>
    intro req hv hd hn hk
    have he := List.mem_cons_self (a := e) (l := members)
    rw [fillRequest_cons hv (hn e he) (hk e he), List.mapM_cons]
    simp only [bind_assoc, Outcome.ok_bind, Outcome.pure_eq_ok]
    refine Outcome.bind_congr fun e' he' => ?_
    have hne : ∀ x ∈ members, x.1 ≠ e'.1 := fun x hx heq => by
      rw [key_of_normalizeRequestMember he'] at heq
      exact (List.nodup_cons.mp hd).1 (heq ▸ List.mem_map_of_mem hx)
    refine ih ((Params.version_modify ..).trans hv) (List.nodup_cons.mp hd).2 (fun x hx => ?_)
      fun x hx => hk x (List.mem_cons_of_mem _ hx)
    exact (Params.get?_put_of_ne (hne x hx) e'.2).trans (hn x (List.mem_cons_of_mem _ hx))

/-! ### The members of a statement's request are kept -/

theorem kept_source (v : Version) (columns : List String) :
    Kept v ("_source", .single "includes" (.ofStrings columns)) := fun _ _ _ => rfl

theorem kept_size (v : Version) (j : Json) : Kept v ("size", j) := fun _ _ _ => rfl

theorem kept_from (v : Version) (j : Json) : Kept v ("from", j) := fun _ _ _ => rfl

theorem kept_aggs (hv : v.isSupported = true) {w : Version} {a : Aggs} (h : Buckets.Formed w a) :
    Kept v ("aggs", a.document) := by
  have hb : Aggs.ofBody a.document v = .ok ⟨⟨a.params.entries, v, []⟩⟩ := by
    have hn : Aggs.new v = .ok ⟨.empty v []⟩ := Aggs.new_eq_ok_iff.mpr ⟨hv, rfl⟩
    have hf : a.params.entries.find? (fun e => !e.2.isMapping) = none :=
      List.find?_eq_none.mpr fun e he => by simp [h.mappings e he]
    simp only [Aggs.document, Params.toJson, Aggs.ofBody, hn, Outcome.ok_bind, hf,
      Outcome.pure_eq_ok, Params.putAll_empty, Assoc.ofEntries_of_sorted h.sorted]
  intro req hreq _
  rw [← hreq] at hb
  simp only [takeMember, hb, Outcome.ok_bind]
  rfl

theorem exists_ofDocument_withOrder (hv : v.isSupported = true) {w : Version} {n : String}
    {c : SortKey} (h : FieldClause.new .sort n w = .ok c) (o : SortOrder) :
    ∃ c', SortKey.ofDocument (SortKey.withOrder c o).document v = .ok c' ∧
      c'.document = (SortKey.withOrder c o).document := by
  obtain ⟨hn, -, rfl⟩ := FieldClause.new_eq_ok_iff.mp h
  have he : FieldClause.entry .sort (.single n (.obj [("order", .str o.text)])) =
      .ok (n, .obj [("order", .str o.text)]) := FieldClause.entry_eq_ok_iff.mpr rfl
  have hnew : FieldClause.new .sort n v = .ok ⟨n, .empty v []⟩ :=
    FieldClause.new_eq_ok_iff.mpr ⟨hn, hv, rfl⟩
  exact ⟨_, Outcome.bind_eq_ok.mpr ⟨_, he, Outcome.bind_eq_ok.mpr ⟨_, hnew, rfl⟩⟩, rfl⟩

theorem kept_sort {docs : List Json}
    (h : ∀ d ∈ docs, ∃ c, SortKey.ofDocument d v = .ok c ∧ c.document = d) :
    Kept v ("sort", .arr docs) := by
  obtain ⟨sorts, hs, rfl⟩ : ∃ sorts : List SortKey, sortKeys (.arr docs) v = .ok sorts ∧
      sorts.map (·.document) = docs := Outcome.exists_mapM_map_eq h
  intro req hv hn
  rw [← hv] at hs
  simp only [takeMember, hs, Outcome.ok_bind, Outcome.pure_eq_ok, Request.withSorts,
    Request.append, Params.append, Params.modify_of_get? hn]
  rfl

end Registry

namespace Request.Parts

variable {c : Config} {s : Statement} {v : Version}

theorem kept (p : Parts c s) (hv : v.isSupported = true) {e : String × Json}
    (he : e ∈ p.document.fields) (hq : e.1 ≠ "query") : Registry.Kept v e := by
  obtain ⟨k, j⟩ := e
  have hmem := p.mem_fields_iff.mp he
  simp only [options, List.mem_cons, Prod.mk.injEq, List.not_mem_nil, or_false] at hmem
  rcases hmem with ⟨rfl, -⟩ | ⟨rfl, h⟩ | ⟨rfl, h⟩ | ⟨rfl, h⟩ | ⟨rfl, h⟩ | ⟨rfl, h⟩
  · exact absurd rfl hq
  · obtain ⟨a, ha, rfl⟩ := Option.map_eq_some_iff.mp h.symm
    obtain ⟨a', ha', hf, -⟩ :=
      Buckets.exists_ofGroups p.supported s.orderBy p.columns.metrics p.groups
    obtain rfl := Except.ok.inj (p.aggs_eq.symm.trans ha')
    exact Registry.kept_aggs hv (hf a ha)
  · unfold source? at h
    split at h
    · cases h
    · rw [Option.some.inj h]
      exact Registry.kept_source _ _
  · unfold sort? at h
    split at h
    · cases h
    · rw [Option.some.inj h]
      refine Registry.kept_sort fun d hd => ?_
      obtain ⟨k, hk, rfl⟩ := List.mem_map.mp hd
      obtain ⟨e, -, hc⟩ := (Outcome.exists_of_mem_mapM p.sorts_eq).2 k hk
      obtain ⟨c', hc', h⟩ := Outcome.bind_eq_ok.mp hc
      rw [← Except.ok.inj h]
      exact Registry.exists_ofDocument_withOrder hv (Outcome.mapError_eq_ok.mp hc') e.2
  · exact Registry.kept_size _ _
  · exact Registry.kept_from _ _

/-- **What becomes of the request of a statement**: its query is rebuilt. -/
theorem normalize_document (p : Parts c s) (hv : v.isSupported = true) :
    Registry.builtin.normalize v (.single "dsl" p.document) =
      p.document.fields.mapM (Registry.builtin.normalizeRequestMember v) >>= fun es =>
        .ok (.obj es) := by
  have hn : Request.new v = .ok ⟨.empty v gates⟩ := new_eq_ok_iff.mpr ⟨hv, rfl⟩
  have hf := Registry.fillRequest_eq (r := Registry.builtin) (v := v) p.document.fields
    (show (⟨.empty v gates⟩ : Request).version = v from rfl)
    p.sorted_fields.nodup_keys (fun e _ => Params.get?_empty ..) fun e => p.kept hv
  have hb : Registry.clauseOfBody v p.document .request =
      Registry.builtin.fillRequest v ⟨.empty v gates⟩ p.document.fields >>=
        fun req => .ok (.request req) := by
    have ho : p.document = .obj p.document.fields := rfl
    rw [Registry.clauseOfBody, ho, Registry.requestOfBody, hn, Outcome.ok_bind]
    rfl
  refine (Registry.normalize_single (Registry.lower_name .request) p.document).trans ?_
  rw [hb, hf]
  simp only [bind_assoc, Outcome.ok_bind]
  refine Outcome.bind_congr fun es hes => congrArg Except.ok ?_
  have hk := Assoc.keys_of_mapM (fun _ _ => Registry.key_of_normalizeRequestMember) hes
  have hg : ∀ e ∈ es, (Params.empty v gates).isGated e.1 = false := fun e he => by
    obtain ⟨e', he', h⟩ := (Outcome.exists_of_mem_mapM hes).2 e he
    rw [Registry.key_of_normalizeRequestMember h]
    exact p.isGated_eq_false v (List.mem_map_of_mem (p.mem_fields_iff.mp he'))
  have hs : Assoc.ofEntries es = es := Assoc.ofEntries_of_sorted (p.sorted_fields.of_keys hk)
  rw [Params.putAll_of_not_gated hg]
  exact congrArg Json.obj hs

/-- The request of a statement is rebuilt as itself iff its query is. -/
theorem normalize_eq_ok_iff (p : Parts c s) (hv : v.isSupported = true) :
    Registry.builtin.normalize v (.single "dsl" p.document) = .ok p.document ↔
      p.query.document.Rebuilds v := by
  have hself : Registry.builtin.normalize v (.single "dsl" p.document) = .ok p.document ↔
      ∀ e ∈ p.document.fields, Registry.builtin.normalizeRequestMember v e = .ok e := by
    rw [p.normalize_document hv, ← Outcome.mapM_eq_self_iff, Outcome.bind_eq_ok]
    constructor
    · rintro ⟨es, hes, h⟩
      rw [hes, ← Except.ok.inj h]
      rfl
    · exact fun h => ⟨_, h, rfl⟩
  rw [hself]
  constructor
  · intro h
    have hq := h ("query", p.query.document) (p.mem_fields_iff.mpr List.mem_cons_self)
    obtain ⟨j, hj, hq⟩ := Outcome.bind_eq_ok.mp hq
    cases hq
    exact hj
  · rintro h ⟨k, j⟩ he
    unfold Registry.normalizeRequestMember
    split
    · next hk =>
      obtain rfl : k = "query" := hk
      have hmem := p.mem_fields_iff.mp he
      obtain rfl : j = p.query.document := by simpa [options] using hmem
      exact Outcome.bind_eq_ok.mpr ⟨_, h, rfl⟩
    · rfl

end Request.Parts

/-- **When the request of a statement is rebuilt as itself**, for any version: iff no leaf of its
predicate is a match of several values on the field `boost`. -/
theorem exists_rebuild_compile_iff {c : Config} {s : Statement} {doc : Json}
    (h : s.compile c = .ok doc) {v : Version} (hv : v.isSupported = true) :
    (∃ c', Registry.builtin.fromDocument v (.single "dsl" doc) = .ok c' ∧ c'.document = doc) ↔
      ∀ e ∈ s.filter, ∀ x ∈ e.leaves, ¬ x.ListsBoost c.version := by
  obtain ⟨p, rfl⟩ := Statement.compile_eq_ok_iff.mp h
  rw [← rebuilds_compileWhere_iff p.query_eq hv, ← p.normalize_eq_ok_iff hv, Registry.normalize,
    Outcome.bind_eq_ok]
  simp only [Outcome.pure_eq_ok, Except.ok.injEq]

namespace Statement

/-- A match of several values on the field `boost`. -/
def boosted : Statement where
  filter := some (.compare "boost" .isIn (.list [.int 1, .int 2]))

/-- The same on another field, beside an exact match on the field `boost`. -/
def listed : Statement where
  filter := some (.node .and (.expr (.compare "size" .isIn (.list [.int 1, .int 2])))
    (.expr (.compare "boost" .eq (.int 3))))

end Statement

theorem exists_rebuild_compile_listed : ∃ doc, Statement.listed.compile {} = .ok doc ∧
    Version.isSupported .standard = true ∧
    ((∃ c', Registry.builtin.fromDocument .standard (.single "dsl" doc) = .ok c' ∧
        c'.document = doc) ↔
      ∀ e ∈ Statement.listed.filter, ∀ x ∈ e.leaves, ¬ x.ListsBoost .standard) := by
  obtain ⟨doc, hd⟩ : ∃ doc, Statement.listed.compile {} = .ok doc := by
    refine Statement.exists_compile_filter_iff.mpr ?_
    rw [compileWhere_eq rfl]
    exact ⟨_, rfl⟩
  exact ⟨doc, hd, rfl, exists_rebuild_compile_iff hd rfl⟩

/-- The request of a match of several values on the field `boost` is not rebuilt as itself. -/
theorem not_rebuilds_compile_boosted : ∃ doc, Statement.boosted.compile {} = .ok doc ∧
    ¬ ∃ c', Registry.builtin.fromDocument .standard (.single "dsl" doc) = .ok c' ∧
      c'.document = doc := by
  obtain ⟨doc, hd⟩ : ∃ doc, Statement.boosted.compile {} = .ok doc := by
    refine Statement.exists_compile_filter_iff.mpr ?_
    rw [compileWhere_eq rfl]
    exact ⟨_, rfl⟩
  refine ⟨doc, hd, ?_⟩
  rintro ⟨c', hc', hdoc⟩
  obtain ⟨p, rfl⟩ := Statement.compile_eq_ok_iff.mp hd
  have hn : Registry.builtin.normalize .standard (.single "dsl" p.document) = .ok p.document :=
    Outcome.bind_eq_ok.mpr ⟨c', hc', congrArg Except.ok hdoc⟩
  have hb : (Expr.compare "boost" .isIn (.list [.int 1, .int 2])).ListsBoost .standard :=
    ⟨_, _, rfl, rfl⟩
  have hq := (p.normalize_eq_ok_iff rfl).mp hn
  exact (rebuilds_compileWhere_iff p.query_eq rfl).mp hq _ rfl _ List.mem_cons_self hb

end SearchCompiler
