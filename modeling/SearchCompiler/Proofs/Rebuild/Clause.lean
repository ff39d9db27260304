import Mathlib.Data.List.Basic
import SearchCompiler.Clause.Registry
import SearchCompiler.Proofs.Assoc.Sorted
import SearchCompiler.Proofs.Clause.Construct

/-! # Rebuilding a clause

The registry rebuilds a clause from its document, and the new clause has a document of its own. For
each kind of query clause that is not a group, these lemmas say when a document is accepted and what
becomes of it. A document is *rebuilt as itself* if the clause it is rebuilt as has the same
document.

* `Registry.fromDocument_single`: the case of a clause name does not matter.
* `document_of_field`, `rebuilds_field`: terms, full-text searches and ranges.
* `document_of_terms`, `rebuilds_terms_iff`: matches of one of several values. -/

namespace SearchCompiler

/-- The kinds of clauses that are queries. -/
def ClauseKind.isQuery : ClauseKind → Bool
  | .bool | .term | .terms | .fullText | .range => true
  | _ => false

/-- The document of the clause that a document is rebuilt as. -/
def Registry.normalize (r : Registry) (v : Version) (doc : Json) : Except ClauseError Json := do
  return (← r.fromDocument v doc).document

/-- **The document is rebuilt as itself.** -/
def Json.Rebuilds (v : Version) (doc : Json) : Prop := Registry.builtin.normalize v doc = .ok doc

variable {v : Version} {n : String}

/-! ### Names of clauses -/

namespace Registry

theorem lower_of_mem_builtinNames : ∀ e ∈ builtinNames, Text.lower e.1 = e.1 := by decide +kernel

theorem constructors_builtin : builtin.constructors =
    [("aggs", .builtin .aggs), ("bool", .builtin .bool), ("dsl", .builtin .request),
      ("highlight", .builtin .highlight), ("match", .builtin .fullText),
      ("range", .builtin .range), ("request", .builtin .request), ("sort", .builtin .sort),
      ("term", .builtin .term), ("terms", .builtin .terms)] := by
  have h : builtin =
      builtinNames.foldl (fun r e => ⟨r.constructors.insert e.1 (.builtin e.2)⟩) empty :=
    List.foldl_ext _ _ _ fun r e he => by rw [register, lower_of_mem_builtinNames e he]
  rw [h]
  rfl

theorem lower_name (k : ClauseKind) : Text.lower k.name = k.name :=
  lower_of_mem_builtinNames (k.name, k) (List.mem_append_left _ (List.mem_map_of_mem k.mem_all))

theorem find?_builtin {k : ClauseKind} (h : Text.lower n = k.name) :
    builtin.find? n = some (.builtin k) := by
  rw [find?, h, constructors_builtin]
  cases k <;> rfl

/-- Every kind but that of requests has a single name. -/
theorem lower_of_find?_builtin {k : ClauseKind} (h : builtin.find? n = some (.builtin k))
    (hk : k ≠ .request) : Text.lower n = k.name := by
  rw [find?, constructors_builtin] at h
  have hmem := Assoc.mem_of_get? h
  simp only [List.mem_cons, Prod.mk.injEq, Constructor.builtin.injEq, List.not_mem_nil,
    or_false] at hmem
  rcases hmem with h | h | h | h | h | h | h | h | h | h <;> obtain ⟨hn, rfl⟩ := h <;>
    first | exact hn | exact absurd rfl hk

/-- The clause of a built-in kind that is rebuilt from the body of a document. -/
def clauseOfBody (v : Version) (body : Json) : ClauseKind → Except ClauseError Clause
  | .bool => do return .bool (← builtin.groupOfBody v body)
  | .term => do return .term (← Term.ofBody body v)
  | .terms => do return .terms (← Terms.ofBody body v)
  | .fullText => do return .fullText (← FullText.ofBody body v)
  | .range => do return .range (← Range.ofBody body v)
  | .sort => do return .sort (← SortKey.ofDocument body v)
  | .aggs => do return .aggs (← Aggs.ofBody body v)
  | .highlight => do return .highlight (← Highlight.ofBody body v)
  | .request => do return .request (← builtin.requestOfBody v body)

/-- **A document is rebuilt by the kind that it names**, in any case. -/
theorem fromDocument_single {k : ClauseKind} (h : Text.lower n = k.name) (body : Json) :
    builtin.fromDocument v (.single n body) = clauseOfBody v body k := by
  rw [Json.single, fromDocument, find?_builtin h]
  cases k <;> rfl

theorem exists_single_of_fromDocument {r : Registry} {doc : Json} {c : Clause}
    (h : r.fromDocument v doc = .ok c) : ∃ n body, doc = .single n body := by
  rw [fromDocument.eq_def] at h
  split at h
  · next n body => exact ⟨n, body, rfl⟩
  · exact nomatch h

theorem exists_kind_of_fromDocument {doc : Json} {c : Clause}
    (h : builtin.fromDocument v doc = .ok c) : ∃ n body k, doc = .single n body ∧
      builtin.find? n = some (.builtin k) ∧ clauseOfBody v body k = .ok c := by
  have hbuiltin : ∀ e ∈ builtin.constructors, ∃ k, e.2 = .builtin k := by
    rw [constructors_builtin]
    simp
  obtain ⟨n, body, rfl⟩ := exists_single_of_fromDocument h
  rw [Json.single, fromDocument] at h
  cases hf : builtin.find? n with
  | none => rw [hf] at h; exact nomatch h
  | some made =>
    have hget : Assoc.get? (Text.lower n) builtin.constructors = some made := by rw [← hf, find?]
    obtain ⟨k, rfl⟩ : ∃ k, made = .builtin k := hbuiltin _ (Assoc.mem_of_get? hget)
    rw [hf] at h
    refine ⟨n, body, k, rfl, hf, ?_⟩
    rw [← h]
    cases k <;> rfl

theorem kind_of_clauseOfBody {k : ClauseKind} {body : Json} {c : Clause}
    (h : clauseOfBody v body k = .ok c) : c.kind = k := by
  cases k <;> simp only [clauseOfBody, Outcome.bind_eq_ok] at h <;> obtain ⟨_, -, h⟩ := h <;>
    exact Except.ok.inj h ▸ rfl

end Registry

/-! ### Clauses about one field -/

theorem Json.soleEntry_eq_ok_iff {j p : Json} : j.soleEntry = .ok (n, p) ↔ j = .single n p := by
  unfold soleEntry
  split
  · exact ⟨fun h => by cases h; rfl, fun h => by cases h; rfl⟩
  · next hne => exact ⟨fun h => (nomatch h), fun h => absurd h (hne (n, p))⟩

namespace FieldClause

theorem entry_eq_ok_iff {k : FieldKind} {body p : Json} :
    entry k body = .ok (n, p) ↔ body = .single n p :=
  Outcome.mapError_eq_ok.trans Json.soleEntry_eq_ok_iff

/-- The parameters of a clause whose main one may stand alone. -/
def paramsOf (main : String) : Json → Assoc Json
  | .obj members => Assoc.ofEntries members
  | value => [(main, value)]

theorem sorted_paramsOf (main : String) (p : Json) : (paramsOf main p).Sorted := by
  cases p with
  | obj members => exact Assoc.sorted_ofEntries members
  | _ => exact List.pairwise_singleton _ _

/-- **A clause about a field is rebuilt** from the name of the field and its parameters. -/
theorem ofBody_eq_ok_iff {k : FieldKind} {main : String} {body : Json} {c : FieldClause k} :
    ofBody k main body v = .ok c ↔ v.isSupported = true ∧ ∃ n p, isFieldName n = true ∧
      body = .single n p ∧ c = ⟨n, ⟨paramsOf main p, v, []⟩⟩ := by
  have hput : ∀ (n : String) (p : Json), (match p with
      | .obj members => putAll (⟨n, .empty v []⟩ : FieldClause k) members
      | value => put ⟨n, .empty v []⟩ main value) = ⟨n, ⟨paramsOf main p, v, []⟩⟩ := by
    intro n p
    cases p with
    | obj members => exact congrArg (FieldClause.mk n) (Params.putAll_empty v members)
    | _ => exact congrArg (FieldClause.mk n) (Params.put_of_not_gated rfl _)
  simp only [ofBody, Outcome.bind_eq_ok, new_eq_ok_iff]
  constructor
  · rintro ⟨⟨n, p⟩, he, c', ⟨hn, hv, rfl⟩, h⟩
    exact ⟨hv, n, p, hn, entry_eq_ok_iff.mp he, (Except.ok.inj h).symm.trans (hput n p)⟩
  · rintro ⟨hv, n, p, hn, rfl, rfl⟩
    exact ⟨(n, p), entry_eq_ok_iff.mpr rfl, _, ⟨hn, hv, rfl⟩, congrArg _ (hput n p)⟩

end FieldClause

theorem Range.ofBody_eq_ok_iff {body : Json} {c : Range} (main : String) :
    Range.ofBody body v = .ok c ↔ FieldClause.ofBody .range main body v = .ok c ∧
      ∃ n members, body = .single n (.obj members) := by
  simp only [FieldClause.ofBody_eq_ok_iff, Range.ofBody, Outcome.bind_eq_ok]
  constructor
  · rintro ⟨⟨n, p⟩, he, h⟩
    cases p with
    | obj members =>
      obtain ⟨c', hc', h⟩ := Outcome.bind_eq_ok.mp h
      obtain ⟨hn, hv, rfl⟩ := FieldClause.new_eq_ok_iff.mp hc'
      refine ⟨⟨hv, n, _, hn, FieldClause.entry_eq_ok_iff.mp he, ?_⟩, n, members,
        FieldClause.entry_eq_ok_iff.mp he⟩
      exact (Except.ok.inj h).symm.trans (congrArg (FieldClause.mk n) (Params.putAll_empty v _))
    | _ => exact nomatch h
  · rintro ⟨⟨hv, n, p, hn, rfl, rfl⟩, n', members, h⟩
    cases h
    refine ⟨(n, .obj members), FieldClause.entry_eq_ok_iff.mpr rfl, ?_⟩
    refine Outcome.bind_eq_ok.mpr ⟨_, FieldClause.new_eq_ok_iff.mpr ⟨hn, hv, rfl⟩, ?_⟩
    exact congrArg Except.ok (congrArg (FieldClause.mk n) (Params.putAll_empty v _))

namespace Registry

theorem normalize_single {k : ClauseKind} (h : Text.lower n = k.name) (body : Json) :
    builtin.normalize v (.single n body) =
      clauseOfBody v body k >>= fun c => .ok c.document := by
  rw [normalize, fromDocument_single h]
  rfl

/-- **A term, a search or a range becomes a document with its field and its parameters.** Those of
a range are a mapping. -/
theorem document_of_field {k : FieldKind} (hk : k ≠ .sort) {body : Json} {c : Clause}
    (h : clauseOfBody v body k.toClauseKind = .ok c) : v.isSupported = true ∧ ∃ main n p,
      isFieldName n = true ∧ body = .single n p ∧ (k = .range → p.isMapping = true) ∧
      c.document = .single k.toClauseKind.name (.single n (.obj (FieldClause.paramsOf main p))) := by
  cases k with
  | term =>
    obtain ⟨c', hc, h⟩ := Outcome.bind_eq_ok.mp h
    obtain ⟨hv, n, p, hn, hb, rfl⟩ := FieldClause.ofBody_eq_ok_iff.mp hc
    exact ⟨hv, _, n, p, hn, hb, fun hr => (nomatch hr), by rw [← Except.ok.inj h]; rfl⟩
  | fullText =>
    obtain ⟨c', hc, h⟩ := Outcome.bind_eq_ok.mp h
    obtain ⟨hv, n, p, hn, hb, rfl⟩ := FieldClause.ofBody_eq_ok_iff.mp hc
    exact ⟨hv, _, n, p, hn, hb, fun hr => (nomatch hr), by rw [← Except.ok.inj h]; rfl⟩
  | range =>
    obtain ⟨c', hc, h⟩ := Outcome.bind_eq_ok.mp h
    obtain ⟨hf, n', members, hm⟩ := (Range.ofBody_eq_ok_iff "").mp hc
    obtain ⟨hv, n, p, hn, hb, rfl⟩ := FieldClause.ofBody_eq_ok_iff.mp hf
    have hp : p.isMapping = true := by
      cases hb.symm.trans hm
      rfl
    exact ⟨hv, _, n, p, hn, hb, fun _ => hp, by rw [← Except.ok.inj h]; rfl⟩
  | sort => exact absurd rfl hk

/-- A term, a search or a range with its parameters in order is rebuilt as itself. -/
theorem rebuilds_field {k : FieldKind} (hk : k ≠ .sort) (hv : v.isSupported = true)
    (hn : isFieldName n = true) {ps : Assoc Json} (hs : ps.Sorted) :
    (Json.single k.toClauseKind.name (.single n (.obj ps))).Rebuilds v := by
  have hc : ∀ main, FieldClause.ofBody k main (.single n (.obj ps)) v =
      .ok ⟨n, ⟨ps, v, []⟩⟩ := fun main => by
    refine FieldClause.ofBody_eq_ok_iff.mpr ⟨hv, n, _, hn, rfl, ?_⟩
    rw [FieldClause.paramsOf, Assoc.ofEntries_of_sorted hs]
  rw [Json.Rebuilds, normalize_single (lower_name _)]
  cases k with
  | term => exact Outcome.bind_eq_ok.mpr ⟨_, Outcome.bind_eq_ok.mpr ⟨_, hc _, rfl⟩, rfl⟩
  | fullText => exact Outcome.bind_eq_ok.mpr ⟨_, Outcome.bind_eq_ok.mpr ⟨_, hc _, rfl⟩, rfl⟩
  | range =>
    have hr := (Range.ofBody_eq_ok_iff "").mpr ⟨hc _, n, ps, rfl⟩
    exact Outcome.bind_eq_ok.mpr ⟨_, Outcome.bind_eq_ok.mpr ⟨_, hr, rfl⟩, rfl⟩
  | sort => exact absurd rfl hk

end Registry

/-! ### Matches of one of several values -/

theorem Terms.ofBody_eq_ok_iff {body : Json} {c : Terms} :
    Terms.ofBody body v = .ok c ↔ v.isSupported = true ∧ ∃ members n, body = .obj members ∧
      fieldOf? members = some n ∧ isFieldName n = true ∧
      c = ⟨n, ⟨Assoc.ofEntries members, v, []⟩⟩ := by
  unfold Terms.ofBody
  constructor
  · intro h
    cases body with
    | obj members =>
      cases hf : fieldOf? members with
      | none => simp [hf] at h
      | some n =>
        simp only [hf] at h
        obtain ⟨c', hc', h⟩ := Outcome.bind_eq_ok.mp h
        obtain ⟨hn, hv, rfl⟩ := new_eq_ok_iff.mp hc'
        refine ⟨hv, members, n, rfl, hf, hn, ?_⟩
        exact (Except.ok.inj h).symm.trans (congrArg (Terms.mk n) (Params.putAll_empty v members))
    | _ => exact nomatch h
  · rintro ⟨hv, members, n, rfl, hf, hn, rfl⟩
    simp only [hf]
    refine Outcome.bind_eq_ok.mpr ⟨_, new_eq_ok_iff.mpr ⟨hn, hv, rfl⟩, ?_⟩
    exact congrArg Except.ok (congrArg (Terms.mk n) (Params.putAll_empty v members))

namespace Registry

theorem document_of_terms {body : Json} {c : Clause} (h : clauseOfBody v body .terms = .ok c) :
    v.isSupported = true ∧ ∃ members n, body = .obj members ∧
      Terms.fieldOf? members = some n ∧ isFieldName n = true ∧
      c.document = .single ClauseKind.terms.name (.obj (Assoc.ofEntries members)) := by
  obtain ⟨c', hc, h⟩ := Outcome.bind_eq_ok.mp h
  obtain ⟨hv, members, n, hb, hf, hn, rfl⟩ := Terms.ofBody_eq_ok_iff.mp hc
  exact ⟨hv, members, n, hb, hf, hn, by rw [← Except.ok.inj h]; rfl⟩

/-- **A match of several values is rebuilt as itself** iff a list of values has the name of a
field. -/
theorem rebuilds_terms_iff (hv : v.isSupported = true) {ps : Assoc Json} (hs : ps.Sorted) :
    (Json.single ClauseKind.terms.name (.obj ps)).Rebuilds v ↔
      ∃ n, Terms.fieldOf? ps = some n ∧ isFieldName n = true := by
  rw [Json.Rebuilds, normalize_single (lower_name .terms)]
  constructor
  · intro h
    obtain ⟨c, hc, -⟩ := Outcome.bind_eq_ok.mp h
    obtain ⟨-, members, n, hb, hf, hn, -⟩ := document_of_terms hc
    cases hb
    exact ⟨n, hf, hn⟩
  · rintro ⟨n, hf, hn⟩
    have hc : Terms.ofBody (.obj ps) v = .ok ⟨n, ⟨ps, v, []⟩⟩ := by
      refine Terms.ofBody_eq_ok_iff.mpr ⟨hv, ps, n, rfl, hf, hn, ?_⟩
      rw [Assoc.ofEntries_of_sorted hs]
    exact Outcome.bind_eq_ok.mpr ⟨_, Outcome.bind_eq_ok.mpr ⟨_, hc, rfl⟩, rfl⟩

end Registry

end SearchCompiler
