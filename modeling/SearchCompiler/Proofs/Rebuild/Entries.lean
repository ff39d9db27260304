import Mathlib.Logic.Relation
import SearchCompiler.Proofs.Rebuild.Normal

/-! # The entries of a rebuilt group

The lists of a boolean group have entries, which may be groups themselves. Rebuilding takes each
entry through the registry, and so the entries of the new group are the documents that the old ones
are rebuilt as. That of a query is a query under its own name. But the registry also has the clauses
that stand elsewhere in a request, whose documents have no name of their own; it puts them into a
group like any others.

* `Json.HasEntry`: the entries in the lists of a group.
* `Json.IsQueryClause`, `Json.OnlyQueries`: a query by its name, with nothing but queries in it.
* `Registry.exists_entry_iff`: the entries of a rebuilt group are the rebuilt entries.
* `entries_isQueryClause_iff`: when a rebuilt group has only queries, at every depth. -/

namespace SearchCompiler

namespace Json

/-- **The group has an entry** in one of its lists. -/
inductive HasEntry : Json → Json → Prop
  | mk {g : String} {members : Assoc Json} {o : Occur} {value e : Json}
    (hg : Text.lower g = ClauseKind.bool.name) (hv : (o.key, value) ∈ members)
    (he : e ∈ Params.itemsOf (some value)) : HasEntry (.single g (.obj members)) e

/-- Is this a mapping of a single key, which is the name of a query? -/
def IsQueryClause (e : Json) : Prop :=
  ∃ (k : ClauseKind) (body : Json), k.isQuery = true ∧ e = .single k.name body

/-- Does the document name a query, in any case? -/
def NamesQuery (e : Json) : Prop :=
  ∃ (k : ClauseKind) (n : String) (body : Json),
    k.isQuery = true ∧ e = .single n body ∧ Text.lower n = k.name

/-- **A query clause with nothing but query clauses in it**, at any depth. -/
def OnlyQueries (e : Json) : Prop := ∀ x, Relation.ReflTransGen HasEntry e x → x.IsQueryClause

variable {d e x : Json} {g : String} {body : Json}

theorem hasEntry_single_iff (hg : Text.lower g = ClauseKind.bool.name) {members : Assoc Json} :
    (single g (.obj members)).HasEntry e ↔
      ∃ (o : Occur) (value : Json), (o.key, value) ∈ members ∧ e ∈ Params.itemsOf (some value) := by
  constructor
  · intro h
    generalize hd : single g (.obj members) = d at h
    obtain ⟨hg', hv, he⟩ := h
    cases hd
    exact ⟨_, _, hv, he⟩
  · rintro ⟨o, value, hv, he⟩
    exact .mk hg hv he

theorem not_hasEntry_single (hg : Text.lower g ≠ ClauseKind.bool.name) :
    ¬ (single g body).HasEntry e := by
  intro h
  generalize hd : single g body = d at h
  obtain ⟨hg', -, -⟩ := h
  cases hd
  exact hg hg'

theorem HasEntry.canonical (h : d.HasEntry e) (hd : d.Canonical) : e.Canonical := by
  obtain ⟨hg, hv, he⟩ := h
  have hmembers : (Json.obj _).Canonical := hd.of_mem List.mem_cons_self
  exact (hmembers.of_mem hv).of_mem_itemsOf he

theorem canonical_of_reach (hx : Relation.ReflTransGen HasEntry d x) (hd : d.Canonical) :
    x.Canonical := by
  induction hx with
  | refl => exact hd
  | tail _ he ih => exact he.canonical ih

theorem HasEntry.sizeOf_lt (h : d.HasEntry e) : sizeOf e < sizeOf d := by
  obtain ⟨hg, hv, he⟩ := h
  exact sizeOf_item_lt hv he

theorem HasEntry.isQuery (h : d.HasEntry e) (hd : d.IsQuery) : e.IsQuery := by
  obtain ⟨hg, hv, he⟩ := h
  exact hd.item hg hv he

theorem isQuery_of_reach (hx : Relation.ReflTransGen HasEntry d x) (hd : d.IsQuery) :
    x.IsQuery := by
  induction hx with
  | refl => exact hd
  | tail _ he ih => exact he.isQuery ih

theorem OnlyQueries.of_reach (h : e.OnlyQueries) (hx : Relation.ReflTransGen HasEntry e x) :
    x.OnlyQueries := fun y hy => h y (hx.trans hy)

theorem onlyQueries_iff : d.OnlyQueries ↔ d.IsQueryClause ∧ ∀ e, d.HasEntry e → e.OnlyQueries := by
  constructor
  · intro h
    exact ⟨h d .refl, fun e he => h.of_reach (.single he)⟩
  · rintro ⟨hd, hentries⟩ x hx
    rcases Relation.ReflTransGen.cases_head hx with rfl | ⟨e, he, hx⟩
    · exact hd
    · exact hentries e he x hx

end Json

namespace Registry

open Json

variable {v : Version} {doc d e : Json}

/-! ### One group -/

/-- **A query is rebuilt under its own name.** -/
theorem document_of_query {k : ClauseKind} (hk : k.isQuery = true) {n : String} {body : Json}
    (hn : Text.lower n = k.name) (h : builtin.normalize v (.single n body) = .ok d) :
    ∃ body', d = .single k.name body' := by
  rw [normalize_single hn] at h
  obtain ⟨c, hc, h⟩ := Outcome.bind_eq_ok.mp h
  obtain rfl := Except.ok.inj h
  cases k with
  | bool =>
    obtain ⟨g, -, hc⟩ := Outcome.bind_eq_ok.mp hc
    obtain rfl := Except.ok.inj hc
    rw [Clause.document, BoolGroup.document]
    split <;> exact ⟨_, rfl⟩
  | term =>
    obtain ⟨-, main, f, p, -, -, -, hd⟩ := document_of_field (k := .term) (by decide) hc
    exact ⟨_, hd⟩
  | fullText =>
    obtain ⟨-, main, f, p, -, -, -, hd⟩ := document_of_field (k := .fullText) (by decide) hc
    exact ⟨_, hd⟩
  | range =>
    obtain ⟨-, main, f, p, -, -, -, hd⟩ := document_of_field (k := .range) (by decide) hc
    exact ⟨_, hd⟩
  | terms =>
    obtain ⟨-, members, n, -, -, -, hd⟩ := document_of_terms hc
    exact ⟨_, hd⟩
  | _ => cases hk

/-- What becomes of a list of clauses is the list of what becomes of them. -/
theorem mapM_itemsOf_of_normalizeClauses {value j : Json}
    (h : builtin.normalizeClauses v value = .ok j) :
    (Params.itemsOf (some value)).mapM (builtin.normalize v) =
      .ok (Params.itemsOf (some j)) := by
  have hsingle : builtin.normalize v value = .ok j →
      [value].mapM (builtin.normalize v) = .ok (Params.itemsOf (some j)) := by
    intro h
    have hj : Params.itemsOf (some j) = [j] := by
      have := isMapping_of_normalize h
      cases j <;> first | rfl | exact nomatch this
    rw [hj, Outcome.mapM_eq_ok_iff]
    exact .cons h .nil
  cases value with
  | arr items =>
    obtain ⟨docs, hdocs, h⟩ := Outcome.bind_eq_ok.mp h
    obtain rfl := Except.ok.inj h
    exact hdocs
  | null =>
    obtain ⟨n, body, h⟩ := exists_single_of_normalize (r := builtin) h
    exact nomatch h
  | _ => exact hsingle h

/-- **The entries of a rebuilt group** are the documents that its entries are rebuilt as. -/
theorem entries_of_normalize {g : String} {members : Assoc Json} (hs : members.Sorted)
    (hg : Text.lower g = ClauseKind.bool.name)
    (h : builtin.normalize v (.single g (.obj members)) = .ok d) :
    (∀ e, (Json.single g (.obj members)).HasEntry e →
        ∃ e', builtin.normalize v e = .ok e' ∧ d.HasEntry e') ∧
      ∀ e', d.HasEntry e' →
        ∃ e, builtin.normalize v e = .ok e' ∧ (Json.single g (.obj members)).HasEntry e := by
  obtain ⟨-, es, hes, rfl⟩ := exists_members_of_normalize hs hg h
  obtain ⟨hfrom, hto⟩ := Outcome.exists_of_mem_mapM hes
  constructor
  · intro e he
    obtain ⟨o, value, hv, he⟩ := (hasEntry_single_iff hg).mp he
    obtain ⟨_, hmem, hmember⟩ := hfrom _ hv
    obtain ⟨j, hj, rfl⟩ := normalizeMember_key_eq_ok_iff.mp hmember
    have hitems := mapM_itemsOf_of_normalizeClauses hj
    obtain ⟨e', he', hd⟩ := (Outcome.exists_of_mem_mapM hitems).1 e he
    exact ⟨e', hd, .mk (lower_name .bool) hmem he'⟩
  · intro e' he'
    obtain ⟨o, j, hmem, he'⟩ := (hasEntry_single_iff (lower_name .bool)).mp he'
    obtain ⟨⟨k, value⟩, hv, hmember⟩ := hto _ hmem
    obtain rfl : o.key = k := key_of_normalizeMember hmember
    obtain ⟨j', hj, heq⟩ := normalizeMember_key_eq_ok_iff.mp hmember
    obtain ⟨-, rfl⟩ := Prod.mk.inj heq
    have hitems := mapM_itemsOf_of_normalizeClauses hj
    obtain ⟨e, he, hd⟩ := (Outcome.exists_of_mem_mapM hitems).2 e' he'
    exact ⟨e, hd, .mk hg hv he⟩

/-! ### Groups in groups -/

/-- What is rebuilt stands where it stood. -/
theorem exists_reach_of_normalize {x : Json} (hx : Relation.ReflTransGen HasEntry doc x)
    (hc : doc.Canonical) (h : builtin.normalize v doc = .ok d) :
    ∃ d', builtin.normalize v x = .ok d' ∧ Relation.ReflTransGen HasEntry d d' := by
  induction hx with
  | refl => exact ⟨d, h, .refl⟩
  | tail hy he ih =>
    obtain ⟨d', hd', hreach⟩ := ih
    have hcanonical := canonical_of_reach hy hc
    have he' := he
    obtain ⟨hg, hv, _⟩ := he'
    have hm : (Json.obj _).Canonical := hcanonical.of_mem List.mem_cons_self
    obtain ⟨e', hn, he'⟩ := (entries_of_normalize hm.sorted hg hd').1 _ he
    exact ⟨e', hn, hreach.tail he'⟩

/-- **A query with a name in any case** is rebuilt as a query clause, whose entries are the rebuilt
entries. -/
theorem isQueryClause_of_namesQuery (hq : doc.NamesQuery) (hc : doc.Canonical)
    (h : builtin.normalize v doc = .ok d) : d.IsQueryClause ∧
      ∀ e', d.HasEntry e' → ∃ e, builtin.normalize v e = .ok e' ∧ doc.HasEntry e := by
  obtain ⟨k, n, body, hk, rfl, hn⟩ := hq
  obtain ⟨body', rfl⟩ := document_of_query hk hn h
  refine ⟨⟨k, body', hk, rfl⟩, fun e' he' => ?_⟩
  by_cases hbool : k = .bool
  · subst hbool
    cases body with
    | obj members =>
      have hm : (Json.obj members).Canonical := hc.of_mem List.mem_cons_self
      exact (entries_of_normalize hm.sorted hn h).2 e' he'
    | _ =>
      rw [normalize_single hn] at h
      simp [clauseOfBody, groupOfBody] at h
  · have hname : Text.lower k.name ≠ ClauseKind.bool.name := by
      rw [lower_name]
      exact fun heq => hbool (by cases k <;> first | rfl | exact absurd heq (by decide))
    exact absurd he' (not_hasEntry_single hname)

/-- **Where a rebuilt document has only queries in it**: where all that names no query happens to be
rebuilt as one. -/
theorem onlyQueries_iff_of_normalize (hc : doc.Canonical) (h : builtin.normalize v doc = .ok d) :
    d.OnlyQueries ↔ ∀ x, Relation.ReflTransGen HasEntry doc x → ¬ x.NamesQuery →
      ∀ d', builtin.normalize v x = .ok d' → d'.OnlyQueries := by
  constructor
  · intro hd x hx _ d' hd'
    obtain ⟨d'', hd'', hreach⟩ := exists_reach_of_normalize hx hc h
    obtain rfl := Except.ok.inj (hd'.symm.trans hd'')
    exact hd.of_reach hreach
  · intro hother
    induction hsize : sizeOf doc using Nat.strongRecOn generalizing doc d with
    | ind size ih =>
      subst hsize
      by_cases hq : doc.NamesQuery
      · obtain ⟨hclause, hentries⟩ := isQueryClause_of_namesQuery hq hc h
        refine onlyQueries_iff.mpr ⟨hclause, fun e' he' => ?_⟩
        obtain ⟨e, hn, he⟩ := hentries e' he'
        exact ih _ he.sizeOf_lt (he.canonical hc) hn
          (fun x hx => hother x (.head he hx)) rfl
      · exact hother doc .refl hq d h

theorem exists_group_of_fromDocument {body : Json} {c : Clause}
    (h : builtin.fromDocument v (BoolGroup.wrap body) = .ok c) : ∃ g, c = .bool g := by
  rw [BoolGroup.wrap, fromDocument_single (lower_name .bool)] at h
  obtain ⟨g, -, hg⟩ := Outcome.bind_eq_ok.mp h
  exact ⟨g, (Except.ok.inj hg).symm⟩

theorem namesQuery_of_fromDocument {g : BoolGroup}
    (h : builtin.fromDocument v doc = .ok (.bool g)) : doc.NamesQuery := by
  obtain ⟨n, body, k, rfl, hk, hc⟩ := exists_kind_of_fromDocument h
  obtain rfl : .bool = k := kind_of_clauseOfBody hc
  exact ⟨.bool, n, body, rfl, rfl, lower_of_find?_builtin hk (by decide)⟩

theorem namesQuery_of_isQuery (hq : doc.IsQuery) (h : builtin.normalize v doc = .ok d) :
    doc.NamesQuery := by
  obtain ⟨n, body, rfl⟩ := exists_single_of_normalize h
  obtain ⟨k, hk, hn⟩ := hq n body (.root List.mem_cons_self)
  exact ⟨k, n, body, hk, rfl, hn⟩

end Registry

/-- **When a rebuilt group has only queries in its lists**, at every depth: exactly when each entry
of the old lists that names no query happens to be rebuilt as a query with only queries in it, as a
sort key is whose field is named like one. -/
theorem entries_isQueryClause_iff {v : Version} {doc : Json} {g : BoolGroup}
    (h : Registry.builtin.fromDocument v doc = .ok (.bool g)) (hc : doc.Canonical) :
    (∀ e, Relation.TransGen Json.HasEntry g.document e → e.IsQueryClause) ↔
      ∀ e, Relation.TransGen Json.HasEntry doc e → ¬ e.NamesQuery →
        ∀ d, Registry.builtin.normalize v e = .ok d → d.OnlyQueries := by
  have hn : Registry.builtin.normalize v doc = .ok g.document :=
    Outcome.bind_eq_ok.mpr ⟨.bool g, h, rfl⟩
  have hq : doc.NamesQuery := Registry.namesQuery_of_fromDocument h
  obtain ⟨hclause, -⟩ := Registry.isQueryClause_of_namesQuery hq hc hn
  have hroot : (∀ e, Relation.TransGen Json.HasEntry g.document e → e.IsQueryClause) ↔
      g.document.OnlyQueries := by
    constructor
    · intro hall x hx
      rcases Relation.reflTransGen_iff_eq_or_transGen.mp hx with rfl | hx
      · exact hclause
      · exact hall x hx
    · exact fun hall x hx => hall x hx.to_reflTransGen
  rw [hroot, Registry.onlyQueries_iff_of_normalize hc hn]
  constructor
  · exact fun hall e he => hall e he.to_reflTransGen
  · intro hall x hx hx'
    rcases Relation.reflTransGen_iff_eq_or_transGen.mp hx with rfl | hx
    · exact absurd hq hx'
    · exact hall x hx hx'

/-- A query document is rebuilt as one. -/
theorem entries_isQueryClause_mixedGroup : ∃ g : BoolGroup,
    Registry.builtin.fromDocument .standard Json.mixedGroup = .ok (.bool g) ∧
      Json.mixedGroup.Canonical ∧
      ∀ e, Relation.TransGen Json.HasEntry g.document e → e.IsQueryClause := by
  obtain ⟨c, hc, -⟩ := Outcome.bind_eq_ok.mp Json.rebuilds_mixedGroup
  obtain ⟨g, rfl⟩ := Registry.exists_group_of_fromDocument hc
  refine ⟨g, hc, Json.canonical_mixedGroup, ?_⟩
  refine (entries_isQueryClause_iff hc Json.canonical_mixedGroup).mpr fun e he hne d hd => ?_
  have hquery : e.IsQuery := Json.isQuery_of_reach he.to_reflTransGen Json.isQuery_mixedGroup
  exact absurd (Registry.namesQuery_of_isQuery hquery hd) hne

namespace Json

/-- A group that has the sort key of a request in one of its lists. -/
def sortedGroup : Json :=
  .single "bool" (.obj [("must", .arr [.single "sort" (.single "lineno" (.str "desc"))])])

/-- What it is rebuilt as. -/
def rebuiltSortedGroup : Json :=
  .single "bool" (.obj [("must", .arr [.single "lineno" (.single "order" (.str "desc"))])])

theorem normalize_sortedGroup :
    Registry.builtin.normalize .standard sortedGroup = .ok rebuiltSortedGroup := by
  have hsort : Registry.builtin.normalize .standard
      (.single "sort" (.single "lineno" (.str "desc"))) =
        .ok (.single "lineno" (.single "order" (.str "desc"))) :=
    (Registry.normalize_single (Registry.lower_name .sort) _).trans rfl
  have hclauses := Outcome.mapM_eq_ok_iff.mpr (.cons hsort .nil)
  have hmember : Registry.builtin.normalizeMember .standard (Occur.must.key, .arr _) = .ok _ :=
    Registry.normalizeMember_key_eq_ok_iff.mpr
      ⟨_, Outcome.bind_eq_ok.mpr ⟨_, hclauses, rfl⟩, rfl⟩
  refine (Registry.normalize_group rfl (List.pairwise_singleton _ _)).trans ?_
  exact Outcome.bind_eq_ok.mpr ⟨_, Outcome.mapM_eq_ok_iff.mpr (.cons hmember .nil), rfl⟩

theorem canonical_sortedGroup : sortedGroup.Canonical := by
  simp only [sortedGroup, single, Canonical, CanonicalFields, CanonicalItems, and_true]
  decide

end Json

/-- **The document of a sort key gets into a list of clauses**, under the name of its field. -/
theorem exists_entry_not_isQueryClause : Version.standard.isSupported = true ∧
    Json.sortedGroup.Canonical ∧ ∃ g : BoolGroup,
      Registry.builtin.fromDocument .standard Json.sortedGroup = .ok (.bool g) ∧
      ∃ e, Relation.TransGen Json.HasEntry g.document e ∧ ¬ e.IsQueryClause := by
  obtain ⟨c, hc, hd⟩ := Outcome.bind_eq_ok.mp Json.normalize_sortedGroup
  obtain ⟨g, rfl⟩ := Registry.exists_group_of_fromDocument hc
  have hdoc : g.document = Json.rebuiltSortedGroup := Except.ok.inj hd
  have hentry :
      Json.rebuiltSortedGroup.HasEntry (.single "lineno" (.single "order" (.str "desc"))) :=
    .mk (o := .must) (Registry.lower_name .bool) List.mem_cons_self List.mem_cons_self
  refine ⟨rfl, Json.canonical_sortedGroup, g, hc, _, .single (hdoc ▸ hentry), ?_⟩
  rintro ⟨k, body, hk, he⟩
  have hname : "lineno" = k.name := by
    simp only [Json.single, Json.obj.injEq, List.cons.injEq, Prod.mk.injEq, and_true] at he
    exact he.1
  revert hname
  cases k <;> decide

end SearchCompiler
