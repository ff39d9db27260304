import SearchCompiler.Proofs.Json.Canonical
import SearchCompiler.Proofs.Rebuild.Group

/-! # Rebuilding is a normalization

A query document is a tree of boolean groups over terms, searches and ranges. Rebuilding it writes
the names of the clauses in lower case and gives every shorthand its full form; what comes out is
rebuilt as itself. A document without capital letters and shorthands is kept as it is.

* `Json.HasClause`: the clauses in a query document, at any depth.
* `rebuilds_document_of_fromDocument`: rebuilding is a normalization. -/

namespace SearchCompiler

namespace Json

/-- **The document has a clause** of this name and body: its own, or one in a list of a group that it
has. -/
inductive HasClause : Json → String → Json → Prop
  | root {doc : Json} {n : String} {body : Json} (h : (n, body) ∈ doc.fields) :
    HasClause doc n body
  | item {doc d : Json} {g n : String} {members : Assoc Json} {o : Occur} {value body : Json}
    (hg : (g, .obj members) ∈ doc.fields) (hb : Text.lower g = ClauseKind.bool.name)
    (hv : (o.key, value) ∈ members) (hd : d ∈ Params.itemsOf (some value))
    (h : HasClause d n body) : HasClause doc n body

/-- All clauses are queries, their names in any case. -/
def IsQuery (doc : Json) : Prop :=
  ∀ n body, doc.HasClause n body → ∃ k : ClauseKind, k.isQuery = true ∧ Text.lower n = k.name

/-- **No capital letters and no shorthands**: the names of all clauses are in lower case, and terms
and searches have their parameters in a mapping. -/
structure IsPlain (doc : Json) : Prop where
  lower : ∀ n body, doc.HasClause n body → Text.lower n = n
  longhand : ∀ n body, doc.HasClause n body → n = "term" ∨ n = "match" →
    ∀ e ∈ body.fields, e.2.isMapping = true

/-- What holds of the own clause of a document and of those in its lists holds of all its clauses. -/
theorem forall_hasClause_single {P : String → Json → Prop} {g : String} {body : Json} (h : P g body)
    (hi : ∀ (members : Assoc Json) (o : Occur) value, Text.lower g = ClauseKind.bool.name →
      body = .obj members → (o.key, value) ∈ members → ∀ d ∈ Params.itemsOf (some value),
      ∀ n b, d.HasClause n b → P n b) : ∀ n b, (single g body).HasClause n b → P n b := by
  intro n b hn
  generalize hd : single g body = doc at hn
  cases hn with
  | root hm =>
    subst hd
    cases List.mem_singleton.mp hm
    exact h
  | item hg hb hv hm hn =>
    subst hd
    cases List.mem_singleton.mp hg
    exact hi _ _ _ hb rfl hv _ hm _ _ hn

/-! ### Parts of a document -/

theorem Canonical.of_mem_itemsOf {j d : Json} (h : j.Canonical)
    (hd : d ∈ Params.itemsOf (some j)) : d.Canonical := by
  cases j with
  | arr items =>
    rw [Canonical] at h
    exact canonicalItems_iff.mp h d hd
  | null => simp [Params.itemsOf] at hd
  | _ =>
    rw [List.mem_singleton.mp hd]
    exact h

section
variable {members : Assoc Json} {g : String} {o : Occur} {value d : Json}

theorem IsQuery.item (h : (single g (.obj members)).IsQuery)
    (hb : Text.lower g = ClauseKind.bool.name) (hv : (o.key, value) ∈ members)
    (hd : d ∈ Params.itemsOf (some value)) : d.IsQuery := fun n body hn =>
  h n body (.item List.mem_cons_self hb hv hd hn)

theorem IsPlain.item (h : (single g (.obj members)).IsPlain)
    (hb : Text.lower g = ClauseKind.bool.name) (hv : (o.key, value) ∈ members)
    (hd : d ∈ Params.itemsOf (some value)) : d.IsPlain where
  lower n body hn := h.lower n body (.item List.mem_cons_self hb hv hd hn)
  longhand n body hn := h.longhand n body (.item List.mem_cons_self hb hv hd hn)

theorem sizeOf_item_lt (hv : (o.key, value) ∈ members) (hd : d ∈ Params.itemsOf (some value)) :
    sizeOf d < sizeOf (single g (.obj members)) := by
  obtain ⟨w, hw, hle⟩ := sizeOf_lt_of_mem_itemsOf hd
  obtain rfl := Option.some.inj hw
  have := List.sizeOf_lt_of_mem hv
  simp only [single, Json.obj.sizeOf_spec, List.cons.sizeOf_spec, Prod.mk.sizeOf_spec] at *
  omega

end

end Json

theorem Clause.isMapping_document (c : Clause) : c.document.isMapping = true := by
  cases c with
  | bool g =>
    obtain ⟨f, p⟩ := g
    cases f <;> rfl
  | _ => rfl

namespace Registry

variable {v : Version} {doc d : Json}

theorem exists_single_of_normalize {r : Registry} (h : r.normalize v doc = .ok d) :
    ∃ n body, doc = .single n body := by
  obtain ⟨c, hc, -⟩ := Outcome.bind_eq_ok.mp h
  exact exists_single_of_fromDocument hc

theorem isMapping_of_normalize {r : Registry} (h : r.normalize v doc = .ok d) :
    d.isMapping = true := by
  obtain ⟨c, -, hc⟩ := Outcome.bind_eq_ok.mp h
  rw [← Except.ok.inj hc]
  exact c.isMapping_document

/-- **Rebuilding the document settles it**: what comes out is rebuilt as itself, and it is the
document if that is plain. -/
def Settles (v : Version) (doc : Json) : Prop :=
  ∀ d, builtin.normalize v doc = .ok d → d.Rebuilds v ∧ (doc.IsPlain → d = doc)

theorem normalizeClauses_settles {value j : Json} (h : builtin.normalizeClauses v value = .ok j)
    (ih : ∀ d ∈ Params.itemsOf (some value), Settles v d) :
    builtin.normalizeClauses v j = .ok j ∧
      ((∀ d ∈ Params.itemsOf (some value), d.IsPlain) → j = value) := by
  have single : ∀ {value}, builtin.normalize v value = .ok j → Settles v value →
      builtin.normalizeClauses v j = .ok j ∧ (value.IsPlain → j = value) := fun {value} h hs => by
    have hj : builtin.normalizeClauses v j = builtin.normalize v j := by
      have := isMapping_of_normalize h
      cases j <;> first | rfl | exact nomatch this
    exact ⟨hj.trans (hs j h).1, (hs j h).2⟩
  cases value with
  | arr items =>
    obtain ⟨docs, hdocs, h⟩ := Outcome.bind_eq_ok.mp h
    obtain rfl := Except.ok.inj h
    obtain ⟨hitems, hmem⟩ := Outcome.exists_of_mem_mapM hdocs
    refine ⟨Outcome.bind_eq_ok.mpr ⟨docs, Outcome.mapM_eq_self_iff.mpr fun d hd => ?_, rfl⟩,
      fun hp => ?_⟩
    · obtain ⟨a, ha, had⟩ := hmem d hd
      exact (ih a ha d had).1
    · have hself : items.mapM (builtin.normalize v) = .ok items :=
        Outcome.mapM_eq_self_iff.mpr fun a ha => by
          obtain ⟨d, -, had⟩ := hitems a ha
          rw [had, (ih a ha d had).2 (hp a ha)]
      rw [Except.ok.inj (hdocs.symm.trans hself)]
  | null =>
    obtain ⟨n, body, h⟩ := exists_single_of_normalize (r := builtin) h
    exact nomatch h
  | _ =>
    obtain ⟨h1, h2⟩ := single h (ih _ (List.mem_singleton.mpr rfl))
    exact ⟨h1, fun hp => h2 (hp _ (List.mem_singleton.mpr rfl))⟩

theorem settles_group {g : String} {members : Assoc Json} (hs : members.Sorted)
    (hg : Text.lower g = ClauseKind.bool.name)
    (ih : ∀ (o : Occur) value, (o.key, value) ∈ members → ∀ d ∈ Params.itemsOf (some value),
      Settles v d) : Settles v (.single g (.obj members)) := by
  intro d hd
  obtain ⟨hv, es, hes, rfl⟩ := exists_members_of_normalize hs hg hd
  obtain ⟨hfrom, hto⟩ := Outcome.exists_of_mem_mapM hes
  -- a member in a list of clauses settles with its clauses, any other one is kept
  have hmember : ∀ e ∈ members, ∀ e', builtin.normalizeMember v e = .ok e' →
      builtin.normalizeMember v e' = .ok e' ∧ ((Json.single g (.obj members)).IsPlain → e' = e) := by
    rintro ⟨k, value⟩ he e' he'
    cases ho : Occur.ofKey? k with
    | none =>
      have hkept := normalizeMember_of_none (r := builtin) (v := v) ho value
      obtain rfl := Except.ok.inj (hkept.symm.trans he')
      exact ⟨hkept, fun _ => rfl⟩
    | some o =>
      obtain rfl := Occur.ofKey?_eq_some_iff.mp ho
      obtain ⟨j, hj, rfl⟩ := normalizeMember_key_eq_ok_iff.mp he'
      obtain ⟨h1, h2⟩ := normalizeClauses_settles hj (ih o value he)
      refine ⟨normalizeMember_key_eq_ok_iff.mpr ⟨j, h1, rfl⟩, fun hp => ?_⟩
      rw [h2 fun d hd => hp.item hg he hd]
  constructor
  · refine (rebuilds_group_iff hv (hs.of_keys (keys_of_normalizeMembers hes))).mpr fun e' he' => ?_
    obtain ⟨e, he, h⟩ := hto e' he'
    exact (hmember e he e' h).1
  · intro hp
    have hself : members.mapM (builtin.normalizeMember v) = .ok members :=
      Outcome.mapM_eq_self_iff.mpr fun e he => by
        obtain ⟨e', -, h⟩ := hfrom e he
        rw [h, (hmember e he e' h).2 hp]
    have hg' : g = ClauseKind.bool.name := (hp.lower _ _ (.root List.mem_cons_self)).symm.trans hg
    rw [hg', Except.ok.inj (hes.symm.trans hself)]
    rfl

theorem settles_field {k : FieldKind} (hk : k ≠ .sort) {n : String} {body : Json}
    (hn : Text.lower n = k.toClauseKind.name) (hc : (Json.single n body).Canonical) :
    Settles v (.single n body) := by
  intro d hd
  rw [normalize_single hn] at hd
  obtain ⟨c, hb, h⟩ := Outcome.bind_eq_ok.mp hd
  obtain ⟨hv, main, f, p, hf, rfl, hr, hdoc⟩ := document_of_field hk hb
  obtain rfl := Except.ok.inj h
  rw [hdoc]
  refine ⟨rebuilds_field hk hv hf (FieldClause.sorted_paramsOf main p), fun hp => ?_⟩
  have hn' : n = k.toClauseKind.name := (hp.lower _ _ (.root List.mem_cons_self)).symm.trans hn
  have hm : p.isMapping = true := by
    have hlong := hp.longhand n (.single f p) (.root List.mem_cons_self)
    cases k with
    | term => exact hlong (Or.inl hn') (f, p) List.mem_cons_self
    | fullText => exact hlong (Or.inr hn') (f, p) List.mem_cons_self
    | range => exact hr rfl
    | sort => exact absurd rfl hk
  cases p with
  | obj ps =>
    have hs : Assoc.Sorted ps :=
      ((hc.of_mem List.mem_cons_self).of_mem List.mem_cons_self).sorted
    rw [hn', FieldClause.paramsOf, Assoc.ofEntries_of_sorted hs]
  | _ => cases hm

theorem settles_terms {n : String} {body : Json} (hn : Text.lower n = ClauseKind.terms.name)
    (hc : (Json.single n body).Canonical) : Settles v (.single n body) := by
  intro d hd
  rw [normalize_single hn] at hd
  obtain ⟨c, hb, h⟩ := Outcome.bind_eq_ok.mp hd
  obtain ⟨hv, ps, f, rfl, hf, hf', hdoc⟩ := document_of_terms hb
  obtain rfl := Except.ok.inj h
  have hs : Assoc.Sorted ps := (hc.of_mem List.mem_cons_self).sorted
  rw [hdoc, Assoc.ofEntries_of_sorted hs]
  refine ⟨(rebuilds_terms_iff hv hs).mpr ⟨f, hf, hf'⟩, fun hp => ?_⟩
  rw [(hp.lower _ _ (.root List.mem_cons_self)).symm.trans hn]

/-- **Every query document settles**, by induction on its size. -/
theorem settles (doc : Json) (hc : doc.Canonical) (hq : doc.IsQuery) : Settles v doc := by
  induction hsize : sizeOf doc using Nat.strongRecOn generalizing doc with
  | ind size ih =>
    subst hsize
    intro d hd
    obtain ⟨n, body, rfl⟩ := exists_single_of_normalize hd
    obtain ⟨k, hk, hn⟩ := hq n body (.root List.mem_cons_self)
    revert d
    cases k with
    | bool =>
      intro d hd
      cases body with
      | obj members =>
        have hm : (Json.obj members).Canonical := hc.of_mem List.mem_cons_self
        refine settles_group hm.sorted hn (fun o value hv d hd => ?_) d hd
        have hlt := Json.sizeOf_item_lt (g := n) hv hd
        exact ih _ hlt d ((hm.of_mem hv).of_mem_itemsOf hd) (hq.item hn hv hd) rfl
      | _ =>
        rw [normalize_single hn] at hd
        simp [clauseOfBody, groupOfBody] at hd
    | term => exact settles_field (k := .term) (by decide) hn hc
    | fullText => exact settles_field (k := .fullText) (by decide) hn hc
    | range => exact settles_field (k := .range) (by decide) hn hc
    | terms => exact settles_terms hn hc
    | _ => cases hk

end Registry

/-- **Rebuilding is a normalization.** The clause that a query document is rebuilt as has a document
that is rebuilt as itself; and it is the document that was given if that has no capital letters and
no shorthands. -/
theorem rebuilds_document_of_fromDocument {v : Version} {doc : Json} {c : Clause}
    (h : Registry.builtin.fromDocument v doc = .ok c) (hc : doc.Canonical) (hq : doc.IsQuery) :
    (∃ c', Registry.builtin.fromDocument v c.document = .ok c' ∧ c'.document = c.document) ∧
      (doc.IsPlain → c.document = doc) := by
  have hn : Registry.builtin.normalize v doc = .ok c.document :=
    Outcome.bind_eq_ok.mpr ⟨c, h, rfl⟩
  obtain ⟨hr, hp⟩ := Registry.settles doc hc hq c.document hn
  obtain ⟨c', hc', he⟩ := Outcome.bind_eq_ok.mp hr
  exact ⟨⟨c', hc', Except.ok.inj he⟩, hp⟩

namespace Json

/-- A range, and a match of several values with an option beside them. -/
def mixedGroup : Json :=
  .single "bool" (.obj [
    ("filter", .arr [.single "range" (.single "size" (.single "gt" (.num (.int 3))))]),
    ("must_not", .arr [.single "terms" (.obj [("boost", .num (.int 2)), ("tags", .arr [.str "a"])])])])

theorem canonical_mixedGroup : mixedGroup.Canonical := by
  simp only [mixedGroup, single, Canonical, CanonicalFields, CanonicalItems, and_true]
  decide

theorem forall_hasClause_mixedGroup {P : String → Json → Prop} (hg : ∀ b, P "bool" b)
    (hr : ∀ b, P "range" b) (ht : ∀ b, P "terms" b) :
    ∀ n b, mixedGroup.HasClause n b → P n b := by
  have hrange : Text.lower "range" ≠ ClauseKind.bool.name := fun h =>
    absurd ((Registry.lower_name .range).symm.trans h) (by decide)
  have hterms : Text.lower "terms" ≠ ClauseKind.bool.name := fun h =>
    absurd ((Registry.lower_name .terms).symm.trans h) (by decide)
  refine forall_hasClause_single (hg _) fun members o value _ hm hv d hd => ?_
  cases hm
  simp only [List.mem_cons, Prod.mk.injEq, List.not_mem_nil, or_false] at hv
  rcases hv with ⟨-, rfl⟩ | ⟨-, rfl⟩
  · rw [List.mem_singleton.mp hd]
    exact forall_hasClause_single (hr _) fun _ _ _ hb => absurd hb hrange
  · rw [List.mem_singleton.mp hd]
    exact forall_hasClause_single (ht _) fun _ _ _ hb => absurd hb hterms

theorem isQuery_mixedGroup : mixedGroup.IsQuery :=
  forall_hasClause_mixedGroup (fun _ => ⟨.bool, rfl, Registry.lower_name .bool⟩)
    (fun _ => ⟨.range, rfl, Registry.lower_name .range⟩)
    (fun _ => ⟨.terms, rfl, Registry.lower_name .terms⟩)

theorem isPlain_mixedGroup : mixedGroup.IsPlain where
  lower := forall_hasClause_mixedGroup (fun _ => Registry.lower_name .bool)
    (fun _ => Registry.lower_name .range) (fun _ => Registry.lower_name .terms)
  longhand := forall_hasClause_mixedGroup (fun _ h => by simp at h) (fun _ h => by simp at h)
    (fun _ h => by simp at h)

theorem rebuilds_mixedGroup : mixedGroup.Rebuilds .standard := by
  have hr : (single "range" (.single "size" (.single "gt" (.num (.int 3))))).Rebuilds .standard :=
    Registry.rebuilds_field (k := .range) (by decide) rfl rfl (List.pairwise_singleton _ _)
  have ht : (single "terms" (.obj [("boost", .num (.int 2)), ("tags", .arr [.str "a"])])).Rebuilds
      .standard :=
    (Registry.rebuilds_terms_iff rfl (by decide)).mpr ⟨"tags", rfl, rfl⟩
  refine (Registry.rebuilds_group_iff rfl (by decide)).mpr fun e he => ?_
  simp only [List.mem_cons, List.not_mem_nil, or_false] at he
  rcases he with rfl | rfl
  · exact Registry.normalizeMember_list_iff (o := .filter).mpr (List.forall_mem_singleton.mpr hr)
  · exact Registry.normalizeMember_list_iff (o := .mustNot).mpr (List.forall_mem_singleton.mpr ht)

end Json

theorem rebuilds_document_of_mixedGroup : ∃ c,
    Registry.builtin.fromDocument .standard Json.mixedGroup = .ok c ∧ Json.mixedGroup.Canonical ∧
      Json.mixedGroup.IsQuery ∧ Json.mixedGroup.IsPlain ∧
      (∃ c', Registry.builtin.fromDocument .standard c.document = .ok c' ∧
        c'.document = c.document) ∧ (Json.mixedGroup.IsPlain → c.document = Json.mixedGroup) := by
  obtain ⟨c, hc, -⟩ := Outcome.bind_eq_ok.mp Json.rebuilds_mixedGroup
  exact ⟨c, hc, Json.canonical_mixedGroup, Json.isQuery_mixedGroup, Json.isPlain_mixedGroup,
    rebuilds_document_of_fromDocument hc Json.canonical_mixedGroup Json.isQuery_mixedGroup⟩

end SearchCompiler
