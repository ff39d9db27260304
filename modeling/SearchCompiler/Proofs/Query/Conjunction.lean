import SearchCompiler.Proofs.Group.Joined
import SearchCompiler.Proofs.Request.Members
import SearchCompiler.Query.Basic

/-! # Predicates of a query

A query with several predicates is their conjunction: if it compiles, so does the query with each of
them alone, and its group holds iff the groups of all of them do. A condition with several values is
the conjunction or the disjunction of its comparisons.

* `Query.restrict_eq_ok_iff`, `Query.foldlM_restrict_eq_ok_iff`: one predicate, and several.
* `Query.exists_compile_of_joinAll`: predicates that are joined by one connective.
* `Query.restrict_conjunction`: both laws. -/

namespace SearchCompiler

/-- **Does the query of a request hold**, given which clauses do? -/
def Json.queryHolds (σ : Json → Bool) (request : Json) : Bool :=
  ((request.get? "query").map (holds σ)).getD false

namespace Request.Parts

variable {c : Config} {s : Statement}

theorem queryHolds_document (p : Parts c s) (σ : Json → Bool) :
    p.document.queryHolds σ = p.query.document.holds σ := by
  have hq : p.document.get? "query" = some p.query.document :=
    p.get?_document.mpr List.mem_cons_self
  rw [Json.queryHolds, hq]
  rfl

/-- A statement that compiles also does with another predicate that compiles. -/
theorem exists_compile_withFilter (p : Parts c s) {root : Option Expr} {g : BoolGroup}
    (h : compileWhere c root = .ok g) :
    ∃ doc, ({ s with filter := root } : Statement).compile c = .ok doc ∧
      ∀ σ, doc.queryHolds σ = g.document.holds σ := by
  let p' : Parts c { s with filter := root } := { p with query := g, query_eq := h }
  exact ⟨p'.document, Statement.compile_eq_ok_iff.mpr ⟨p', rfl⟩, p'.queryHolds_document⟩

end Request.Parts

/-! ### Joined expressions -/

theorem Expr.bind_joinAll (s : Schema) (o : Op) (rest : List Expr) : ∀ first : Expr,
    (first.joinAll o rest).bind s = (first.bind s).joinAll o (rest.map (Expr.bind s)) := by
  induction rest with
  | nil => exact fun _ => rfl
  | cons e rest ih => exact fun first => ih _

namespace TupleCondition

/-- The comparison with one of the values. -/
def comparison (t : TupleCondition) (o : Op) (v : Value) : Expr := .node o t.field (.value v)

/-- **The expression of a tuple condition** joins its comparisons. -/
theorem toExpr_eq_ok_iff {t : TupleCondition} {e : Expr} : t.toExpr = .ok e ↔
    ∃ o relation v vs, readOp t.op = .ok o ∧ readOp t.relation = .ok relation ∧
      relation.isLogical = true ∧ t.values = v :: vs ∧
      e = (t.comparison o v).joinAll relation (vs.map (t.comparison o)) := by
  have hchain : ∀ o relation v vs, chain t.field o relation (.node o t.field (.value v)) vs =
      (t.comparison o v).joinAll relation (vs.map (t.comparison o)) := fun o relation v vs => by
    rw [chain, Expr.joinAll, List.foldl_map]
    rfl
  simp only [toExpr, Outcome.bind_eq_ok]
  constructor
  · rintro ⟨o, ho, relation, hr, h⟩
    split at h
    · next hl =>
      split at h
      · cases h
      · next v vs hv =>
        exact ⟨o, relation, v, vs, ho, hr, hl, hv, (Except.ok.inj h).symm.trans (hchain ..)⟩
    · cases h
  · rintro ⟨o, relation, v, vs, ho, hr, hl, hv, rfl⟩
    refine ⟨o, ho, relation, hr, ?_⟩
    rw [if_pos hl, hv]
    exact congrArg Except.ok (hchain ..)

end TupleCondition

namespace Query

variable {q q' : Query} {c : Config}

/-- An expression with its names bound to the schema, if there is one. -/
def bound (q : Query) (e : Expr) : Expr := q.schema.elim e fun s => e.bind s

theorem bound_joinAll (q : Query) (o : Op) (first : Expr) (rest : List Expr) :
    q.bound (first.joinAll o rest) = (q.bound first).joinAll o (rest.map q.bound) := by
  unfold bound
  cases q.schema with
  | none => simp
  | some s => exact Expr.bind_joinAll s o rest first

/-- The query with another predicate. -/
def withFilter (q : Query) (root : Option Expr) : Query :=
  { q with statement := { q.statement with filter := root } }

/-! ### Adding predicates -/

theorem restrict_eq_ok_iff {p : PredicateSource} : q.restrict p = .ok q' ↔
    ∃ e, p.toExpr = .ok e ∧ q' = q.withFilter (some (joined (q.bound e) q.statement.filter)) := by
  rw [restrict, Outcome.bind_eq_ok]
  constructor
  · rintro ⟨e, he, h⟩
    exact ⟨e, he, (Except.ok.inj h).symm⟩
  · rintro ⟨e, he, rfl⟩
    exact ⟨e, he, rfl⟩

/-- Predicates that are added one after the other are joined from the left. -/
theorem foldlM_restrict_eq_ok_iff {ps : List PredicateSource} :
    ps.foldlM restrict q = .ok q' ↔ ∃ es, List.Forall₂ (fun p e => p.toExpr = .ok e) ps es ∧
      q' = q.withFilter (es.foldl (fun f e => some (joined (q.bound e) f)) q.statement.filter) := by
  induction ps generalizing q with
  | nil =>
    rw [List.foldlM_nil]
    constructor
    · intro h
      exact ⟨[], .nil, (Except.ok.inj h).symm⟩
    · rintro ⟨es, hes, rfl⟩
      rw [List.forall₂_nil_left_iff.mp hes]
      rfl
  | cons p ps ih =>
    simp only [List.foldlM_cons, Outcome.bind_eq_ok, restrict_eq_ok_iff, ih,
      List.forall₂_cons_left_iff]
    constructor
    · rintro ⟨_, ⟨e, he, rfl⟩, es, hes, rfl⟩
      exact ⟨e :: es, ⟨e, es, he, hes, rfl⟩, rfl⟩
    · rintro ⟨_, ⟨e, es, he, hes, rfl⟩, rfl⟩
      exact ⟨_, ⟨e, he, rfl⟩, es, hes, rfl⟩

theorem foldl_joined (q : Query) (es : List Expr) : ∀ first : Expr,
    es.foldl (fun f e => some (joined (q.bound e) f)) (some first) =
      some (first.joinAll .and (es.map q.bound)) := by
  induction es with
  | nil => exact fun _ => rfl
  | cons e es ih => exact fun first => ih _

/-- **What the query with this predicate alone compiles to.** -/
def CompilesTo (q : Query) (c : Config) (p : PredicateSource) (doc : Json) : Prop :=
  ∃ q', q.restrict p = .ok q' ∧ q'.compile c = .ok doc

theorem compilesTo_of_filter (hq : q.statement.filter = none) {p : PredicateSource} {e : Expr}
    {doc : Json} (he : p.toExpr = .ok e)
    (h : (q.withFilter (some (q.bound e))).compile c = .ok doc) : q.CompilesTo c p doc := by
  refine ⟨_, restrict_eq_ok_iff.mpr ⟨e, he, rfl⟩, ?_⟩
  rw [hq]
  exact h

/-- **What is joined compiles alone**, and the query holds as the connective joins what the parts
hold for. -/
theorem exists_compile_of_joinAll {o : Op} (ho : o.isLogical = true) {first : Expr}
    {rest : List Expr} {doc : Json}
    (h : (q.withFilter (some (q.bound (first.joinAll o rest)))).compile c = .ok doc) :
    ∃ docs,
      List.Forall₂ (fun e d => (q.withFilter (some (q.bound e))).compile c = .ok d)
        (first :: rest) docs ∧
      ∀ σ, doc.queryHolds σ = o.joins (docs.map (Json.queryHolds σ)) := by
  rw [bound_joinAll] at h
  obtain ⟨p, rfl⟩ := Statement.compile_eq_ok_iff.mp h
  obtain ⟨hall, hσ⟩ := compileWhere_joinAll ho p.query_eq
  obtain ⟨docs, hdocs⟩ := Outcome.exists_forall₂ (first :: rest)
    (R := fun e d => (q.withFilter (some (q.bound e))).compile c = .ok d ∧
      ∀ σ, (q.bound e).holds c.version σ = d.queryHolds σ) fun e he => by
    obtain ⟨g, hg, hm⟩ := hall (q.bound e) (List.mem_map_of_mem (f := q.bound) he)
    obtain ⟨doc, hdoc, hd⟩ := p.exists_compile_withFilter hg
    exact ⟨doc, hdoc, fun σ => ((hd σ).trans (hm σ)).symm⟩
  refine ⟨docs, hdocs.imp fun _ _ h => h.1, fun σ => ?_⟩
  have hmap : (first :: rest).map (fun e => (q.bound e).holds c.version σ) =
      docs.map (Json.queryHolds σ) :=
    Outcome.map_eq_map_iff.mpr (hdocs.imp fun _ _ h => h.2 σ)
  rw [p.queryHolds_document, hσ, ← hmap, List.map_cons, List.map_cons, List.map_map]
  rfl

/-- **A query is the conjunction of its predicates**, and a condition with several values joins its
comparisons. Whatever is joined compiles alone, and the query of the whole holds as the connective
joins those of the parts, whichever clauses hold. -/
theorem restrict_conjunction {q : Query} (hq : q.statement.filter = none) (c : Config) :
    (∀ ps q' doc, ps.foldlM restrict q = .ok q' → q'.compile c = .ok doc →
      ∃ docs, List.Forall₂ (q.CompilesTo c) ps docs ∧
        ∀ σ, doc.queryHolds σ = docs.all (Json.queryHolds σ)) ∧
    ∀ t doc, q.CompilesTo c (.tuple t) doc → ∃ o relation docs,
      TupleCondition.readOp t.op = .ok o ∧ TupleCondition.readOp t.relation = .ok relation ∧
      List.Forall₂ (fun v => q.CompilesTo c (.expr (.node o t.field (.value v)))) t.values docs ∧
      (relation = .and ∧ (∀ σ, doc.queryHolds σ = docs.all (Json.queryHolds σ)) ∨
        relation = .or ∧ ∀ σ, doc.queryHolds σ = docs.any (Json.queryHolds σ)) := by
  constructor
  · intro ps q' doc hps hdoc
    obtain ⟨es, hes, rfl⟩ := foldlM_restrict_eq_ok_iff.mp hps
    rw [hq] at hdoc
    cases es with
    | nil =>
      obtain ⟨p, rfl⟩ := Statement.compile_eq_ok_iff.mp hdoc
      rw [List.forall₂_nil_right_iff.mp hes]
      refine ⟨[], .nil, fun σ => ?_⟩
      rw [p.queryHolds_document]
      exact holds_of_compileWhere_none p.query_eq σ
    | cons e es =>
      rw [List.foldl_cons, joined, foldl_joined, ← bound_joinAll] at hdoc
      obtain ⟨docs, hdocs, hσ⟩ := exists_compile_of_joinAll (o := .and) rfl hdoc
      refine ⟨docs, Outcome.forall₂_comp (fun p e d he hd => ?_) hes hdocs, fun σ => ?_⟩
      · exact compilesTo_of_filter hq he hd
      rw [hσ, Op.joins_and, List.all_map]
      rfl
  · intro t doc h
    obtain ⟨q', hr, hdoc⟩ := h
    obtain ⟨e, he, rfl⟩ := restrict_eq_ok_iff.mp hr
    have ht : t.toExpr = .ok e := by
      rw [PredicateSource.toExpr, Compile.ofPredicate, Outcome.mapError_eq_ok] at he
      exact he
    obtain ⟨o, relation, v, vs, ho, hrel, hl, hv, rfl⟩ := TupleCondition.toExpr_eq_ok_iff.mp ht
    rw [hq] at hdoc
    obtain ⟨docs, hdocs, hσ⟩ := exists_compile_of_joinAll hl hdoc
    have hvalues : List.Forall₂ (fun v => q.CompilesTo c (.expr (.node o t.field (.value v))))
        t.values docs := by
      have hmap := (List.forall₂_map_left_iff (f := t.comparison o) (l := v :: vs)).mp hdocs
      rw [hv]
      exact hmap.imp fun v d h => compilesTo_of_filter hq rfl h
    refine ⟨o, relation, docs, ho, hrel, hvalues, ?_⟩
    rcases Op.isLogical_iff.mp hl with rfl | rfl
    · refine Or.inl ⟨rfl, fun σ => ?_⟩
      rw [hσ, Op.joins_and, List.all_map]
      rfl
    · refine Or.inr ⟨rfl, fun σ => ?_⟩
      rw [hσ, Op.joins_or, List.any_map]
      rfl

/-- Two alternatives for one field. -/
def alternatives : TupleCondition where
  field := .name "host"
  op := "="
  values := [.str "a", .str "b"]
  relation := "or"

/-- The expression of the alternatives. -/
def eitherHost : Expr :=
  (alternatives.comparison .eq (.str "a")).joinAll .or [alternatives.comparison .eq (.str "b")]

/-- The alternatives and an exclusion. -/
def mixedSources : List PredicateSource :=
  [.tuple alternatives, .expr (.compare "size" .ne (.int 3))]

theorem toExpr_alternatives : (PredicateSource.tuple alternatives).toExpr = .ok eitherHost := by
  rw [PredicateSource.toExpr, Compile.ofPredicate, Outcome.mapError_eq_ok]
  exact TupleCondition.toExpr_eq_ok_iff.mpr
    ⟨.eq, .or, _, _, by decide +kernel, by decide +kernel, rfl, rfl, rfl⟩

theorem exists_compilesTo_alternatives : ∃ doc, CompilesTo {} {} (.tuple alternatives) doc := by
  obtain ⟨doc, h⟩ : ∃ doc, ({ filter := some eitherHost } : Statement).compile {} = .ok doc := by
    refine Statement.exists_compile_filter_iff.mpr ?_
    rw [compileWhere_eq rfl]
    exact ⟨_, rfl⟩
  exact ⟨doc, compilesTo_of_filter rfl toExpr_alternatives h⟩

theorem exists_compile_mixedSources :
    ∃ q' doc, mixedSources.foldlM restrict {} = .ok q' ∧ q'.compile {} = .ok doc := by
  obtain ⟨doc, h⟩ : ∃ doc, ({ filter := some (eitherHost.joinAll .and
      [.compare "size" .ne (.int 3)]) } : Statement).compile {} = .ok doc := by
    refine Statement.exists_compile_filter_iff.mpr ?_
    rw [compileWhere_eq rfl]
    exact ⟨_, rfl⟩
  have hes : List.Forall₂ (fun p e => PredicateSource.toExpr p = .ok e) mixedSources
      [eitherHost, .compare "size" .ne (.int 3)] := .cons toExpr_alternatives (.cons rfl .nil)
  exact ⟨_, doc, foldlM_restrict_eq_ok_iff.mpr ⟨_, hes, rfl⟩, h⟩

theorem restrict_conjunction_mixedSources : ({} : Query).statement.filter = none ∧
    (∃ q' doc docs, mixedSources.foldlM restrict {} = .ok q' ∧ q'.compile {} = .ok doc ∧
      List.Forall₂ (CompilesTo {} {}) mixedSources docs ∧
      ∀ σ, doc.queryHolds σ = docs.all (Json.queryHolds σ)) ∧
    ∃ doc, CompilesTo {} {} (.tuple alternatives) doc ∧ ∃ o relation docs,
      TupleCondition.readOp "=" = .ok o ∧ TupleCondition.readOp "or" = .ok relation ∧
      List.Forall₂ (fun v => CompilesTo {} {} (.expr (.node o (.name "host") (.value v))))
        [.str "a", .str "b"] docs ∧
      (relation = .and ∧ (∀ σ, doc.queryHolds σ = docs.all (Json.queryHolds σ)) ∨
        relation = .or ∧ ∀ σ, doc.queryHolds σ = docs.any (Json.queryHolds σ)) := by
  obtain ⟨hall, htuple⟩ := restrict_conjunction (q := {}) rfl {}
  obtain ⟨q', doc, hps, hdoc⟩ := exists_compile_mixedSources
  obtain ⟨docs, hdocs⟩ := hall mixedSources q' doc hps hdoc
  obtain ⟨tdoc, ht⟩ := exists_compilesTo_alternatives
  exact ⟨rfl, ⟨q', doc, docs, hps, hdoc, hdocs⟩, tdoc, ht, htuple alternatives tdoc ht⟩

end Query

end SearchCompiler
