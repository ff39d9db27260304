import SearchCompiler.Compile.Leaf
import SearchCompiler.Proofs.Outcome

/-! # The clause of a leaf

A leaf has a clause if it is a comparison, and then the clause is a range, a term, a list of terms
or a search, by its operator. `Comparison.Yields` lists the four with all that they hold.

* `compile_eq_clause_iff`, `compile_eq_operand_iff`: which expressions have a clause, and which are
  operands of one.
* `Comparison.clause_eq_ok_iff`: the four kinds of clauses. -/

namespace SearchCompiler

/-- The operators that search a text for words. -/
def Op.isSearch : Op → Bool
  | .textMatch | .matchAll | .notMatch => true
  | _ => false

namespace Leaf

variable {v : Version} {c : Clause} {inverted : Bool}

theorem aggregation_eq_ok {o : Op} {x : Operand} {y : Compiled} (h : aggregation o x = .ok y) :
    ∃ n kind, y = .metric n kind := by
  unfold aggregation at h
  split at h
  · cases h
  · split at h
    · obtain ⟨f, -, h⟩ := Outcome.bind_eq_ok.mp h
      exact ⟨_, _, (Except.ok.inj h).symm⟩
    · exact ⟨_, _, (Except.ok.inj h).symm⟩
    · exact ⟨_, _, (Except.ok.inj h).symm⟩
    · cases h

/-- **Only comparisons have a clause**, that of their field and value. -/
theorem compile_eq_clause_iff {o : Op} {l r : Operand} :
    compile v (.node o l r) = .ok (.clause c inverted) ↔ o.cls = .relational ∧
      ∃ sl sr cmp, side v o l = .ok sl ∧ side v o r = .ok sr ∧
        Comparison.ofSides o sl sr = .ok cmp ∧
        cmp.clause v (cmp.effectiveOp o) = .ok (c, inverted) := by
  rw [compile]
  cases ho : o.cls with
  | relational =>
    simp only [Outcome.bind_eq_ok, true_and]
    constructor
    · rintro ⟨sl, hl, sr, hr, cmp, hcmp, p, hp, h⟩
      obtain ⟨rfl, rfl⟩ : p.1 = c ∧ p.2 = inverted := by simpa using h
      exact ⟨sl, sr, cmp, hl, hr, hcmp, hp⟩
    · rintro ⟨sl, sr, cmp, hl, hr, hcmp, hp⟩
      exact ⟨sl, hl, sr, hr, cmp, hcmp, _, hp, rfl⟩
  | arithmetic =>
    simp [Outcome.bind_eq_ok]
  | aggregation =>
    simp only [reduceCtorEq, false_and, iff_false]
    intro h
    obtain ⟨n, kind, h⟩ := aggregation_eq_ok h
    cases h
  | logical => simp

/-- **Only arithmetic nodes are operands**, with their field and their inverse. -/
theorem compile_eq_operand_iff {o : Op} {l r : Operand} {f : FieldRef} {i : Inverse} :
    compile v (.node o l r) = .ok (.operand f i) ↔
      o.cls = .arithmetic ∧ arithmetic o l r = .ok (f, i) := by
  rw [compile]
  cases ho : o.cls with
  | arithmetic => simp [Outcome.bind_eq_ok]
  | relational => simp [Outcome.bind_eq_ok]
  | aggregation =>
    simp only [reduceCtorEq, false_and, iff_false]
    intro h
    obtain ⟨n, kind, h⟩ := aggregation_eq_ok h
    cases h
  | logical => simp

theorem side_expr_eq_ok {o : Op} {e : Expr} {s : Side} (h : side v o (.expr e) = .ok s) :
    ∃ f i, compile v e = .ok (.operand f i) ∧ s = .field f (some i) := by
  rw [side] at h
  obtain ⟨c, hc, h⟩ := Outcome.bind_eq_ok.mp h
  split at h
  · cases h
    exact ⟨_, _, hc, rfl⟩
  · cases h

namespace Comparison

/-- **What a comparison yields** for an operator between its field and the prepared value. -/
inductive Yields (v : Version) (cmp : Comparison) : Op → Clause → Bool → Prop
  | range {o : Op} {b : Bound} {value : Json} {c : Range} (ho : o.bound? = some b)
    (hc : FieldClause.new .range cmp.field.name v = .ok c) (hv : cmp.prepared = .ok value) :
    Yields v cmp o (.range (Range.withBound c b value)) false
  | term {o : Op} {value : Json} {c : Term} (ho : o = .eq ∨ o = .ne)
    (hc : FieldClause.new .term cmp.field.name v = .ok c) (hv : cmp.prepared = .ok value) :
    Yields v cmp o (.term (Term.withValue c value)) (o == .ne)
  | terms {values : List Json} {c : Terms} (hc : Terms.new cmp.field.name v = .ok c)
    (hv : cmp.prepareAll (valuesOf cmp.value) = .ok values) :
    Yields v cmp .isIn (.terms (c.withValues values)) false
  | search {o : Op} {query : Json} {c : FullText} (ho : o.isSearch = true)
    (hc : FieldClause.new .fullText cmp.field.name v = .ok c) (hv : cmp.prepared = .ok query) :
    Yields v cmp o
      (.fullText (if o = .matchAll then FullText.withOperator (FullText.withQuery c query) "and"
        else FullText.withQuery c query)) (o == .notMatch)

section
variable {cmp : Comparison} {o : Op}

theorem clause_range {b : Bound} (ho : o.bound? = some b) :
    cmp.clause v o = cmp.prepared >>= fun value =>
      Compile.ofClause (FieldClause.new .range cmp.field.name v) >>= fun c =>
        .ok (.range (Range.withBound c b value), false) := by
  cases o <;> simp [Op.bound?] at ho <;> subst ho <;> rfl

theorem clause_term (ho : o = .eq ∨ o = .ne) :
    cmp.clause v o = cmp.prepared >>= fun value =>
      Compile.ofClause (FieldClause.new .term cmp.field.name v) >>= fun c =>
        .ok (.term (Term.withValue c value), o == .ne) := by
  rcases ho with rfl | rfl <;> rfl

theorem clause_search (ho : o.isSearch = true) :
    cmp.clause v o = cmp.prepared >>= fun query =>
      Compile.ofClause (FieldClause.new .fullText cmp.field.name v) >>= fun c =>
        .ok (.fullText
          (if o = .matchAll then FullText.withOperator (FullText.withQuery c query) "and"
            else FullText.withQuery c query), o == .notMatch) := by
  cases o <;> simp [Op.isSearch] at ho <;> rfl

/-- **The four kinds of clauses** of a comparison. -/
theorem clause_eq_ok_iff : cmp.clause v o = .ok (c, inverted) ↔ cmp.Yields v o c inverted := by
  constructor
  · intro h
    cases hb : o.bound? with
    | some b =>
      simp only [clause_range hb, Outcome.bind_eq_ok] at h
      obtain ⟨value, hv, c, hc, h⟩ := h
      cases h
      exact .range hb (Outcome.mapError_eq_ok.mp hc) hv
    | none =>
      by_cases ht : o = .eq ∨ o = .ne
      · simp only [clause_term ht, Outcome.bind_eq_ok] at h
        obtain ⟨value, hv, c, hc, h⟩ := h
        cases h
        exact .term ht (Outcome.mapError_eq_ok.mp hc) hv
      · by_cases hs : o.isSearch = true
        · simp only [clause_search hs, Outcome.bind_eq_ok] at h
          obtain ⟨query, hv, c, hc, h⟩ := h
          cases h
          exact .search hs (Outcome.mapError_eq_ok.mp hc) hv
        · by_cases hi : o = .isIn
          · subst hi
            simp only [clause, Outcome.bind_eq_ok] at h
            obtain ⟨values, hv, c, hc, h⟩ := h
            cases h
            exact .terms (Outcome.mapError_eq_ok.mp hc) hv
          · cases o <;> simp_all [Op.bound?, Op.isSearch, clause]
  · intro h
    cases h with
    | range ho hc hv =>
      rw [clause_range ho, hv, Outcome.ok_bind, Compile.ofClause, Outcome.mapError_eq_ok.mpr hc]
      rfl
    | term ho hc hv =>
      rw [clause_term ho, hv, Outcome.ok_bind, Compile.ofClause, Outcome.mapError_eq_ok.mpr hc]
      rfl
    | terms hc hv =>
      rw [clause, hv, Outcome.ok_bind, Compile.ofClause, Outcome.mapError_eq_ok.mpr hc]
      rfl
    | search ho hc hv =>
      rw [clause_search ho, hv, Outcome.ok_bind, Compile.ofClause, Outcome.mapError_eq_ok.mpr hc]
      rfl

end

end Comparison

end Leaf

end SearchCompiler
