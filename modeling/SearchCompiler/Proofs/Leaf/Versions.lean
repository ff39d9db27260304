import SearchCompiler.Proofs.Clause.Construct
import SearchCompiler.Proofs.Leaf.Clause

/-! # Leaves for two versions

A clause keeps the version that it is made for, but the version is not in its document, and no key
of a leaf depends on it. So for any two supported versions a leaf fails in the same way or has the
same document; what is no clause is the same for both.

* `Compiled.Alike`: results that differ in versions only.
* `Leaf.agree_compile`, `Leaf.side_eq`: expressions and the sides of comparisons. -/

namespace SearchCompiler

variable {v w : Version}

/-! ### Making clauses -/

/-- A clause about a field fails for its name only, and then for both versions. -/
theorem agree_requireField {α : Type} (hv : v.isSupported = true) (hw : w.isSupported = true)
    (k : ClauseKind) (n : String) (f : String → Params → α) :
    Outcome.Agree (fun a b => ∃ n, a = f n (.empty v []) ∧ b = f n (.empty w []))
      (Compile.ofClause (requireField k n >>= fun n => Params.new v [] >>= fun p => .ok (f n p)))
      (Compile.ofClause (requireField k n >>= fun n => Params.new w [] >>= fun p =>
        .ok (f n p))) := by
  rw [Params.new_eq_ok_iff.mpr ⟨hv, rfl⟩, Params.new_eq_ok_iff.mpr ⟨hw, rfl⟩]
  cases requireField k n with
  | error e => exact .error _
  | ok n => exact .ok ⟨n, rfl, rfl⟩

theorem FieldClause.agree_new (hv : v.isSupported = true) (hw : w.isSupported = true)
    (k : FieldKind) (n : String) :
    Outcome.Agree (fun c d : FieldClause k => ∃ n, c = ⟨n, .empty v []⟩ ∧ d = ⟨n, .empty w []⟩)
      (Compile.ofClause (new k n v)) (Compile.ofClause (new k n w)) :=
  agree_requireField hv hw k.toClauseKind n FieldClause.mk

theorem Terms.agree_new (hv : v.isSupported = true) (hw : w.isSupported = true) (n : String) :
    Outcome.Agree (fun c d : Terms => ∃ n, c = ⟨n, .empty v []⟩ ∧ d = ⟨n, .empty w []⟩)
      (Compile.ofClause (new n v)) (Compile.ofClause (new n w)) :=
  agree_requireField hv hw .terms n Terms.mk

/-! ### Comparisons -/

/-- **Results that differ in versions only**: clauses have the same document, and anything else is
the same. -/
inductive Compiled.Alike : Compiled → Compiled → Prop
  | clause {c d : Clause} (h : c.document = d.document) (inverted : Bool) :
    Alike (.clause c inverted) (.clause d inverted)
  | operand (field : FieldRef) (inverse : Inverse) :
    Alike (.operand field inverse) (.operand field inverse)
  | metric (field : String) (kind : MetricKind) : Alike (.metric field kind) (.metric field kind)

theorem Compiled.Alike.refl (x : Compiled) : Alike x x := by
  cases x with
  | clause c inverted => exact .clause rfl inverted
  | operand f i => exact .operand f i
  | metric n k => exact .metric n k

namespace Leaf

namespace Comparison

/-- The same document, to be negated or not. -/
def Alike (p q : Clause × Bool) : Prop := p.1.document = q.1.document ∧ p.2 = q.2

/-- What a clause is made of comes first and does not depend on the version. -/
theorem agree_made {α β : Type} {R : α → α → Prop} {x y : Compile α} (h : Outcome.Agree R x y)
    (value : Compile β) {f : β → α → Clause × Bool} (hf : ∀ b c d, R c d → Alike (f b c) (f b d)) :
    Outcome.Agree Alike (value >>= fun b => x >>= fun c => .ok (f b c))
      (value >>= fun b => y >>= fun c => .ok (f b c)) := by
  refine .bind_left value fun b _ => ?_
  exact h.bind fun c d _ _ hcd => .ok (hf b c d hcd)

/-- **The clause of a comparison** has the same document for both versions. -/
theorem agree_clause (hv : v.isSupported = true) (hw : w.isSupported = true) (cmp : Comparison)
    (o : Op) : Outcome.Agree Alike (cmp.clause v o) (cmp.clause w o) := by
  have hnew := fun k => FieldClause.agree_new hv hw k cmp.field.name
  have hrange : ∀ b, o.bound? = some b → Outcome.Agree Alike (cmp.clause v o) (cmp.clause w o) := by
    intro b hb
    rw [clause_range hb, clause_range hb]
    refine agree_made (hnew .range) _ fun value c d h => ?_
    obtain ⟨n, rfl, rfl⟩ := h
    exact ⟨rfl, rfl⟩
  have hterm : o = .eq ∨ o = .ne → Outcome.Agree Alike (cmp.clause v o) (cmp.clause w o) := by
    intro ho
    rw [clause_term ho, clause_term ho]
    refine agree_made (hnew .term) _ fun value c d h => ?_
    obtain ⟨n, rfl, rfl⟩ := h
    exact ⟨rfl, rfl⟩
  have hsearch : o.isSearch = true → Outcome.Agree Alike (cmp.clause v o) (cmp.clause w o) := by
    intro ho
    rw [clause_search ho, clause_search ho]
    refine agree_made (hnew .fullText) _ fun query c d h => ?_
    obtain ⟨n, rfl, rfl⟩ := h
    exact ⟨by split <;> rfl, rfl⟩
  cases o with
  | lt | lte | gt | gte => exact hrange _ rfl
  | eq => exact hterm (Or.inl rfl)
  | ne => exact hterm (Or.inr rfl)
  | textMatch | matchAll | notMatch => exact hsearch rfl
  | isIn =>
    refine agree_made (Terms.agree_new hv hw cmp.field.name) (cmp.prepareAll (valuesOf cmp.value))
      fun values c d h => ?_
    obtain ⟨n, rfl, rfl⟩ := h
    exact ⟨rfl, rfl⟩
  | _ => exact .error _

end Comparison

/-! ### Expressions -/

mutual

/-- **An expression compiles alike** for both versions. -/
theorem agree_compile (hv : v.isSupported = true) (hw : w.isSupported = true) :
    ∀ e : Expr, Outcome.Agree Compiled.Alike (compile v e) (compile w e)
  | .node o l r => by
    rw [compile, compile]
    cases o.cls with
    | relational =>
      rw [side_eq hv hw o l, side_eq hv hw o r]
      refine .bind_left _ fun a _ => .bind_left _ fun b _ => .bind_left _ fun cmp _ => ?_
      refine (cmp.agree_clause hv hw _).bind fun p q _ _ h => .ok ?_
      obtain ⟨c, inverted⟩ := p
      obtain ⟨d, _⟩ := q
      obtain ⟨hd, rfl⟩ := h
      exact .clause hd inverted
    | arithmetic => exact (Outcome.Agree.refl _).imp fun _ _ h => h ▸ .refl _
    | aggregation => exact (Outcome.Agree.refl _).imp fun _ _ h => h ▸ .refl _
    | logical => exact .error _

/-- One side of a comparison is the same for both versions. -/
theorem side_eq (hv : v.isSupported = true) (hw : w.isSupported = true) (o : Op) :
    ∀ x : Operand, side v o x = side w o x
  | .expr e => by
    rw [side, side]
    refine (agree_compile hv hw e).bind_eq fun x y h => ?_
    cases h <;> rfl
  | .field f => rfl
  | .name n => rfl
  | .value x => by cases x <;> rfl

end

end Leaf

end SearchCompiler
