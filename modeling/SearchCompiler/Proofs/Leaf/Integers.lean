import Mathlib.Data.Rat.Cast.Order
import SearchCompiler.Proofs.Clause.Construct
import SearchCompiler.Proofs.Leaf.Clause

/-! # Comparisons of integers

What a comparison says where the fields are integers, and what the clause that it compiles to says.
An expression is evaluated over the rationals, every field having the value that an assignment gives
it; a clause is read as the backend reads it, a range as comparisons of integers and a term as
equality.

* `Op.compares_apply_iff_of_strictMono`, `Op.compares_apply_iff_of_strictAnti`: which functions
  keep a comparison, and which turn it round.
* `Leaf.Comparison.Yields.holdsAt_iff`: the clause of a comparison with an integer, together with
  its inversion flag, says what the comparison says. -/

namespace SearchCompiler

/-! ### Comparisons -/

/-- **What a comparison says** about two members of an order. Other operators say nothing. -/
def Op.compares {α : Type} [LT α] [LE α] (o : Op) (a b : α) : Prop :=
  match o with
  | .eq => a = b
  | .ne => a ≠ b
  | .lt => a < b
  | .lte => a ≤ b
  | .gt => b < a
  | .gte => b ≤ a
  | _ => False

/-- The six comparisons of numbers. -/
def Op.isComparison (o : Op) : Bool := o.isOrdering || o == .eq || o == .ne

/-- The ordering that a bound asks for. -/
def Bound.op : Bound → Op
  | .gt => .gt
  | .gte => .gte
  | .lt => .lt
  | .lte => .lte

namespace Op

variable {α β : Type} {o : Op}

@[simp] theorem isComparison_converse (o : Op) : o.converse.isComparison = o.isComparison := by
  cases o <;> rfl

theorem bound?_eq_some_iff {b : Bound} : o.bound? = some b ↔ o = b.op := by
  cases o <;> cases b <;> decide

theorem compares_converse [Preorder α] (o : Op) (a b : α) :
    o.converse.compares a b ↔ o.compares b a := by
  cases o with
  | eq => exact eq_comm
  | ne => exact ne_comm
  | _ => exact Iff.rfl

/-- **An increasing function keeps every comparison.** -/
theorem compares_apply_iff_of_strictMono [LinearOrder α] [Preorder β] {f : α → β}
    (hf : StrictMono f) (o : Op) (a b : α) : o.compares (f a) (f b) ↔ o.compares a b := by
  cases o with
  | eq => exact hf.injective.eq_iff
  | ne => exact hf.injective.ne_iff
  | lt => exact hf.lt_iff_lt
  | lte => exact hf.le_iff_le
  | gt => exact hf.lt_iff_lt
  | gte => exact hf.le_iff_le
  | _ => exact Iff.rfl

/-- **A decreasing function turns every comparison round.** -/
theorem compares_apply_iff_of_strictAnti [LinearOrder α] [Preorder β] {f : α → β}
    (hf : StrictAnti f) (o : Op) (a b : α) : o.compares (f a) (f b) ↔ o.converse.compares a b := by
  cases o with
  | eq => exact hf.injective.eq_iff
  | ne => exact hf.injective.ne_iff
  | lt => exact hf.lt_iff_gt
  | lte => exact hf.le_iff_ge
  | gt => exact hf.lt_iff_gt
  | gte => exact hf.le_iff_ge
  | _ => exact Iff.rfl

end Op

/-! ### Expressions -/

/-- The value of an arithmetic operator; nothing is divided by zero. -/
def Op.arith? : Op → ℚ → ℚ → Option ℚ
  | .add, a, b => some (a + b)
  | .sub, a, b => some (a - b)
  | .mul, a, b => some (a * b)
  | .div, a, b => if b = 0 then none else some (a / b)
  | _, _, _ => none

mutual

/-- **The number that an expression stands for**, every field having its value. -/
def Expr.rat? (ρ : String → Int) : Expr → Option ℚ
  | .node o l r => do o.arith? (← l.rat? ρ) (← r.rat? ρ)

/-- The number on one side. -/
def Operand.rat? (ρ : String → Int) : Operand → Option ℚ
  | .expr e => e.rat? ρ
  | .field f => f.name.map fun n => (ρ n : ℚ)
  | .name n => some (ρ n)
  | .value v => v.int64?.map fun k => (k.toInt : ℚ)

end

/-- **Does a comparison hold** where the fields have these values? -/
def Expr.holdsAt (ρ : String → Int) : Expr → Prop
  | .node o l r => ∃ a b, l.rat? ρ = some a ∧ r.rat? ρ = some b ∧ o.compares a b

/-! ### Clauses -/

/-- **Does the field keep to the bounds** of a range? A bound that is no integer is never kept. -/
def Range.holdsAt (ρ : String → Int) (c : Range) : Prop :=
  ∀ b j, c.bound? b = some j → ∃ z, j = .num (.int z) ∧ b.op.compares (ρ c.field) z

/-- **Does the field have the value** of a term? -/
def Term.holdsAt (ρ : String → Int) (c : Term) : Prop := c.value? = some (.num (.int (ρ c.field)))

/-- **Does a clause hold** where the fields have these values? Only ranges and terms say something
about integers. -/
def Clause.holdsAt (ρ : String → Int) : Clause → Prop
  | .range c => Range.holdsAt ρ c
  | .term c => Term.holdsAt ρ c
  | _ => False

/-- **The values embedded in a clause**: what its field is compared with. -/
def Clause.embedded : Clause → List Json
  | .range c => Bound.all.filterMap (Range.bound? c)
  | .term c => (Term.value? c).toList
  | .terms c => c.values
  | .fullText c => (FullText.query? c).toList
  | _ => []

theorem FieldClause.new_eq_ok {k : FieldKind} {n : String} {v : Version} {c : FieldClause k}
    (h : FieldClause.new k n v = .ok c) : c = ⟨n, .empty v []⟩ :=
  (FieldClause.new_eq_ok_iff.mp h).2.2

theorem FieldClause.get?_put_new {k : FieldKind} {n : String} {v : Version} {c : FieldClause k}
    (h : FieldClause.new k n v = .ok c) (key key' : String) (j : Json) :
    (c.put key j).get? key' = if key' = key then some j else none := by
  have hu : ∀ key, c.params.isGated key = false := by
    rw [FieldClause.new_eq_ok h]
    intro key
    rfl
  unfold FieldClause.put FieldClause.get?
  split
  · next hk => rw [hk, Params.get?_put_self (hu key)]
  · next hk =>
    rw [Params.get?_put_of_ne hk, FieldClause.new_eq_ok h]
    rfl

theorem Bound.key_injective {b b' : Bound} (h : b.key = b'.key) : b = b' := by
  cases b <;> cases b' <;> first | rfl | exact absurd h (by decide)

theorem Range.bound?_withBound_new {n : String} {v : Version} {c : Range}
    (h : FieldClause.new .range n v = .ok c) (b b' : Bound) (j : Json) :
    Range.bound? (Range.withBound c b j) b' = if b' = b then some j else none := by
  refine (FieldClause.get?_put_new h b.key b'.key j).trans ?_
  by_cases hb : b' = b
  · rw [if_pos hb, if_pos (by rw [hb])]
  · rw [if_neg hb, if_neg fun he => hb (Bound.key_injective he)]

theorem Term.value?_withValue_new {n : String} {v : Version} {c : Term}
    (h : FieldClause.new .term n v = .ok c) (j : Json) :
    Term.value? (Term.withValue c j) = some j :=
  (FieldClause.get?_put_new h "value" "value" j).trans (if_pos rfl)

/-- A new search has the query it is given, whichever of the words are asked for. -/
theorem FullText.query?_withQuery_new {n : String} {v : Version} {c : FullText}
    (h : FieldClause.new .fullText n v = .ok c) (j : Json) (o : Op) :
    FullText.query? (if o = .matchAll then FullText.withOperator (FullText.withQuery c j) "and"
      else FullText.withQuery c j) = some j := by
  have hq : FullText.query? (FullText.withQuery c j) = some j :=
    (FieldClause.get?_put_new h "query" "query" j).trans (if_pos rfl)
  split
  · exact (Params.get?_put_of_ne (by decide) _).trans hq
  · exact hq

section
variable {n : String} {v : Version} (ρ : String → Int)

theorem Range.holdsAt_withBound_new {c : Range} (h : FieldClause.new .range n v = .ok c) (b : Bound)
    (z : Int) : Range.holdsAt ρ (Range.withBound c b (.num (.int z))) ↔ b.op.compares (ρ n) z := by
  have hn : (Range.withBound c b (.num (.int z))).field = n := by
    rw [FieldClause.new_eq_ok h]
    rfl
  unfold Range.holdsAt
  rw [hn]
  constructor
  · intro hb
    obtain ⟨z', hz, hb⟩ := hb b _ (by rw [Range.bound?_withBound_new h, if_pos rfl])
    cases hz
    exact hb
  · intro hb b' j hj
    rw [Range.bound?_withBound_new h] at hj
    split at hj
    · next hb' =>
      cases hj
      exact ⟨z, rfl, by rw [hb']; exact hb⟩
    · cases hj

theorem Term.holdsAt_withValue_new {c : Term} (h : FieldClause.new .term n v = .ok c) (z : Int) :
    Term.holdsAt ρ (Term.withValue c (.num (.int z))) ↔ ρ n = z := by
  have hn : (Term.withValue c (.num (.int z))).field = n := by
    rw [FieldClause.new_eq_ok h]
    rfl
  rw [Term.holdsAt, Term.value?_withValue_new h, hn]
  simp [eq_comm]

end

namespace Leaf.Comparison.Yields

variable {v : Version} {cmp : Comparison} {o : Op} {c : Clause} {inverted : Bool}

theorem embedded_eq_of_ne (h : Yields v cmp o c inverted) (ho : o ≠ .isIn) :
    ∃ j, cmp.prepared = .ok j ∧ c.embedded = [j] := by
  cases h with
  | range hb hc hv =>
    refine ⟨_, hv, ?_⟩
    rename_i b j c
    have hall : Bound.all.filterMap (Range.bound? (Range.withBound c b j)) = [j] := by
      simp only [Bound.all, List.filterMap_cons, List.filterMap_nil,
        Range.bound?_withBound_new hc]
      cases b <;> rfl
    exact hall
  | term _ hc hv => exact ⟨_, hv, by rw [Clause.embedded, Term.value?_withValue_new hc]; rfl⟩
  | terms => exact absurd rfl ho
  | search _ hc hv =>
    refine ⟨_, hv, ?_⟩
    rw [Clause.embedded, FullText.query?_withQuery_new hc]
    rfl

theorem embedded_eq (h : Yields v cmp o c inverted) (ho : o.isComparison = true) :
    ∃ j, cmp.prepared = .ok j ∧ c.embedded = [j] := by
  refine h.embedded_eq_of_ne ?_
  rintro rfl
  exact absurd ho (by decide)

/-- **The clause of a comparison with an integer says what the comparison says.** -/
theorem holdsAt_iff (h : Yields v cmp o c inverted) (ho : o.isComparison = true) {z : Int}
    (hz : cmp.prepared = .ok (.num (.int z))) (ρ : String → Int) :
    (if inverted then ¬ c.holdsAt ρ else c.holdsAt ρ) ↔ o.compares (ρ cmp.field.name) z := by
  cases h with
  | range hb hc hv =>
    obtain rfl := Except.ok.inj (hv.symm.trans hz)
    obtain rfl := Op.bound?_eq_some_iff.mp hb
    exact Range.holdsAt_withBound_new ρ hc _ z
  | term ht hc hv =>
    obtain rfl := Except.ok.inj (hv.symm.trans hz)
    have hs := Term.holdsAt_withValue_new ρ hc z
    rcases ht with rfl | rfl
    · exact hs
    · exact not_congr hs
  | terms => exact absurd ho (by decide)
  | search hs => cases o <;> first | exact absurd ho (by decide) | exact absurd hs (by decide)

end Leaf.Comparison.Yields

end SearchCompiler
