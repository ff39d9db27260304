import SearchCompiler.Predicate.Expr

/-! # Trees of connectives

A predicate is a tree of connectives over its leaves. Its nodes are what is reached from the root
through connectives alone, its leaves those nodes that are no connectives, and its paths the
connectives met on the ways down.

* `Expr.connectiveInduction`: induction over the connectives of a predicate. -/

namespace SearchCompiler

mutual

/-- **The nodes of a predicate** that are reached through connectives, from left to right. -/
def Expr.nodes : Expr → List Expr
  | .node o l r => .node o l r :: if o.isLogical then l.nodes ++ r.nodes else []

/-- The nodes on one side. -/
def Operand.nodes : Operand → List Expr
  | .expr e => e.nodes
  | _ => []

end

mutual

/-- **The leaves of a predicate**, from left to right. -/
def Expr.leaves : Expr → List Expr
  | .node o l r => if o.isLogical then l.leaves ++ r.leaves else [.node o l r]

/-- The leaves on one side. -/
def Operand.leaves : Operand → List Expr
  | .expr e => e.leaves
  | _ => []

end

mutual

/-- **The paths of a predicate**: the connectives met from the root down to one of them. -/
def Expr.paths : Expr → List (List Op)
  | .node o l r => if o.isLogical then [o] :: (l.paths ++ r.paths).map (o :: ·) else []

/-- The paths on one side. -/
def Operand.paths : Operand → List (List Op)
  | .expr e => e.paths
  | _ => []

end

/-- How often neighbours in a sequence differ. -/
def changes : List Op → Nat
  | o :: o' :: os => (if o = o' then 0 else 1) + changes (o' :: os)
  | _ => 0

theorem Op.isLogical_iff {o : Op} : o.isLogical = true ↔ o = .and ∨ o = .or := by
  cases o <;> decide

namespace Expr

/-- **Induction over the connectives of a predicate.** -/
theorem connectiveInduction {P : Expr → Prop}
    (leaf : ∀ o l r, o.isLogical = false → P (.node o l r))
    (connective : ∀ o l r, o.isLogical = true → (∀ e, l = .expr e → P e) →
      (∀ e, r = .expr e → P e) → P (.node o l r)) (e : Expr) : P e := by
  obtain ⟨o, l, r⟩ := e
  cases h : o.isLogical with
  | false => exact leaf o l r h
  | true =>
    refine connective o l r h (fun e he => ?_) fun e he => ?_
    · subst he; exact connectiveInduction leaf connective e
    · subst he; exact connectiveInduction leaf connective e

/-- A conjunction with an alternative inside it. -/
def mixed : Expr :=
  .node .and
    (.expr (.node .and (.expr (.compare "a" .eq (.int 1)))
      (.expr (.node .or (.expr (.compare "b" .ne (.int 2))) (.expr (.compare "c" .lt (.int 3)))))))
    (.expr (.compare "d" .gte (.int 4)))

end Expr

end SearchCompiler
