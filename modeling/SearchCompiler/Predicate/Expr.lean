import SearchCompiler.Field.Basic
import SearchCompiler.Predicate.Op

/-! # Expressions

A predicate is a tree of operators with two sides each. A side is an expression, a declared field, a
bare name or a literal. An aggregation uses its left side only; its right one is null. -/

namespace SearchCompiler

mutual

/-- **One side of an operator.** -/
inductive Operand where
  | expr (e : Expr)
  /-- A declared field, which validates what it is compared with. -/
  | field (f : Field)
  /-- The bare name of a field, which validates nothing. -/
  | name (n : String)
  | value (v : Value)

/-- **An operator with its two sides.** -/
inductive Expr where
  | node (op : Op) (lhs rhs : Operand)

end

instance : Inhabited Operand := ⟨.value .null⟩

namespace Expr

def op : Expr → Op
  | node o _ _ => o

def lhs : Expr → Operand
  | node _ l _ => l

def rhs : Expr → Operand
  | node _ _ r => r

/-- An aggregation over an operand. -/
def aggregate (o : Op) (x : Operand) : Expr := node o x (.value .null)

/-- The comparison of a bare name with a literal. -/
def compare (n : String) (o : Op) (v : Value) : Expr := node o (.name n) (.value v)

end Expr

/-- The expression on this side, if it is one. -/
def Operand.expr? : Operand → Option Expr
  | .expr e => some e
  | _ => none

mutual

/-- The number of leaves: every node that is no connective, and every other side of one. -/
def Expr.leafCount : Expr → Nat
  | .node o l r => if o.isLogical then l.leafCount + r.leafCount else 1

/-- The number of leaves on one side. -/
def Operand.leafCount : Operand → Nat
  | .expr e => e.leafCount
  | _ => 1

end

mutual

/-- **The text of an expression**, every operator with its sides in brackets. -/
def Expr.text : Expr → String
  | .node o l r =>
    if o.cls = .aggregation then o.text ++ "(" ++ l.text ++ ")"
    else "(" ++ l.text ++ " " ++ o.text ++ " " ++ r.text ++ ")"

/-- The text of one side, string literals in quotes. -/
def Operand.text : Operand → String
  | .expr e => e.text
  | .field f => f.label
  | .name n => n
  | .value (.str s) => "'" ++ s ++ "'"
  | .value v => v.text

end

end SearchCompiler
