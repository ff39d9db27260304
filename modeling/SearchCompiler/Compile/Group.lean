import SearchCompiler.Compile.Leaf
import SearchCompiler.Config

/-! # Boolean groups of a predicate

The tree of connectives of a predicate becomes one boolean group. A chain of one connective stays
flat, and where the connective changes a group is opened inside the one being filled. Groups are
filled from left to right with a list of expressions to come, each with the number of groups that
enclose it; a group is closed, and put into the one around it, when an expression comes up that it
does not enclose. At most `maxDepth` groups may enclose the one that is opened.

* `compileWhere`: the group of a predicate. -/

namespace SearchCompiler

/-- The greatest number of groups around one that is opened. -/
def maxDepth : Nat := 10

/-- **A group that is being filled**, with the connective of its items. -/
structure OpenGroup where
  connective : Op
  group : BoolGroup

namespace OpenGroup

/-- The list that an item of the group goes to. -/
def occur (g : OpenGroup) : Occur :=
  match g.connective with
  | .or => .should
  | _ => .must

/-- Adds a document to a list. -/
def push (g : OpenGroup) (o : Occur) (doc : Json) : OpenGroup :=
  { g with group := g.group.push o doc }

/-- The group that holds whatever a clause does not. -/
def negation (v : Version) (c : Clause) : Json :=
  ((BoolGroup.empty v).push .mustNot c.document).document

/-- **Adds a leaf.** A negated alternative is put into a group of its own, since a group has no list
for it. -/
def attach (g : OpenGroup) (v : Version) (c : Clause) (inverted : Bool) : OpenGroup :=
  match g.connective, inverted with
  | .or, true => g.push .should (negation v c)
  | .or, false => g.push .should c.document
  | _, true => g.push .mustNot c.document
  | _, false => g.push .must c.document

/-- Adds a group that is filled. -/
def attachGroup (g inner : OpenGroup) : OpenGroup := g.push g.occur inner.group.document

end OpenGroup

/-- **The groups being filled**, and those around the innermost one from the inside out. -/
structure OpenGroups where
  current : OpenGroup
  enclosing : List OpenGroup

namespace OpenGroups

def depth (s : OpenGroups) : Nat := s.enclosing.length

/-- Closes one group after the other until only this many enclose the one being filled. -/
def closeTo (d : Nat) (current : OpenGroup) : List OpenGroup → OpenGroups
  | [] => ⟨current, []⟩
  | outer :: rest =>
    if d < rest.length + 1 then closeTo d (outer.attachGroup current) rest
    else ⟨current, outer :: rest⟩

/-- The groups when an expression comes up that this many groups enclose. -/
def backTo (s : OpenGroups) (d : Nat) : OpenGroups := closeTo d s.current s.enclosing

/-- The outermost group, all others being closed. -/
def finish (s : OpenGroups) : BoolGroup := (s.backTo 0).current.group

/-- **Goes on with a connective**, in a new group unless it is that of the current one. -/
def enter (s : OpenGroups) (v : Version) (o : Op) : Compile OpenGroups :=
  if o = s.current.connective then .ok s
  else if maxDepth ≤ s.depth then .error (.nestedTooDeep maxDepth)
  else .ok ⟨⟨o, .empty v⟩, s.current :: s.enclosing⟩

/-- Adds the clause of a leaf to the current group. -/
def addLeaf (s : OpenGroups) (v : Version) (e : Expr) : Compile OpenGroups := do
  match ← Leaf.compile v e with
  | .clause c inverted => return { s with current := s.current.attach v c inverted }
  | _ => .error (.unsupported (.asPredicate e.op))

/-- **Fills the groups** with the expressions to come. -/
def fill (s : OpenGroups) (v : Version) : List (Expr × Nat) → Compile BoolGroup
  | [] => .ok s.finish
  | (.node o l r, d) :: rest =>
    if o.isLogical then
      match (s.backTo d).enter v o with
      | .error e => .error e
      | .ok s =>
        match l, r with
        | .expr l, .expr r => s.fill v ((l, s.depth) :: (r, s.depth) :: rest)
        | l, .expr _ => .error (.ambiguous o (.notAnExpression l))
        | _, r => .error (.ambiguous o (.notAnExpression r))
    else
      match (s.backTo d).addLeaf v (.node o l r) with
      | .error e => .error e
      | .ok s => s.fill v rest
termination_by es => es.foldr (fun e n => sizeOf e.1 + n) 0

end OpenGroups

/-- The connective of the outermost group. -/
def Expr.connective (e : Expr) : Op := if e.op.isLogical then e.op else .and

/-- **The boolean group of a predicate**, in a filter if the configuration says so. Without a
predicate the group has no clauses. -/
def compileWhere (c : Config) (root : Option Expr) : Compile BoolGroup := do
  let top ← Compile.ofClause
    (if c.filterContext then BoolGroup.newFiltered c.version else BoolGroup.new c.version)
  match root with
  | none => return top
  | some e => OpenGroups.fill ⟨⟨e.connective, top⟩, []⟩ c.version [(e, 0)]

end SearchCompiler
