import SearchCompiler.Proofs.Group.Walk

/-! # The meaning of a group

A boolean group holds if all its conditions and filters do, none of its exclusions does, and, if it
has neither conditions nor filters, at least one of its alternatives. Given which leaf documents
hold, this says which groups do; a predicate holds by its connectives, a leaf that is to be negated
counting as the negation of its clause. The group of a predicate holds iff the predicate does.

* `holds_compileWhere`: compilation keeps the meaning of a predicate. -/

namespace SearchCompiler

/-- **Does a group hold** whose items have these truth values? -/
def groupHolds (truth : Occur → List Bool) : Bool :=
  (truth .must).all id && (truth .filter).all id && !(truth .mustNot).any id &&
    (!(truth .must).isEmpty || !(truth .filter).isEmpty || (truth .should).isEmpty ||
      (truth .should).any id)

/-- **Does a document hold**, given which leaves do? -/
def Json.holds (σ : Json → Bool) (doc : Json) : Bool := doc.foldQuery σ groupHolds

/-- Does a leaf hold? One that is to be negated does if its clause does not. -/
def Expr.leafHolds (v : Version) (σ : Json → Bool) (e : Expr) : Bool :=
  match Leaf.compile v e with
  | .ok (.clause c inverted) => if inverted then !σ c.document else σ c.document
  | _ => false

mutual

/-- **Does a predicate hold**, given which clauses do? -/
def Expr.holds (v : Version) (σ : Json → Bool) : Expr → Bool
  | .node o l r =>
    match o with
    | .and => l.holds v σ && r.holds v σ
    | .or => l.holds v σ || r.holds v σ
    | o => Expr.leafHolds v σ (.node o l r)

/-- Does one side of a connective hold? -/
def Operand.holds (v : Version) (σ : Json → Bool) : Operand → Bool
  | .expr e => e.holds v σ
  | _ => false

end

/-- The truth value of a list under a connective. -/
def Op.joins (o : Op) (truth : List Bool) : Bool :=
  match o with
  | .or => truth.any id
  | _ => truth.all id

theorem Op.joins_and (truth : List Bool) : Op.and.joins truth = truth.all id := rfl

theorem Op.joins_or (truth : List Bool) : Op.or.joins truth = truth.any id := rfl

theorem Op.joins_singleton (o : Op) (b : Bool) : o.joins [b] = b := by
  cases o <;> simp [Op.joins]

/-- Is an item fulfilled? -/
def Item.holds (σ : Json → Bool) (i : Item) : Bool :=
  match i.occur with
  | .mustNot => !i.document.holds σ
  | _ => i.document.holds σ

variable {v : Version} {σ : Json → Bool}

theorem Json.holds_of_leaf {doc : Json} (h : doc.group? = none) : doc.holds σ = σ doc :=
  foldQuery_of_leaf h

theorem Json.holds_of_group {doc : Json} {ps : Assoc Json} (h : doc.group? = some ps) :
    doc.holds σ = groupHolds fun o => (itemsUnder ps o).map (holds σ) :=
  foldQuery_of_group h

theorem holds_document_ofItems (is : List Item) :
    (BoolGroup.ofItems v is).document.holds σ =
      groupHolds fun o => (is.filter (·.occur = o)).map fun i => i.document.holds σ := by
  rw [BoolGroup.document_ofItems, Json.holds_of_group (BoolGroup.group?_core _)]
  simp only [BoolGroup.itemsUnder_ofItems, List.map_map]
  rfl

theorem all_and_not_any {is : List Item} (h : ∀ i ∈ is, Op.and.admits i.occur = true) :
    (((is.filter (·.occur = .must)).map fun i => i.document.holds σ).all id &&
      !((is.filter (·.occur = .mustNot)).map fun i => i.document.holds σ).any id) =
      (is.map (Item.holds σ)).all id := by
  induction is with
  | nil => rfl
  | cons i is ih =>
    have ih := ih fun j hj => h j (List.mem_cons_of_mem _ hj)
    have hi := h i List.mem_cons_self
    obtain ⟨occ, doc⟩ := i
    cases occ <;> simp [Op.admits, Item.holds] at hi ih ⊢ <;> rw [← ih]
    · rw [Bool.and_assoc]
    · cases doc.holds σ <;> simp

/-- A group with items in the lists of a connective only holds as the connective joins them. -/
theorem holds_ofItems {o : Op} {is : List Item} (ho : o.isLogical = true) (hne : is ≠ [])
    (h : ∀ i ∈ is, o.admits i.occur = true) :
    (BoolGroup.ofItems v is).document.holds σ = o.joins (is.map (Item.holds σ)) := by
  rw [holds_document_ofItems, groupHolds]
  rcases Op.isLogical_iff.mp ho with rfl | rfl
  · rw [filter_eq_nil_of_admits .filter h rfl,
      filter_eq_nil_of_admits .should h rfl, Op.joins_and, ← all_and_not_any h]
    simp
  · have hs : ∀ i ∈ is, i.occur = .should := fun i hi => Op.eq_should_of_admits (h i hi)
    have hall : is.filter (·.occur = .should) = is :=
      List.filter_eq_self.mpr fun i hi => decide_eq_true (hs i hi)
    have hmap : is.map (Item.holds σ) = is.map fun i => i.document.holds σ :=
      List.map_congr_left fun i hi => by simp [Item.holds, hs i hi]
    rw [filter_eq_nil_of_admits .filter h rfl,
      filter_eq_nil_of_admits .must h rfl,
      filter_eq_nil_of_admits .mustNot h rfl, hall, Op.joins_or, hmap]
    simp [hne]

/-! ### The items of a predicate -/

theorem Item.holds_ofLeaf {o : Op} {e : Expr} {c : Clause} {inverted : Bool}
    (h : Leaf.compile v e = .ok (.clause c inverted)) :
    (Item.ofLeaf v o c inverted).holds σ = e.leafHolds v σ := by
  have hσ : c.document.holds σ = σ c.document := Json.holds_of_leaf (group?_of_compile h)
  have hn : (OpenGroup.negation v c).holds σ = !σ c.document := by
    rw [OpenGroup.negation_eq, holds_document_ofItems]
    simp [groupHolds, hσ]
  rw [Expr.leafHolds, h]
  cases o <;> cases inverted <;> simp [Item.ofLeaf, Item.holds, hσ, hn]

theorem Item.holds_ofGroup (o : Op) (is : List Item) :
    (Item.ofGroup v o is).holds σ = (BoolGroup.ofItems v is).document.holds σ := by
  cases o <;> rfl

theorem Expr.holds_of_leaf {o : Op} {l r : Operand} (ho : o.isLogical = false) :
    (Expr.node o l r).holds v σ = (Expr.node o l r).leafHolds v σ := by
  cases o <;> simp [Op.isLogical, Op.cls] at ho <;> simp [Expr.holds]

/-- A connective over two predicates joins their truth values. -/
theorem Expr.holds_of_connective {o : Op} {l r : Expr} {a b : List Bool} (ho : o.isLogical = true)
    (hl : o.joins a = l.holds v σ) (hr : o.joins b = r.holds v σ) :
    o.joins (a ++ b) = (Expr.node o (.expr l) (.expr r)).holds v σ := by
  rcases Op.isLogical_iff.mp ho with rfl | rfl
  · rw [Op.joins_and] at *
    simp [Expr.holds, Operand.holds, ← hl, ← hr]
  · rw [Op.joins_or] at *
    simp [Expr.holds, Operand.holds, ← hl, ← hr]

namespace Expr.Fills

variable {d : Nat} {o : Op} {e : Expr} {is : List Item}

/-- **The items hold together**, as their connective joins them, iff the expression does. -/
theorem joins_eq_holds (h : e.Fills v d o is) (ho : o.isLogical = true) :
    o.joins (is.map (Item.holds σ)) = e.holds v σ := by
  induction h with
  | @leaf d o o' l r c inverted ho' hc =>
    rw [List.map_singleton, Op.joins_singleton, Item.holds_ofLeaf hc, holds_of_leaf ho']
  | chain ho' hl hr ihl ihr =>
    rw [List.map_append]
    exact holds_of_connective ho' (ihl ho) (ihr ho)
  | @group d o o' l r is js ho' hne hd hl hr ihl ihr =>
    have hf : ∀ i ∈ is ++ js, o'.admits i.occur = true := fun i hi =>
      (List.mem_append.mp hi).elim (hl.admits ho' i) (hr.admits ho' i)
    rw [List.map_singleton, Op.joins_singleton, Item.holds_ofGroup,
      holds_ofItems ho' (by simp [hl.ne_nil]) hf, List.map_append]
    exact holds_of_connective ho' (ihl ho') (ihr ho')

end Expr.Fills

/-! ### The group of a predicate -/

theorem BoolGroup.holds_document (g : BoolGroup) : g.document.holds σ = g.core.holds σ := by
  cases hf : g.filtered with
  | false => rw [document_of_not_filtered hf]
  | true =>
    rw [Json.holds_of_group (group?_of_filtered hf), groupHolds]
    simp [itemsUnder_filter]

/-- **Compilation keeps the meaning of a predicate**, whichever clauses hold. -/
theorem holds_compileWhere {c : Config} {e : Expr} {g : BoolGroup}
    (h : compileWhere c (some e) = .ok g) (σ : Json → Bool) :
    g.document.holds σ = e.holds c.version σ := by
  obtain ⟨is, hf, rfl⟩ := exists_fills_of_compileWhere h
  have ho := e.isLogical_connective
  rw [BoolGroup.holds_document, core_pushAll_topGroup,
    holds_ofItems ho hf.ne_nil (hf.admits ho), hf.joins_eq_holds ho]

theorem holds_compileWhere_mixed : ∃ g, compileWhere {} (some .mixed) = .ok g ∧
    ∀ σ, g.document.holds σ = Expr.mixed.holds .standard σ := by
  obtain ⟨g, h⟩ := exists_compileWhere_mixed
  exact ⟨g, h, holds_compileWhere h⟩

end SearchCompiler
