import SearchCompiler.Compile.Group
import SearchCompiler.Proofs.Leaf.Clause

/-! # The items of a group

An item of a boolean group is a document in one of its four lists. A group is filled by a sequence
of items, each put at the end of its list; the list of each occurrence can be read off the document of
the group. Reading a document as a query, `foldQuery` tells groups from all other documents, which
are leaves.

* `itemsUnder_pushAll`: the lists of a group that is filled.
* `foldQuery_of_leaf`, `foldQuery_of_group`: the two cases of a reading. -/

namespace SearchCompiler

/-! ### Documents read as queries -/

namespace Json

/-- The parameters of a boolean group; other documents have none. -/
def group? : Json → Option (Assoc Json)
  | .obj [(k, .obj ps)] => if k = ClauseKind.bool.name then some ps else none
  | _ => none

/-- The documents in one list of a group. A document that stands alone is the only one. -/
def itemsUnder (ps : Assoc Json) (o : Occur) : List Json := Params.itemsOf (Assoc.get? o.key ps)

theorem sizeOf_lt_of_mem_itemsOf {j : Json} : ∀ {v : Option Json},
    j ∈ Params.itemsOf v → ∃ w, v = some w ∧ sizeOf j ≤ sizeOf w
  | none, h => by simp [Params.itemsOf] at h
  | some w, h => by
    refine ⟨w, rfl, ?_⟩
    unfold Params.itemsOf at h
    split at h
    · simp at h
    · next items heq =>
      obtain rfl := Option.some.inj heq
      have := List.sizeOf_lt_of_mem h
      simp only [Json.arr.sizeOf_spec]; omega
    · simp at h
    · next heq =>
      obtain rfl := Option.some.inj heq
      exact Nat.le_of_eq (congrArg sizeOf (List.mem_singleton.mp h))

theorem sizeOf_lt_of_get? {k : String} {w : Json} : ∀ {ps : Assoc Json},
    Assoc.get? k ps = some w → sizeOf w < sizeOf ps
  | [], h => by simp at h
  | (k', v) :: ps, h => by
    rw [Assoc.get?_cons] at h
    split at h
    · obtain rfl := Option.some.inj h
      simp only [List.cons.sizeOf_spec, Prod.mk.sizeOf_spec]; omega
    · have := sizeOf_lt_of_get? h
      simp only [List.cons.sizeOf_spec]; omega

theorem eq_of_group? {doc : Json} {ps : Assoc Json} (h : doc.group? = some ps) :
    doc = .single ClauseKind.bool.name (.obj ps) := by
  unfold group? at h
  split at h
  · next k qs =>
    split at h
    · next hk => rw [← Option.some.inj h, hk]; rfl
    · simp at h
  · simp at h

theorem sizeOf_lt_of_mem_itemsUnder {doc j : Json} {ps : Assoc Json} {o : Occur}
    (h : doc.group? = some ps) (hj : j ∈ itemsUnder ps o) : sizeOf j < sizeOf doc := by
  obtain ⟨w, hw, hle⟩ := sizeOf_lt_of_mem_itemsOf hj
  have := sizeOf_lt_of_get? hw
  rw [eq_of_group? h]
  simp only [single, Json.obj.sizeOf_spec, List.cons.sizeOf_spec, Prod.mk.sizeOf_spec]
  omega

/-- **Reads a document as a query**: a group by the readings of the items in its lists, any other
document as a leaf. -/
def foldQuery {α : Type} (leaf : Json → α) (group : (Occur → List α) → α) (doc : Json) : α :=
  match h : doc.group? with
  | none => leaf doc
  | some ps => group fun o =>
    (itemsUnder ps o).attach.map fun j =>
      have := sizeOf_lt_of_mem_itemsUnder h j.2
      foldQuery leaf group j.1
termination_by sizeOf doc

section
variable {α : Type} {leaf : Json → α} {group : (Occur → List α) → α} {doc : Json}

theorem foldQuery_of_leaf (h : doc.group? = none) : doc.foldQuery leaf group = leaf doc := by
  rw [foldQuery]
  split
  · rfl
  · next hs => rw [h] at hs; simp at hs

theorem foldQuery_of_group {ps : Assoc Json} (h : doc.group? = some ps) :
    doc.foldQuery leaf group = group fun o => (itemsUnder ps o).map (foldQuery leaf group) := by
  rw [foldQuery]
  split
  · next hs => rw [h] at hs; simp at hs
  · next qs hs =>
    obtain rfl := Option.some.inj (h.symm.trans hs)
    simp only [List.map_attach_eq_pmap, List.pmap_eq_map]

end

end Json

/-! ### Items -/

/-- **An item of a group**: a document and the list it goes to. -/
structure Item where
  occur : Occur
  document : Json

namespace BoolGroup

variable {g : BoolGroup} {o : Occur}

/-- A group none of whose keys depends on the version. -/
def Ungated (g : BoolGroup) : Prop := g.params.gates = []

/-- The group with items put at the ends of their lists. -/
def pushAll (g : BoolGroup) (is : List Item) : BoolGroup :=
  is.foldl (fun g i => g.push i.occur i.document) g

/-- The group of a sequence of items. -/
def ofItems (v : Version) (is : List Item) : BoolGroup := (empty v).pushAll is

theorem pushAll_append (g : BoolGroup) (is js : List Item) :
    g.pushAll (is ++ js) = (g.pushAll is).pushAll js := List.foldl_append

theorem push_eq (h : g.Ungated) (d : Json) : g.push o d = { g with params := { g.params with
    entries := Assoc.insert o.key (.arr (Params.itemsOf (Assoc.get? o.key g.params.entries) ++ [d]))
      g.params.entries } } := by
  have hk : g.params.isGated o.key = false := by
    unfold Params.isGated; rw [show g.params.gates = [] from h]; rfl
  simp [push, extend, Params.append, Params.modify, hk]

theorem Ungated.push (h : g.Ungated) (d : Json) : (g.push o d).Ungated := by
  rw [push_eq h]; exact h

theorem ungated_empty (v : Version) : (empty v).Ungated := rfl

@[simp] theorem filtered_pushAll (g : BoolGroup) (is : List Item) :
    (g.pushAll is).filtered = g.filtered := by
  induction is generalizing g with
  | nil => rfl
  | cons i is ih => exact ih _

theorem params_pushAll (g g' : BoolGroup) (h : g.params = g'.params) (is : List Item) :
    (g.pushAll is).params = (g'.pushAll is).params := by
  induction is generalizing g g' with
  | nil => exact h
  | cons i is ih => exact ih _ _ (by simp only [push, extend, h])

theorem itemsUnder_push (h : g.Ungated) (o' : Occur) (d : Json) :
    Json.itemsUnder (g.push o' d).params.entries o =
      Json.itemsUnder g.params.entries o ++ if o' = o then [d] else [] := by
  rw [push_eq h]
  unfold Json.itemsUnder
  by_cases ho : o' = o
  · subst ho
    simp [Params.itemsOf]
  · have hk : o.key ≠ o'.key := fun e => ho (Occur.key_inj e.symm)
    simp [Assoc.get?_insert_of_ne hk, ho]

/-- **The lists of a group that is filled**: each goes on with its items in their order. -/
theorem itemsUnder_pushAll (h : g.Ungated) (o : Occur) (is : List Item) :
    Json.itemsUnder (g.pushAll is).params.entries o =
      Json.itemsUnder g.params.entries o ++ (is.filter (·.occur = o)).map Item.document := by
  induction is generalizing g with
  | nil => simp [pushAll]
  | cons i is ih =>
    have hi := ih (h.push (o := i.occur) i.document)
    rw [itemsUnder_push h] at hi
    refine hi.trans ?_
    by_cases ho : i.occur = o <;> simp [ho]

theorem itemsUnder_ofItems (v : Version) (is : List Item) (o : Occur) :
    Json.itemsUnder (ofItems v is).params.entries o =
      (is.filter (·.occur = o)).map Item.document := by
  rw [ofItems, itemsUnder_pushAll (ungated_empty v)]
  simp [empty, Params.empty, Json.itemsUnder, Params.itemsOf]

theorem mem_itemsUnder_ofItems {v : Version} {is : List Item} {j : Json} :
    j ∈ Json.itemsUnder (ofItems v is).params.entries o ↔
      ∃ i ∈ is, i.occur = o ∧ i.document = j := by
  simp only [itemsUnder_ofItems, List.mem_map, List.mem_filter, decide_eq_true_iff, and_assoc]

/-- The document of a group without the filter around it. -/
def core (g : BoolGroup) : Json := wrap g.params.toJson

theorem document_of_not_filtered (h : g.filtered = false) : g.document = g.core := by
  rw [document, h]; rfl

theorem group?_of_filtered (h : g.filtered = true) :
    g.document.group? = some [(Occur.filter.key, g.core)] := by
  rw [document, h]; rfl

theorem itemsUnder_filter (g : BoolGroup) (o : Occur) :
    Json.itemsUnder [(Occur.filter.key, g.core)] o = if o = .filter then [g.core] else [] := by
  cases o <;> rfl

theorem group?_core (g : BoolGroup) : g.core.group? = some g.params.entries := rfl

theorem document_ofItems (v : Version) (is : List Item) :
    (ofItems v is).document = (ofItems v is).core :=
  document_of_not_filtered (filtered_pushAll _ _)

end BoolGroup

/-! ### The items of a predicate -/

theorem group?_of_compile {v : Version} {e : Expr} {c : Clause} {inverted : Bool}
    (h : Leaf.compile v e = .ok (.clause c inverted)) : c.document.group? = none := by
  obtain ⟨o, l, r⟩ := e
  obtain ⟨-, -, -, cmp, -, -, -, hcmp⟩ := Leaf.compile_eq_clause_iff.mp h
  have hy := Leaf.Comparison.clause_eq_ok_iff.mp hcmp
  generalize cmp.effectiveOp o = o' at hy
  cases hy <;> rfl

/-- The list that holds the alternatives or the conditions joined by a connective. -/
def Op.occur : Op → Occur
  | .or => .should
  | _ => .must

/-- The lists that a group of a connective has items in. -/
def Op.admits (o : Op) (occ : Occur) : Bool :=
  match o, occ with
  | .or, .should => true
  | .and, .must => true
  | .and, .mustNot => true
  | _, _ => false

theorem Op.eq_should_of_admits {occ : Occur} (h : Op.or.admits occ = true) : occ = .should := by
  cases occ <;> simp [Op.admits] at h ⊢

theorem filter_eq_nil_of_admits (occ : Occur) {o : Op} {is : List Item}
    (h : ∀ i ∈ is, o.admits i.occur = true) (hocc : o.admits occ = false) :
    is.filter (·.occur = occ) = [] := by
  refine List.filter_eq_nil_iff.mpr fun i hi he => ?_
  have := h i hi
  rw [of_decide_eq_true he, hocc] at this
  simp at this

namespace Item

/-- The item of a leaf. A negated alternative stands in a group of its own. -/
def ofLeaf (v : Version) (o : Op) (c : Clause) (inverted : Bool) : Item :=
  match o, inverted with
  | .or, true => ⟨.should, OpenGroup.negation v c⟩
  | .or, false => ⟨.should, c.document⟩
  | _, true => ⟨.mustNot, c.document⟩
  | _, false => ⟨.must, c.document⟩

/-- The item of a group inside another one. -/
def ofGroup (v : Version) (o : Op) (is : List Item) : Item :=
  ⟨o.occur, (BoolGroup.ofItems v is).document⟩

end Item

theorem OpenGroup.negation_eq (v : Version) (c : Clause) :
    OpenGroup.negation v c = (BoolGroup.ofItems v [⟨.mustNot, c.document⟩]).document := rfl

namespace OpenGroup

/-- The group with more items. -/
def pushAll (g : OpenGroup) (is : List Item) : OpenGroup := { g with group := g.group.pushAll is }

theorem pushAll_append (g : OpenGroup) (is js : List Item) :
    g.pushAll (is ++ js) = (g.pushAll is).pushAll js := by
  simp only [pushAll, BoolGroup.pushAll_append]

theorem attach_eq (g : OpenGroup) (v : Version) (c : Clause) (inverted : Bool) :
    g.attach v c inverted = g.pushAll [.ofLeaf v g.connective c inverted] := by
  obtain ⟨o, g⟩ := g
  cases o <;> cases inverted <;> rfl

end OpenGroup

end SearchCompiler
