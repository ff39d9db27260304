import SearchCompiler.Proofs.Group.Walk
import SearchCompiler.Proofs.Leaf.Versions

/-! # The group of a predicate for two configurations

The version of the backend is in no document of a group, and the filter is around the outermost
group only: what fills the groups is the same for any two supported versions. Two configurations so
have the same group, and one of them may put it into a filter.

* `Expr.items_eq`: the items of an expression.
* `agree_compileWhere`: the group of a predicate. -/

namespace SearchCompiler

theorem BoolGroup.entries_pushAll {g g' : BoolGroup} (hg : g.Ungated) (hg' : g'.Ungated)
    (h : g.params.entries = g'.params.entries) (is : List Item) :
    (g.pushAll is).params.entries = (g'.pushAll is).params.entries := by
  induction is generalizing g g' with
  | nil => exact h
  | cons i is ih =>
    have hpush : (g.push i.occur i.document).params.entries =
        (g'.push i.occur i.document).params.entries := by
      rw [push_eq hg, push_eq hg', h]
    exact ih (hg.push i.document) (hg'.push i.document) hpush

theorem BoolGroup.document_of_filtered {g : BoolGroup} (h : g.filtered = true) :
    g.document = .single "bool" (.single "filter" g.core) := by
  rw [document, h]; rfl

theorem BoolGroup.document_eq_of_core {g g' : BoolGroup} (hf : g.filtered = g'.filtered)
    (hc : g.core = g'.core) : g.document = g'.document := by
  cases h : g'.filtered with
  | false => rw [document_of_not_filtered (hf.trans h), document_of_not_filtered h, hc]
  | true => rw [document_of_filtered (hf.trans h), document_of_filtered h, hc]

theorem BoolGroup.document_ofItems_eq (v w : Version) (is : List Item) :
    (ofItems v is).document = (ofItems w is).document := by
  have h : (ofItems v is).params.entries = (ofItems w is).params.entries :=
    entries_pushAll (ungated_empty v) (ungated_empty w) rfl is
  rw [document_ofItems, document_ofItems, core, core, Params.toJson, Params.toJson, h]

theorem Item.ofGroup_eq (v w : Version) (o : Op) (is : List Item) :
    ofGroup v o is = ofGroup w o is := by
  rw [ofGroup, ofGroup, BoolGroup.document_ofItems_eq v w]

theorem Item.ofLeaf_eq (v w : Version) (o : Op) {c d : Clause} (h : c.document = d.document)
    (inverted : Bool) : ofLeaf v o c inverted = ofLeaf w o d inverted := by
  have hn : OpenGroup.negation v c = OpenGroup.negation w d := by
    rw [OpenGroup.negation_eq, OpenGroup.negation_eq, h, BoolGroup.document_ofItems_eq v w]
  unfold ofLeaf
  split <;> simp only [h, hn]

variable {v w : Version}

namespace Expr

theorem leafItem_eq (hv : v.isSupported = true) (hw : w.isSupported = true) (o : Op) (e : Expr) :
    e.leafItem v o = e.leafItem w o := by
  refine (Leaf.agree_compile hv hw e).bind_eq fun x y h => ?_
  cases h with
  | clause h inverted => exact congrArg Except.ok (Item.ofLeaf_eq v w o h inverted)
  | operand f i => rfl
  | metric n k => rfl

/-- **The items of an expression** are the same for both versions. -/
theorem items_eq (hv : v.isSupported = true) (hw : w.isSupported = true) (e : Expr) :
    ∀ (d : Nat) (o : Op), e.items v d o = e.items w d o := by
  induction e using connectiveInduction with
  | leaf o' l r ho =>
    intro d o
    rw [items_leaf ho, items_leaf ho, leafItem_eq hv hw]
  | connective o' l r ho ihl ihr =>
    intro d o
    by_cases hne : o' = o
    · subst hne
      rw [items_chain ho, items_chain ho]
      refine Outcome.bind_congr fun p hp => ?_
      obtain ⟨hl, hr⟩ := sides_eq_ok_iff.mp hp
      rw [ihl _ hl, ihr _ hr]
    · rw [items_group ho hne, items_group ho hne]
      refine congrArg (ite _ _) (Outcome.bind_congr fun p hp => ?_)
      obtain ⟨hl, hr⟩ := sides_eq_ok_iff.mp hp
      simp only [ihl _ hl, ihr _ hr, Item.ofGroup_eq v w]

end Expr

theorem filtered_of_compileWhere {c : Config} {root : Option Expr} {g : BoolGroup}
    (h : compileWhere c root = .ok g) : g.filtered = c.filterContext := by
  cases root with
  | none => rw [(compileWhere_none_eq_ok_iff.mp h).2]; rfl
  | some e =>
    obtain ⟨-, is, -, rfl⟩ := compileWhere_eq_ok_iff.mp h
    exact BoolGroup.filtered_pushAll _ is

/-- **Two configurations have the same group for a predicate**, up to the filter around it. -/
theorem agree_compileWhere {c c' : Config} (hv : c.version.isSupported = true)
    (hv' : c'.version.isSupported = true) (root : Option Expr) :
    Outcome.Agree (fun g g' => g.core = g'.core) (compileWhere c root) (compileWhere c' root) := by
  have hcore : ∀ is, ((topGroup c).pushAll is).core = ((topGroup c').pushAll is).core := by
    intro is
    rw [core_pushAll_topGroup, core_pushAll_topGroup,
      BoolGroup.document_ofItems_eq c.version c'.version]
  cases root with
  | none =>
    rw [compileWhere_none_eq_ok_iff.mpr ⟨hv, rfl⟩, compileWhere_none_eq_ok_iff.mpr ⟨hv', rfl⟩]
    exact .ok (hcore [])
  | some e =>
    rw [compileWhere_eq hv, compileWhere_eq hv', e.items_eq hv hv']
    exact .bind_left _ fun is _ => .ok (hcore is)

end SearchCompiler
