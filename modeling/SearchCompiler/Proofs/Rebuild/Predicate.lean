import SearchCompiler.Proofs.Group.Walk
import SearchCompiler.Proofs.Rebuild.Group

/-! # Rebuilding the group of a predicate

The group that a predicate compiles to is rebuilt as itself, but for one thing: in the document of a
match of several values the field is found as the key of a list that is not `boost`, so a match on a
field of this name is not found again.

* `rebuilds_ofItems_iff`: a group of items is rebuilt as itself iff its items are.
* `rebuilds_compileWhere_iff`: the group of a predicate. -/

namespace SearchCompiler

/-! ### Groups of items -/

namespace BoolGroup

variable {w : Version}

/-- A group with nothing but lists of clauses, in order. -/
structure Listed (g : BoolGroup) : Prop where
  ungated : g.Ungated
  sorted : g.params.entries.Sorted
  lists : ∀ e ∈ g.params.entries, ∃ (o : Occur) (docs : List Json), e = (o.key, .arr docs)

theorem listed_empty (v : Version) : (empty v).Listed where
  ungated := ungated_empty v
  sorted := List.Pairwise.nil
  lists _ he := absurd he List.not_mem_nil

theorem Listed.push {g : BoolGroup} (h : g.Listed) (o : Occur) (d : Json) : (g.push o d).Listed where
  ungated := h.ungated.push d
  sorted := by
    rw [push_eq h.ungated]
    exact h.sorted.insert _ _
  lists e he := by
    rw [push_eq h.ungated] at he
    rcases h.sorted.mem_insert_iff.mp he with rfl | ⟨-, he⟩
    · exact ⟨o, _, rfl⟩
    · exact h.lists e he

theorem Listed.pushAll {g : BoolGroup} (h : g.Listed) (is : List Item) : (g.pushAll is).Listed := by
  induction is generalizing g with
  | nil => exact h
  | cons i is ih => exact ih (h.push i.occur i.document)

theorem listed_ofItems (v : Version) (is : List Item) : (ofItems v is).Listed :=
  (listed_empty v).pushAll is

/-- A group with lists only is rebuilt as itself iff the clauses in the lists are. -/
theorem Listed.rebuilds_core_iff {g : BoolGroup} (h : g.Listed) (hw : w.isSupported = true) :
    g.core.Rebuilds w ↔ ∀ o, ∀ j ∈ Json.itemsUnder g.params.entries o, j.Rebuilds w := by
  rw [core, Params.toJson, Registry.rebuilds_group_iff hw h.sorted]
  constructor
  · intro hm o j hj
    cases hg : Assoc.get? o.key g.params.entries with
    | none => simp [Json.itemsUnder, hg, Params.itemsOf] at hj
    | some w =>
      have he := Assoc.mem_of_get? hg
      obtain ⟨o', docs, heq⟩ := h.lists _ he
      obtain ⟨hk, rfl⟩ := Prod.mk.inj heq
      obtain rfl := Occur.key_inj hk
      rw [Json.itemsUnder, hg] at hj
      exact Registry.normalizeMember_list_iff.mp (hm _ he) j hj
  · intro hi e he
    obtain ⟨o, docs, rfl⟩ := h.lists e he
    refine Registry.normalizeMember_list_iff.mpr fun d hd => hi o d ?_
    rw [Json.itemsUnder, h.sorted.get?_of_mem he]
    exact hd

/-- **A group of items is rebuilt as itself** iff its items are. -/
theorem rebuilds_ofItems_iff (hw : w.isSupported = true) (v : Version) (is : List Item) :
    (ofItems v is).document.Rebuilds w ↔ ∀ i ∈ is, i.document.Rebuilds w := by
  rw [document_ofItems, (listed_ofItems v is).rebuilds_core_iff hw]
  constructor
  · exact fun h i hi => h i.occur _ (mem_itemsUnder_ofItems.mpr ⟨i, hi, rfl, rfl⟩)
  · intro h o j hj
    obtain ⟨i, hi, -, rfl⟩ := mem_itemsUnder_ofItems.mp hj
    exact h i hi

theorem rebuilds_document_iff (hw : w.isSupported = true) (g : BoolGroup) :
    g.document.Rebuilds w ↔ g.core.Rebuilds w := by
  cases hf : g.filtered with
  | false => rw [document_of_not_filtered hf]
  | true =>
    have hd : g.document = wrap (.obj [(Occur.filter.key, g.core)]) := by
      rw [document, if_pos hf]
      rfl
    rw [hd, Registry.rebuilds_group_iff hw (List.pairwise_singleton _ _)]
    simp only [List.forall_mem_singleton, Registry.normalizeMember, Occur.ofKey?_key, Json.Rebuilds,
      Option.isSome_some, if_true, Outcome.bind_eq_ok]
    constructor
    · rintro ⟨j, hj, h⟩
      cases h
      exact hj
    · exact fun h => ⟨_, h, rfl⟩

end BoolGroup

/-! ### Leaves -/

/-- The key that is no field in the document of a match of several values. -/
def Terms.boostKey : String := "boost"

/-- **Is this a match of several values on the field `boost`?** -/
def Expr.ListsBoost (v : Version) (e : Expr) : Prop :=
  ∃ (t : Terms) (inverted : Bool), Leaf.compile v e = .ok (.clause (.terms t) inverted) ∧
    t.field = Terms.boostKey

section
variable {v w : Version}

theorem rebuilds_putAll {k : FieldKind} (hk : k ≠ .sort) {n : String} {c : FieldClause k}
    (h : FieldClause.new k n v = .ok c) (hw : w.isSupported = true) (es : List (String × Json)) :
    (c.putAll es).document.Rebuilds w := by
  obtain ⟨hn, -, rfl⟩ := FieldClause.new_eq_ok_iff.mp h
  have hd : (FieldClause.putAll (k := k) ⟨n, .empty v []⟩ es).document =
      .single k.toClauseKind.name (.single n (.obj (Assoc.ofEntries es))) := by
    rw [FieldClause.putAll, Params.putAll_empty]
    cases k <;> first | rfl | exact absurd rfl hk
  rw [hd]
  exact Registry.rebuilds_field hk hw hn (Assoc.sorted_ofEntries es)

theorem rebuilds_withValues_iff {n : String} {c : Terms} (h : Terms.new n v = .ok c)
    (hw : w.isSupported = true) (values : List Json) :
    (c.withValues values).document.Rebuilds w ↔ n ≠ Terms.boostKey := by
  obtain ⟨hn, -, rfl⟩ := Terms.new_eq_ok_iff.mp h
  have hd : (Terms.withValues ⟨n, .empty v []⟩ values).document =
      .single ClauseKind.terms.name (.obj [(n, .arr values)]) := rfl
  have hf : Terms.fieldOf? [(n, .arr values)] = if n = Terms.boostKey then none else some n := by
    by_cases hb : n = Terms.boostKey
    · rw [hb]
      rfl
    · have hne : (n != "boost") = true := bne_iff_ne.mpr hb
      simp [Terms.fieldOf?, Json.arr?, hne, hb]
  rw [hd, Registry.rebuilds_terms_iff hw (List.pairwise_singleton _ _), hf]
  constructor
  · rintro ⟨n', h, -⟩ hb
    rw [if_pos hb] at h
    exact nomatch h
  · exact fun hb => ⟨n, if_neg hb, hn⟩

/-- **The clause of a leaf is rebuilt as itself**, unless it is a match of several values on the
field `boost`. -/
theorem rebuilds_leaf_iff {e : Expr} {c : Clause} {inverted : Bool}
    (h : Leaf.compile v e = .ok (.clause c inverted)) (hw : w.isSupported = true) :
    c.document.Rebuilds w ↔ ¬ e.ListsBoost v := by
  have hlists : e.ListsBoost v ↔ ∃ t : Terms, c = .terms t ∧ t.field = Terms.boostKey := by
    constructor
    · rintro ⟨t, i, ht, hb⟩
      rw [h] at ht
      cases ht
      exact ⟨t, rfl, hb⟩
    · rintro ⟨t, rfl, hb⟩
      exact ⟨t, inverted, h, hb⟩
  rw [hlists]
  obtain ⟨o, l, r⟩ := e
  obtain ⟨-, -, -, cmp, -, -, -, hcmp⟩ := Leaf.compile_eq_clause_iff.mp h
  have hy := Leaf.Comparison.clause_eq_ok_iff.mp hcmp
  generalize cmp.effectiveOp o = o' at hy
  cases hy with
  | @range _ b value c ho hc hv =>
    exact iff_of_true (rebuilds_putAll (by decide) hc hw [(b.key, value)]) fun ⟨_, h, _⟩ => nomatch h
  | @term _ value c ho hc hv =>
    exact iff_of_true (rebuilds_putAll (by decide) hc hw [("value", value)]) fun ⟨_, h, _⟩ => nomatch h
  | terms hc hv =>
    obtain ⟨-, -, rfl⟩ := Terms.new_eq_ok_iff.mp hc
    rw [show Clause.document (.terms _) = Terms.document _ from rfl, rebuilds_withValues_iff hc hw,
      not_iff_not]
    constructor
    · exact fun hb => ⟨_, rfl, hb⟩
    · rintro ⟨t, ht, hb⟩
      cases ht
      exact hb
  | @search _ query c ho hc hv =>
    refine iff_of_true ?_ fun ⟨_, h, _⟩ => nomatch h
    split
    · exact rebuilds_putAll (by decide) hc hw [("query", query), ("operator", .str "and")]
    · exact rebuilds_putAll (by decide) hc hw [("query", query)]

end

/-! ### Predicates -/

section
variable {v w : Version}

theorem rebuilds_ofLeaf_iff {o : Op} {e : Expr} {c : Clause} {inverted : Bool}
    (h : Leaf.compile v e = .ok (.clause c inverted)) (hw : w.isSupported = true) :
    (Item.ofLeaf v o c inverted).document.Rebuilds w ↔ ¬ e.ListsBoost v := by
  have hdoc : (Item.ofLeaf v o c inverted).document = c.document ∨
      (Item.ofLeaf v o c inverted).document = OpenGroup.negation v c := by
    cases o <;> cases inverted <;> simp [Item.ofLeaf]
  rcases hdoc with hd | hd
  · rw [hd]
    exact rebuilds_leaf_iff h hw
  · rw [hd, OpenGroup.negation_eq, BoolGroup.rebuilds_ofItems_iff hw, List.forall_mem_singleton]
    exact rebuilds_leaf_iff h hw

/-- The items of a predicate are rebuilt as themselves iff its leaves are. -/
theorem Expr.Fills.rebuilds_iff {d : Nat} {o : Op} {e : Expr} {is : List Item}
    (h : e.Fills v d o is) (hw : w.isSupported = true) :
    (∀ i ∈ is, i.document.Rebuilds w) ↔ ∀ x ∈ e.leaves, ¬ x.ListsBoost v := by
  have hconn : ∀ {o : Op} {l r : Expr} {is js : List Item}, o.isLogical = true →
      ((∀ i ∈ is, i.document.Rebuilds w) ↔ ∀ x ∈ l.leaves, ¬ x.ListsBoost v) →
      ((∀ i ∈ js, i.document.Rebuilds w) ↔ ∀ x ∈ r.leaves, ¬ x.ListsBoost v) →
      ((∀ i ∈ is ++ js, i.document.Rebuilds w) ↔
        ∀ x ∈ (Expr.node o (.expr l) (.expr r)).leaves, ¬ x.ListsBoost v) := by
    intro o l r is js ho ihl ihr
    simp only [Expr.leaves, Operand.leaves, ho, if_true, List.forall_mem_append, ihl, ihr]
  induction h with
  | @leaf d o o' l r c inverted ho hc =>
    rw [List.forall_mem_singleton, rebuilds_ofLeaf_iff hc hw]
    simp [Expr.leaves, ho]
  | chain ho hl hr ihl ihr => exact hconn ho ihl ihr
  | group ho hne hd hl hr ihl ihr =>
    rw [List.forall_mem_singleton]
    exact (BoolGroup.rebuilds_ofItems_iff hw _ _).trans (hconn ho ihl ihr)

end

/-- **The group of a predicate is rebuilt as itself** iff no leaf is a match of several values on the
field `boost`. -/
theorem rebuilds_compileWhere_iff {c : Config} {root : Option Expr} {g : BoolGroup} {w : Version}
    (h : compileWhere c root = .ok g) (hw : w.isSupported = true) :
    g.document.Rebuilds w ↔ ∀ e ∈ root, ∀ x ∈ e.leaves, ¬ x.ListsBoost c.version := by
  rw [BoolGroup.rebuilds_document_iff hw]
  cases root with
  | none =>
    obtain ⟨-, rfl⟩ := compileWhere_none_eq_ok_iff.mp h
    have hc : (topGroup c).core = (BoolGroup.ofItems c.version []).document :=
      core_pushAll_topGroup c []
    rw [hc, BoolGroup.rebuilds_ofItems_iff hw]
    simp
  | some e =>
    obtain ⟨is, hf, rfl⟩ := exists_fills_of_compileWhere h
    rw [core_pushAll_topGroup, BoolGroup.rebuilds_ofItems_iff hw, hf.rebuilds_iff hw]
    simp

end SearchCompiler
