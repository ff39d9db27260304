import SearchCompiler.Proofs.Group.Walk
import SearchCompiler.Proofs.Leaf.Bound
import SearchCompiler.Proofs.Leaf.Integers

/-! # Groups without their values

The outline of a query is its tree of groups, with the list that each item is in, and at each leaf
the clause without the values that its field is compared with: the kind, the field, the ends of a
range and the options. The group of a predicate has the same outline whether or not the names in the
predicate are bound to declared fields, so binding decides which values are embedded and nothing
else.

* `Json.blanked`, `Json.outline`: leaves and queries without their values.
* `Leaf.Comparison.Yields.blanked_document`: what the leaf of a comparison looks like.
* `outline_compileWhere_bind`: binding keeps the outline. -/

namespace SearchCompiler

/-! ### Outlines -/

/-- The keys of what a field is compared with. -/
def valueKeys : List String := "value" :: "query" :: Bound.all.map Bound.key

/-- **A leaf without the values that its field is compared with.** -/
def Json.blanked : Json → Json
  | .obj [(kind, .obj [(field, .obj params)])] =>
    .single kind (.single field (.obj (params.map fun e =>
      (e.1, if e.1 ∈ valueKeys then .null else e.2))))
  | .obj [(kind, .obj [(field, .arr _)])] => .single kind (.single field .null)
  | doc => doc

/-- **A query without its values.** -/
inductive Outline where
  | leaf (doc : Json)
  | group (lists : Occur → List Outline)

/-- The group of a sequence of items. -/
def Outline.ofItems (is : List (Occur × Outline)) : Outline :=
  .group fun o => (is.filter (·.1 = o)).map Prod.snd

/-- **The outline of a document** read as a query. -/
def Json.outline (doc : Json) : Outline := doc.foldQuery (fun doc => .leaf doc.blanked) .group

/-- The outline of an item, with the list it goes to. -/
def Item.outline (i : Item) : Occur × Outline := (i.occur, i.document.outline)

section
variable {v : Version} {o : Op} {is js : List Item}

theorem Json.outline_of_leaf {doc : Json} (h : doc.group? = none) :
    doc.outline = .leaf doc.blanked := foldQuery_of_leaf h

theorem outline_ofItems (is : List Item) :
    (BoolGroup.ofItems v is).document.outline = .ofItems (is.map Item.outline) := by
  have hlists : ∀ o : Occur, ((is.filter (·.occur = o)).map Item.document).map Json.outline =
      ((is.map Item.outline).filter (·.1 = o)).map Prod.snd := by
    intro o
    rw [List.filter_map, List.map_map, List.map_map]
    rfl
  rw [BoolGroup.document_ofItems, Json.outline, Json.foldQuery_of_group (BoolGroup.group?_core _)]
  simp only [BoolGroup.itemsUnder_ofItems]
  exact congrArg Outline.group (funext hlists)

theorem outline_ofGroup_congr (h : is.map Item.outline = js.map Item.outline) :
    (Item.ofGroup v o is).outline = (Item.ofGroup v o js).outline := by
  unfold Item.ofGroup Item.outline
  rw [outline_ofItems, outline_ofItems, h]

theorem outline_ofLeaf_congr {c c' : Clause} (h : c.document.outline = c'.document.outline)
    (inverted : Bool) :
    (Item.ofLeaf v o c inverted).outline = (Item.ofLeaf v o c' inverted).outline := by
  have hneg : (OpenGroup.negation v c).outline = (OpenGroup.negation v c').outline := by
    simp only [OpenGroup.negation_eq, outline_ofItems, List.map_singleton, Item.outline, h]
  cases o <;> cases inverted <;> simp only [Item.ofLeaf, Item.outline, h, hneg]

theorem outline_document (g : BoolGroup) : g.document.outline =
    if g.filtered then .ofItems [(.filter, g.core.outline)] else g.core.outline := by
  split
  · next h =>
    rw [Json.outline, Json.foldQuery_of_group (BoolGroup.group?_of_filtered h)]
    refine congrArg Outline.group (funext fun o => ?_)
    rw [BoolGroup.itemsUnder_filter]
    cases o <;> rfl
  · next h => rw [BoolGroup.document_of_not_filtered (Bool.eq_false_iff.mpr h)]

end

/-! ### Leaves -/

namespace Leaf

/-- **What a comparison looks like** without its values: the kind of clause, the field, and the end
of the range or the option that the operator asks for. -/
def Comparison.frame (n : String) (o : Op) : Json :=
  match o with
  | .lt | .lte | .gt | .gte =>
    .single ClauseKind.range.name (.single n (o.bound?.elim .null fun b => .single b.key .null))
  | .eq | .ne => .single ClauseKind.term.name (.single n (.single "value" .null))
  | .isIn => .single ClauseKind.terms.name (.single n .null)
  | .matchAll =>
    .single ClauseKind.fullText.name
      (.single n (.mkObj [("query", .null), ("operator", .str "and")]))
  | _ => .single ClauseKind.fullText.name (.single n (.single "query" .null))

variable {s : Schema} {v : Version} {cmp : Comparison} {o : Op} {c c' : Clause}
  {inverted inverted' : Bool}

/-- **The leaf of a comparison looks like** its field and its operator say, whatever the values. -/
theorem Comparison.Yields.blanked_document (h : cmp.Yields v o c inverted) :
    c.document.blanked = frame cmp.field.name o ∧ inverted = (o == .ne || o == .notMatch) := by
  cases h with
  | @range _ b value c ho hc hv =>
    obtain rfl := FieldClause.new_eq_ok hc
    obtain rfl := Op.bound?_eq_some_iff.mp ho
    cases b <;> exact ⟨rfl, rfl⟩
  | term ho hc hv =>
    obtain rfl := FieldClause.new_eq_ok hc
    rcases ho with rfl | rfl <;> exact ⟨rfl, rfl⟩
  | terms hc hv =>
    obtain ⟨-, -, rfl⟩ := Terms.new_eq_ok_iff.mp hc
    exact ⟨rfl, rfl⟩
  | search ho hc hv =>
    obtain rfl := FieldClause.new_eq_ok hc
    cases o with
    | textMatch | matchAll | notMatch => exact ⟨rfl, rfl⟩
    | _ => exact nomatch ho

/-- **Binding keeps a leaf but for its values.** -/
theorem blanked_document_bind (hs : s.Built) {e : Expr}
    (h : compile v e = .ok (.clause c inverted))
    (h' : compile v (e.bind s) = .ok (.clause c' inverted')) :
    c'.document.blanked = c.document.blanked ∧ inverted' = inverted := by
  obtain ⟨o, l, r⟩ := e
  obtain ⟨-, a, b, cmp, ha, hb, hcmp, hc⟩ := compile_eq_clause_iff.mp h
  obtain ⟨a', b', cmp', ha', hb', hcmp', hy'⟩ := yields_of_bind hs h'
  -- the sides that are bound are those of the expression
  obtain rfl : a = a' := Except.ok.inj (ha.symm.trans ha')
  obtain rfl : b = b' := Except.ok.inj (hb.symm.trans hb')
  obtain rfl : cmp = cmp' := Except.ok.inj (hcmp.symm.trans hcmp')
  obtain ⟨hdoc, hinv⟩ := (Comparison.clause_eq_ok_iff.mp hc).blanked_document
  obtain ⟨hdoc', hinv'⟩ := hy'.blanked_document
  rw [Comparison.name_bindFrom] at hdoc'
  exact ⟨hdoc'.trans hdoc.symm, hinv'.trans hinv.symm⟩

end Leaf

/-! ### Groups -/

theorem Expr.op_bind (s : Schema) (e : Expr) : (e.bind s).op = e.op := by
  obtain ⟨o, l, r⟩ := e
  rw [bind_node]
  rfl

theorem Expr.connective_bind (s : Schema) (e : Expr) : (e.bind s).connective = e.connective := by
  unfold connective
  rw [op_bind]

/-- **Binding keeps the outlines of the items** of a predicate. -/
theorem Expr.Fills.outline_bind {s : Schema} (hs : s.Built) {v : Version} {d : Nat} {o : Op}
    {e : Expr} {is : List Item} (h : e.Fills v d o is) : ∀ {is' : List Item},
      (e.bind s).Fills v d o is' → is'.map Item.outline = is.map Item.outline := by
  induction h with
  | @leaf d o o' l r c inverted ho hc =>
    intro is' h'
    rw [bind_node] at h'
    obtain ⟨c', inverted', hc', rfl⟩ := (fills_leaf_iff ho).mp h'
    rw [← bind_node] at hc'
    obtain ⟨hdoc, rfl⟩ := Leaf.blanked_document_bind hs hc hc'
    have houtline : c'.document.outline = c.document.outline := by
      rw [Json.outline_of_leaf (group?_of_compile hc), Json.outline_of_leaf (group?_of_compile hc'),
        hdoc]
    rw [List.map_singleton, List.map_singleton, outline_ofLeaf_congr houtline]
  | @chain d o l r is js ho hl hr ihl ihr =>
    intro is' h'
    obtain ⟨ks, ls, hk, hl', rfl⟩ := (fills_chain_iff ho).mp h'
    rw [List.map_append, List.map_append, ihl hk, ihr hl']
  | @group d o o' l r is js ho hne hd hl hr ihl ihr =>
    intro is' h'
    obtain ⟨-, ks, hk, rfl⟩ := (fills_group_iff ho hne).mp h'
    obtain ⟨ls, ms, hl', hm, rfl⟩ := (fills_chain_iff ho).mp hk
    have hitems : (ls ++ ms).map Item.outline = (is ++ js).map Item.outline := by
      rw [List.map_append, List.map_append, ihl hl', ihr hm]
    rw [List.map_singleton, List.map_singleton, outline_ofGroup_congr hitems]

/-- **Binding keeps the outline of a predicate**: if it compiles before and after, the two queries
have the same groups, and at each leaf the same clause but for its values. -/
theorem outline_compileWhere_bind {s : Schema} (hs : s.Built) {c : Config} {e : Expr}
    {g g' : BoolGroup} (h : compileWhere c (some e) = .ok g)
    (h' : compileWhere c (some (e.bind s)) = .ok g') :
    g'.document.outline = g.document.outline := by
  obtain ⟨is, hf, rfl⟩ := exists_fills_of_compileWhere h
  obtain ⟨is', hf', rfl⟩ := exists_fills_of_compileWhere h'
  rw [Expr.connective_bind] at hf'
  have hitems := hf.outline_bind hs hf'
  have hcore :
      ((topGroup c).pushAll is').core.outline = ((topGroup c).pushAll is).core.outline := by
    rw [core_pushAll_topGroup, core_pushAll_topGroup, outline_ofItems, outline_ofItems, hitems]
  rw [outline_document, outline_document, hcore, BoolGroup.filtered_pushAll,
    BoolGroup.filtered_pushAll]

/-- Log lines with a user, whose fields are inside. -/
def Schema.logs : Schema :=
  (((Schema.new "Logs").declare "lineno" (.ofKind .integer)).declare "active"
    (.ofKind .boolean)).declare "user" (.ofKind (.object [("age", .ofKind .integer)]))

theorem Schema.built_logs : logs.Built :=
  .declare (.declare (.declare (.new _) _ (.ofKind _)) _ (.ofKind _)) _ (.ofKind _)

/-- A literal before a name, arithmetic over a path, and a list. -/
def Expr.overLogs : Expr :=
  .node .and (.expr (.node .lt (.value (.str "10")) (.name "lineno")))
    (.expr (.node .or
      (.expr (.node .ne (.expr (.node .add (.name "user.age") (.value (.int 1))))
        (.value (.int 3))))
      (.expr (.compare "active" .isIn (.list [.bool true, .str "False"])))))

theorem outline_compileWhere_bind_logs : Schema.logs.Built ∧ ∃ g g',
    compileWhere {} (some .overLogs) = .ok g ∧
    compileWhere {} (some (Expr.overLogs.bind .logs)) = .ok g' ∧
    g'.document.outline = g.document.outline := by
  obtain ⟨g, h⟩ : ∃ g, compileWhere {} (some .overLogs) = .ok g :=
    ⟨_, compileWhere_eq_ok_iff.mpr ⟨rfl, _, rfl, rfl⟩⟩
  obtain ⟨g', h'⟩ : ∃ g', compileWhere {} (some (Expr.overLogs.bind .logs)) = .ok g' :=
    ⟨_, compileWhere_eq_ok_iff.mpr ⟨rfl, _, rfl, rfl⟩⟩
  exact ⟨Schema.built_logs, g, g', h, h', outline_compileWhere_bind Schema.built_logs h h'⟩

end SearchCompiler
