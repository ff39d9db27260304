import SearchCompiler.Proofs.Group.Walk

/-! # Which predicates compile

A predicate compiles if both sides of every connective are expressions, every leaf has a clause, and
on no path the connective changes too often, since every change opens a group inside another one.
The number of groups that enclose the present one is that of the changes on the way from the root,
so a chain of one connective may be as long as it likes.

* `exists_compileWhere_iff`: success, and how deep the groups of a document are. -/

namespace SearchCompiler

namespace Expr

/-- Both sides of every connective are expressions. -/
def SidesAreExpressions (e : Expr) : Prop :=
  ∀ x ∈ e.nodes, x.op.isLogical = true → x.lhs.expr?.isSome = true ∧ x.rhs.expr?.isSome = true

/-- Every leaf has a clause. -/
def LeavesHaveClauses (v : Version) (e : Expr) : Prop :=
  ∀ x ∈ e.leaves, ∃ c inverted, Leaf.compile v x = .ok (.clause c inverted)

/-- **The conditions for a predicate to compile.** -/
structure Compilable (v : Version) (e : Expr) : Prop where
  sides : e.SidesAreExpressions
  leaves : e.LeavesHaveClauses v
  changes : ∀ p ∈ e.paths, changes p ≤ maxDepth

/-- The conditions inside a group of some connective that so many groups enclose. -/
structure CompilableAt (v : Version) (d : Nat) (o : Op) (e : Expr) : Prop where
  sides : e.SidesAreExpressions
  leaves : e.LeavesHaveClauses v
  changes : ∀ p ∈ e.paths, d + SearchCompiler.changes (o :: p) ≤ maxDepth

variable {v : Version} {d : Nat} {o o' : Op}

theorem changes_cons_cons (o o' : Op) (p : List Op) :
    SearchCompiler.changes (o :: o' :: p) =
      (if o = o' then 0 else 1) + SearchCompiler.changes (o' :: p) := rfl

theorem compilableAt_leaf_iff {l r : Operand} (ho : o'.isLogical = false) :
    (Expr.node o' l r).CompilableAt v d o ↔
      ∃ c inverted, Leaf.compile v (.node o' l r) = .ok (.clause c inverted) := by
  constructor
  · rintro ⟨-, h, -⟩
    exact h _ (by simp [Expr.leaves, ho])
  · intro h
    refine ⟨fun x hx hx' => ?_, fun x hx => ?_, fun p hp => ?_⟩
    · simp only [nodes, ho, Bool.false_eq_true, if_false, List.mem_singleton] at hx
      rw [hx, op, ho] at hx'
      simp at hx'
    · simp only [Expr.leaves, ho, Bool.false_eq_true, if_false, List.mem_singleton] at hx
      rw [hx]; exact h
    · simp [paths, ho] at hp

theorem sidesAreExpressions_connective_iff {l r : Expr} (ho : o.isLogical = true) :
    (Expr.node o (.expr l) (.expr r)).SidesAreExpressions ↔
      l.SidesAreExpressions ∧ r.SidesAreExpressions := by
  simp only [SidesAreExpressions, nodes, Operand.nodes, ho, if_true, List.forall_mem_cons,
    List.forall_mem_append]
  exact ⟨fun h => h.2, fun h => ⟨fun _ => ⟨rfl, rfl⟩, h⟩⟩

theorem leavesHaveClauses_connective_iff {l r : Expr} (ho : o.isLogical = true) :
    (Expr.node o (.expr l) (.expr r)).LeavesHaveClauses v ↔
      l.LeavesHaveClauses v ∧ r.LeavesHaveClauses v := by
  simp only [LeavesHaveClauses, Expr.leaves, Operand.leaves, ho, if_true, List.forall_mem_append]

/-- Under a connective the paths go on from it, and one change more counts if it is another one. -/
theorem compilableAt_connective_iff {l r : Expr} (ho : o'.isLogical = true) :
    (Expr.node o' (.expr l) (.expr r)).CompilableAt v d o ↔
      d + (if o = o' then 0 else 1) ≤ maxDepth ∧
        l.CompilableAt v (d + if o = o' then 0 else 1) o' ∧
        r.CompilableAt v (d + if o = o' then 0 else 1) o' := by
  have hp : (∀ p ∈ (Expr.node o' (.expr l) (.expr r)).paths,
      d + SearchCompiler.changes (o :: p) ≤ maxDepth) ↔
      d + (if o = o' then 0 else 1) ≤ maxDepth ∧
        (∀ p ∈ l.paths, d + (if o = o' then 0 else 1) + SearchCompiler.changes (o' :: p) ≤
          maxDepth) ∧
        ∀ p ∈ r.paths, d + (if o = o' then 0 else 1) + SearchCompiler.changes (o' :: p) ≤
          maxDepth := by
    simp only [paths, Operand.paths, ho, if_true, List.forall_mem_cons, List.forall_mem_map,
      List.forall_mem_append, changes_cons_cons, ← Nat.add_assoc]
    rfl
  constructor
  · rintro ⟨hs, hl, hc⟩
    obtain ⟨hsl, hsr⟩ := (sidesAreExpressions_connective_iff ho).mp hs
    obtain ⟨hll, hlr⟩ := (leavesHaveClauses_connective_iff ho).mp hl
    obtain ⟨hd, hcl, hcr⟩ := hp.mp hc
    exact ⟨hd, ⟨hsl, hll, hcl⟩, ⟨hsr, hlr, hcr⟩⟩
  · rintro ⟨hd, ⟨hsl, hll, hcl⟩, ⟨hsr, hlr, hcr⟩⟩
    exact ⟨(sidesAreExpressions_connective_iff ho).mpr ⟨hsl, hsr⟩,
      (leavesHaveClauses_connective_iff ho).mpr ⟨hll, hlr⟩, hp.mpr ⟨hd, hcl, hcr⟩⟩

theorem not_sidesAreExpressions {l r : Operand} (ho : o.isLogical = true)
    (h : l.expr? = none ∨ r.expr? = none) : ¬ (Expr.node o l r).SidesAreExpressions := by
  intro hs
  have hn : Expr.node o l r ∈ (Expr.node o l r).nodes := by rw [nodes]; exact List.mem_cons_self
  have hsides := hs _ hn (by simpa [op] using ho)
  simp only [lhs, rhs] at hsides
  rcases h with h | h <;> simp [h] at hsides

/-- **What fills a group**: an expression for which the conditions hold there. -/
theorem exists_fills_iff (e : Expr) : ∀ {d : Nat} {o : Op}, d ≤ maxDepth →
    ((∃ is, e.Fills v d o is) ↔ e.CompilableAt v d o) := by
  induction e using connectiveInduction with
  | leaf o' l r ho =>
    intro d o hd
    rw [compilableAt_leaf_iff ho]
    simp only [fills_leaf_iff ho]
    constructor
    · rintro ⟨is, c, inverted, hc, -⟩; exact ⟨c, inverted, hc⟩
    · rintro ⟨c, inverted, hc⟩; exact ⟨_, c, inverted, hc, rfl⟩
  | connective o' l r ho ihl ihr =>
    intro d o hd
    by_cases hx : l.expr? = none ∨ r.expr? = none
    · refine ⟨fun ⟨is, h⟩ => ?_, fun h => absurd h.sides (not_sidesAreExpressions ho hx)⟩
      obtain ⟨a, b, rfl, rfl⟩ := h.sides ho
      simp [Operand.expr?] at hx
    · obtain ⟨l, rfl⟩ : ∃ l', l = .expr l' := by cases l <;> simp [Operand.expr?] at hx ⊢
      obtain ⟨r, rfl⟩ : ∃ r', r = .expr r' := by cases r <;> simp [Operand.expr?] at hx ⊢
      rw [compilableAt_connective_iff ho]
      by_cases hne : o' = o
      · subst hne
        simp only [if_true, Nat.add_zero, ← ihl l rfl hd, ← ihr r rfl hd, fills_chain_iff ho]
        constructor
        · rintro ⟨is, js, ks, hl, hr, -⟩; exact ⟨hd, ⟨js, hl⟩, ks, hr⟩
        · rintro ⟨-, ⟨js, hl⟩, ks, hr⟩; exact ⟨_, js, ks, hl, hr, rfl⟩
      · simp only [if_neg (Ne.symm hne), fills_group_iff ho hne, fills_chain_iff ho]
        constructor
        · rintro ⟨is, hlt, _, ⟨js, ks, hl, hr, rfl⟩, -⟩
          exact ⟨hlt, (ihl l rfl hlt).mp ⟨js, hl⟩, (ihr r rfl hlt).mp ⟨ks, hr⟩⟩
        · rintro ⟨hlt, hl, hr⟩
          obtain ⟨js, hl⟩ := (ihl l rfl hlt).mpr hl
          obtain ⟨ks, hr⟩ := (ihr r rfl hlt).mpr hr
          exact ⟨_, hlt, _, ⟨js, ks, hl, hr, rfl⟩, rfl⟩

/-- From the root on, only the changes on a path itself count. -/
theorem compilableAt_zero_iff (e : Expr) : e.CompilableAt v 0 e.connective ↔ e.Compilable v := by
  have hp : ∀ p ∈ e.paths, 0 + SearchCompiler.changes (e.connective :: p) =
      SearchCompiler.changes p := by
    intro p hp
    obtain ⟨o, l, r⟩ := e
    cases ho : o.isLogical with
    | false => simp [paths, ho] at hp
    | true =>
      have hc : (Expr.node o l r).connective = o := by simp [connective, op, ho]
      simp only [paths, ho, if_true, List.mem_cons, List.mem_map] at hp
      rw [hc]
      rcases hp with rfl | ⟨q, -, rfl⟩ <;> simp [SearchCompiler.changes]
  constructor
  · rintro ⟨hs, hl, hc⟩
    exact ⟨hs, hl, fun p h => by rw [← hp p h]; exact hc p h⟩
  · rintro ⟨hs, hl, hc⟩
    exact ⟨hs, hl, fun p h => by rw [hp p h]; exact hc p h⟩

/-! ### Chains -/

/-- All connectives are the same one. -/
def IsChain (o : Op) (e : Expr) : Prop := ∀ x ∈ e.nodes, x.op.isLogical = true → x.op = o

theorem exists_node_of_mem_path (e : Expr) : ∀ p ∈ e.paths, ∀ o ∈ p,
    ∃ x ∈ e.nodes, x.op.isLogical = true ∧ x.op = o := by
  induction e using connectiveInduction with
  | leaf o' l r ho => intro p hp; simp [paths, ho] at hp
  | connective o' l r ho ihl ihr =>
    have hside : ∀ x : Operand, (∀ e, x = .expr e → ∀ p ∈ e.paths, ∀ o ∈ p,
        ∃ x ∈ e.nodes, x.op.isLogical = true ∧ x.op = o) → ∀ p ∈ x.paths, ∀ o ∈ p,
        ∃ y ∈ x.nodes, y.op.isLogical = true ∧ y.op = o := by
      intro x ih p hp
      cases x with
      | expr e => exact ih e rfl p hp
      | _ => simp [Operand.paths] at hp
    intro p hp o hop
    simp only [paths, nodes, ho, if_true, List.mem_cons, List.mem_map, List.mem_append] at hp ⊢
    have hself : ∃ x, (x = .node o' l r ∨ x ∈ l.nodes ∨ x ∈ r.nodes) ∧
        x.op.isLogical = true ∧ x.op = o' := ⟨_, Or.inl rfl, ho, rfl⟩
    rcases hp with rfl | ⟨q, hq, rfl⟩
    · rwa [List.mem_singleton.mp hop]
    · rcases List.mem_cons.mp hop with rfl | hoq
      · exact hself
      · rcases hq with hq | hq
        · obtain ⟨x, hx, hxo⟩ := hside l ihl q hq o hoq
          exact ⟨x, Or.inr (Or.inl hx), hxo⟩
        · obtain ⟨x, hx, hxo⟩ := hside r ihr q hq o hoq
          exact ⟨x, Or.inr (Or.inr hx), hxo⟩

theorem changes_eq_zero : ∀ {p : List Op}, (∀ o' ∈ p, o' = o) → SearchCompiler.changes p = 0
  | [], _ => rfl
  | [_], _ => rfl
  | a :: b :: p, h => by
    have hab : a = b := by rw [h a (by simp), h b (by simp)]
    have := changes_eq_zero (p := b :: p) fun o' ho' => h o' (List.mem_cons_of_mem _ ho')
    rw [changes_cons_cons, if_pos hab, this]

theorem IsChain.changes_eq_zero {e : Expr} (h : e.IsChain o) :
    ∀ p ∈ e.paths, SearchCompiler.changes p = 0 := by
  intro p hp
  refine Expr.changes_eq_zero (o := o) fun o' ho' => ?_
  obtain ⟨x, hx, hxl, rfl⟩ := exists_node_of_mem_path e p hp o' ho'
  exact h x hx hxl

end Expr

/-! ### Groups inside groups -/

namespace Json

/-- **How many groups stand one inside the other** in a document; what is inside a leaf does not
count. -/
def groupDepth (doc : Json) : Nat :=
  doc.foldQuery (fun _ => 0) fun lists => 1 + (Occur.all.flatMap lists).foldr max 0

theorem foldr_max_le_iff {ns : List Nat} {n : Nat} : ns.foldr max 0 ≤ n ↔ ∀ m ∈ ns, m ≤ n := by
  induction ns with
  | nil => simp
  | cons m ns ih => rw [List.foldr_cons, Nat.max_le, ih, List.forall_mem_cons]

theorem groupDepth_of_leaf {doc : Json} (h : doc.group? = none) : doc.groupDepth = 0 :=
  foldQuery_of_leaf h

theorem groupDepth_le_iff {doc : Json} {ps : Assoc Json} {n : Nat} (h : doc.group? = some ps) :
    doc.groupDepth ≤ n + 1 ↔ ∀ o, ∀ j ∈ itemsUnder ps o, j.groupDepth ≤ n := by
  have hd : doc.groupDepth = 1 + (Occur.all.flatMap fun o =>
      (itemsUnder ps o).map groupDepth).foldr max 0 := foldQuery_of_group h
  rw [hd, Nat.add_comm, Nat.add_le_add_iff_right, foldr_max_le_iff]
  simp only [List.mem_flatMap, List.mem_map]
  constructor
  · intro hle o j hj; exact hle _ ⟨o, Occur.mem_all o, j, hj, rfl⟩
  · rintro hle _ ⟨o, -, j, hj, rfl⟩; exact hle o j hj

end Json

theorem groupDepth_ofItems_le {v : Version} {is : List Item} {n : Nat}
    (h : ∀ i ∈ is, i.document.groupDepth ≤ n) :
    (BoolGroup.ofItems v is).document.groupDepth ≤ n + 1 := by
  rw [BoolGroup.document_ofItems, Json.groupDepth_le_iff (BoolGroup.group?_core _)]
  intro o j hj
  obtain ⟨i, hi, -, rfl⟩ := BoolGroup.mem_itemsUnder_ofItems.mp hj
  exact h i hi

theorem groupDepth_ofLeaf_le {v : Version} {o : Op} {e : Expr} {c : Clause} {inverted : Bool}
    (h : Leaf.compile v e = .ok (.clause c inverted)) :
    (Item.ofLeaf v o c inverted).document.groupDepth ≤ 1 := by
  have hc : c.document.groupDepth ≤ 0 :=
    Nat.le_of_eq (Json.groupDepth_of_leaf (group?_of_compile h))
  have hn : (OpenGroup.negation v c).groupDepth ≤ 1 := by
    rw [OpenGroup.negation_eq]
    exact groupDepth_ofItems_le fun i hi => by rw [List.mem_singleton.mp hi]; exact hc
  cases o <;> cases inverted <;> first | exact hn | exact Nat.le_succ_of_le hc

/-- Every group around an expression leaves one group less to open inside it. -/
theorem Expr.Fills.groupDepth_le {v : Version} {d : Nat} {o : Op} {e : Expr} {is : List Item}
    (h : e.Fills v d o is) : d ≤ maxDepth →
      ∀ i ∈ is, i.document.groupDepth ≤ maxDepth - d + 1 := by
  induction h with
  | leaf ho hc =>
    intro hd i hi
    obtain rfl := List.mem_singleton.mp hi
    exact Nat.le_trans (groupDepth_ofLeaf_le hc) (Nat.le_add_left 1 _)
  | chain ho hl hr ihl ihr =>
    intro hd i hi
    exact (List.mem_append.mp hi).elim (ihl hd i) (ihr hd i)
  | @group d o o' l r is js ho hne hlt hl hr ihl ihr =>
    intro hd i hi
    obtain rfl := List.mem_singleton.mp hi
    have hs : maxDepth - d + 1 = maxDepth - (d + 1) + 1 + 1 := by omega
    rw [hs]
    exact groupDepth_ofItems_le fun i hi =>
      (List.mem_append.mp hi).elim (ihl hlt i) (ihr hlt i)

theorem groupDepth_document_le {g : BoolGroup} {n : Nat} (h : g.core.groupDepth ≤ n) :
    g.document.groupDepth ≤ if g.filtered then n + 1 else n := by
  cases hf : g.filtered with
  | false => rwa [BoolGroup.document_of_not_filtered hf]
  | true =>
    rw [if_pos rfl, Json.groupDepth_le_iff (BoolGroup.group?_of_filtered hf)]
    intro o j hj
    rw [BoolGroup.itemsUnder_filter] at hj
    split at hj
    · rw [List.mem_singleton.mp hj]; exact h
    · exact absurd hj List.not_mem_nil

/-! ### The group of a predicate -/

theorem compileWhere_groupDepth_le {c : Config} {e : Expr} {g : BoolGroup}
    (h : compileWhere c (some e) = .ok g) :
    g.document.groupDepth ≤ if c.filterContext then 13 else 12 := by
  obtain ⟨is, hf, rfl⟩ := exists_fills_of_compileWhere h
  have hc : ((topGroup c).pushAll is).core.groupDepth ≤ 12 := by
    rw [core_pushAll_topGroup]
    exact groupDepth_ofItems_le (hf.groupDepth_le (Nat.zero_le _))
  have hfil : ((topGroup c).pushAll is).filtered = c.filterContext :=
    BoolGroup.filtered_pushAll _ _
  have := groupDepth_document_le hc
  rwa [hfil] at this

/-- **Success, and the depth of a document.** A predicate compiles iff both sides of its connectives
are expressions, its leaves have clauses, and on no path the connective changes more than `maxDepth`
times; for a chain of one connective the first two are enough. At most twelve groups of its document
stand one inside the other, the filter around them not counted. -/
theorem exists_compileWhere_iff {c : Config} (hv : c.version.isSupported = true) (e : Expr) :
    ((∃ g, compileWhere c (some e) = .ok g) ↔ e.Compilable c.version) ∧
      (∀ o, e.IsChain o → ((∃ g, compileWhere c (some e) = .ok g) ↔
        e.SidesAreExpressions ∧ e.LeavesHaveClauses c.version)) ∧
      ∀ g, compileWhere c (some e) = .ok g →
        g.document.groupDepth ≤ if c.filterContext then 13 else 12 := by
  have hiff : (∃ g, compileWhere c (some e) = .ok g) ↔ e.Compilable c.version := by
    rw [← Expr.compilableAt_zero_iff, ← Expr.exists_fills_iff e (Nat.zero_le _)]
    constructor
    · rintro ⟨g, h⟩
      obtain ⟨is, hf, -⟩ := exists_fills_of_compileWhere h
      exact ⟨is, hf⟩
    · rintro ⟨is, hf⟩
      exact ⟨_, compileWhere_eq_ok_iff.mpr ⟨hv, is, (Expr.items_eq_ok_iff e).mpr hf, rfl⟩⟩
  refine ⟨hiff, fun o ho => hiff.trans ⟨fun h => ⟨h.sides, h.leaves⟩, fun h => ?_⟩, fun g h =>
    compileWhere_groupDepth_le h⟩
  exact ⟨h.1, h.2, fun p hp => by rw [ho.changes_eq_zero p hp]; exact Nat.zero_le _⟩

theorem compilable_mixed : Version.isSupported .standard = true ∧
    Expr.mixed.Compilable .standard ∧
    ∃ g, compileWhere {} (some .mixed) = .ok g ∧ g.document.groupDepth ≤ 13 := by
  obtain ⟨g, h⟩ := exists_compileWhere_mixed
  obtain ⟨hiff, -, hd⟩ := exists_compileWhere_iff (c := {}) rfl .mixed
  exact ⟨rfl, hiff.mp ⟨g, h⟩, g, h, hd g h⟩

end SearchCompiler
