import SearchCompiler.Proofs.Group.Meaning

/-! # Predicates joined by one connective

Predicates that are joined from the left by one connective compile to one group. If that compiles,
so does each of them alone, since it is enclosed by no more groups than inside the chain; and the
group holds as the connective joins the groups of the predicates.

* `Expr.joinAll`: the chain.
* `compileWhere_joinAll`: its parts compile, and what it means. -/

namespace SearchCompiler

namespace Expr

/-- **Predicates joined from the left.** -/
def joinAll (o : Op) (first : Expr) (rest : List Expr) : Expr :=
  rest.foldl (fun e e' => .node o (.expr e) (.expr e')) first

variable {v : Version} {d : Nat} {o : Op} {e : Expr} {is : List Item}

theorem Fills.of_le (h : e.Fills v d o is) {d' : Nat} (hd : d' ≤ d) : e.Fills v d' o is := by
  induction h generalizing d' with
  | leaf ho hc => exact .leaf ho hc
  | chain ho _ _ ihl ihr => exact .chain ho (ihl hd) (ihr hd)
  | group ho hne hlt _ _ ihl ihr =>
    exact .group ho hne (Nat.lt_of_le_of_lt hd hlt) (ihl (Nat.succ_le_succ hd))
      (ihr (Nat.succ_le_succ hd))

/-- What fills any group fills the outermost one. -/
theorem Fills.exists_outermost (h : e.Fills v d o is) : ∃ js, e.Fills v 0 e.connective js := by
  obtain ⟨o', l, r⟩ := e
  cases ho : o'.isLogical with
  | false =>
    obtain ⟨c, inverted, hc, -⟩ := (fills_leaf_iff ho).mp h
    exact ⟨_, .leaf ho hc⟩
  | true =>
    have hconn : (Expr.node o' l r).connective = o' := if_pos ho
    rw [hconn]
    by_cases hne : o' = o
    · subst hne
      exact ⟨is, h.of_le (Nat.zero_le _)⟩
    · obtain ⟨-, js, hjs, -⟩ := (fills_group_iff ho hne).mp h
      exact ⟨js, hjs.of_le (Nat.zero_le _)⟩

theorem Fills.of_mem_joinAll (ho : o.isLogical = true) {rest : List Expr} :
    ∀ {first : Expr} {is : List Item}, (joinAll o first rest).Fills v d o is →
      ∀ x ∈ first :: rest, ∃ js, x.Fills v d o js := by
  induction rest with
  | nil =>
    intro first is h x hx
    rw [List.mem_singleton.mp hx]
    exact ⟨is, h⟩
  | cons e rest ih =>
    intro first is h x hx
    have hrest := ih h
    obtain ⟨js, hjs⟩ := hrest _ List.mem_cons_self
    obtain ⟨ks, ls, hk, hl, -⟩ := (fills_chain_iff ho).mp hjs
    rcases List.mem_cons.mp hx with rfl | hx
    · exact ⟨ks, hk⟩
    · rcases List.mem_cons.mp hx with rfl | hx
      · exact ⟨ls, hl⟩
      · exact hrest x (List.mem_cons_of_mem _ hx)

variable {σ : Json → Bool}

/-- A chain holds as its connective joins what is in it. -/
theorem holds_joinAll (ho : o.isLogical = true) (rest : List Expr) : ∀ first : Expr,
    (joinAll o first rest).holds v σ = o.joins ((first :: rest).map (holds v σ)) := by
  induction rest with
  | nil => exact fun first => (Op.joins_singleton o _).symm
  | cons e rest ih =>
    intro first
    refine (ih _).trans ?_
    rcases Op.isLogical_iff.mp ho with rfl | rfl
    · simp [Op.joins_and, Expr.holds, Operand.holds, Bool.and_assoc]
    · simp [Op.joins_or, Expr.holds, Operand.holds, Bool.or_assoc]

theorem connective_joinAll (ho : o.isLogical = true) {rest : List Expr} (h : rest ≠ [])
    (first : Expr) : (joinAll o first rest).connective = o := by
  rw [← List.dropLast_concat_getLast h, joinAll, List.foldl_append]
  exact if_pos ho

end Expr

/-! ### The group of a chain -/

theorem holds_pushAll_topGroup {c : Config} {e : Expr} {is : List Item}
    (h : e.Fills c.version 0 e.connective is) (σ : Json → Bool) :
    ((topGroup c).pushAll is).document.holds σ = e.holds c.version σ := by
  have ho := e.isLogical_connective
  rw [BoolGroup.holds_document, core_pushAll_topGroup,
    holds_ofItems ho h.ne_nil (h.admits ho), h.joins_eq_holds ho]

/-- **What is joined compiles alone**, and the chain holds as its connective joins it. -/
theorem compileWhere_joinAll {c : Config} {o : Op} (ho : o.isLogical = true) {first : Expr}
    {rest : List Expr} {g : BoolGroup}
    (h : compileWhere c (some (first.joinAll o rest)) = .ok g) :
    (∀ e ∈ first :: rest, ∃ g', compileWhere c (some e) = .ok g' ∧
      ∀ σ, g'.document.holds σ = e.holds c.version σ) ∧
    ∀ σ, g.document.holds σ = o.joins ((first :: rest).map (Expr.holds c.version σ)) := by
  have hv := isSupported_of_compileWhere h
  obtain ⟨is, hf, rfl⟩ := exists_fills_of_compileWhere h
  have hparts : ∀ e ∈ first :: rest, ∃ js, e.Fills c.version 0 e.connective js := by
    intro e he
    by_cases hr : rest = []
    · subst hr
      rw [List.mem_singleton.mp he]
      exact ⟨is, hf⟩
    · rw [Expr.connective_joinAll ho hr] at hf
      obtain ⟨js, hjs⟩ := hf.of_mem_joinAll ho e he
      exact hjs.exists_outermost
  constructor
  · intro e he
    obtain ⟨js, hjs⟩ := hparts e he
    have hi := (Expr.items_eq_ok_iff e).mpr hjs
    exact ⟨_, compileWhere_eq_ok_iff.mpr ⟨hv, js, hi, rfl⟩, holds_pushAll_topGroup hjs⟩
  · intro σ
    rw [holds_pushAll_topGroup hf, Expr.holds_joinAll ho]

theorem holds_of_compileWhere_none {c : Config} {g : BoolGroup} (h : compileWhere c none = .ok g)
    (σ : Json → Bool) : g.document.holds σ = true := by
  obtain ⟨-, rfl⟩ := compileWhere_none_eq_ok_iff.mp h
  have hc : (topGroup c).core = (BoolGroup.ofItems c.version []).document :=
    core_pushAll_topGroup c []
  rw [BoolGroup.holds_document, hc, holds_document_ofItems]
  rfl

end SearchCompiler
