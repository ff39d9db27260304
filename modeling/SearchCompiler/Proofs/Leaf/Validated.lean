import SearchCompiler.Proofs.Leaf.Bound
import SearchCompiler.Proofs.Leaf.Finite

/-! # Values that go through a declared field

Names are bound so that the declared field validates what it is compared with. In an expression over
names and literals the field of the clause is then a declared one wherever the schema has a field
of that name, and each value that is embedded has gone through it. Two texts are the exception: the
left one names the field of the clause, but it has not been bound, and the values are embedded as
they stand.

* `Comparison.Prepares`, `Comparison.Embeds`: what becomes of a value, through any field and through
  a given one.
* `Leaf.embeds_of_bind`: what a bound comparison over a declared field embeds. -/

namespace SearchCompiler

/-! ### Expressions over names and literals -/

mutual

/-- **Is there no declared field in an expression?** -/
def Expr.isBare : Expr → Bool
  | .node _ l r => l.isBare && r.isBare

/-- Is there none on one side? -/
def Operand.isBare : Operand → Bool
  | .expr e => e.isBare
  | .field _ => false
  | _ => true

end

/-- Is the operand a text? -/
def Operand.isText : Operand → Bool
  | .value (.str _) => true
  | _ => false

/-- Are both sides texts? -/
def Expr.isOfTexts (e : Expr) : Bool := e.lhs.isText && e.rhs.isText

/-- The field that a clause is about. -/
def Clause.field? : Clause → Option String
  | .term c => some c.field
  | .terms c => some c.field
  | .fullText c => some c.field
  | .range c => some c.field
  | .sort c => some c.field
  | _ => none

namespace Leaf

/-- **The comparison that an expression makes** of its sides. -/
def Makes (v : Version) (e : Expr) (cmp : Comparison) : Prop :=
  ∃ a b, side v e.op e.lhs = .ok a ∧ side v e.op e.rhs = .ok b ∧
    Comparison.ofSides e.op a b = .ok cmp

section
variable {v : Version} {o : Op} {l r : Operand}

theorem Side.isText_iff {a : Side} : a.isText = true ↔ ∃ t, a = .text t := by
  cases a <;> simp [isText]

theorem isText_of_side {x : Operand} {a : Side} (h : side v o x = .ok a) : a.isText = x.isText := by
  cases x with
  | expr e =>
    obtain ⟨f, i, -, rfl⟩ := side_expr_eq_ok h
    rfl
  | field f =>
    obtain ⟨r, -, h⟩ := Outcome.bind_eq_ok.mp h
    rw [← Except.ok.inj h]
    rfl
  | name n =>
    rw [← Except.ok.inj h]
    rfl
  | value k => cases k <;> rw [← Except.ok.inj h] <;> rfl

theorem declared_of_arithmetic {ref : FieldRef} {i : Inverse} (hl : l.isBare = true)
    (hr : r.isBare = true) (h : arithmetic o l r = .ok (ref, i)) : ref.declared = none := by
  unfold arithmetic at h
  split at h
  · exact nomatch h
  · split at h
    · exact nomatch h
    · exact nomatch h
    · exact nomatch hl
    · obtain ⟨i', -, h⟩ := Outcome.bind_eq_ok.mp h
      cases h
      rfl
    · exact nomatch hr
    · obtain ⟨i', -, h⟩ := Outcome.bind_eq_ok.mp h
      cases h
      rfl
    · exact nomatch h

theorem declared_of_side {x : Operand} (hx : x.isBare = true) {ref : FieldRef} {i : Option Inverse}
    (h : side v o x = .ok (.field ref i)) : ref.declared = none := by
  cases x with
  | expr e =>
    obtain ⟨o', l, r⟩ := e
    obtain ⟨f, i, hc, h⟩ := side_expr_eq_ok h
    obtain ⟨-, harith⟩ := compile_eq_operand_iff.mp hc
    cases h
    rw [Operand.isBare, Expr.isBare, Bool.and_eq_true] at hx
    exact declared_of_arithmetic hx.1 hx.2 harith
  | field f => exact nomatch hx
  | name n => exact nomatch Except.ok.inj h
  | value k => cases k <;> exact nomatch Except.ok.inj h

theorem field_of_ofSides {a b : Side} {cmp : Comparison} (h : Comparison.ofSides o a b = .ok cmp) :
    (∃ i, a = .field cmp.field i) ∨ (∃ i, b = .field cmp.field i) ∨ ∃ n, cmp.field = .bare n := by
  unfold Comparison.ofSides at h
  split at h
  · obtain ⟨value, -, h⟩ := Outcome.bind_eq_ok.mp h
    exact Or.inl ⟨_, by rw [← Except.ok.inj h]⟩
  · obtain ⟨value, -, h⟩ := Outcome.bind_eq_ok.mp h
    exact Or.inr (Or.inl ⟨_, by rw [← Except.ok.inj h]⟩)
  · obtain ⟨value, -, h⟩ := Outcome.bind_eq_ok.mp h
    exact Or.inr (Or.inr ⟨_, by rw [← Except.ok.inj h]⟩)
  · obtain ⟨value, -, h⟩ := Outcome.bind_eq_ok.mp h
    exact Or.inr (Or.inr ⟨_, by rw [← Except.ok.inj h]⟩)
  · exact Or.inr (Or.inr ⟨_, by rw [← Except.ok.inj h]⟩)
  · exact nomatch h

/-- **Without declared fields the field of a comparison is a bare name.** -/
theorem declared_of_makes {e : Expr} (he : e.isBare = true) {cmp : Comparison} (h : Makes v e cmp) :
    cmp.field.declared = none := by
  obtain ⟨o, l, r⟩ := e
  rw [Expr.isBare, Bool.and_eq_true] at he
  obtain ⟨a, b, ha, hb, h⟩ := h
  rcases field_of_ofSides h with ⟨i, rfl⟩ | ⟨i, rfl⟩ | ⟨n, hn⟩
  · exact declared_of_side he.1 ha
  · exact declared_of_side he.2 hb
  · rw [hn]
    rfl

end

/-! ### Values -/

namespace Comparison

/-- Moves the constant of a comparison, if it has one, to a value. -/
def moved (cmp : Comparison) (x : Value) : Compile Value :=
  cmp.inverse.elim (.ok x) fun i => i.apply x

/-- **A value comes out of a comparison** as this JSON value. -/
def Prepares (cmp : Comparison) (w : Value) (j : Json) : Prop :=
  ∃ y, cmp.prepare w = .ok y ∧ y.toJson = j

/-- **A value is embedded through a field**: the field validates it, and then the constant is moved
to it. -/
def Embeds (cmp : Comparison) (f : Field) (w : Value) (j : Json) : Prop :=
  ∃ x y, f.validate w = .ok x ∧ cmp.moved x = .ok y ∧ y.toJson = j

variable {cmp : Comparison} {v : Version} {o : Op} {c : Clause} {inverted : Bool}

theorem prepare_eq (cmp : Comparison) (w : Value) :
    cmp.prepare w = cmp.field.validate w >>= cmp.moved := by
  obtain ⟨f, i, value, onLeft⟩ := cmp
  cases i <;> rfl

/-- What comes out of a comparison with a declared field is embedded through it. -/
theorem Prepares.embeds {f : Field} (hf : cmp.field.declared = some f) {w : Value} {j : Json}
    (h : cmp.Prepares w j) : cmp.Embeds f w j := by
  obtain ⟨y, hy, hj⟩ := h
  rw [prepare_eq] at hy
  obtain ⟨x, hx, hy⟩ := Outcome.bind_eq_ok.mp hy
  rw [FieldRef.validate, hf] at hx
  exact ⟨x, y, Outcome.mapError_eq_ok.mp hx, hy, hj⟩

theorem prepareAll_eq_ok_iff {ws : List Value} {js : List Json} :
    cmp.prepareAll ws = .ok js ↔ List.Forall₂ cmp.Prepares ws js := by
  rw [prepareAll, Outcome.mapM_eq_ok_iff]
  constructor
  · refine fun h => h.imp fun w j hj => ?_
    obtain ⟨x, hx, hj⟩ := Outcome.bind_eq_ok.mp hj
    exact ⟨x, hx, Except.ok.inj hj⟩
  · refine fun h => h.imp fun w j hj => ?_
    obtain ⟨x, hx, rfl⟩ := hj
    exact Outcome.bind_eq_ok.mpr ⟨x, hx, rfl⟩

/-- The values of a list are prepared one by one, any other value as it is. -/
theorem forall₂_prepares_of_prepared {j : Json} (h : cmp.prepared = .ok j)
    (harr : ∀ j, cmp.Prepares cmp.value j → j.arr? = none) :
    List.Forall₂ cmp.Prepares (cmp.value.list?.getD [cmp.value]) (j.arr?.getD [j]) := by
  have hsingle : cmp.value.list? = none → cmp.Prepares cmp.value j →
      List.Forall₂ cmp.Prepares (cmp.value.list?.getD [cmp.value]) (j.arr?.getD [j]) := by
    intro hlist hj
    rw [hlist, harr j hj]
    exact .cons hj .nil
  obtain ⟨f, i, value, onLeft⟩ := cmp
  cases value with
  | list ws =>
    obtain ⟨js, hjs, h⟩ := Outcome.bind_eq_ok.mp h
    rw [← Except.ok.inj h]
    exact prepareAll_eq_ok_iff.mp hjs
  | _ =>
    obtain ⟨y, hy, h⟩ := Outcome.bind_eq_ok.mp h
    exact hsingle rfl ⟨y, hy, Except.ok.inj h⟩

/-- **The values of a clause come out of the comparison**, one for each value that it has, unless a
single value comes out as a list. -/
theorem Yields.forall₂_prepares (h : cmp.Yields v (cmp.effectiveOp o) c inverted)
    (harr : ∀ j, cmp.Prepares cmp.value j → j.arr? = none) :
    List.Forall₂ cmp.Prepares (cmp.operands o) c.compared := by
  unfold operands
  split
  · next ho =>
    rw [effectiveOp_eq_isIn_iff.mpr ho] at h
    exact prepareAll_eq_ok_iff.mp h.compared_of_isIn
  · next ho =>
    obtain ⟨j, hj, hcompared⟩ := h.compared_of_ne fun he => ho (effectiveOp_eq_isIn_iff.mp he)
    rw [hcompared]
    exact forall₂_prepares_of_prepared hj harr

theorem Yields.field? (h : cmp.Yields v o c inverted) : c.field? = some cmp.field.name := by
  cases h with
  | range ho hc hv => rw [FieldClause.new_eq_ok hc]; rfl
  | term ho hc hv => rw [FieldClause.new_eq_ok hc]; rfl
  | terms hc hv => rw [(Terms.new_eq_ok_iff.mp hc).2.2]; rfl
  | search ho hc hv =>
    rw [FieldClause.new_eq_ok hc]
    split <;> rfl

theorem arr?_of_prepare {w x : Value} (h : cmp.prepare w = .ok x)
    (hcmp : ¬ (cmp.field.declared = none ∧ cmp.inverse = none)) : x.toJson.arr? = none := by
  obtain ⟨y, hy, h⟩ := Outcome.bind_eq_ok.mp h
  refine Value.arr?_of_isNormal ?_
  split at h
  · exact Inverse.isNormal_of_apply h
  · next hi =>
    cases h
    unfold FieldRef.validate at hy
    split at hy
    · exact Field.isNormal_of_validate (Outcome.mapError_eq_ok.mp hy)
    · next hf => exact absurd ⟨hf, hi⟩ hcmp

/-- **A clause of a declared field** has every value through that field. -/
theorem Yields.forall₂_embeds (h : cmp.Yields v (cmp.effectiveOp o) c inverted) {f : Field}
    (hf : cmp.field.declared = some f) :
    List.Forall₂ (cmp.Embeds f) (cmp.operands o) c.compared := by
  have harr : ∀ j, cmp.Prepares cmp.value j → j.arr? = none := by
    rintro j ⟨x, hx, rfl⟩
    exact arr?_of_prepare hx fun hcmp => nomatch hf.symm.trans hcmp.1
  exact (h.forall₂_prepares harr).imp fun _ _ hj => hj.embeds hf

end Comparison

/-! ### Bound comparisons -/

variable {s : Schema} {v : Version} {e : Expr} {c : Clause} {inverted : Bool} {p : String}
  {f : Field}

theorem prepares_bare_iff {n : String} {value w : Value} {onLeft : Bool} {j : Json} :
    Comparison.Prepares ⟨.bare n, none, value, onLeft⟩ w j ↔ w.toJson = j := by
  constructor
  · rintro ⟨y, hy, rfl⟩
    rw [Except.ok.inj hy]
  · rintro rfl
    exact ⟨w, rfl, rfl⟩

/-- The values of a text that is compared with another one are embedded as they stand. -/
theorem compared_of_texts {o : Op} {t u : String}
    (h : Comparison.Yields v ⟨.bare t, none, .str u, true⟩
      (Comparison.effectiveOp ⟨.bare t, none, .str u, true⟩ o) c inverted) :
    c.compared = (Comparison.operands ⟨.bare t, none, .str u, true⟩ o).map Value.toJson := by
  have hprepares := h.forall₂_prepares fun j hj => by
    rw [← prepares_bare_iff.mp hj]
    rfl
  have heq : List.Forall₂ (fun (w : Value) j => w.toJson = id j)
      (Comparison.operands ⟨.bare t, none, .str u, true⟩ o) c.compared :=
    hprepares.imp fun w j hj => prepares_bare_iff.mp hj
  rw [← Outcome.map_eq_map_iff, List.map_id] at heq
  exact heq.symm

/-- **What a bound comparison over a declared field embeds.** Each value goes through the field,
unless both sides are texts: then the values are embedded as they stand. -/
theorem embeds_of_bind (hs : s.Built) (he : e.isBare = true)
    (h : compile v (e.bind s) = .ok (.clause c inverted)) (hp : c.field? = some p)
    (hf : s.lookup? p = some f) : ∃ cmp, Makes v e cmp ∧ cmp.field.name = p ∧
      (e.isOfTexts = false → List.Forall₂ (cmp.Embeds f) (cmp.operands e.op) c.compared) ∧
      (e.isOfTexts = true → c.compared = (cmp.operands e.op).map Value.toJson) := by
  obtain ⟨o, l, r⟩ := e
  obtain ⟨a, b, cmp, ha, hb, hcmp, hy⟩ := yields_of_bind hs h
  have hmakes : Makes v (.node o l r) cmp := ⟨a, b, ha, hb, hcmp⟩
  have htexts : (a.isText && b.isText) = (Expr.node o l r).isOfTexts := by
    rw [isText_of_side ha, isText_of_side hb]
    rfl
  have hname : cmp.field.name = p := by
    have hfield := hy.field?
    rw [Comparison.name_bindFrom, hp] at hfield
    exact (Option.some.inj hfield).symm
  refine ⟨cmp, hmakes, hname, fun hno => ?_, fun hyes => ?_⟩
  · have hbind : cmp.bindFrom s a b = cmp.bind s := by
      rw [Comparison.bindFrom, htexts, hno]
      rfl
    have hdeclared : (cmp.bind s).field.declared = some f := by
      rw [Comparison.bind, FieldRef.bind, declared_of_makes he hmakes, hname]
      exact hf
    rw [hbind] at hy
    have hop : (cmp.bind s).effectiveOp o = cmp.effectiveOp o := rfl
    rw [← hop] at hy
    exact hy.forall₂_embeds hdeclared
  · rw [hyes, Bool.and_eq_true] at htexts
    obtain ⟨t, rfl⟩ := Side.isText_iff.mp htexts.1
    obtain ⟨u, rfl⟩ := Side.isText_iff.mp htexts.2
    obtain rfl := Except.ok.inj hcmp
    exact compared_of_texts hy

/-- Log lines with a number. -/
def logs : Schema := (Schema.new "Logs").declare "lineno" (.ofKind .integer)

theorem built_logs : logs.Built := .declare (.new _) _ (.ofKind _)

/-- A list of a text and a fraction on the left of one more than the number. -/
def listedLines : Expr :=
  .node .isIn (.value (.list [.str "3", .float 4.5]))
    (.expr (.node .add (.value (.int 1)) (.name "lineno")))

/-- Both values go through the field before one is taken from them. -/
theorem embeds_of_bind_listedLines : logs.Built ∧ listedLines.isBare = true ∧
    ∃ c inverted f cmp, compile .standard (listedLines.bind logs) = .ok (.clause c inverted) ∧
      c.field? = some "lineno" ∧ logs.lookup? "lineno" = some f ∧
      List.Forall₂ (Comparison.Embeds cmp f) [.str "3", .float 4.5] c.compared := by
  obtain ⟨c, inverted, f, h, hp, hf⟩ : ∃ c inverted f,
      compile .standard (listedLines.bind logs) = .ok (.clause c inverted) ∧
      c.field? = some "lineno" ∧ logs.lookup? "lineno" = some f := ⟨_, _, _, rfl, rfl, rfl⟩
  obtain ⟨cmp, ⟨a, b, ha, hb, hcmp⟩, -, hembeds, -⟩ := embeds_of_bind built_logs rfl h hp hf
  refine ⟨built_logs, rfl, c, inverted, f, cmp, h, hp, hf, ?_⟩
  cases ha
  cases hb
  cases hcmp
  exact hembeds rfl

/-- The name of the field as a text, compared with a text. -/
def quotedLine : Expr := .node .eq (.value (.str "lineno")) (.value (.str "12"))

/-- The clause is on the declared field, which makes a number of the text, but the text is
embedded. -/
theorem not_embeds_of_quotedLine : logs.Built ∧ quotedLine.isBare = true ∧ ∃ c f cmp,
    compile .standard (quotedLine.bind logs) = .ok (.clause c false) ∧
    c.field? = some "lineno" ∧ logs.lookup? "lineno" = some f ∧ Makes .standard quotedLine cmp ∧
    c.compared = [.str "12"] ∧ f.validate (.str "12") = .ok (.int 12) ∧
    ¬ List.Forall₂ (cmp.Embeds f) (cmp.operands .eq) c.compared := by
  refine ⟨built_logs, rfl, _, _, _, rfl, rfl, rfl, ⟨_, _, rfl, rfl, rfl⟩, rfl, rfl, fun h => ?_⟩
  obtain ⟨x, y, hx, hy, hj⟩ := (List.forall₂_cons.mp h).1
  obtain rfl : Value.int 12 = x := Except.ok.inj hx
  obtain rfl : Value.int 12 = y := Except.ok.inj hy
  exact nomatch hj

end Leaf

end SearchCompiler
