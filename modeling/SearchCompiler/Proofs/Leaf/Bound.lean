import SearchCompiler.Proofs.Leaf.Clause
import SearchCompiler.Proofs.Schema.Names
import SearchCompiler.Query.Binding

/-! # Comparisons of bound expressions

Binding gives a bare name the declared field of a schema, on the left and beside a literal. Which
side of a comparison is the field is found out afterwards, and a declared field comes before a bare
name. Still it is the same side before and after, with the same name and the same constant to be
moved, and the field is the bound one. There is one exception: of two texts the left one is the name
of the field, but binding takes it for a literal and passes it over.

* `Leaf.Side.bind`, `Leaf.Comparison.bindFrom`: binding, said of sides and of comparisons.
* `Leaf.side_bind_eq_ok_iff`, `Leaf.side_bindBeside_eq_ok_iff`: the sides of a bound expression.
* `Leaf.yields_of_bind`: the clause of a bound expression. -/

namespace SearchCompiler

/-! ### Operands -/

/-- Binds a right side: a bare name is bound only beside a literal. -/
def Operand.bindBeside (s : Schema) (l r : Operand) : Operand :=
  match l, r with
  | _, .expr e => (Operand.expr e).bind s
  | .value _, r => r.bind s
  | _, r => r

theorem Expr.bind_node (s : Schema) (o : Op) (l r : Operand) :
    (Expr.node o l r).bind s = .node o (l.bind s) (l.bindBeside s r) := by
  rw [bind.eq_def]
  cases l <;> cases r <;> rfl

theorem Operand.bind_name (s : Schema) (n : String) :
    (Operand.name n).bind s = (s.lookup? n).elim (.name n) .field := by rw [bind]

theorem Operand.bind_expr (s : Schema) (e : Expr) : (Operand.expr e).bind s = .expr (e.bind s) := by
  rw [bind]

theorem Operand.bind_field (s : Schema) (f : Field) : (Operand.field f).bind s = .field f := by
  rw [bind] <;> simp

theorem Operand.bind_value (s : Schema) (v : Value) : (Operand.value v).bind s = .value v := by
  rw [bind] <;> simp

theorem Operand.bindBeside_value (s : Schema) (k : Value) (r : Operand) :
    (Operand.value k).bindBeside s r = r.bind s := by cases r <;> rfl

theorem Operand.bindBeside_eq_or (s : Schema) (l r : Operand) :
    l.bindBeside s r = r.bind s ∨ l.bindBeside s r = r := by
  cases l <;> cases r <;> first | exact Or.inl rfl | exact Or.inr rfl

theorem Operand.bindBeside_of_ne_name (s : Schema) (l : Operand) {r : Operand}
    (h : ∀ n, r ≠ .name n) : l.bindBeside s r = r.bind s := by
  cases r with
  | name n => exact absurd rfl (h n)
  | expr e => cases l <;> rfl
  | field f => exact (l.bindBeside_eq_or s _).elim id fun h => h.trans (bind_field s f).symm
  | value k => exact (l.bindBeside_eq_or s _).elim id fun h => h.trans (bind_value s k).symm

/-! ### Sides and comparisons -/

/-- **Binds the field of a leaf**, unless it is a declared one. -/
def FieldRef.bind (s : Schema) (r : FieldRef) : FieldRef :=
  match r.declared with
  | some _ => r
  | none => ⟨r.name, s.lookup? r.name⟩

@[simp] theorem FieldRef.name_bind (s : Schema) (r : FieldRef) : (r.bind s).name = r.name := by
  unfold bind
  split <;> rfl

theorem FieldRef.bind_bare (s : Schema) (n : String) : (bare n).bind s = ⟨n, s.lookup? n⟩ := rfl

namespace Leaf

/-- Is the side a literal? -/
def Side.isLiteral : Side → Bool
  | text _ | literal _ => true
  | _ => false

/-- Binds the field of a side that has one. -/
def Side.bindField (s : Schema) : Side → Side
  | field r i => field (r.bind s) i
  | x => x

/-- **Binds one side of a comparison.** -/
def Side.bind (s : Schema) : Side → Side
  | name n => (s.lookup? n).elim (name n) fun f => field ⟨n, some f⟩ none
  | x => x.bindField s

/-- Binds the right side, a bare name only beside a literal. -/
def Side.bindBeside (s : Schema) (l r : Side) : Side :=
  if l.isLiteral then r.bind s else r.bindField s

/-- Is the side a text? -/
def Side.isText : Side → Bool
  | text _ => true
  | _ => false

namespace Comparison

/-- Binds the field of a comparison. -/
def bind (s : Schema) (cmp : Comparison) : Comparison := { cmp with field := cmp.field.bind s }

/-- **The comparison of two sides once they are bound.** A text that is the name of the field,
beside another text, is passed over. -/
def bindFrom (s : Schema) (a b : Side) (cmp : Comparison) : Comparison :=
  if a.isText && b.isText then cmp else cmp.bind s

variable (s : Schema) (a b : Side) (cmp : Comparison)

@[simp] theorem name_bindFrom : (cmp.bindFrom s a b).field.name = cmp.field.name := by
  unfold bindFrom
  split
  · rfl
  · exact FieldRef.name_bind s cmp.field

@[simp] theorem effectiveOp_bindFrom (o : Op) :
    (cmp.bindFrom s a b).effectiveOp o = cmp.effectiveOp o := by
  unfold bindFrom
  split <;> rfl

end Comparison

variable {s : Schema} {v : Version} {o : Op} {l r : Operand}

/-- The field that an operand names, if it names one. -/
def ref? (o : Op) : Operand → Option (Compile FieldRef)
  | .field f => some (FieldRef.ofField o f)
  | .name n => some (.ok (.bare n))
  | _ => none

theorem ofField_of_lookup? (hs : s.Built) {n : String} {f : Field} (h : s.lookup? n = some f) :
    FieldRef.ofField o f = .ok ⟨n, some f⟩ := by
  simp [FieldRef.ofField, hs.name_of_lookup? h]

theorem bind_ofField {f : Field} {r : FieldRef} (h : FieldRef.ofField o f = .ok r) :
    r.bind s = r := by
  unfold FieldRef.ofField at h
  split at h
  · rw [← Except.ok.inj h]; rfl
  · exact nomatch h

theorem ref?_bind (hs : s.Built) {x : Operand} {c : Compile FieldRef} (h : ref? o x = some c) :
    ref? o (x.bind s) = some (c >>= fun r => .ok (r.bind s)) := by
  cases x with
  | field f =>
    obtain rfl := Option.some.inj h
    rw [Operand.bind_field, ref?]
    cases hf : FieldRef.ofField o f with
    | error e => rfl
    | ok r => rw [Outcome.ok_bind, bind_ofField hf]
  | name n =>
    obtain rfl := Option.some.inj h
    rw [Operand.bind_name, Outcome.ok_bind]
    cases hn : s.lookup? n with
    | none => simp [ref?, FieldRef.bind, FieldRef.bare, hn]
    | some f => simp [ref?, FieldRef.bind, FieldRef.bare, hn, ofField_of_lookup? hs hn]
  | _ => exact nomatch h

theorem arithmetic_ref_value (ho : o ≠ .xor) {x : Operand} {c : Compile FieldRef}
    (h : ref? o x = some c) (k : Value) :
    arithmetic o x (.value k) = c >>= fun r => Inverse.new o k true >>= fun i => .ok (r, i) := by
  cases x <;> cases h <;> simp [arithmetic, ho]

theorem arithmetic_value_ref (ho : o ≠ .xor) {x : Operand} {c : Compile FieldRef}
    (h : ref? o x = some c) (k : Value) :
    arithmetic o (.value k) x = c >>= fun r => Inverse.new o k false >>= fun i => .ok (r, i) := by
  cases x <;> cases h <;> simp [arithmetic, ho]

theorem arithmetic_expr (ho : o ≠ .xor) (x : Operand) (e : Expr) :
    arithmetic o x (.expr e) = .error (.ambiguous o .nestedArithmetic) := by
  cases x <;> simp [arithmetic, ho]

theorem arithmetic_ref_ref (ho : o ≠ .xor) {x y : Operand} {c d : Compile FieldRef}
    (hx : ref? o x = some c) (hy : ref? o y = some d) :
    arithmetic o x y = .error (.ambiguous o .notFieldAndConstant) := by
  cases x <;> cases hx <;> cases y <;> cases hy <;> simp [arithmetic, ho]

/-- With a field on the left the right side is the constant, or the node fails. -/
theorem arithmetic_bind_of_ref (hs : s.Built) (ho : o ≠ .xor) {c : Compile FieldRef}
    (hl : ref? o l = some c) (r : Operand) :
    arithmetic o (l.bind s) (l.bindBeside s r) =
      arithmetic o l r >>= fun p => .ok (p.1.bind s, p.2) := by
  have hl' := ref?_bind hs hl
  cases hr : ref? o r with
  | some d =>
    -- bound or not, the right side names a field too
    have hr' : ∃ d', ref? o (l.bindBeside s r) = some d' := by
      rcases l.bindBeside_eq_or s r with h | h
      · exact ⟨_, h ▸ ref?_bind hs hr⟩
      · exact ⟨_, h ▸ hr⟩
    obtain ⟨d', hr'⟩ := hr'
    rw [arithmetic_ref_ref ho hl' hr', arithmetic_ref_ref ho hl hr, Outcome.error_bind]
  | none =>
    cases r with
    | value k =>
      have hne : ∀ n, Operand.value k ≠ .name n := by simp
      rw [Operand.bindBeside_of_ne_name s l hne, Operand.bind_value,
        arithmetic_ref_value ho hl', arithmetic_ref_value ho hl]
      simp only [bind_assoc, Outcome.ok_bind]
    | expr e =>
      have hne : ∀ n, Operand.expr e ≠ .name n := by simp
      rw [Operand.bindBeside_of_ne_name s l hne, Operand.bind_expr,
        arithmetic_expr ho, arithmetic_expr ho, Outcome.error_bind]
    | _ => exact nomatch hr

/-- **The field of an arithmetic node is bound** and the constant stays what it is; a node that
fails fails as before. -/
theorem arithmetic_bind (hs : s.Built) (o : Op) (l r : Operand) :
    arithmetic o (l.bind s) (l.bindBeside s r) =
      arithmetic o l r >>= fun p => .ok (p.1.bind s, p.2) := by
  by_cases ho : o = .xor
  · simp [arithmetic, ho]
  cases hl : ref? o l with
  | some c => exact arithmetic_bind_of_ref hs ho hl r
  | none =>
    cases l with
    | expr e => simp [arithmetic, ho, Operand.bind_expr]
    | value k =>
      rw [Operand.bind_value, Operand.bindBeside_value]
      cases hr : ref? o r with
      | some c =>
        rw [arithmetic_value_ref ho (ref?_bind hs hr), arithmetic_value_ref ho hr]
        simp only [bind_assoc, Outcome.ok_bind]
      | none =>
        cases r with
        | expr e =>
          rw [Operand.bind_expr, arithmetic_expr ho, arithmetic_expr ho, Outcome.error_bind]
        | value k' => simp [arithmetic, ho, Operand.bind_value]
        | _ => exact nomatch hr
    | _ => exact nomatch hl

theorem side_expr_eq_ok_iff {e : Expr} {a : Side} : side v o (.expr e) = .ok a ↔
    ∃ f i, compile v e = .ok (.operand f i) ∧ a = .field f (some i) := by
  constructor
  · exact side_expr_eq_ok
  · rintro ⟨f, i, hc, rfl⟩
    rw [side, hc]
    rfl

theorem bind_side_field {f : Field} {a : Side} (h : side v o (.field f) = .ok a) :
    a.bind s = a := by
  obtain ⟨r, hr, h⟩ := Outcome.bind_eq_ok.mp h
  rw [← Except.ok.inj h]
  exact congrArg (Side.field · none) (bind_ofField hr)

/-- **The side of a bound operand** is the bound side. -/
theorem side_bind_eq_ok_iff (hs : s.Built) {x : Operand} {b : Side} :
    side v o (x.bind s) = .ok b ↔ ∃ a, side v o x = .ok a ∧ b = a.bind s := by
  cases x with
  | expr e =>
    obtain ⟨o', l, r⟩ := e
    simp only [Operand.bind_expr, Expr.bind_node, side_expr_eq_ok_iff, compile_eq_operand_iff,
      arithmetic_bind hs, Outcome.bind_eq_ok]
    constructor
    · rintro ⟨f, i, ⟨ho, p, hp, he⟩, rfl⟩
      cases he
      exact ⟨_, ⟨_, _, ⟨ho, hp⟩, rfl⟩, rfl⟩
    · rintro ⟨a, ⟨f, i, ⟨ho, hp⟩, rfl⟩, rfl⟩
      exact ⟨_, _, ⟨ho, _, hp, rfl⟩, rfl⟩
  | field f =>
    rw [Operand.bind_field]
    constructor
    · exact fun h => ⟨b, h, (bind_side_field h).symm⟩
    · rintro ⟨a, ha, rfl⟩
      rwa [bind_side_field ha]
  | name n =>
    rw [Operand.bind_name]
    cases hn : s.lookup? n with
    | none => simp [side, Side.bind, hn, eq_comm]
    | some f => simp [side, Side.bind, hn, ofField_of_lookup? hs hn, eq_comm]
  | value w =>
    rw [Operand.bind_value]
    cases w <;> simp [side, Side.bind, Side.bindField, eq_comm]

theorem isLiteral_eq_true_iff {a : Side} (h : side v o l = .ok a) :
    a.isLiteral = true ↔ ∃ k, l = .value k := by
  cases l with
  | expr e =>
    obtain ⟨f, i, -, rfl⟩ := side_expr_eq_ok h
    simp [Side.isLiteral]
  | field f =>
    obtain ⟨r, -, h⟩ := Outcome.bind_eq_ok.mp h
    simp [← Except.ok.inj h, Side.isLiteral]
  | name n => simp [← Except.ok.inj h, Side.isLiteral]
  | value k => cases k <;> simp [← Except.ok.inj h, Side.isLiteral]

theorem eq_name_of_side {x : Operand} {n : String} (h : side v o x = .ok (.name n)) :
    x = .name n := by
  cases x with
  | expr e =>
    obtain ⟨f, i, -, h⟩ := side_expr_eq_ok h
    exact nomatch h
  | field f =>
    obtain ⟨r, -, h⟩ := Outcome.bind_eq_ok.mp h
    exact nomatch Except.ok.inj h
  | name m =>
    cases h
    rfl
  | value k => cases k <;> exact nomatch Except.ok.inj h

/-- **The side of a right operand**, of which a bare name is bound beside a literal only. -/
theorem side_bindBeside_eq_ok_iff (hs : s.Built) {a b : Side} (ha : side v o l = .ok a) :
    side v o (l.bindBeside s r) = .ok b ↔ ∃ c, side v o r = .ok c ∧ b = a.bindBeside s c := by
  have hlit := isLiteral_eq_true_iff ha
  by_cases h : a.isLiteral = true
  · obtain ⟨k, rfl⟩ := hlit.mp h
    simp only [Operand.bindBeside_value, side_bind_eq_ok_iff hs, Side.bindBeside, h, if_true]
  · have hvalue : ∀ k, l ≠ .value k := fun k hk => h (hlit.mpr ⟨k, hk⟩)
    simp only [Side.bindBeside, if_neg h]
    by_cases hname : ∃ n, r = .name n
    · obtain ⟨n, rfl⟩ := hname
      have hr : l.bindBeside s (.name n) = .name n := by
        cases l <;> first | rfl | exact absurd rfl (hvalue _)
      simp [hr, side, Side.bindField, eq_comm]
    · have hr := Operand.bindBeside_of_ne_name s l fun n hn => hname ⟨n, hn⟩
      have hc : ∀ c, side v o r = .ok c → c.bind s = c.bindField s := by
        intro c hc
        cases c with
        | name n => exact absurd ⟨n, eq_name_of_side hc⟩ hname
        | _ => rfl
      rw [hr, side_bind_eq_ok_iff hs]
      exact exists_congr fun c => and_congr_right fun h => by rw [hc c h]

/-! ### Comparisons -/

/-- A bare name on the left is the field, and the declared one of that name if there is one. -/
theorem ofSides_name_bind {n : String} {b : Side} {cmp' : Comparison}
    (h : Comparison.ofSides o ((Side.name n).bind s) (b.bindField s) = .ok cmp') :
    ∃ cmp, Comparison.ofSides o (.name n) b = .ok cmp ∧ cmp' = cmp.bind s := by
  rw [Side.bind] at h
  cases hn : s.lookup? n with
  | none =>
    rw [hn] at h
    cases b with
    | field g j => exact ⟨_, rfl, (Except.ok.inj h).symm⟩
    | _ => exact ⟨_, rfl, by rw [← Except.ok.inj h, Comparison.bind, FieldRef.bind_bare, hn]; rfl⟩
  | some f =>
    rw [hn] at h
    cases b with
    | field g j => exact nomatch h
    | _ => exact ⟨_, rfl, by rw [← Except.ok.inj h, Comparison.bind, FieldRef.bind_bare, hn]⟩

/-- Beside a literal a bare name on the right is the field. -/
theorem ofSides_bind_name {a : Side} (ha : a.isLiteral = true) {n : String} {cmp' : Comparison}
    (h : Comparison.ofSides o a ((Side.name n).bind s) = .ok cmp') :
    ∃ cmp, Comparison.ofSides o a (.name n) = .ok cmp ∧ cmp' = cmp.bind s := by
  rw [Side.bind] at h
  cases hn : s.lookup? n with
  | none =>
    rw [hn] at h
    cases a with
    | text | literal =>
      exact ⟨_, rfl, by rw [← Except.ok.inj h, Comparison.bind, FieldRef.bind_bare, hn]; rfl⟩
    | _ => exact nomatch ha
  | some f =>
    rw [hn] at h
    cases a with
    | text | literal =>
      exact ⟨_, rfl, by rw [← Except.ok.inj h, Comparison.bind, FieldRef.bind_bare, hn]⟩
    | _ => exact nomatch ha

/-- **The comparison of bound sides** is the one that was compared before, with its field bound. -/
theorem ofSides_bind {a b : Side} {cmp' : Comparison}
    (h : Comparison.ofSides o (a.bind s) (a.bindBeside s b) = .ok cmp') :
    ∃ cmp, Comparison.ofSides o a b = .ok cmp ∧ cmp' = cmp.bindFrom s a b := by
  cases a with
  | field f i =>
    cases b with
    | field g j => exact nomatch h
    | _ => exact ⟨_, rfl, (Except.ok.inj h).symm⟩
  | name n => exact ofSides_name_bind h
  | text t =>
    cases b with
    | name n => exact ofSides_bind_name rfl h
    | literal w => exact nomatch h
    | _ => exact ⟨_, rfl, (Except.ok.inj h).symm⟩
  | literal w =>
    cases b with
    | name n => exact ofSides_bind_name rfl h
    | field g j => exact ⟨_, rfl, (Except.ok.inj h).symm⟩
    | _ => exact nomatch h

/-- **The clause of a bound expression** is that of its comparison once the sides are bound. -/
theorem yields_of_bind (hs : s.Built) {c : Clause} {inverted : Bool}
    (h : compile v ((Expr.node o l r).bind s) = .ok (.clause c inverted)) :
    ∃ a b cmp, side v o l = .ok a ∧ side v o r = .ok b ∧ Comparison.ofSides o a b = .ok cmp ∧
      (cmp.bindFrom s a b).Yields v (cmp.effectiveOp o) c inverted := by
  rw [Expr.bind_node] at h
  obtain ⟨-, a', b', cmp', ha', hb', hcmp', hc⟩ := compile_eq_clause_iff.mp h
  obtain ⟨a, ha, rfl⟩ := (side_bind_eq_ok_iff hs).mp ha'
  obtain ⟨b, hb, rfl⟩ := (side_bindBeside_eq_ok_iff hs ha).mp hb'
  obtain ⟨cmp, hcmp, rfl⟩ := ofSides_bind hcmp'
  have hy := Comparison.clause_eq_ok_iff.mp hc
  rw [Comparison.effectiveOp_bindFrom] at hy
  exact ⟨a, b, cmp, ha, hb, hcmp, hy⟩

end Leaf

end SearchCompiler
