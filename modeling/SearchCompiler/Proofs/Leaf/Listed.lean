import SearchCompiler.Proofs.Field.Scalars
import SearchCompiler.Proofs.Leaf.Moved
import SearchCompiler.Proofs.Leaf.Validated

/-! # Lists and arrays

Several literals can be given as a list of values or as an array of JSON. A membership takes the
items of either one by one. Every other comparison takes only a list so; an array goes through the
field and through the inverse as one value, and comes out as an array only where there is neither.

* `Op.written?`, `Leaf.Comparison.writes_iff`: the document of a comparison, by what its field is
  compared with.
* `Operand.TakesArray`: where the items of an array are taken one by one, as those of a list.
* `Leaf.alike_iff`: there a list and an array compile alike, and elsewhere they do not, unless
  neither compiles. -/

namespace SearchCompiler

variable {j k : Json} {w x : Value} {js ks : List Json} {ws : List Value}

/-! ### Literals -/

/-- **The JSON form of a literal** that is a text or a 64-bit integer. -/
inductive Json.IsLiteral : Json → Value → Prop
  | str (s : String) : IsLiteral (.str s) (.str s)
  | int (n : Int64) : IsLiteral (.num (.int n.toInt)) (.int n)

theorem Json.IsLiteral.isScalar (h : j.IsLiteral w) : j.IsScalar w := by
  cases h with
  | str s => exact .str s
  | int n => exact .int n

theorem Json.IsLiteral.toJson_eq (h : j.IsLiteral w) : w.toJson = j := by
  cases h <;> rfl

theorem Field.ok_iff_of_isLiteral (f : Field) (h : j.IsLiteral w) (x : Value) :
    f.validate (.json j) = .ok x ↔ f.validate w = .ok x := by
  by_cases hf : ∃ cs, f.kind = .object cs
  · obtain ⟨name, kind, _, _, _⟩ := f
    obtain ⟨cs, rfl⟩ : ∃ cs, kind = .object cs := hf
    simp only [validate, Kind.validate, Outcome.bind_eq_ok, Validate.blame_eq_ok_iff]
    cases h <;> exact Iff.rfl
  · have hbool : j.bool? = none := by cases h <;> rfl
    exact (json_agrees (fun cs hcs => hf ⟨cs, hcs⟩) h.isScalar).1 (Or.inr hbool) x

/-- **Only texts and truth values are made of an array.** -/
theorem Field.kind_of_validate_arr {f : Field} (h : f.validate (.json (.arr js)) = .ok x) :
    f.kind = .text ∨ f.kind = .boolean := by
  obtain ⟨name, kind, _, _, _⟩ := f
  cases kind with
  | text => exact Or.inl rfl
  | boolean => exact Or.inr rfl
  | _ => exact nomatch h

theorem Inverse.apply_json_int (i : Inverse) (n : Int64) :
    i.apply (.json (.num (.int n.toInt))) = i.apply (.int n) := by
  have hint : (Value.json (.num (.int n.toInt))).int64? = some n := Number.toInt64?_toInt n
  simp only [apply, applyWhole, applyFloat, hint]
  rfl

theorem Inverse.apply_json_str_ne_ok (i : Inverse) (s : String) (x : Value) :
    i.apply (.json (.str s)) ≠ .ok x := by
  obtain ⟨p, number, whole⟩ := i
  cases whole <;> exact nofun

/-! ### What is written -/

/-- **What is written of a comparison** of a field by an operator: the document, by the value that
is compared with or, in a membership, the list of values, and whether it is to be negated. -/
def Op.written? (o : Op) (n : String) (j : Json) : Option (Json × Bool) :=
  match o with
  | .lt | .lte | .gt | .gte =>
    o.bound?.map fun b => (.single "range" (.single n (.single b.key j)), false)
  | .eq | .ne => some (.single "term" (.single n (.single "value" j)), o == .ne)
  | .isIn => some (.single "terms" (.single n j), false)
  | .textMatch | .notMatch =>
    some (.single "match" (.single n (.single "query" j)), o == .notMatch)
  | .matchAll =>
    some (.single "match" (.single n (.obj [("operator", .str "and"), ("query", j)])), false)
  | _ => none

theorem Op.eq_of_written? {o : Op} {n : String} {p : Json × Bool} (hj : o.written? n j = some p)
    (hk : o.written? n k = some p) : j = k := by
  have h := hj.trans hk.symm
  cases o with
  | lt | lte | gt | gte | eq | ne | isIn | textMatch | matchAll | notMatch =>
    simpa [written?, bound?, Json.single] using h
  | _ => cases hj

namespace Leaf

/-- **A comparison compiles** to this document, and is to be negated or not. -/
def CompilesTo (v : Version) (e : Expr) (document : Json) (inverted : Bool) : Prop :=
  ∃ c, compile v e = .ok (.clause c inverted) ∧ c.document = document

/-- Does it compile at all? -/
def Compiles (v : Version) (e : Expr) : Prop :=
  ∃ document inverted, CompilesTo v e document inverted

/-- **Two comparisons compile alike**: to the same document with the same flag, or neither does. -/
def Alike (v : Version) (e e' : Expr) : Prop :=
  ∀ document inverted, CompilesTo v e document inverted ↔ CompilesTo v e' document inverted

namespace Comparison

variable {v : Version} {cmp : Comparison} {f : FieldRef} {i : Option Inverse} {o : Op}
  {onLeft : Bool} {document : Json} {inverted : Bool}

/-- The values of a membership as a list, or else the value, as they come out of a comparison. -/
def taken (cmp : Comparison) (o : Op) : Compile Json :=
  if o = .isIn then cmp.prepareAll (valuesOf cmp.value) >>= fun js => .ok (.arr js)
  else cmp.prepared

/-- A comparison by an operator writes a document. -/
def Writes (cmp : Comparison) (v : Version) (o : Op) (document : Json) (inverted : Bool) : Prop :=
  ∃ c, cmp.clause v o = .ok (c, inverted) ∧ c.document = document

/-- What is written of a comparison with a clause. -/
theorem Yields.written? {c : Clause} (h : cmp.Yields v o c inverted) :
    isFieldName cmp.field.name = true ∧ v.isSupported = true ∧ ∃ j, cmp.taken o = .ok j ∧
      o.written? cmp.field.name j = some (c.document, inverted) := by
  cases h with
  | @range _ b j c ho hc hv =>
    obtain ⟨hn, hs, rfl⟩ := FieldClause.new_eq_ok_iff.mp hc
    obtain rfl := Op.bound?_eq_some_iff.mp ho
    cases b <;> exact ⟨hn, hs, j, hv, rfl⟩
  | @term _ j c ho hc hv =>
    obtain ⟨hn, hs, rfl⟩ := FieldClause.new_eq_ok_iff.mp hc
    rcases ho with rfl | rfl <;> exact ⟨hn, hs, j, hv, rfl⟩
  | @terms js c hc hv =>
    obtain ⟨hn, hs, rfl⟩ := Terms.new_eq_ok_iff.mp hc
    exact ⟨hn, hs, .arr js, Outcome.bind_eq_ok.mpr ⟨js, hv, rfl⟩, rfl⟩
  | @search _ j c ho hc hv =>
    obtain ⟨hn, hs, rfl⟩ := FieldClause.new_eq_ok_iff.mp hc
    cases o with
    | textMatch | matchAll | notMatch => exact ⟨hn, hs, j, hv, rfl⟩
    | _ => exact nomatch ho

theorem exists_yields_of_written? (hn : isFieldName cmp.field.name = true)
    (hs : v.isSupported = true) (hj : cmp.taken o = .ok j)
    (hw : o.written? cmp.field.name j = some (document, inverted)) :
    ∃ c, cmp.Yields v o c inverted ∧ c.document = document := by
  have hnew (k : FieldKind) : FieldClause.new k cmp.field.name v = .ok ⟨_, .empty v []⟩ :=
    FieldClause.new_eq_ok_iff.mpr ⟨hn, hs, rfl⟩
  cases o with
  | lt | lte | gt | gte =>
    cases hw
    exact ⟨_, .range rfl (hnew _) hj, rfl⟩
  | eq =>
    cases hw
    exact ⟨_, .term (.inl rfl) (hnew _) hj, rfl⟩
  | ne =>
    cases hw
    exact ⟨_, .term (.inr rfl) (hnew _) hj, rfl⟩
  | isIn =>
    obtain ⟨js, hjs, hj⟩ := Outcome.bind_eq_ok.mp hj
    cases hj
    cases hw
    exact ⟨_, .terms (Terms.new_eq_ok_iff.mpr ⟨hn, hs, rfl⟩) hjs, rfl⟩
  | textMatch | matchAll | notMatch =>
    cases hw
    exact ⟨_, .search rfl (hnew _) hj, rfl⟩
  | _ => exact nomatch hw

/-- **What a comparison writes.** -/
theorem writes_iff : cmp.Writes v o document inverted ↔
    isFieldName cmp.field.name = true ∧ v.isSupported = true ∧
      ∃ j, cmp.taken o = .ok j ∧ o.written? cmp.field.name j = some (document, inverted) := by
  constructor
  · rintro ⟨c, hc, rfl⟩
    exact (clause_eq_ok_iff.mp hc).written?
  · rintro ⟨hn, hs, j, hj, hw⟩
    obtain ⟨c, hc, hd⟩ := exists_yields_of_written? hn hs hj hw
    exact ⟨c, clause_eq_ok_iff.mpr hc, hd⟩

/-! ### A list and an array -/

/-- **Are the items of an array taken one by one?** Where no field is declared and no constant is
moved, an array comes out as it is. Else its items are taken in a membership only, and no text among
them goes through an inverse that has not gone through a field. -/
def TakesItems (cmp : Comparison) (o : Op) (js : List Json) : Prop :=
  cmp.field.declared = none ∧ cmp.inverse = none ∨
    o = .isIn ∧ (cmp.field.declared ≠ none ∨ ∀ j ∈ js, j.str? = none)

/-- A literal in JSON is prepared as it is natively, unless it is a text that goes through an
inverse only. -/
theorem prepares_json_iff (h : j.IsLiteral w)
    (hcmp : cmp.field.declared ≠ none ∨ cmp.inverse = none ∨ j.str? = none) (k : Json) :
    cmp.Prepares (.json j) k ↔ cmp.Prepares w k := by
  obtain ⟨⟨p, declared⟩, inverse, value, onLeft⟩ := cmp
  cases declared with
  | some f =>
    have hvalid (x : Value) : FieldRef.validate ⟨p, some f⟩ (.json j) = .ok x ↔
        FieldRef.validate ⟨p, some f⟩ w = .ok x :=
      Outcome.mapError_eq_ok.trans ((f.ok_iff_of_isLiteral h x).trans Outcome.mapError_eq_ok.symm)
    simp only [Prepares, prepare_eq, Outcome.bind_eq_ok, hvalid]
  | none =>
    cases inverse with
    | none =>
      have hnative : Prepares ⟨.bare p, none, value, onLeft⟩ w k ↔ j = k :=
        h.toJson_eq ▸ prepares_bare_iff
      exact prepares_bare_iff.trans hnative.symm
    | some i =>
      cases h with
      | str s => simp [Json.str?] at hcmp
      | int n =>
        have hsame : prepare ⟨⟨p, none⟩, some i, value, onLeft⟩ (.json (.num (.int n.toInt))) =
            prepare ⟨⟨p, none⟩, some i, value, onLeft⟩ (.int n) := i.apply_json_int n
        rw [Prepares, Prepares, hsame]

/-- The items of an array are prepared as those of the list, where they are taken one by one. -/
theorem prepareAll_json_iff (hjs : List.Forall₂ Json.IsLiteral js ws)
    (hcmp : cmp.field.declared ≠ none ∨ cmp.inverse = none ∨ ∀ j ∈ js, j.str? = none) :
    cmp.prepareAll (js.map .json) = .ok ks ↔ cmp.prepareAll ws = .ok ks := by
  rw [prepareAll_eq_ok_iff, prepareAll_eq_ok_iff]
  induction hjs generalizing ks with
  | nil => exact Iff.rfl
  | cons h _ ih =>
    have hhead := hcmp.imp_right (Or.imp_right fun hjs => hjs _ List.mem_cons_self)
    have htail := hcmp.imp_right (Or.imp_right fun hjs j hj => hjs j (List.mem_cons_of_mem _ hj))
    simp only [List.map_cons, List.forall₂_cons_left_iff, prepares_json_iff h hhead, ih htail]

theorem prepareAll_json_ne_ok (hf : cmp.field.declared = none) (hi : cmp.inverse ≠ none)
    (hj : j ∈ js) (htext : j.str? ≠ none) : cmp.prepareAll (js.map .json) ≠ .ok ks := by
  intro h
  obtain ⟨k, -, hk⟩ := (Outcome.exists_of_mem_mapM h).1 _ (List.mem_map_of_mem hj)
  obtain ⟨x, hx, -⟩ := Outcome.bind_eq_ok.mp hk
  obtain ⟨s, rfl⟩ : ∃ s, j = .str s := by
    cases j with
    | str s => exact ⟨s, rfl⟩
    | _ => exact absurd rfl htext
  obtain ⟨⟨p, declared⟩, inverse, value, onLeft⟩ := cmp
  obtain rfl : declared = none := hf
  obtain ⟨i, rfl⟩ := Option.ne_none_iff_exists'.mp hi
  exact i.apply_json_str_ne_ok s x hx

section
variable (f : FieldRef) (i : Option Inverse) (onLeft : Bool)

theorem taken_list (o : Op) (ws : List Value) : taken ⟨f, i, .list ws, onLeft⟩ o =
    prepareAll ⟨f, i, .list ws, onLeft⟩ ws >>= fun ks => .ok (.arr ks) := by
  unfold taken
  split <;> rfl

theorem taken_arr_of_ne (ho : o ≠ .isIn) (js : List Json) :
    taken ⟨f, i, .json (.arr js), onLeft⟩ o =
      prepare ⟨f, i, .json (.arr js), onLeft⟩ (.json (.arr js)) >>= fun x => .ok x.toJson :=
  if_neg ho

variable {f i onLeft}

/-- Where no field is declared and no constant is moved, an array is taken as it is. -/
theorem taken_bare_arr (n : String) (js : List Json) :
    taken ⟨.bare n, none, .json (.arr js), onLeft⟩ o = .ok (.arr js) := by
  unfold taken
  split
  · have hall : prepareAll ⟨.bare n, none, .json (.arr js), onLeft⟩ (js.map .json) = .ok js :=
      prepareAll_eq_ok_iff.mpr (List.forall₂_map_left_iff.mpr
        (List.forall₂_same.mpr fun j _ => prepares_bare_iff.mpr rfl))
    rw [valuesOf, hall, Outcome.ok_bind]
  · rfl

/-- **Where its items are taken one by one an array is taken as the list.** -/
theorem taken_arr_iff (hjs : List.Forall₂ Json.IsLiteral js ws)
    (h : TakesItems ⟨f, i, .json (.arr js), onLeft⟩ o js) (k : Json) :
    taken ⟨f, i, .list ws, onLeft⟩ o = .ok k ↔ taken ⟨f, i, .json (.arr js), onLeft⟩ o = .ok k := by
  -- in a membership both are prepared item by item, whatever the field and the inverse
  have hmember (hitems : f.declared ≠ none ∨ i = none ∨ ∀ j ∈ js, j.str? = none) :
      taken ⟨f, i, .list ws, onLeft⟩ o = .ok k ↔
        taken ⟨f, i, .json (.arr js), onLeft⟩ .isIn = .ok k := by
    have hall (ks : List Json) : prepareAll ⟨f, i, .list ws, onLeft⟩ ws = .ok ks ↔
        prepareAll ⟨f, i, .list ws, onLeft⟩ (js.map .json) = .ok ks :=
      (prepareAll_json_iff hjs hitems).symm
    rw [taken_list, Outcome.bind_eq_ok]
    simp only [hall]
    exact Outcome.bind_eq_ok.symm
  rcases h with ⟨hf, rfl⟩ | ⟨rfl, hitems⟩
  · obtain ⟨n, declared⟩ := f
    obtain rfl : declared = none := hf
    rw [hmember (Or.inr (Or.inl rfl)), ← FieldRef.bare, taken_bare_arr, taken_bare_arr]
  · exact hmember (hitems.imp_right Or.inr)

/-- **Elsewhere it is taken as something else**, or not at all. -/
theorem taken_arr_ne (h : ¬ TakesItems ⟨f, i, .json (.arr js), onLeft⟩ o js)
    (hk : taken ⟨f, i, .list ws, onLeft⟩ o = .ok k) :
    taken ⟨f, i, .json (.arr js), onLeft⟩ o ≠ .ok k := by
  obtain ⟨hcmp, hitems⟩ := not_or.mp h
  rw [taken_list] at hk
  obtain ⟨ks, -, hk⟩ := Outcome.bind_eq_ok.mp hk
  cases hk
  intro harr
  by_cases ho : o = .isIn
  · subst ho
    obtain ⟨hf, htext⟩ : f.declared = none ∧ ∃ j ∈ js, j.str? ≠ none := by
      simpa using hitems
    obtain ⟨j, hj, htext⟩ := htext
    have hi : i ≠ none := fun hi => hcmp ⟨hf, hi⟩
    obtain ⟨ks', hks, -⟩ := Outcome.bind_eq_ok.mp harr
    exact prepareAll_json_ne_ok hf hi hj htext hks
  · rw [taken_arr_of_ne f i onLeft ho] at harr
    obtain ⟨x, hx, harr⟩ := Outcome.bind_eq_ok.mp harr
    have hnone := arr?_of_prepare hx hcmp
    rw [Except.ok.inj harr] at hnone
    exact nomatch hnone

end

/-- **What is written of a list**: what the field makes of each item. -/
theorem writes_list_iff : Writes ⟨f, none, .list ws, onLeft⟩ v o document inverted ↔
    isFieldName f.name = true ∧ v.isSupported = true ∧
      ∃ ks, List.Forall₂ (fun w k => ∃ y, f.validate w = .ok y ∧ y.toJson = k) ws ks ∧
        o.written? f.name (.arr ks) = some (document, inverted) := by
  have hprepares : Prepares ⟨f, none, .list ws, onLeft⟩ =
      fun w k => ∃ y, f.validate w = .ok y ∧ y.toJson = k := by
    funext w k
    simp [Prepares, prepare_eq, Outcome.bind_eq_ok, moved]
  rw [writes_iff, ← hprepares]
  refine and_congr_right fun _ => and_congr_right fun _ => ?_
  simp only [taken_list, Outcome.bind_eq_ok, prepareAll_eq_ok_iff]
  constructor
  · rintro ⟨_, ⟨ks, hks, ⟨⟩⟩, hw⟩
    exact ⟨ks, hks, hw⟩
  · rintro ⟨ks, hks, hw⟩
    exact ⟨_, ⟨ks, hks, rfl⟩, hw⟩

/-- **The documents of a list and of an array** are the same where the items of the array are taken
one by one; elsewhere none is written of both. -/
theorem writes_arr_iff (hjs : List.Forall₂ Json.IsLiteral js ws)
    (h : TakesItems ⟨f, i, .json (.arr js), onLeft⟩ o js) :
    Writes ⟨f, i, .list ws, onLeft⟩ v o document inverted ↔
      Writes ⟨f, i, .json (.arr js), onLeft⟩ v o document inverted := by
  simp only [writes_iff, taken_arr_iff hjs h]

theorem not_writes_arr (h : ¬ TakesItems ⟨f, i, .json (.arr js), onLeft⟩ o js)
    (hlist : Writes ⟨f, i, .list ws, onLeft⟩ v o document inverted) :
    ¬ Writes ⟨f, i, .json (.arr js), onLeft⟩ v o document inverted := by
  intro harr
  obtain ⟨-, -, j, hj, hw⟩ := writes_iff.mp hlist
  obtain ⟨-, -, k, hk, hw'⟩ := writes_iff.mp harr
  obtain rfl := Op.eq_of_written? hw hw'
  exact taken_arr_ne h hj hk

/-- A declared field that an array goes through holds texts or truth values. -/
theorem kind_of_writes_arr {n : String} {g : Field} (ho : o ≠ .isIn)
    (h : Writes ⟨⟨n, some g⟩, none, .json (.arr js), onLeft⟩ v o document inverted) :
    g.kind = .text ∨ g.kind = .boolean := by
  obtain ⟨-, -, j, hj, -⟩ := writes_iff.mp h
  rw [taken_arr_of_ne _ none onLeft ho] at hj
  obtain ⟨x, hx, -⟩ := Outcome.bind_eq_ok.mp hj
  obtain ⟨y, hy, -⟩ := Outcome.bind_eq_ok.mp hx
  exact Field.kind_of_validate_arr (Outcome.mapError_eq_ok.mp hy)

end Comparison

/-! ### Operands -/

/-- The field of a side that is one, or a name, and the inverse of it. -/
def Side.field? : Side → Option (FieldRef × Option Inverse)
  | field f i => some (f, i)
  | name n => some (.bare n, none)
  | _ => none

section
variable {v : Version} {o : Op} {onLeft : Bool} {x : Operand} {w : Value} {js : List Json}
  {ws : List Value} {f : FieldRef} {i : Option Inverse} {document : Json} {inverted : Bool}

theorem ofSides_literal_eq_ok_iff {s : Side} {cmp : Comparison} :
    (if onLeft then Comparison.ofSides o s (.literal w) else
      Comparison.ofSides o (.literal w) s) = .ok cmp ↔
      ∃ f i, s.field? = some (f, i) ∧ cmp = ⟨f, i, w, onLeft⟩ := by
  cases s with
  | field f i =>
    have hsame : (if onLeft then Comparison.ofSides o (.field f i) (.literal w) else
        Comparison.ofSides o (.literal w) (.field f i)) = .ok ⟨f, i, w, onLeft⟩ := by
      cases onLeft <;> rfl
    simp [hsame, Side.field?, eq_comm]
  | name n =>
    have hsame : (if onLeft then Comparison.ofSides o (.name n) (.literal w) else
        Comparison.ofSides o (.literal w) (.name n)) = .ok ⟨.bare n, none, w, onLeft⟩ := by
      cases onLeft <;> rfl
    simp [hsame, Side.field?, eq_comm]
  | _ => cases onLeft <;> simp [Comparison.ofSides, Side.field?]

/-- **The document of a comparison with a literal** that is no text. -/
theorem compilesTo_arranged_iff (hw : side v o (.value w) = .ok (.literal w)) :
    CompilesTo v (.arranged o onLeft x (.value w)) document inverted ↔
      o.cls = .relational ∧ ∃ s f i, side v o x = .ok s ∧ s.field? = some (f, i) ∧
        Comparison.Writes ⟨f, i, w, onLeft⟩ v (Comparison.effectiveOp ⟨f, i, w, onLeft⟩ o)
          document inverted := by
  have hclause (c : Clause) : compile v (.arranged o onLeft x (.value w)) =
      .ok (.clause c inverted) ↔ o.cls = .relational ∧ ∃ s cmp, side v o x = .ok s ∧
        (if onLeft then Comparison.ofSides o s (.literal w) else
          Comparison.ofSides o (.literal w) s) = .ok cmp ∧
        cmp.clause v (cmp.effectiveOp o) = .ok (c, inverted) := by
    cases onLeft <;> simp [Expr.arranged, compile_eq_clause_iff, hw]
  simp only [CompilesTo, hclause, ofSides_literal_eq_ok_iff]
  constructor
  · rintro ⟨c, ⟨ho, s, _, hs, ⟨f, i, hf, rfl⟩, hc⟩, hd⟩
    exact ⟨ho, s, f, i, hs, hf, c, hc, hd⟩
  · rintro ⟨ho, s, f, i, hs, hf, c, hc, hd⟩
    exact ⟨c, ⟨ho, s, _, hs, ⟨f, i, hf, rfl⟩, hc⟩, hd⟩

end

end Leaf

/-- **Are the items of an array taken one by one** in a comparison with an operand? With a bare name
they always are, with a declared field in a membership only. If a constant is moved to them, and no
field is declared, there has to be no text among them. -/
def Operand.TakesArray (x : Operand) (o : Op) (js : List Json) : Prop :=
  match x with
  | .name _ => True
  | .field _ => o = .isIn
  | .expr e => o = .isIn ∧ (e.isBare = false ∨ ∀ j ∈ js, j.str? = none)
  | .value _ => False

namespace Leaf

variable {v : Version} {o : Op} {onLeft : Bool} {x : Operand} {js : List Json} {ws : List Value}
  {f : FieldRef} {i : Option Inverse}

theorem declared_of_ofField {g : Field} (h : FieldRef.ofField o g = .ok f) :
    f.declared = some g := by
  obtain ⟨n, -, rfl⟩ := Option.map_eq_some_iff.mp (ofField_eq_ok h)
  rfl

theorem declared_of_operand {e : Expr} {i : Inverse} (h : compile v e = .ok (.operand f i)) :
    f.declared = none ↔ e.isBare = true := by
  obtain ⟨o, l, r⟩ := e
  obtain ⟨-, h⟩ := compile_eq_operand_iff.mp h
  rw [Expr.isBare, Bool.and_eq_true]
  refine ⟨fun hf => ?_, fun hbare => declared_of_arithmetic hbare.1 hbare.2 h⟩
  have hfield (g : Field) (i' : Compile Inverse) :
      (FieldRef.ofField o g >>= fun f => i' >>= fun i => .ok (f, i)) ≠ .ok (f, i) := by
    intro h
    obtain ⟨f', hf', h⟩ := Outcome.bind_eq_ok.mp h
    obtain ⟨i'', -, h⟩ := Outcome.bind_eq_ok.mp h
    cases h
    cases (declared_of_ofField hf').symm.trans hf
  unfold arithmetic at h
  split at h
  · cases h
  · split at h
    · cases h
    · cases h
    · exact absurd h (hfield _ _)
    · exact ⟨rfl, rfl⟩
    · exact absurd h (hfield _ _)
    · exact ⟨rfl, rfl⟩
    · cases h

/-- The items of an array are taken one by one in a comparison iff they are with its operand. -/
theorem takesItems_iff {s : Side} {w : Value} (hs : side v o x = .ok s)
    (hf : s.field? = some (f, i)) :
    Comparison.TakesItems ⟨f, i, w, onLeft⟩ (Comparison.effectiveOp ⟨f, i, w, onLeft⟩ o) js ↔
      x.TakesArray o js := by
  rw [Comparison.TakesItems, Comparison.effectiveOp_eq_isIn_iff]
  cases x with
  | name n =>
    cases hs
    cases hf
    exact iff_of_true (Or.inl ⟨rfl, rfl⟩) trivial
  | field g =>
    obtain ⟨r, hr, hs⟩ := Outcome.bind_eq_ok.mp hs
    cases hs
    cases hf
    simp [Operand.TakesArray, declared_of_ofField hr]
  | expr e =>
    obtain ⟨r, i, hc, rfl⟩ := side_expr_eq_ok hs
    cases hf
    simp [Operand.TakesArray, declared_of_operand hc]
  | value w => cases w <;> cases hs <;> exact nomatch hf

theorem side_list (v : Version) (o : Op) (ws : List Value) :
    side v o (.value (.list ws)) = .ok (.literal (.list ws)) := by simp [side]

theorem side_json (v : Version) (o : Op) (j : Json) :
    side v o (.value (.json j)) = .ok (.literal (.json j)) := by simp [side]

theorem alike_of_takesArray (hjs : List.Forall₂ Json.IsLiteral js ws) (h : x.TakesArray o js) :
    Alike v (.arranged o onLeft x (.value (.list ws)))
      (.arranged o onLeft x (.value (.json (.arr js)))) := by
  intro document inverted
  rw [compilesTo_arranged_iff (side_list v o ws), compilesTo_arranged_iff (side_json v o (.arr js))]
  refine and_congr_right fun _ => exists_congr fun s => exists_congr fun f => exists_congr fun i =>
    and_congr_right fun hs => and_congr_right fun hf => ?_
  exact Comparison.writes_arr_iff hjs ((takesItems_iff hs hf).mpr h)

/-- Where its items are not taken one by one an array has not the document of the list. -/
theorem not_compilesTo_arr (h : ¬ x.TakesArray o js) {document : Json} {inverted : Bool}
    (hlist : CompilesTo v (.arranged o onLeft x (.value (.list ws))) document inverted) :
    ¬ CompilesTo v (.arranged o onLeft x (.value (.json (.arr js)))) document inverted := by
  intro harr
  obtain ⟨-, s, f, i, hs, hf, hw⟩ := (compilesTo_arranged_iff (side_list v o ws)).mp hlist
  obtain ⟨-, s', f', i', hs', hf', hw'⟩ := (compilesTo_arranged_iff (side_json v o _)).mp harr
  cases hs.symm.trans hs'
  cases hf.symm.trans hf'
  exact Comparison.not_writes_arr (fun htakes => h ((takesItems_iff hs hf).mp htakes)) hw hw'

/-- The comparisons of a declared field with an array that compile are those of texts and truth
values, but for memberships. -/
theorem kind_of_compiles_arr {g : Field} (ho : o ≠ .isIn)
    (h : Compiles v (.arranged o onLeft (.field g) (.value (.json (.arr js))))) :
    g.kind = .text ∨ g.kind = .boolean := by
  obtain ⟨document, inverted, h⟩ := h
  obtain ⟨-, s, f, i, hs, hf, hw⟩ := (compilesTo_arranged_iff (side_json v o _)).mp h
  obtain ⟨r, hr, hs⟩ := Outcome.bind_eq_ok.mp hs
  cases hs
  cases hf
  obtain ⟨n, declared⟩ := f
  obtain rfl : declared = some g := declared_of_ofField hr
  exact Comparison.kind_of_writes_arr (fun h => ho (Comparison.effectiveOp_eq_isIn_iff.mp h)) hw

theorem side_of_fieldRef? {r : FieldRef} (h : x.fieldRef? = some r) :
    ∃ s, side v o x = .ok s ∧ s.field? = some (r, none) := by
  cases x with
  | name n =>
    cases h
    exact ⟨.name n, by rw [side], rfl⟩
  | field f =>
    obtain ⟨n, hn, rfl⟩ := Option.map_eq_some_iff.mp h
    exact ⟨.field ⟨n, some f⟩ none, by simp [side, FieldRef.ofField, hn], rfl⟩
  | _ => cases h

/-- **The document of a list**: every operator compares with the list of what the field makes of the
items. -/
theorem compilesTo_list_iff {r : FieldRef} (h : x.fieldRef? = some r) {document : Json}
    {inverted : Bool} :
    CompilesTo v (.arranged o onLeft x (.value (.list ws))) document inverted ↔
      o.cls = .relational ∧ isFieldName r.name = true ∧ v.isSupported = true ∧
        ∃ ks, List.Forall₂ (fun w k => ∃ y, r.validate w = .ok y ∧ y.toJson = k) ws ks ∧
          (if onLeft then o else o.converse).written? r.name (.arr ks) =
            some (document, inverted) := by
  obtain ⟨s, hs, hf⟩ := side_of_fieldRef? h
  rw [compilesTo_arranged_iff (side_list v o ws), ← Comparison.writes_list_iff]
  refine and_congr_right fun _ => ⟨?_, fun hw => ⟨s, r, none, hs, hf, hw⟩⟩
  rintro ⟨s', r', i', hs', hf', hw⟩
  cases hs.symm.trans hs'
  cases hf.symm.trans hf'
  exact hw

/-- **A list and an array of the same literals**, compared with the same operand on the same side,
compile alike iff the items of the array are taken one by one, or neither compiles. Otherwise an
array that is compared with a declared field compiles only as one text or truth value. A list that is
compared with a field compiles, by every operator that writes one, iff the field takes each item. -/
theorem alike_iff (hjs : List.Forall₂ Json.IsLiteral js ws) (v : Version) (o : Op) (onLeft : Bool)
    (x : Operand) :
    (Alike v (.arranged o onLeft x (.value (.list ws)))
        (.arranged o onLeft x (.value (.json (.arr js)))) ↔
      x.TakesArray o js ∨ (¬ Compiles v (.arranged o onLeft x (.value (.list ws))) ∧
        ¬ Compiles v (.arranged o onLeft x (.value (.json (.arr js)))))) ∧
    (∀ f, x = .field f → o ≠ .isIn →
      Compiles v (.arranged o onLeft x (.value (.json (.arr js)))) →
        f.kind = .text ∨ f.kind = .boolean) ∧
    ∀ r, x.fieldRef? = some r → ∀ document inverted,
      CompilesTo v (.arranged o onLeft x (.value (.list ws))) document inverted ↔
        o.cls = .relational ∧ isFieldName r.name = true ∧ v.isSupported = true ∧
          ∃ ks, List.Forall₂ (fun w k => ∃ y, r.validate w = .ok y ∧ y.toJson = k) ws ks ∧
            (if onLeft then o else o.converse).written? r.name (.arr ks) =
              some (document, inverted) := by
  refine ⟨⟨fun halike => or_iff_not_imp_left.mpr fun h => ⟨?_, ?_⟩, ?_⟩, ?_, ?_⟩
  · rintro ⟨document, inverted, hlist⟩
    exact not_compilesTo_arr h hlist ((halike document inverted).mp hlist)
  · rintro ⟨document, inverted, harr⟩
    exact not_compilesTo_arr h ((halike document inverted).mpr harr) harr
  · rintro (h | ⟨hlist, harr⟩)
    · exact alike_of_takesArray hjs h
    · exact fun document inverted => iff_of_false (fun h => hlist ⟨document, inverted, h⟩)
        fun h => harr ⟨document, inverted, h⟩
  · rintro f rfl ho h
    exact kind_of_compiles_arr ho h
  · exact fun r hr document inverted => compilesTo_list_iff hr

/-- The numbers of log lines. -/
def lineField : Field := { name := some "lineno", kind := .integer }

/-- A number and a text in a membership go through the field, in an array as in a list. -/
theorem alike_iff_lines :
    List.Forall₂ Json.IsLiteral [.num (.int (12 : Int64).toInt), .str "45"] [.int 12, .str "45"] ∧
    CompilesTo .standard (.node .isIn (.field lineField)
      (.value (.json (.arr [.num (.int (12 : Int64).toInt), .str "45"]))))
      (.single "terms" (.single "lineno" (.arr [.ofInt64 12, .ofInt64 45]))) false := by
  have hjs : List.Forall₂ Json.IsLiteral [.num (.int (12 : Int64).toInt), .str "45"]
      [.int 12, .str "45"] := .cons (.int 12) (.cons (.str "45") .nil)
  refine ⟨hjs, ?_⟩
  have halike := (alike_iff hjs .standard .isIn true (.field lineField)).1.mpr (Or.inl rfl)
  exact (halike _ _).mp ⟨_, rfl, rfl⟩

/-- **An equality takes the items of a list, and refuses the array of them.** -/
theorem not_alike_lines :
    List.Forall₂ Json.IsLiteral [.ofInt64 1, .ofInt64 2] [.int 1, .int 2] ∧
    CompilesTo .standard (.node .eq (.field lineField) (.value (.list [.int 1, .int 2])))
      (.single "term" (.single "lineno" (.single "value" (.arr [.ofInt64 1, .ofInt64 2])))) false ∧
    compile .standard (.node .eq (.field lineField)
      (.value (.json (.arr [.ofInt64 1, .ofInt64 2])))) =
      .error (.field (.invalid "lineno" "integer" (.json (.arr [.ofInt64 1, .ofInt64 2]))
        .notAnInteger)) ∧
    ¬ Alike .standard (.node .eq (.field lineField) (.value (.list [.int 1, .int 2])))
      (.node .eq (.field lineField) (.value (.json (.arr [.ofInt64 1, .ofInt64 2])))) := by
  refine ⟨.cons (.int 1) (.cons (.int 2) .nil), ⟨_, rfl, rfl⟩, rfl, fun h => ?_⟩
  obtain ⟨c, hc, -⟩ := (h _ _).mp ⟨_, rfl, rfl⟩
  exact nomatch hc

end Leaf

end SearchCompiler
