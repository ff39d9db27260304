import SearchCompiler.Proofs.Decimal.Whole
import SearchCompiler.Proofs.Field.Conforms

/-! # Scalars, native and in JSON

A value that is compared with a field comes as it is, one in a list of JSON or under the key of a
child comes in JSON. Null, truth values, texts and 64-bit integers have both forms. Each kind of
field lists the forms that it takes, and for all but one pair of them it takes both alike: numbers
take a truth value as it is, and refuse it in JSON.

* `Json.IsScalar`: the two forms of a scalar.
* `Validate.integer_json`, `Validate.float_json`, `Validate.boolean_json`,
  `Validate.timestamp_json`, `Value.text_json`: what each kind makes of them.
* `Field.json_agrees`: where a field takes both alike, and where not. -/

namespace SearchCompiler

/-- **The JSON form of a scalar**, and the scalar as it is. -/
inductive Json.IsScalar : Json → Value → Prop
  | null : IsScalar .null .null
  | bool (b : Bool) : IsScalar (.bool b) (.bool b)
  | str (s : String) : IsScalar (.str s) (.str s)
  | int (n : Int64) : IsScalar (.num (.int n.toInt)) (.int n)

/-- Does the kind hold numbers? -/
def Kind.isNumeric {F : Type} : Kind F → Bool
  | .integer | .float => true
  | _ => false

variable {j : Json} {v : Value}

theorem Number.toInt64?_toInt (n : Int64) : (Number.int n.toInt).toInt64? = some n :=
  SearchCompiler.toInt64?_eq_some_iff.mpr rfl

/-! ### The kinds -/

namespace Validate

open Json (IsScalar)

theorem integer_json (h : IsScalar j v) (hj : j.bool? = none) :
    integer (.json j) = integer v := by
  cases h with
  | null => rfl
  | bool b => exact nomatch hj
  | str s => rfl
  | int n => simp only [integer, Number.toInt64?_toInt]

theorem float_json (h : IsScalar j v) (hj : j.bool? = none) : float (.json j) = float v := by
  cases h with
  | bool b => exact nomatch hj
  | _ => rfl

/-- An integer is true iff it is not zero, and in JSON iff its float is not zero. -/
theorem boolean_json (h : IsScalar j v) : boolean (.json j) = boolean v := by
  cases h with
  | int n =>
    have hzero : (Float.ofInt n.toInt == 0) = (n == 0) := by
      rw [Bool.eq_iff_iff, (Decimal.hasSignOf_ofInt n.toInt).beq_zero, beq_iff_eq]
      exact Int64.toInt_inj (y := 0)
    have htruth : ((Number.int n.toInt).toFloat != 0) = (n != 0) := congrArg not hzero
    simp only [boolean, Value.isTruthy, Value.jsonTruthy, htruth]
  | _ => rfl

theorem timestamp_json (zone : Zone) (h : IsScalar j v) :
    timestamp zone (.json j) = timestamp zone v := by
  cases h with
  | int n => simp only [timestamp, Number.toInt64?_toInt]
  | _ => rfl

/-- Numbers take a truth value as it is, but not in JSON. -/
theorem integer_bool (b : Bool) : integer (.json (.bool b)) = .error .notAnInteger ∧
    integer (.bool b) = .ok (.int (if b then 1 else 0)) := ⟨rfl, rfl⟩

theorem float_bool (b : Bool) : float (.json (.bool b)) = .error .notANumber ∧
    float (.bool b) = .ok (.float (if b then 1 else 0)) := ⟨rfl, rfl⟩

end Validate

theorem Value.text_json (h : j.IsScalar v) : (Value.json j).text = v.text := by
  cases h with
  | null => rfl
  | bool b => cases b <;> rfl
  | str s => rfl
  | int n => exact String.ofList_toList

/-! ### Fields -/

section
variable {kind : Kind Field} {label : String}

/-- The two forms of a scalar are taken alike, but for truth values as numbers. -/
theorem Kind.ok_iff_of_isScalar (hkind : ∀ cs, kind ≠ .object cs) (h : j.IsScalar v)
    (hj : kind.isNumeric = false ∨ j.bool? = none) (w : Value) :
    kind.validate label (.json j) = .ok w ↔ kind.validate label v = .ok w := by
  cases kind <;> rw [validate, validate]
  case integer =>
    have hbool : j.bool? = none := hj.resolve_left (by decide)
    rw [Validate.blame_eq_ok_iff, Validate.blame_eq_ok_iff, Validate.integer_json h hbool]
  case float =>
    have hbool : j.bool? = none := hj.resolve_left (by decide)
    rw [Validate.blame_eq_ok_iff, Validate.blame_eq_ok_iff, Validate.float_json h hbool]
  case boolean =>
    rw [Validate.blame_eq_ok_iff, Validate.blame_eq_ok_iff, Validate.boolean_json h]
  case text => rw [Value.text_json h]
  case timestamp zone =>
    rw [Validate.blame_eq_ok_iff, Validate.blame_eq_ok_iff, Validate.timestamp_json zone h]
  case object cs => exact absurd rfl (hkind cs)

theorem Kind.refuses_of_isScalar (hkind : kind.isNumeric = true) (h : j.IsScalar v)
    (hj : j.bool? ≠ none) : (∃ e, kind.validate label (.json j) = .error e) ∧
      ∃ w, kind.validate label v = .ok w := by
  obtain ⟨b, rfl, rfl⟩ : ∃ b, j = .bool b ∧ v = .bool b := by
    cases h with
    | bool b => exact ⟨b, rfl, rfl⟩
    | _ => exact absurd rfl hj
  cases kind with
  | integer =>
    obtain ⟨hjson, hnative⟩ := Validate.integer_bool b
    rw [validate, validate, hjson, hnative]
    exact ⟨⟨_, rfl⟩, _, rfl⟩
  | float =>
    obtain ⟨hjson, hnative⟩ := Validate.float_bool b
    rw [validate, validate, hjson, hnative]
    exact ⟨⟨_, rfl⟩, _, rfl⟩
  | _ => exact nomatch hkind

end

namespace Field

/-- **A field takes a scalar in JSON as it takes it natively**, with the same result, unless the
scalar is a truth value and the field holds numbers: then it takes the one and refuses the other. -/
theorem json_agrees {f : Field} (hf : ∀ cs, f.kind ≠ .object cs) (h : j.IsScalar v) :
    (f.kind.isNumeric = false ∨ j.bool? = none →
        ∀ w, f.validate (.json j) = .ok w ↔ f.validate v = .ok w) ∧
      (f.kind.isNumeric = true → j.bool? ≠ none →
        (∃ e, f.validate (.json j) = .error e) ∧ ∃ w, f.validate v = .ok w) := by
  obtain ⟨name, kind, multi, required, default⟩ := f
  rw [validate, validate]
  exact ⟨Kind.ok_iff_of_isScalar hf h, fun hkind => Kind.refuses_of_isScalar hkind h⟩

/-- Zero is false in a field for truth values, natively and in JSON. -/
theorem json_agrees_zero : (∀ cs, (ofKind .boolean).kind ≠ .object cs) ∧
    Json.IsScalar (.num (.int (0 : Int64).toInt)) (.int 0) ∧
    (ofKind .boolean).validate (.json (.num (.int (0 : Int64).toInt))) = .ok (.str "false") := by
  have hkind : ∀ cs, (ofKind .boolean).kind ≠ .object cs := fun cs h => nomatch h
  have hscalar : Json.IsScalar (.num (.int (0 : Int64).toInt)) (.int 0) := .int 0
  exact ⟨hkind, hscalar, ((json_agrees hkind hscalar).1 (Or.inl rfl) _).mpr rfl⟩

/-- **An integer field takes `true` as one, and refuses it in JSON.** -/
theorem not_json_agrees_true : Json.IsScalar (.bool true) (.bool true) ∧
    (ofKind .integer).validate (.bool true) = .ok (.int 1) ∧
    (ofKind .integer).validate (.json (.bool true)) =
      .error (.invalid "<unnamed>" "integer" (.json (.bool true)) .notAnInteger) :=
  ⟨.bool true, rfl, rfl⟩

end Field

end SearchCompiler
