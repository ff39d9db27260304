import SearchCompiler.Proofs.Field.Members

/-! # What a composite field reads

A composite field takes a mapping, or text in which one stands, and looks up the keys of its
children there, and in mappings that stand there the keys of theirs. What is under other keys has no
influence on what is given, nor on which child refuses first. A whole record is taken in the same
way, but its attributes are counted before; nothing else is counted.

* `Field.Agree`: mappings that agree on all keys that are declared.
* `Field.validate_eq_of_agree`: they are validated alike.
* `Field.validate_of_mapping`: text is taken as the mapping that stands in it.
* `Field.limits_records`: the limit on attributes. -/

namespace SearchCompiler

variable {f child : Field} {children : List (String × Field)} {source : Assoc Json} {key : String}

/-! ### Declared keys -/

/-- **Values that agree on what a field declares**: the same value, or two mappings, for a composite
field, that have the same keys of children and agree on what is under each of them. -/
inductive Field.Agree : Field → Json → Json → Prop
  | same (f : Field) (j : Json) : Agree f j j
  | mappings {f : Field} {children : List (String × Field)} {a b : Assoc Json}
    (hf : f.kind = .object children)
    (hkeys : ∀ c ∈ children, Assoc.get? c.1 a = none ↔ Assoc.get? c.1 b = none)
    (hvalues : ∀ c ∈ children, ∀ x y, Assoc.get? c.1 a = some x → Assoc.get? c.1 b = some y →
      Agree c.2 x y) : Agree f (.obj a) (.obj b)

theorem Field.agree_insert (hf : f.kind = .object children) (hkey : key ∉ Assoc.keys children)
    (j : Json) (a : Assoc Json) : f.Agree (.obj a) (.obj (Assoc.insert key j a)) := by
  have hsame : ∀ c ∈ children, Assoc.get? c.1 (Assoc.insert key j a) = Assoc.get? c.1 a := by
    intro c hc
    have hne : c.1 ≠ key := fun h => hkey (h ▸ List.mem_map_of_mem hc)
    exact Assoc.get?_insert_of_ne hne j a
  refine .mappings hf (fun c hc => by rw [hsame c hc]) fun c hc x y hx hy => ?_
  rw [hsame c hc, hx] at hy
  exact Option.some.inj hy ▸ .same _ _

theorem Field.Agree.isNull_eq {x y : Json} (h : f.Agree x y) : x.isNull = y.isNull := by
  cases h <;> rfl

/-- A child has the same member of two sources if it validates alike what they have under its
key. -/
theorem Field.member_congr {a b : Assoc Json}
    (hkey : Assoc.get? key a = none ↔ Assoc.get? key b = none)
    (hnull : ∀ x y, Assoc.get? key a = some x → Assoc.get? key b = some y → x.isNull = y.isNull)
    (hvalid : ∀ x y, Assoc.get? key a = some x → Assoc.get? key b = some y →
      child.validate (.json x) = child.validate (.json y)) :
    child.member a key = child.member b key := by
  cases ha : Assoc.get? key a with
  | none => rw [member_of_get?_eq_none ha, member_of_get?_eq_none (hkey.mp ha)]
  | some x =>
    obtain ⟨y, hb⟩ : ∃ y, Assoc.get? key b = some y :=
      Option.ne_none_iff_exists'.mp fun hb => nomatch ha.symm.trans (hkey.mpr hb)
    rw [member, member, ha, hb, Option.filter_some, Option.filter_some, hnull x y ha hb]
    cases y.isNull with
    | true => rfl
    | false => exact congrArg (· >>= _) (hvalid x y ha hb)

/-- The members of all children are the same if that of each child is. -/
theorem validateChildren_congr {a b : Assoc Json}
    (h : ∀ c ∈ children, c.2.member a c.1 = c.2.member b c.1) (done : Assoc Json) :
    validateChildren a children done = validateChildren b children done := by
  induction children generalizing done with
  | nil => rw [validateChildren, validateChildren]
  | cons c rest ih =>
    obtain ⟨key, child⟩ := c
    obtain ⟨hchild, hrest⟩ := List.forall_mem_cons.mp h
    rw [validateChildren_cons, validateChildren_cons, hchild]
    exact Outcome.bind_congr fun j? _ => ih hrest _

theorem Field.validate_obj (hf : f.kind = .object children) (a : Assoc Json) :
    f.validate (.json (.obj a)) =
      validateChildren a children [] >>= fun members => .ok (.json (.obj members)) := by
  rw [validate_eq, hf, Kind.validate]
  rfl

/-- **What is not declared has no influence.** Values that agree on what a field declares, at any
depth, have the same normalized form or are refused with the same error. -/
theorem Field.validate_eq_of_agree {x y : Json} (h : f.Agree x y) :
    f.validate (.json x) = f.validate (.json y) := by
  induction h with
  | same => rfl
  | @mappings f children a b hf hkeys hvalues ih =>
    have hmember : ∀ c ∈ children, c.2.member a c.1 = c.2.member b c.1 := fun c hc =>
      member_congr (hkeys c hc) (fun x y hx hy => (hvalues c hc x y hx hy).isNull_eq)
        fun x y hx hy => ih c hc x y hx hy
    rw [validate_obj hf, validate_obj hf, validateChildren_congr hmember []]

/-- A parcel with its weight and an address. -/
def parcel : Field :=
  .ofKind (.object
    [("to", .ofKind (.object [("name", .ofKind .text)])), ("weight", .ofKind .integer)])

/-- A colour of the parcel and a floor of the address are not declared. -/
theorem validate_eq_of_agree_parcel :
    parcel.Agree
      (.obj [("to", .obj [("name", .str "Ada")]), ("weight", .str "3")])
      (.obj [("colour", .null), ("to", .obj [("floor", .num (.int 2)), ("name", .str "Ada")]),
        ("weight", .str "3")]) ∧
    parcel.validate (.json (.obj [("colour", .null),
        ("to", .obj [("floor", .num (.int 2)), ("name", .str "Ada")]), ("weight", .str "3")])) =
      .ok (.json (.obj [("to", .obj [("name", .str "Ada")]), ("weight", .num (.int 3))])) := by
  have hfloor : "floor" ∉ Assoc.keys [("name", Field.ofKind .text)] := by decide
  have hto : (Field.ofKind (.object [("name", .ofKind .text)])).Agree
      (.obj [("name", .str "Ada")]) (.obj [("floor", .num (.int 2)), ("name", .str "Ada")]) :=
    Field.agree_insert rfl hfloor (.num (.int 2)) [("name", .str "Ada")]
  have hagree : parcel.Agree
      (.obj [("to", .obj [("name", .str "Ada")]), ("weight", .str "3")])
      (.obj [("colour", .null), ("to", .obj [("floor", .num (.int 2)), ("name", .str "Ada")]),
        ("weight", .str "3")]) := by
    refine .mappings rfl (by simp [Assoc.get?]) fun c hc x y hx hy => ?_
    rcases List.mem_cons.mp hc with rfl | hc
    · obtain rfl := Option.some.inj hx
      obtain rfl := Option.some.inj hy
      exact hto
    · obtain rfl := List.mem_singleton.mp hc
      obtain rfl := Option.some.inj hx
      obtain rfl := Option.some.inj hy
      exact .same _ _
  exact ⟨hagree, (Field.validate_eq_of_agree hagree).symm.trans rfl⟩

/-! ### Records -/

/-- **Text is taken as the mapping that stands in it.** -/
theorem Field.validate_of_mapping (hf : f.kind = .object children) {v : Value}
    (hv : Validate.mapping v = .ok source) : f.validate v = f.validate (.json (.obj source)) := by
  rw [validate_eq, validate_eq, hf, Kind.validate, Kind.validate, hv]
  rfl

/-- Is the error that a field refuses a value? -/
def FieldError.isRefusal : FieldError → Bool
  | .invalid .. => true
  | _ => false

theorem Validate.isRefusal_of_blame {α : Type} {label kind : String} {v : Value}
    {x : Except Rejection α} {e : FieldError} (h : blame label kind v x = .error e) :
    e.isRefusal = true := by
  cases x with
  | ok a => exact nomatch h
  | error reason => exact Except.error.inj h ▸ rfl

mutual

/-- **Validation fails only by a refusal**, of the field or of a descendant. -/
theorem Field.isRefusal_of_validate {e : FieldError} :
    ∀ (f : Field) (v : Value), f.validate v = .error e → e.isRefusal = true
  | ⟨name, kind, _, _, _⟩, v, h => by
    rw [Field.validate] at h
    exact Kind.isRefusal_of_validate _ kind v h

theorem Kind.isRefusal_of_validate {e : FieldError} (label : String) :
    ∀ (kind : Kind Field) (v : Value), kind.validate label v = .error e → e.isRefusal = true
  | .integer, _, h | .float, _, h | .boolean, _, h | .timestamp _, _, h =>
    Validate.isRefusal_of_blame h
  | .text, _, h => nomatch h
  | .object children, v, h => by
    rw [Kind.validate] at h
    rcases Outcome.bind_eq_error.mp h with h | ⟨source, -, h⟩
    · exact Validate.isRefusal_of_blame h
    · rcases Outcome.bind_eq_error.mp h with h | ⟨members, -, h⟩
      · exact isRefusal_of_validateChildren source children [] h
      · exact nomatch h

theorem isRefusal_of_validateChildren {e : FieldError} (source : Assoc Json) :
    ∀ (children : List (String × Field)) (done : Assoc Json),
      validateChildren source children done = .error e → e.isRefusal = true
  | [], _, h => nomatch h
  | (key, child) :: rest, done, h => by
    rw [validateChildren_cons] at h
    rcases Outcome.bind_eq_error.mp h with h | ⟨j?, -, h⟩
    · unfold Field.member at h
      split at h
      · rcases Outcome.bind_eq_error.mp h with h | ⟨w, -, h⟩
        · exact Field.isRefusal_of_validate child _ h
        · exact nomatch h
      · exact nomatch h
    · exact isRefusal_of_validateChildren source rest _ h

end

/-- **The limit on attributes is one of records.** A record fails by it iff it has too many
attributes, with their number, and one with fewer is validated as its JSON form. Nothing that is
validated otherwise fails by it, be it a mapping or text in which one stands, which is taken as the
mapping. -/
theorem Field.limits_records (hf : f.kind = .object children) :
    (∀ record label count, f.validateRecord record = .error (.tooManyAttributes label count) ↔
        maxAttributes < record.fields.length ∧ label = f.label ∧ count = record.fields.length) ∧
      (∀ record : Json, record.fields.length ≤ maxAttributes →
        f.validateRecord record = f.validate (.json record)) ∧
      (∀ v label count, f.validate v ≠ .error (.tooManyAttributes label count)) ∧
      ∀ v source, Validate.mapping v = .ok source →
        f.validate v = f.validate (.json (.obj source)) := by
  have hfree : ∀ v label count, f.validate v ≠ .error (.tooManyAttributes label count) :=
    fun v label count h => nomatch f.isRefusal_of_validate v h
  refine ⟨fun record label count => ?_, fun record hle => if_neg (Nat.not_lt.mpr hle), hfree,
    fun v source hv => validate_of_mapping hf hv⟩
  rw [validateRecord]
  split
  · next hlt =>
    rw [Except.error.injEq, FieldError.tooManyAttributes.injEq]
    exact ⟨fun ⟨hl, hc⟩ => ⟨hlt, hl.symm, hc.symm⟩, fun ⟨_, hl, hc⟩ => ⟨hl.symm, hc.symm⟩⟩
  · next hle => exact iff_of_false (hfree _ _ _) fun h => hle h.1

/-- A mapping with one attribute more than a record may have. -/
def wideMapping : Assoc Json := (List.range (maxAttributes + 1)).map fun i => (toString i, .null)

theorem length_wideMapping : wideMapping.length = 1001 := by simp [wideMapping, maxAttributes]

/-- The wide mapping is too much for a record, and the parcel is not. -/
theorem Field.limits_records_wideMapping : parcel.kind = .object parcel.children ∧
    parcel.validateRecord (.obj wideMapping) = .error (.tooManyAttributes "<unnamed>" 1001) ∧
    parcel.validateRecord (.obj [("weight", .str "3")]) =
      .ok (.json (.obj [("weight", .num (.int 3))])) := by
  obtain ⟨hlimit, hrecord, -, -⟩ := limits_records (f := parcel) rfl
  have hlength : (Json.obj wideMapping).fields.length = 1001 := by
    rw [Json.fields_obj, length_wideMapping]
  refine ⟨rfl, (hlimit _ _ _).mpr ⟨?_, rfl, hlength.symm⟩, ?_⟩
  · rw [hlength]
    decide
  rw [hrecord _ (by decide)]
  rfl

/-- **The wide mapping is validated** by a field that declares nothing of it. -/
theorem Field.validate_wideMapping : maxAttributes < wideMapping.length ∧
    (ofKind (.object [])).validate (.json (.obj wideMapping)) = .ok (.json (.obj [])) := by
  refine ⟨?_, rfl⟩
  rw [length_wideMapping]
  decide

end SearchCompiler
