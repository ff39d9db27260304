import SearchCompiler.Proofs.Field.Members
import SearchCompiler.Proofs.Field.Scalars
import SearchCompiler.Proofs.Time.UtcForm

/-! # Validating a normalized value

A normalized value is validated once more: as it is, or, if it stands under the key of a child, in
its JSON form. Each kind takes back what it gives, with one exception: a moment whose year has a
sign in the UTC form is not read. A mapping is taken back if the members of all children are. Under
a key that two children have stands what the second of them gave, which the first may refuse; and
in place of a float that is not finite stands a null, which is passed over: both are left out.

* `Json.HasNull`: null inside a JSON value.
* `Field.Keyed`: no two children have the same key, at any depth.
* `Field.FarMoment`: a moment that is not read, under the keys that lead to it.
* `Field.Declared.validate_again_iff`: which normalized values are taken back. -/

namespace SearchCompiler

/-- **A null** in a JSON value, at any depth. -/
inductive Json.HasNull : Json → Prop
  | null : HasNull .null
  | item {items : List Json} {j : Json} (h : j ∈ items) (hj : HasNull j) : HasNull (.arr items)
  | member {fields : Assoc Json} {key : String} {j : Json} (h : (key, j) ∈ fields)
    (hj : HasNull j) : HasNull (.obj fields)

variable {f : Field} {v w : Value} {j : Json} {key : String}

/-! ### Scalars -/

namespace Validate

theorem integer_of_ok (h : integer v = .ok w) : integer (.json w.toJson) = .ok w := by
  obtain ⟨n, rfl⟩ := exists_int_of_integer h
  rw [Value.toJson, Json.ofInt64, integer_json (.int n) rfl]
  rfl

theorem float_of_ok (h : float v = .ok w) (hnull : w.toJson ≠ .null) :
    float (.json w.toJson) = .ok w := by
  obtain ⟨x, rfl⟩ := exists_float_of_float h
  rw [Value.toJson, Json.ofFloat] at hnull ⊢
  split at hnull
  · next hfinite =>
    rw [if_pos hfinite]
    rfl
  · exact absurd rfl hnull

theorem boolean_of_ok (h : boolean v = .ok w) : boolean (.json w.toJson) = .ok w := by
  obtain ⟨b, rfl⟩ := exists_truthWord_of_boolean h
  cases b <;> rfl

/-- **A moment is taken back** if its year has no sign. -/
theorem timestamp_of_plain (zone : Zone) {t : DateTime} (h : t.HasPlainYear) :
    timestamp zone (.json (.str t.utcText)) = .ok (moment t) := by
  have htext : t.toMicros.settled.utcText = t.utcText :=
    t.toMicros.utcText_settled.trans t.utcText_toMicros
  rw [timestamp, momentText, Moment.read?_utcText h, moment, ← htext]
  rfl

theorem timestamp_of_not_plain (zone : Zone) {t : DateTime} (h : ¬ t.HasPlainYear) :
    timestamp zone (.json (.str t.utcText)) = .error .unknownMomentForm := by
  rw [timestamp, momentText, Moment.read?_utcText_eq_none h]

end Validate

namespace Field

/-! ### Defaults -/

/-- **Every default is a value that its field gives**, at any depth. -/
inductive DefaultsHold : Field → Prop
  | mk {f : Field} (hdefault : ∀ d, f.default = some d → ∃ v, f.validate v = .ok d)
    (hchildren : ∀ c ∈ f.children, DefaultsHold c.2) : DefaultsHold f

theorem DefaultsHold.rename (hf : f.DefaultsHold) (n : String) : (f.rename n).DefaultsHold := by
  induction hf generalizing n with
  | @mk f hdefault hchildren ih =>
    refine .mk (fun d hd => ?_) fun c hc => ?_
    · obtain ⟨v, hv⟩ := hdefault d (default_rename n f ▸ hd)
      exact ⟨v, (ok_iff_of_rename n v d f).mpr hv⟩
    · rw [children_rename] at hc
      obtain ⟨c', hc', rfl⟩ := List.mem_map.mp hc
      exact ih c' hc' _

theorem DefaultsHold.congr {g : Field} (hf : f.DefaultsHold) (hkind : g.kind = f.kind)
    (hdefault : ∀ d, g.default = some d → ∃ v, f.validate v = .ok d) : g.DefaultsHold := by
  obtain ⟨-, hchildren⟩ := hf
  refine .mk (fun d hd => ?_) fun c hc => ?_
  · obtain ⟨v, hv⟩ := hdefault d hd
    exact ⟨v, (ok_iff_of_kind hkind v d).mpr hv⟩
  · rw [children, hkind] at hc
    exact hchildren c hc

theorem Declared.defaultsHold (hf : f.Declared) : f.DefaultsHold := by
  induction hf with
  | ofKind h ih => exact .mk (fun d hd => nomatch hd) ih
  | named hf n ih =>
    unfold Field.named
    split
    · exact ih
    · exact ih.rename n
  | multi hf ih =>
    obtain ⟨hdefault, -⟩ := id ih
    exact ih.congr rfl hdefault
  | required hf ih =>
    obtain ⟨hdefault, -⟩ := id ih
    exact ih.congr rfl hdefault
  | withDefault hf h ih =>
    obtain ⟨d, hd, h⟩ := Outcome.bind_eq_ok.mp h
    obtain rfl := Except.ok.inj h
    refine ih.congr rfl fun d' hd' => ?_
    obtain rfl := Option.some.inj hd'
    exact ⟨_, hd⟩

/-! ### Mappings -/

/-- **Are the keys of children distinct**, at any depth? -/
inductive Keyed : Field → Prop
  | mk {f : Field} (hkeys : (Assoc.keys f.children).Nodup)
    (hchildren : ∀ c ∈ f.children, Keyed c.2) : Keyed f

/-- **A moment whose year has a sign**, as a value of a field for moments, or under the key of such
a child. -/
inductive FarMoment : Field → Json → Prop
  | self {f : Field} {zone : Zone} {t : DateTime} (hf : f.kind = .timestamp zone)
    (ht : ¬ t.HasPlainYear) : FarMoment f (.str t.utcText)
  | member {f c : Field} {key : String} {members : Assoc Json} {j : Json}
    (hc : (key, c) ∈ f.children) (hj : Assoc.get? key members = some j) (h : FarMoment c j) :
    FarMoment f (.obj members)

theorem FarMoment.head {s : String} (h : f.FarMoment (.str s)) :
    s.toList.head? = some '-' ∨ s.toList.head? = some '+' := by
  cases h with
  | self hf ht =>
    obtain ⟨c, cs, -, hc, hcs, -⟩ := DateTime.exists_signed_utcText ht
    rw [hcs, List.head?_cons]
    exact hc.imp (congrArg some) (congrArg some)

/-- A moment whose year has a sign is refused. -/
theorem validate_far {zone : Zone} {t : DateTime} (hf : f.kind = .timestamp zone)
    (ht : ¬ t.HasPlainYear) (w : Value) : f.validate (.json (.str t.utcText)) ≠ .ok w := by
  rw [validate_eq, hf, Kind.validate, Validate.timestamp_of_not_plain zone ht]
  exact nofun

/-- **A moment whose year has a sign** is refused, wherever it stands. -/
theorem FarMoment.refused (hk : f.Keyed) (h : f.FarMoment j) (w : Value) :
    f.validate (.json j) ≠ .ok w := by
  induction h generalizing w with
  | self hf ht => exact validate_far hf ht w
  | @member f c key members j hc hj h ih =>
    obtain ⟨hkeys, hchildren⟩ := hk
    intro hw
    obtain ⟨source, members', hsource, hmembers, rfl⟩ :=
      (validate_eq_ok_iff_of_object (kind_of_mem_children hc) hkeys).mp hw
    obtain rfl := Except.ok.inj hsource
    have hnull : j ≠ .null := by cases h <;> exact nofun
    have hmember := hmembers.member _ hc
    rw [member_of_get? hj hnull] at hmember
    obtain ⟨w, hw, -⟩ := Outcome.bind_eq_ok.mp hmember
    exact ih (hchildren _ hc) w hw

/-- **A scalar is taken back in JSON**, if it is no null and no moment whose year has a sign. -/
theorem validate_json_of_scalar (hf : ∀ cs, f.kind ≠ .object cs) (hw : f.validate v = .ok w)
    (hnull : w.toJson ≠ .null) (hfar : ¬ f.FarMoment w.toJson) :
    f.validate (.json w.toJson) = .ok w := by
  rw [validate_eq] at hw ⊢
  cases hkind : f.kind <;> rw [hkind, Kind.validate] at hw <;> rw [Kind.validate]
  case integer =>
    rw [Validate.blame_eq_ok_iff] at hw ⊢
    exact Validate.integer_of_ok hw
  case float =>
    rw [Validate.blame_eq_ok_iff] at hw ⊢
    exact Validate.float_of_ok hw hnull
  case boolean =>
    rw [Validate.blame_eq_ok_iff] at hw ⊢
    exact Validate.boolean_of_ok hw
  case text =>
    obtain rfl := Except.ok.inj hw
    rfl
  case timestamp zone =>
    rw [Validate.blame_eq_ok_iff] at hw ⊢
    obtain ⟨t, rfl⟩ := Validate.exists_moment_of_timestamp hw
    have ht : t.HasPlainYear := by
      by_contra ht
      exact hfar (.self hkind ht)
    exact Validate.timestamp_of_plain zone ht
  case object cs => exact absurd hkind (hf cs)

/-- **A mapping is taken back** if the members of all children are. -/
theorem giveMembers_self {children : List (String × Field)} {source members : Assoc Json}
    (h : GiveMembers children source members)
    (hnull : ∀ key j, Assoc.get? key members = some j → j ≠ .null)
    (hback : ∀ c ∈ children, ∀ w, (∃ v, c.2.validate v = .ok w) ∨ c.2.default = some w →
      Assoc.get? c.1 members = some w.toJson → c.2.validate (.json w.toJson) = .ok w) :
    GiveMembers children members members := by
  refine ⟨h.sorted, fun c hc => ?_, h.other⟩
  have hmember := h.member c hc
  cases hj : Assoc.get? c.1 members with
  | none =>
    rw [member_of_get?_eq_none hj, default_of_member (hj ▸ hmember)]
    rfl
  | some j =>
    obtain ⟨w, rfl, hw⟩ := exists_of_member (hj ▸ hmember)
    rw [member_of_get? hj (hnull _ _ hj), hback c hc w hw hj]
    rfl

/-- **A normalized value is taken back in JSON**, if there is no null in it and no moment whose year
has a sign. -/
theorem DefaultsHold.validate_json (hf : f.DefaultsHold) (hk : f.Keyed)
    (hw : f.validate v = .ok w) (hnull : ¬ w.toJson.HasNull) (hfar : ¬ f.FarMoment w.toJson) :
    f.validate (.json w.toJson) = .ok w := by
  induction hf generalizing v w with
  | @mk f hdefault hchildren ih =>
    by_cases hkind : ∃ cs, f.kind = .object cs
    · obtain ⟨cs, hkind⟩ := hkind
      obtain rfl := children_of_kind hkind
      obtain ⟨hkeys, hk⟩ := hk
      obtain ⟨source, members, -, hmembers, rfl⟩ :=
        (validate_eq_ok_iff_of_object hkind hkeys).mp hw
      rw [Value.toJson] at hnull hfar ⊢
      refine (validate_eq_ok_iff_of_object hkind hkeys).mpr ⟨members, members, rfl, ?_, rfl⟩
      have hmember : ∀ key j, Assoc.get? key members = some j → ¬ j.HasNull := fun key j hj h =>
        hnull (.member (Assoc.mem_of_get? hj) h)
      refine giveMembers_self hmembers (fun key j hj h => hmember key j hj (h ▸ .null)) ?_
      intro c hc w hw hj
      obtain ⟨v, hv⟩ : ∃ v, c.2.validate v = .ok w := by
        rcases hw with hw | hw
        · exact hw
        · obtain ⟨hdefault, -⟩ := hchildren c hc
          exact hdefault w hw
      exact ih c hc (hk c hc) hv (hmember _ _ hj) fun h => hfar (.member hc hj h)
    · exact validate_json_of_scalar (not_exists.mp hkind) hw (fun h => hnull (h ▸ .null)) hfar

/-- A normalized value is validated alike as it is and in JSON. -/
theorem validate_toJson_eq_ok_iff (hw : f.validate v = .ok w) (hnull : w.toJson ≠ .null)
    (x : Value) : f.validate (.json w.toJson) = .ok x ↔ f.validate w = .ok x := by
  have hscalar : (∀ cs, f.kind ≠ .object cs) → w.toJson.IsScalar w → w.toJson.bool? = none →
      (f.validate (.json w.toJson) = .ok x ↔ f.validate w = .ok x) := fun hf h hb =>
    (json_agrees hf h).1 (Or.inr hb) x
  rw [validate_eq] at hw
  cases hkind : f.kind <;> rw [hkind, Kind.validate] at hw
  case integer =>
    obtain ⟨n, rfl⟩ := Validate.exists_int_of_integer (Validate.blame_eq_ok_iff.mp hw)
    exact hscalar (by simp [hkind]) (.int n) rfl
  case float =>
    obtain ⟨y, rfl⟩ := Validate.exists_float_of_float (Validate.blame_eq_ok_iff.mp hw)
    rw [Value.toJson, Json.ofFloat] at hnull ⊢
    split at hnull
    · next hfinite =>
      rw [if_pos hfinite, validate_eq, validate_eq, hkind, Kind.validate, Kind.validate,
        Validate.blame_eq_ok_iff, Validate.blame_eq_ok_iff]
      rfl
    · exact absurd rfl hnull
  case boolean =>
    obtain ⟨b, rfl⟩ := Validate.exists_truthWord_of_boolean (Validate.blame_eq_ok_iff.mp hw)
    exact hscalar (by simp [hkind]) (.str _) rfl
  case text =>
    obtain rfl := Except.ok.inj hw
    exact hscalar (by simp [hkind]) (.str _) rfl
  case timestamp zone =>
    obtain ⟨t, rfl⟩ := Validate.exists_moment_of_timestamp (Validate.blame_eq_ok_iff.mp hw)
    exact hscalar (by simp [hkind]) (.str _) rfl
  case object cs =>
    obtain ⟨source, -, h⟩ := Outcome.bind_eq_ok.mp hw
    obtain ⟨members, -, h⟩ := Outcome.bind_eq_ok.mp h
    obtain rfl := Except.ok.inj h
    rw [Value.toJson]

/-- **Which normalized values are taken back.** If there is no null in it, which a float that is not
finite would be, a value that a field gives is given once more, unless there is a moment in it whose
year has a sign. -/
theorem Declared.validate_again_iff (hf : f.Declared) (hk : f.Keyed) (hw : f.validate v = .ok w)
    (hnull : ¬ w.toJson.HasNull) : f.validate w = .ok w ↔ ¬ f.FarMoment w.toJson := by
  rw [← validate_toJson_eq_ok_iff hw fun h => hnull (h ▸ .null)]
  exact ⟨fun h hfar => hfar.refused hk w h, hf.defaultsHold.validate_json hk hw hnull⟩

/-- A visit at some moment, which counts once if nothing else is said. -/
def visit : Field := ofKind (.object [("at", ofKind (.timestamp .utc)), ("count", counter)])

/-- A visit with a moment that was read from a number, and with the default. -/
def normalVisit : Value :=
  .json (.obj [("at", .str "1970-01-01T00:00:00.000000Z"), ("count", .num (.int 1))])

theorem validate_again_iff_visit : visit.Declared ∧ visit.Keyed ∧
    visit.validate (.json (.obj [("at", .num (.int 0))])) = .ok normalVisit ∧
    ¬ normalVisit.toJson.HasNull ∧ visit.validate normalVisit = .ok normalVisit := by
  have hleaf : ∀ kind, (ofKind kind).children = [] → (ofKind kind).Declared := fun kind h =>
    .ofKind fun c hc => nomatch h ▸ hc
  have hcounter : counter.Declared := (hleaf .integer rfl).withDefault (v := .int 1) rfl
  have hvisit : visit.Declared := by
    refine .ofKind fun c hc => ?_
    rcases List.mem_cons.mp hc with rfl | hc
    · exact hleaf _ rfl
    · obtain rfl := List.mem_singleton.mp hc
      exact hcounter
  have hkeyed : visit.Keyed := by
    refine .mk (by decide) fun c hc => ?_
    rcases List.mem_cons.mp hc with rfl | hc
    · exact .mk List.nodup_nil fun c hc => nomatch hc
    · obtain rfl := List.mem_singleton.mp hc
      exact .mk List.nodup_nil fun c hc => nomatch hc
  have hnull : ¬ normalVisit.toJson.HasNull := by
    rintro (_ | _ | ⟨hmem, hj⟩)
    rcases List.mem_cons.mp hmem with h | h
    · cases h
      exact nomatch hj
    · cases List.mem_singleton.mp h
      exact nomatch hj
  have hfar : ¬ visit.FarMoment normalVisit.toJson := by
    rintro (_ | ⟨hc, hj, h⟩)
    rcases List.mem_cons.mp hc with hc | hc
    · cases hc
      obtain rfl := Option.some.inj hj
      exact absurd h.head (by decide)
    · cases List.mem_singleton.mp hc
      obtain rfl := Option.some.inj hj
      exact nomatch h
  have hok : visit.validate (.json (.obj [("at", .num (.int 0))])) = .ok normalVisit := rfl
  exact ⟨hvisit, hkeyed, hok, hnull, (hvisit.validate_again_iff hkeyed hok hnull).mpr hfar⟩

/-- **A moment in the year 10000** is given in a form that is refused, and **two children under one
key** give a truth value that the first of them refuses. -/
theorem not_validate_again :
    ((ofKind (.timestamp .utc)).validate (.int 253402300800000) =
        .ok (.str "+10000-01-01T00:00:00.000000Z") ∧
      (ofKind (.timestamp .utc)).validate (.str "+10000-01-01T00:00:00.000000Z") =
        .error (.invalid "<unnamed>" "timestamp" (.str "+10000-01-01T00:00:00.000000Z")
          .unknownMomentForm)) ∧
    (ofKind (.object [("n", ofKind .integer), ("n", ofKind .boolean)])).validate
        (.json (.obj [("n", .num (.int 5))])) = .ok (.json (.obj [("n", .str "true")])) ∧
      (ofKind (.object [("n", ofKind .integer), ("n", ofKind .boolean)])).validate
        (.json (.obj [("n", .str "true")])) =
        .error (.invalid "<unnamed>" "integer" (.json (.str "true")) .notAnInteger) :=
  ⟨⟨rfl, rfl⟩, rfl, rfl⟩

end Field

end SearchCompiler
