import SearchCompiler.Proofs.Field.Conforms

/-! # The members of a normalized mapping

A mapping is normalized one child after the other. If no two children have the same key, they do not
get in each other's way: the members are those that the children give, each by itself, from what the
source has under its key or from its default.

* `Field.member`: the member of one child.
* `GiveMembers`, `validateChildren_eq_ok_iff`: the members of all of them.
* `Field.validate_eq_ok_iff_of_object`: normalized mappings. -/

namespace SearchCompiler

variable {source done members : Assoc Json} {children : List (String × Field)} {key : String}
  {child : Field}

/-- **The member of a child**: what it makes of the value under its key, unless that is null, and
otherwise its default, if it has one. -/
def Field.member (source : Assoc Json) (key : String) (child : Field) :
    Except FieldError (Option Json) :=
  match (Assoc.get? key source).filter fun j => !j.isNull with
  | some raw => child.validate (.json raw) >>= fun w => .ok (some w.toJson)
  | none => .ok (child.default.map Value.toJson)

/-- **The members that children give** from a source, each by itself. -/
structure GiveMembers (children : List (String × Field)) (source members : Assoc Json) :
    Prop where
  sorted : members.Sorted
  member : ∀ c ∈ children, c.2.member source c.1 = .ok (Assoc.get? c.1 members)
  other : ∀ k ∉ Assoc.keys children, Assoc.get? k members = none

/-- Puts a member under its key, if there is one. -/
def Assoc.put (key : String) (j? : Option Json) (t : Assoc Json) : Assoc Json :=
  match j? with
  | some j => Assoc.insert key j t
  | none => t

theorem Assoc.get?_put_self {j? : Option Json} {t : Assoc Json} (h : Assoc.get? key t = none) :
    Assoc.get? key (Assoc.put key j? t) = j? := by
  cases j? with
  | none => exact h
  | some j => exact Assoc.get?_insert_self key j t

theorem Assoc.get?_put_of_ne {k : String} (hk : k ≠ key) (j? : Option Json) (t : Assoc Json) :
    Assoc.get? k (Assoc.put key j? t) = Assoc.get? k t := by
  cases j? with
  | none => rfl
  | some j => exact Assoc.get?_insert_of_ne hk j t

theorem Assoc.Sorted.put {t : Assoc Json} (h : t.Sorted) (key : String) (j? : Option Json) :
    (Assoc.put key j? t).Sorted := by
  cases j? with
  | none => exact h
  | some j => exact h.insert key j

/-- **One child** puts its member to those of the children before. -/
theorem validateChildren_cons (source done : Assoc Json) (key : String) (child : Field)
    (rest : List (String × Field)) :
    validateChildren source ((key, child) :: rest) done = child.member source key >>= fun j? =>
      validateChildren source rest (Assoc.put key j? done) := by
  rw [validateChildren.eq_def, Field.member]
  dsimp only
  cases (Assoc.get? key source).filter fun j => !j.isNull with
  | some raw =>
    dsimp only
    cases child.validate (.json raw) with
    | ok w => rfl
    | error e => rfl
  | none =>
    obtain ⟨name, kind, multi, required, default⟩ := child
    cases default with
    | none => rfl
    | some d => rfl

/-- **The members of a normalized mapping**, added to those that were there under other keys. -/
theorem validateChildren_onto_eq_ok_iff (hkeys : (Assoc.keys children).Nodup) (hdone : done.Sorted)
    (hfree : ∀ k ∈ Assoc.keys children, Assoc.get? k done = none) :
    validateChildren source children done = .ok members ↔ members.Sorted ∧
      (∀ c ∈ children, c.2.member source c.1 = .ok (Assoc.get? c.1 members)) ∧
      ∀ k ∉ Assoc.keys children, Assoc.get? k members = Assoc.get? k done := by
  induction children generalizing done with
  | nil =>
    rw [validateChildren, Except.ok.injEq]
    constructor
    · rintro rfl
      exact ⟨hdone, List.forall_mem_nil _, fun k hk => rfl⟩
    · rintro ⟨hs, -, hother⟩
      exact hdone.ext hs fun k => (hother k List.not_mem_nil).symm
  | cons c rest ih =>
    obtain ⟨key, child⟩ := c
    obtain ⟨hkey, hrest⟩ := List.nodup_cons.mp hkeys
    have hnone : Assoc.get? key done = none := hfree key List.mem_cons_self
    have hne : ∀ k ∈ Assoc.keys rest, k ≠ key := fun k hk h => hkey (h ▸ hk)
    have hput : ∀ j?, validateChildren source rest (Assoc.put key j? done) = .ok members ↔
        members.Sorted ∧
          (∀ c ∈ rest, c.2.member source c.1 = .ok (Assoc.get? c.1 members)) ∧
          ∀ k ∉ Assoc.keys rest, Assoc.get? k members = Assoc.get? k (Assoc.put key j? done) := by
      refine fun j? => ih hrest (hdone.put key j?) fun k hk => ?_
      rw [Assoc.get?_put_of_ne (hne k hk)]
      exact hfree k (List.mem_cons_of_mem key hk)
    rw [validateChildren_cons, Outcome.bind_eq_ok, List.forall_mem_cons]
    constructor
    · rintro ⟨j?, hj, h⟩
      obtain ⟨hs, hmembers, hother⟩ := (hput j?).mp h
      have hself : Assoc.get? key members = j? := by
        rw [hother key hkey, Assoc.get?_put_self hnone]
      refine ⟨hs, ⟨hself ▸ hj, hmembers⟩, fun k hk => ?_⟩
      obtain ⟨hk, hk'⟩ := not_or.mp (List.mem_cons.not.mp hk)
      rw [hother k hk', Assoc.get?_put_of_ne hk]
    · rintro ⟨hs, ⟨hj, hmembers⟩, hother⟩
      refine ⟨_, hj, (hput _).mpr ⟨hs, hmembers, fun k hk => ?_⟩⟩
      by_cases hkk : k = key
      · rw [hkk, Assoc.get?_put_self hnone]
      · rw [Assoc.get?_put_of_ne hkk]
        exact hother k fun h => (List.mem_cons.mp h).elim hkk hk

/-- **The members of a normalized mapping** with distinct keys are those that its children give. -/
theorem validateChildren_eq_ok_iff (hkeys : (Assoc.keys children).Nodup) :
    validateChildren source children [] = .ok members ↔ GiveMembers children source members :=
  (validateChildren_onto_eq_ok_iff hkeys List.Pairwise.nil fun _ _ => rfl).trans
    ⟨fun ⟨hs, hmember, hother⟩ => ⟨hs, hmember, hother⟩, fun ⟨hs, hmember, hother⟩ =>
      ⟨hs, hmember, hother⟩⟩

namespace Field

variable {f : Field} {v w : Value} {j : Json}

theorem validate_eq (f : Field) (v : Value) : f.validate v = f.kind.validate f.label v := by
  obtain ⟨_, _, _, _, _⟩ := f
  rw [validate]
  rfl

theorem children_of_kind {cs : List (String × Field)} (h : f.kind = .object cs) :
    f.children = cs := by
  rw [children, h]

theorem kind_of_mem_children {c : String × Field} (h : c ∈ f.children) :
    f.kind = .object f.children := by
  unfold children at h ⊢
  split at h
  · assumption
  · exact nomatch h

/-- **Normalized mappings** have the members that the children give. -/
theorem validate_eq_ok_iff_of_object (hf : f.kind = .object children)
    (hkeys : (Assoc.keys children).Nodup) : f.validate v = .ok w ↔
      ∃ source members, Validate.mapping v = .ok source ∧ GiveMembers children source members ∧
        w = .json (.obj members) := by
  rw [validate_eq, hf, Kind.validate]
  simp only [Outcome.bind_eq_ok, Validate.blame_eq_ok_iff, validateChildren_eq_ok_iff hkeys,
    Outcome.pure_eq_ok, Except.ok.injEq]
  constructor
  · rintro ⟨source, hsource, members, hmembers, rfl⟩
    exact ⟨source, members, hsource, hmembers, rfl⟩
  · rintro ⟨source, members, hsource, hmembers, rfl⟩
    exact ⟨source, hsource, members, hmembers, rfl⟩

/-- A value under the key of a child is validated by the child, unless it is null. -/
theorem member_of_get? (hj : Assoc.get? key source = some j) (hnull : j ≠ .null) :
    f.member source key = f.validate (.json j) >>= fun w => .ok (some w.toJson) := by
  have hsome : j.isNull = false := by
    cases j <;> first | rfl | exact absurd rfl hnull
  have hraw : (some j).filter (fun j => !j.isNull) = some j := by simp [hsome]
  rw [member, hj, hraw]

/-- The default stands in for a value that is not there. -/
theorem member_of_get?_eq_none (hj : Assoc.get? key source = none) :
    f.member source key = .ok (f.default.map Value.toJson) := by
  rw [member, hj]
  rfl

/-- **Where a member comes from**: the child made it of a value, or it is the default. -/
theorem exists_of_member (h : f.member source key = .ok (some j)) :
    ∃ w, j = w.toJson ∧ ((∃ v, f.validate v = .ok w) ∨ f.default = some w) := by
  unfold member at h
  split at h
  · next raw _ =>
    obtain ⟨w, hw, h⟩ := Outcome.bind_eq_ok.mp h
    exact ⟨w, (Option.some.inj (Except.ok.inj h)).symm, Or.inl ⟨_, hw⟩⟩
  · obtain ⟨w, hw, h⟩ := Option.map_eq_some_iff.mp (Except.ok.inj h)
    exact ⟨w, h.symm, Or.inr hw⟩

theorem default_of_member (h : f.member source key = .ok none) : f.default = none := by
  unfold member at h
  split at h
  · obtain ⟨w, -, h⟩ := Outcome.bind_eq_ok.mp h
    exact absurd (Except.ok.inj h) (Option.some_ne_none _)
  · exact Option.map_eq_none_iff.mp (Except.ok.inj h)

end Field

end SearchCompiler
