import SearchCompiler.Proofs.Group.Items
import SearchCompiler.Proofs.Rebuild.Clause

/-! # Rebuilding a group

A boolean group is rebuilt member by member: the clauses in its four lists are rebuilt, all other
members are kept.

* `normalize_group`: what becomes of a group.
* `rebuilds_group_iff`: a group is rebuilt as itself iff its members are.
* `normalizeMember_list_iff`: a list of clauses is rebuilt as itself iff they are. -/

namespace SearchCompiler

theorem Assoc.keys_of_mapM {ε α β : Type} {f : String × α → Except ε (String × β)}
    (hf : ∀ e e', f e = .ok e' → e'.1 = e.1) {es : Assoc α} {es' : Assoc β}
    (h : es.mapM f = .ok es') : es'.keys = es.keys := by
  replace h := Outcome.mapM_eq_ok_iff.mp h
  induction h with
  | nil => rfl
  | cons he _ ih => exact congrArg₂ List.cons (hf _ _ he) ih

namespace Registry

variable (r : Registry) (v : Version)

/-- What becomes of the clauses in one list of a group, which may be a single clause. -/
def normalizeClauses : Json → Except ClauseError Json
  | .arr items => do return .arr (← items.mapM (r.normalize v))
  | value => r.normalize v value

/-- What becomes of a member of a group. -/
def normalizeMember (e : String × Json) : Except ClauseError (String × Json) :=
  if (Occur.ofKey? e.1).isSome then do return (e.1, ← r.normalizeClauses v e.2) else .ok e

variable {r v}

theorem documents_eq_mapM (items : List Json) :
    r.documents v items = items.mapM (r.normalize v) := by
  induction items with
  | nil => rw [documents]; rfl
  | cons doc rest ih =>
    rw [documents, List.mapM_cons, normalize, ih]
    simp only [bind_assoc, Outcome.ok_bind, Outcome.pure_eq_ok]

theorem key_of_normalizeMember {e e' : String × Json} (h : r.normalizeMember v e = .ok e') :
    e'.1 = e.1 := by
  unfold normalizeMember at h
  split at h
  · obtain ⟨j, -, h⟩ := Outcome.bind_eq_ok.mp h
    rw [← Except.ok.inj h]
  · rw [Except.ok.inj h]

theorem normalizeMember_of_none {k : String} (hk : Occur.ofKey? k = none) (value : Json) :
    r.normalizeMember v (k, value) = .ok (k, value) := by
  simp [normalizeMember, hk]

theorem normalizeMember_key_eq_ok_iff {o : Occur} {value : Json} {e : String × Json} :
    r.normalizeMember v (o.key, value) = .ok e ↔
      ∃ j, r.normalizeClauses v value = .ok j ∧ e = (o.key, j) := by
  simp only [normalizeMember, Occur.ofKey?_key, Option.isSome_some, if_true, Outcome.bind_eq_ok]
  refine exists_congr fun j => and_congr_right fun _ => ?_
  exact ⟨fun h => (Except.ok.inj h).symm, fun h => congrArg Except.ok h.symm⟩

theorem keys_of_normalizeMembers {es es' : Assoc Json}
    (h : es.mapM (r.normalizeMember v) = .ok es') : es'.keys = es.keys :=
  Assoc.keys_of_mapM (fun _ _ => key_of_normalizeMember) h

end Registry

theorem Occur.ofKey?_eq_some_iff {k : String} {o : Occur} : ofKey? k = some o ↔ k = o.key := by
  constructor
  · intro h
    have := List.find?_some h
    exact (beq_iff_eq.mp this).symm
  · rintro rfl
    exact ofKey?_key o

namespace BoolGroup

variable {g : BoolGroup} {k : String}

/-- A group that goes on with a member. -/
def appendMember (g : BoolGroup) (e : String × Json) : BoolGroup :=
  { g with params := { g.params with entries := g.params.entries ++ [e] } }

theorem put_of_forall_lt (hg : g.Ungated) (h : ∀ e ∈ g.params.entries, e.1 < k) (j : Json) :
    g.put k j = g.appendMember (k, j) := by
  rw [put, Params.put_of_not_gated (Params.isGated_of_ungated hg k), Assoc.insert_of_forall_lt h]
  rfl

theorem extend_of_forall_lt (hg : g.Ungated) {o : Occur}
    (h : ∀ e ∈ g.params.entries, e.1 < o.key) (docs : List Json) :
    g.extend o docs = g.appendMember (o.key, .arr docs) := by
  have hk : Assoc.get? o.key g.params.entries = none :=
    Assoc.get?_eq_none_of_forall_ne fun e he heq => String.lt_irrefl _ (heq ▸ h e he)
  have hp : g.params.append o.key docs = g.params.put o.key (.arr docs) := by
    simp only [Params.append, Params.put, Params.modify, hk, Params.itemsOf, List.nil_append]
  rw [extend, hp]
  exact put_of_forall_lt hg h (.arr docs)

end BoolGroup

namespace Registry

variable {r : Registry} {v : Version}

theorem fillGroup_cons {g : BoolGroup} (hg : g.Ungated) {k : String}
    (hlt : ∀ e ∈ g.params.entries, e.1 < k) (value : Json) (rest : Assoc Json) :
    r.fillGroup v g ((k, value) :: rest) =
      r.normalizeMember v (k, value) >>= fun e => r.fillGroup v (g.appendMember e) rest := by
  cases ho : Occur.ofKey? k with
  | none =>
    rw [fillGroup.eq_def]
    simp only [ho, normalizeMember, Option.isSome_none, Bool.false_eq_true, if_false,
      Outcome.ok_bind, BoolGroup.put_of_forall_lt hg hlt]
  | some o =>
    obtain rfl := Occur.ofKey?_eq_some_iff.mp ho
    simp only [normalizeMember, ho, Option.isSome_some, if_true, bind_assoc, Outcome.ok_bind,
      Outcome.pure_eq_ok]
    cases value with
    | arr items =>
      rw [fillGroup.eq_def]
      simp only [ho, normalizeClauses, documents_eq_mapM, bind_assoc, Outcome.ok_bind,
        Outcome.pure_eq_ok, BoolGroup.extend_of_forall_lt hg hlt]
    | _ =>
      rw [fillGroup.eq_def]
      simp only [ho, normalizeClauses, normalize, bind_assoc, Outcome.ok_bind,
        Outcome.pure_eq_ok, BoolGroup.put_of_forall_lt hg hlt]

/-- **A group is filled member by member**, if its members come in order. -/
theorem fillGroup_eq (members : Assoc Json) : ∀ {g : BoolGroup}, g.Ungated →
    Assoc.Sorted (g.params.entries ++ members) →
    r.fillGroup v g members = members.mapM (r.normalizeMember v) >>= fun es =>
      .ok { g with params := { g.params with entries := g.params.entries ++ es } } := by
  induction members with
  | nil =>
    intro g hg hs
    rw [fillGroup, List.mapM_nil]
    exact congrArg Except.ok (by simp)
  | cons e members ih =>
    intro g hg hs
    obtain ⟨k, value⟩ := e
    have hlt : ∀ e ∈ g.params.entries, e.1 < k := fun e he =>
      (List.pairwise_append.mp hs).2.2 e he (k, value) List.mem_cons_self
    rw [fillGroup_cons hg hlt, List.mapM_cons]
    simp only [bind_assoc, Outcome.ok_bind, Outcome.pure_eq_ok]
    refine Outcome.bind_congr fun e he => ?_
    have hs' : Assoc.Sorted ((g.appendMember e).params.entries ++ members) := by
      refine hs.of_keys ?_
      have hk : e.1 = k := key_of_normalizeMember he
      simp [BoolGroup.appendMember, Assoc.keys, hk]
    rw [ih (g := g.appendMember e) hg hs']
    simp [BoolGroup.appendMember]

/-- **What becomes of a group**: its members are taken one by one. -/
theorem normalize_group (hv : v.isSupported = true) {ps : Assoc Json} (hs : ps.Sorted) :
    builtin.normalize v (BoolGroup.wrap (.obj ps)) =
      ps.mapM (builtin.normalizeMember v) >>= fun es => .ok (BoolGroup.wrap (.obj es)) := by
  have hg : BoolGroup.new v = .ok (.empty v) := BoolGroup.new_eq_ok_iff.mpr ⟨hv, rfl⟩
  have hf := fillGroup_eq (r := builtin) (v := v) ps (BoolGroup.ungated_empty v) hs
  rw [BoolGroup.wrap, normalize_single (lower_name .bool), clauseOfBody, groupOfBody, hg,
    Outcome.ok_bind, hf]
  simp only [bind_assoc, Outcome.ok_bind, Outcome.pure_eq_ok]
  rfl

theorem exists_members_of_normalize {g : String} {members : Assoc Json} {d : Json}
    (hs : members.Sorted) (hg : Text.lower g = ClauseKind.bool.name)
    (h : builtin.normalize v (.single g (.obj members)) = .ok d) : v.isSupported = true ∧
      ∃ es, members.mapM (builtin.normalizeMember v) = .ok es ∧ d = BoolGroup.wrap (.obj es) := by
  have hv : v.isSupported = true := by
    rw [normalize_single hg] at h
    obtain ⟨c, hc, -⟩ := Outcome.bind_eq_ok.mp h
    obtain ⟨b, hb, -⟩ := Outcome.bind_eq_ok.mp hc
    obtain ⟨b', hb', -⟩ := Outcome.bind_eq_ok.mp (by rwa [groupOfBody] at hb)
    exact (BoolGroup.new_eq_ok_iff.mp hb').1
  have hwrap : builtin.normalize v (.single g (.obj members)) =
      builtin.normalize v (BoolGroup.wrap (.obj members)) := by
    rw [normalize_single hg, BoolGroup.wrap, normalize_single (lower_name .bool)]
  rw [hwrap, normalize_group hv hs] at h
  obtain ⟨es, hes, h⟩ := Outcome.bind_eq_ok.mp h
  exact ⟨hv, es, hes, (Except.ok.inj h).symm⟩

/-- A group is rebuilt as itself iff its members are. -/
theorem rebuilds_group_iff (hv : v.isSupported = true) {ps : Assoc Json} (hs : ps.Sorted) :
    (BoolGroup.wrap (.obj ps)).Rebuilds v ↔ ∀ e ∈ ps, builtin.normalizeMember v e = .ok e := by
  rw [Json.Rebuilds, normalize_group hv hs, ← Outcome.mapM_eq_self_iff, Outcome.bind_eq_ok]
  constructor
  · rintro ⟨es, hes, h⟩
    cases h
    exact hes
  · exact fun h => ⟨ps, h, rfl⟩

theorem normalizeMember_list_iff {o : Occur} {docs : List Json} :
    builtin.normalizeMember v (o.key, .arr docs) = .ok (o.key, .arr docs) ↔
      ∀ d ∈ docs, d.Rebuilds v := by
  simp only [normalizeMember_key_eq_ok_iff, normalizeClauses, Outcome.bind_eq_ok]
  refine Iff.trans ?_ Outcome.mapM_eq_self_iff
  constructor
  · rintro ⟨j, ⟨docs', h, hj⟩, he⟩
    cases hj
    cases he
    exact h
  · exact fun h => ⟨_, ⟨docs, h, rfl⟩, rfl⟩

end Registry

end SearchCompiler
