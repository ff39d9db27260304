import SearchCompiler.Proofs.Clause.TimeWindow
import SearchCompiler.Proofs.Rebuild.Normal

/-! # A clause that stands alone

In the document of a group a single clause may stand where a list of clauses is expected. The group
that is rebuilt keeps it as it stands, and the next call that adds to the list makes a list of it
(`BoolGroup.extend`). The readings of a group do not: until then the clause is neither among the
clauses of its list nor taken into account for a window of days.

* `Registry.groupOfBody_eq_ok_iff`: the group that a body is rebuilt as.
* `groupOfBody_listed`: what a list in place of the single clause makes of the group. -/

namespace SearchCompiler

namespace Assoc

theorem mapM_insert {ε α β : Type} {f : String × α → Except ε (String × β)}
    (hf : ∀ e e', f e = .ok e' → e'.1 = e.1) {es : Assoc α} {es' : Assoc β}
    (h : es.mapM f = .ok es') {k : String} {v : α} {v' : β} (hv : f (k, v) = .ok (k, v')) :
    (insert k v es).mapM f = .ok (insert k v' es') := by
  rw [Outcome.mapM_eq_ok_iff] at h ⊢
  induction h with
  | nil => exact .cons hv .nil
  | @cons e e' es es' he hes ih =>
    obtain ⟨k₁, v₁⟩ := e
    obtain ⟨k₂, v₂⟩ := e'
    obtain rfl : k₂ = k₁ := hf _ _ he
    unfold insert
    split
    · exact .cons hv (.cons he hes)
    · split
      · exact .cons hv hes
      · exact .cons he ih

end Assoc

namespace Registry

variable {r : Registry} {v : Version} {doc : Json} {o : Occur}

/-- **The group that a body is rebuilt as** has the rebuilt members. -/
theorem groupOfBody_eq_ok_iff {members : Assoc Json} (hs : members.Sorted) {g : BoolGroup} :
    r.groupOfBody v (.obj members) = .ok g ↔ v.isSupported = true ∧
      ∃ es, members.mapM (r.normalizeMember v) = .ok es ∧ g = ⟨false, ⟨es, v, []⟩⟩ := by
  have hfill := fillGroup_eq (r := r) (v := v) members (BoolGroup.ungated_empty v) hs
  simp only [groupOfBody, Outcome.bind_eq_ok, BoolGroup.new_eq_ok_iff]
  constructor
  · rintro ⟨_, ⟨hv, rfl⟩, h⟩
    rw [hfill] at h
    obtain ⟨es, hes, h⟩ := Outcome.bind_eq_ok.mp h
    exact ⟨hv, es, hes, (Except.ok.inj h).symm⟩
  · rintro ⟨hv, es, hes, rfl⟩
    refine ⟨_, ⟨hv, rfl⟩, ?_⟩
    rw [hfill, hes]
    rfl

theorem normalizeMember_single_iff (hd : doc.arr? = none) {e : String × Json} :
    r.normalizeMember v (o.key, doc) = .ok e ↔
      ∃ d, r.normalize v doc = .ok d ∧ e = (o.key, d) := by
  have hclauses : r.normalizeClauses v doc = r.normalize v doc := by
    cases doc with
    | arr items => exact nomatch hd
    | _ => rfl
  rw [normalizeMember_key_eq_ok_iff, hclauses]

theorem normalizeMember_listed {d : Json} (hd : r.normalize v doc = .ok d) :
    r.normalizeMember v (o.key, .arr [doc]) = .ok (o.key, .arr [d]) := by
  have hdocs : [doc].mapM (r.normalize v) = .ok [d] := Outcome.mapM_eq_ok_iff.mpr (.cons hd .nil)
  refine normalizeMember_key_eq_ok_iff.mpr ⟨_, ?_, rfl⟩
  rw [normalizeClauses, hdocs]
  rfl

end Registry

theorem Params.itemsOf_of_isMapping {d : Json} (h : d.isMapping = true) :
    itemsOf (some d) = [d] := by
  cases d <;> first | rfl | exact nomatch h

/-! ### Windows of days -/

theorem isGreatest_insert_of_union {α : Type} [PartialOrder α] {s t : Set α} {a b : α}
    (h : IsGreatest s a) (hu : IsGreatest (s ∪ t) b) : IsGreatest (insert a t) b := by
  have hab : a ≤ b := hu.2 (.inl h.1)
  refine ⟨?_, fun x hx => ?_⟩
  · rcases hu.1 with hb | hb
    · exact .inl ((h.2 hb).antisymm hab)
    · exact .inr hb
  · rcases hx with rfl | hx
    · exact hab
    · exact hu.2 (.inr hx)

theorem isLeast_insert_of_union {α : Type} [PartialOrder α] {s t : Set α} {a b : α}
    (h : IsLeast s a) (hu : IsLeast (s ∪ t) b) : IsLeast (insert a t) b :=
  isGreatest_insert_of_union (α := αᵒᵈ) h hu

namespace BoolGroup

open TimeScope

variable {g g' : BoolGroup} {d : Json} {o : Occur}

/-- One more clause that every hit fulfils narrows the window by its dates. -/
theorem timeScope_of_required_cons (h : ∀ c, c ∈ g'.required ↔ c ∈ g.required ∨ c = d)
    (field : String) (today : Date) :
    IsGreatest (insert (g.timeScope field today).start (Prod.fst '' datesIn [d] field today true))
        (g'.timeScope field today).start ∧
      IsLeast (insert (g.timeScope field today).stop (Prod.fst '' datesIn [d] field today false))
        (g'.timeScope field today).stop := by
  have hdates (isLower : Bool) : datesIn g'.required field today isLower =
      datesIn g.required field today isLower ∪ datesIn [d] field today isLower := by
    ext p
    simp only [datesIn, h, List.mem_singleton, or_and_right, exists_or, Set.mem_union,
      Set.mem_ofPred_eq]
  have hstart := (g'.timeScope_start field today).isGreatest
  have hstop := (g'.timeScope_stop field today).isLeast
  rw [hdates, Set.image_union, ← Set.insert_union] at hstart hstop
  exact ⟨isGreatest_insert_of_union (g.timeScope_start field today).isGreatest hstart,
    isLeast_insert_of_union (g.timeScope_stop field today).isLeast hstop⟩

theorem timeScope_of_clauses (hf : g'.clauses .filter = g.clauses .filter)
    (hm : g'.clauses .must = g.clauses .must) : g'.timeScope = g.timeScope := by
  funext field today
  rw [timeScope, timeScope, timeRanges, timeRanges, hf, hm]

/-! ### Adding to a list -/

theorem clauses_extend_of_ne {o' : Occur} (h : o' ≠ o) (g : BoolGroup) (cs : List Json) :
    (g.extend o cs).clauses o' = g.clauses o' := by
  have hk : o'.key ≠ o.key := fun he => h (Occur.key_inj he)
  rw [clauses, clauses, extend, Params.list, Params.list, Params.append,
    Params.get?_modify_of_ne hk]

theorem clauses_extend_self (hg : g.Ungated) (o : Occur) (cs : List Json) :
    (g.extend o cs).clauses o = Params.itemsOf (g.params.get? o.key) ++ cs := by
  have hk := Params.isGated_of_ungated hg o.key
  rw [clauses, extend, Params.list, Params.append, Params.get?_modify_self hk]
  rfl

theorem extend_eq (hg : g.Ungated) (o : Occur) (cs : List Json) :
    g.extend o cs = ⟨g.filtered, ⟨Assoc.insert o.key
      (.arr (Params.itemsOf (g.params.get? o.key) ++ cs)) g.params.entries,
      g.params.version, g.params.gates⟩⟩ := by
  have hk := Params.isGated_of_ungated hg o.key
  simp [extend, Params.append, Params.modify, Params.get?, hk]

theorem extend_extend (g : BoolGroup) (o : Occur) (cs cs' : List Json) :
    (g.extend o cs).extend o cs' = g.extend o (cs ++ cs') := by
  have hparams : (g.params.append o.key cs).append o.key cs' =
      g.params.append o.key (cs ++ cs') := by
    rw [Params.append, Params.append, Params.append, Params.modify, Params.isGated_modify]
    cases hk : g.params.isGated o.key with
    | true => simp [Params.modify, hk]
    | false => simp [Params.modify, hk, Assoc.insert_insert_self, Params.itemsOf]
  rw [extend, extend, extend, hparams]

/-- A group that has a single clause in place of a list, and what it becomes when nothing is added
to the list. -/
theorem readings_of_single (hg : g.Ungated) (hd : d.isMapping = true)
    (hget : g.params.get? o.key = some d) :
    g.clauses o = [] ∧ (g.extend o []).clauses o = [d] ∧
      (∀ o' ≠ o, (g.extend o []).clauses o' = g.clauses o') ∧
      ∀ cs, (g.extend o []).extend o cs = g.extend o cs := by
  have harr : d.arr? = none := by
    cases d <;> first | rfl | exact nomatch hd
  refine ⟨?_, ?_, fun o' ho => clauses_extend_of_ne ho g [], fun cs => extend_extend g o [] cs⟩
  · rw [clauses, Params.list, hget]
    simp [harr]
  · rw [clauses_extend_self hg, hget, Params.itemsOf_of_isMapping hd, List.append_nil]

end BoolGroup

/-- **A list in place of a clause that stands alone** makes the group what it otherwise becomes when
its list is added to. The clause that stands alone is not among the clauses of its list, and that is
all that the readings of the group miss; a group that is listed has it there. The windows of days
are the same where the clause need not be fulfilled by every hit, and otherwise the dates of the
clause narrow the window of the listed group only. -/
theorem groupOfBody_listed {r : Registry} {v : Version} {members : Assoc Json} {o : Occur}
    {doc : Json} {g : BoolGroup} (hs : members.Sorted) (hm : (o.key, doc) ∈ members)
    (hdoc : doc.arr? = none) (h : r.groupOfBody v (.obj members) = .ok g) :
    ∃ d g', r.normalize v doc = .ok d ∧
      r.groupOfBody v (.obj (Assoc.insert o.key (.arr [doc]) members)) = .ok g' ∧
      g.clauses o = [] ∧ g'.clauses o = [d] ∧ (∀ o' ≠ o, g'.clauses o' = g.clauses o') ∧
      (∀ cs, g'.extend o cs = g.extend o cs) ∧
      ∀ field today,
        (o = .mustNot ∨ o = .should → g'.timeScope field today = g.timeScope field today) ∧
        (o = .must ∨ o = .filter →
          IsGreatest (insert (g.timeScope field today).start
            (Prod.fst '' TimeScope.datesIn [d] field today true)) (g'.timeScope field today).start ∧
          IsLeast (insert (g.timeScope field today).stop
            (Prod.fst '' TimeScope.datesIn [d] field today false))
            (g'.timeScope field today).stop) := by
  obtain ⟨hv, es, hes, rfl⟩ := (Registry.groupOfBody_eq_ok_iff hs).mp h
  have hsorted : Assoc.Sorted es := hs.of_keys (Registry.keys_of_normalizeMembers hes)
  obtain ⟨e, he, hmember⟩ := (Outcome.exists_of_mem_mapM hes).1 _ hm
  obtain ⟨d, hd, rfl⟩ := (Registry.normalizeMember_single_iff hdoc).mp hmember
  have hmapping : d.isMapping = true := Registry.isMapping_of_normalize hd
  generalize hg : (⟨false, ⟨es, v, []⟩⟩ : BoolGroup) = g
  have hungated : g.Ungated := by rw [← hg]; rfl
  have hget : g.params.get? o.key = some d := by rw [← hg]; exact hsorted.get?_of_mem he
  obtain ⟨hnone, hone, hother, hextend⟩ := BoolGroup.readings_of_single hungated hmapping hget
  have hlisted : r.groupOfBody v (.obj (Assoc.insert o.key (.arr [doc]) members)) =
      .ok (g.extend o []) := by
    refine (Registry.groupOfBody_eq_ok_iff (hs.insert _ _)).mpr ⟨hv, _, Assoc.mapM_insert
      (fun _ _ => Registry.key_of_normalizeMember) hes (Registry.normalizeMember_listed hd), ?_⟩
    rw [BoolGroup.extend_eq hungated, hget, Params.itemsOf_of_isMapping hmapping, ← hg]
    rfl
  refine ⟨d, g.extend o [], hd, hlisted, hnone, hone, hother, hextend, fun field today =>
    ⟨fun ho => ?_, fun ho => BoolGroup.timeScope_of_required_cons (fun c => ?_) field today⟩⟩
  · refine congrFun (congrFun (BoolGroup.timeScope_of_clauses (hother .filter ?_)
      (hother .must ?_)) field) today <;> rcases ho with rfl | rfl <;> decide
  · simp only [BoolGroup.required, List.mem_append]
    rcases ho with rfl | rfl
    · rw [hone, hnone, hother .filter (by decide)]
      simp
    · rw [hone, hnone, hother .must (by decide)]
      simp [or_comm]

namespace Json

/-- A range that starts on the first of June. -/
def sinceJune : Json := .single "range" (.single "at" (.single "gte" (.str "2020-06-01")))

theorem rebuilds_sinceJune : sinceJune.Rebuilds .standard :=
  Registry.rebuilds_field (k := .range) (by decide) rfl rfl (List.pairwise_singleton _ _)

end Json

open Json (sinceJune rebuilds_sinceJune)

theorem groupOfBody_alone : Registry.builtin.groupOfBody .standard
    (.obj [("filter", sinceJune)]) = .ok ⟨false, ⟨[("filter", sinceJune)], .standard, []⟩⟩ := by
  refine (Registry.groupOfBody_eq_ok_iff (List.pairwise_singleton _ _)).mpr ⟨rfl, _, ?_, rfl⟩
  refine Outcome.mapM_eq_self_iff.mpr (List.forall_mem_singleton.mpr ?_)
  exact (Registry.normalizeMember_single_iff (o := .filter) rfl).mpr ⟨_, rebuilds_sinceJune, rfl⟩

/-- A filter that stands alone. -/
theorem groupOfBody_listed_filter : ∃ g g',
    Registry.builtin.groupOfBody .standard (.obj [("filter", sinceJune)]) = .ok g ∧
      Registry.builtin.groupOfBody .standard (.obj [("filter", .arr [sinceJune])]) = .ok g' ∧
      g.clauses .filter = [] ∧ g'.clauses .filter = [sinceJune] ∧
      ∀ field today, (g.timeScope field today).start ≤ (g'.timeScope field today).start := by
  obtain ⟨d, g', hd, hg', hnone, hone, -, -, hscope⟩ := groupOfBody_listed (o := .filter)
    (List.pairwise_singleton _ _) List.mem_cons_self rfl groupOfBody_alone
  obtain rfl : sinceJune = d := Except.ok.inj (rebuilds_sinceJune.symm.trans hd)
  refine ⟨_, g', groupOfBody_alone, hg', hnone, hone, fun field today => ?_⟩
  exact ((hscope field today).2 (.inr rfl)).1.2 (Set.mem_insert _ _)

/-- **A filter that stands alone is passed over** by the readings of the group, one in a list is
not. -/
theorem not_clauses_of_alone : ∃ g g',
    Registry.builtin.groupOfBody .standard (.obj [("filter", sinceJune)]) = .ok g ∧
      Registry.builtin.groupOfBody .standard (.obj [("filter", .arr [sinceJune])]) = .ok g' ∧
      g.clauses .filter ≠ g'.clauses .filter ∧
      ∀ today, (g.timeScope "at" today).start ≠ (g'.timeScope "at" today).start := by
  have hlisted : Registry.builtin.groupOfBody .standard (.obj [("filter", .arr [sinceJune])]) =
      .ok ⟨false, ⟨[("filter", .arr [sinceJune])], .standard, []⟩⟩ := by
    refine (Registry.groupOfBody_eq_ok_iff (List.pairwise_singleton _ _)).mpr ⟨rfl, _, ?_, rfl⟩
    refine Outcome.mapM_eq_self_iff.mpr (List.forall_mem_singleton.mpr ?_)
    exact Registry.normalizeMember_list_iff (o := .filter).mpr
      (List.forall_mem_singleton.mpr rebuilds_sinceJune)
  refine ⟨_, _, groupOfBody_alone, hlisted, (List.cons_ne_nil _ _).symm, fun today he => ?_⟩
  have hjune : today.ofBound? "2020-06-01" = some ⟨18414, by decide⟩ :=
    (Date.ofBound?_june today).trans (by decide)
  -- the window of the first group is unbounded, and that of the second starts in June
  have hbound := (BoolGroup.timeScope_start ⟨false, ⟨[("filter", .arr [sinceJune])], .standard, []⟩⟩
    "at" today).isGreatest.2 (Set.mem_insert_of_mem _ ⟨(⟨18414, by decide⟩, "2020-06-01"),
      ⟨_, List.mem_cons_self, .gte, rfl, ⟨_, _, rfl, rfl, rfl⟩, hjune⟩, rfl⟩)
  have hearly : (⟨18414, by decide⟩ : Date) ≤ TimeScope.earliest := hbound.trans_eq he.symm
  exact absurd hearly (by decide)

end SearchCompiler
