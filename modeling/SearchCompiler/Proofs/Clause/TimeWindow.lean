import Mathlib.Order.Bounds.Basic
import SearchCompiler.Proofs.Clause.GroupCalls

/-! # The window of days of a group

The clauses that every hit fulfils, those in `must` and those in `filter`, may bound a field of time
by texts that are dates. The window that the group leaves is the tightest one that these bounds
allow, whatever their order and whichever of the two lists they are in.

The window is narrowed by one bound after the other. Each of its ends is, after any number of them,
the extreme of the dates that have come up, with the text of one of them (`IsExtreme`). The end of
the window is an extreme in the reversed order, so that one lemma (`IsExtreme.advance`) serves both.

* `timeScope_start`, `timeScope_stop`: the ends of the window of any group.
* `BoolGroup.timeScope_run`: the window of a group that is made by calls. -/

namespace SearchCompiler

instance : LinearOrder Date :=
  { LinearOrder.lift' Date.day fun _ _ => Date.ext with lt := (· < ·) }

namespace TimeScope

/-! ### One end of a window -/

section Extreme
variable {r : Date → Date → Prop}

/-- **The last of some dates** in an order, or `first` if there is none after it, with the text of
one that has this date. -/
structure IsExtreme (r : Date → Date → Prop) (first : Date) (s : Set (Date × String)) (e : Date)
    (text : Option String) : Prop where
  reached : text = none ∧ e = first ∨ ∃ t, text = some t ∧ (e, t) ∈ s ∧ r first e
  last : ∀ p ∈ s, ¬ r e p.1

variable {first e : Date} {s : Set (Date × String)} {text : Option String}

theorem isExtreme_empty (r : Date → Date → Prop) (first : Date) :
    IsExtreme r first ∅ first none where
  reached := .inl ⟨rfl, rfl⟩
  last _ hp := absurd hp (Set.notMem_empty _)

/-- One more date takes the place of the last one if it comes after it. -/
theorem IsExtreme.advance [IsStrictOrder Date r] [DecidableRel r]
    (h : IsExtreme r first s e text) (d : Date) (t : String) :
    IsExtreme r first (insert (d, t) s) (if r e d then d else e)
      (if r e d then some t else text) := by
  by_cases hd : r e d
  · rw [if_pos hd, if_pos hd]
    have hfirst : r first d := by
      rcases h.reached with ⟨-, rfl⟩ | ⟨-, -, -, hr⟩
      · exact hd
      · exact IsTrans.trans _ _ _ hr hd
    refine ⟨.inr ⟨t, rfl, Set.mem_insert _ _, hfirst⟩, fun p hp => ?_⟩
    rcases hp with rfl | hp
    · exact irrefl d
    · exact fun hr => h.last p hp (IsTrans.trans _ _ _ hd hr)
  · rw [if_neg hd, if_neg hd]
    refine ⟨h.reached.imp_right fun ⟨t', ht, hm, hr⟩ => ⟨t', ht, Set.mem_insert_of_mem _ hm, hr⟩,
      fun p hp => ?_⟩
    rcases hp with rfl | hp
    · exact hd
    · exact h.last p hp

theorem IsExtreme.text_eq_none_iff [IsStrictOrder Date r] (h : IsExtreme r first s e text) :
    text = none ↔ e = first := by
  rcases h.reached with ⟨ht, he⟩ | ⟨t, ht, -, hr⟩
  · exact iff_of_true ht he
  · refine iff_of_false (by simp [ht]) fun he => ?_
    rw [he] at hr
    exact irrefl first hr

theorem IsExtreme.mem (h : IsExtreme r first s e text) {t : String} (ht : text = some t) :
    (e, t) ∈ s := by
  rcases h.reached with ⟨hn, -⟩ | ⟨t', ht', hm, -⟩
  · exact nomatch hn.symm.trans ht
  · exact Option.some.inj (ht'.symm.trans ht) ▸ hm

theorem IsExtreme.eq_or (h : IsExtreme r first s e text) : e = first ∨ r first e :=
  h.reached.imp And.right fun ⟨_, _, _, hr⟩ => hr

theorem IsExtreme.mem_dates (h : IsExtreme r first s e text) :
    e ∈ insert first (Prod.fst '' s) :=
  h.reached.imp And.right fun ⟨_, _, hm, _⟩ => ⟨_, hm, rfl⟩

theorem IsExtreme.isGreatest (h : IsExtreme (· < ·) first s e text) :
    IsGreatest (insert first (Prod.fst '' s)) e := by
  refine ⟨h.mem_dates, fun d hd => ?_⟩
  rcases hd with rfl | ⟨p, hp, rfl⟩
  · exact h.eq_or.elim Eq.ge LT.lt.le
  · exact not_lt.mp (h.last p hp)

theorem IsExtreme.isLeast (h : IsExtreme (· > ·) first s e text) :
    IsLeast (insert first (Prod.fst '' s)) e := by
  refine ⟨h.mem_dates, fun d hd => ?_⟩
  rcases hd with rfl | ⟨p, hp, rfl⟩
  · exact h.eq_or.elim Eq.le LT.lt.le
  · exact not_lt.mp (h.last p hp)

end Extreme

/-! ### Narrowing by one bound after the other -/

/-- **A bound that was read**: an end of a range, its date and its text. -/
structure Reading where
  bound : Bound
  date : Date
  text : String

/-- The bounds of a range that are dates. -/
def readings (today : Date) (params : Assoc Json) : List Reading :=
  Bound.all.filterMap fun b => (boundOf? today params b).map fun p => ⟨b, p.1, p.2⟩

/-- The dates and the texts of the bounds on one side. -/
def dated (isLower : Bool) (rs : List Reading) : Set (Date × String) :=
  {p | ∃ r ∈ rs, r.bound.isLower = isLower ∧ (r.date, r.text) = p}

variable {today : Date} {params : Assoc Json} {rs : List Reading} {r : Reading} {scope : TimeScope}

theorem mem_readings_iff : r ∈ readings today params ↔
    Assoc.get? r.bound.key params = some (.str r.text) ∧ today.ofBound? r.text = some r.date := by
  have hall : ∀ b : Bound, b ∈ Bound.all := fun b => by cases b <;> decide
  have hread (b : Bound) (d : Date) (t : String) : boundOf? today params b = some (d, t) ↔
      Assoc.get? b.key params = some (.str t) ∧ today.ofBound? t = some d := by
    simp only [boundOf?, Option.bind_eq_bind, Option.bind_eq_some_iff, Option.pure_def,
      Option.some.injEq, Prod.mk.injEq]
    constructor
    · rintro ⟨j, hj, t', hstr, d', hd, rfl, rfl⟩
      cases j with
      | str s => exact ⟨Option.some.inj hstr ▸ hj, hd⟩
      | _ => exact nomatch hstr
    · rintro ⟨hj, hd⟩
      exact ⟨_, hj, t, rfl, d, hd, rfl, rfl⟩
  obtain ⟨b, d, t⟩ := r
  simp only [readings, List.mem_filterMap, Option.map_eq_some_iff, Prod.exists, Reading.mk.injEq]
  constructor
  · rintro ⟨b', -, d', t', h, rfl, rfl, rfl⟩
    exact (hread _ _ _).mp h
  · exact fun h => ⟨b, hall b, d, t, (hread b d t).mpr h, rfl, rfl, rfl⟩

/-- Narrows a window by one reading. -/
def take (scope : TimeScope) (r : Reading) : TimeScope := scope.narrowBound r.bound r.date r.text

theorem narrow_eq (today : Date) (scope : TimeScope) (params : Assoc Json) :
    narrow today scope params = (readings today params).foldl take scope := by
  rw [narrow, readings, List.foldl_filterMap]
  refine List.foldl_ext _ _ _ fun scope b _ => ?_
  cases boundOf? today params b <;> rfl

theorem dated_concat_self (rs : List Reading) (r : Reading) :
    dated r.bound.isLower (rs ++ [r]) = insert (r.date, r.text) (dated r.bound.isLower rs) := by
  ext p
  simp only [dated, List.mem_append, List.mem_singleton, Set.mem_ofPred_eq, Set.mem_insert_iff]
  constructor
  · rintro ⟨r', hr' | rfl, hside, hp⟩
    · exact .inr ⟨r', hr', hside, hp⟩
    · exact .inl hp.symm
  · rintro (rfl | ⟨r', hr', hside, hp⟩)
    · exact ⟨r, .inr rfl, rfl, rfl⟩
    · exact ⟨r', .inl hr', hside, hp⟩

theorem dated_concat_of_ne {isLower : Bool} (h : r.bound.isLower ≠ isLower) (rs : List Reading) :
    dated isLower (rs ++ [r]) = dated isLower rs := by
  ext p
  simp only [dated, List.mem_append, List.mem_singleton, Set.mem_ofPred_eq]
  constructor
  · rintro ⟨r', hr' | rfl, hside, hp⟩
    · exact ⟨r', hr', hside, hp⟩
    · exact absurd hside h
  · rintro ⟨r', hr', hside, hp⟩
    exact ⟨r', .inl hr', hside, hp⟩

/-- **The tightest window** that some bounds allow. -/
structure Tightest (rs : List Reading) (scope : TimeScope) : Prop where
  start : IsExtreme (· < ·) earliest (dated true rs) scope.start scope.startText
  stop : IsExtreme (· > ·) latest (dated false rs) scope.stop scope.stopText

theorem tightest_unbounded : Tightest [] unbounded := by
  have hnone (isLower : Bool) : dated isLower [] = ∅ := by simp [dated]
  constructor
  · rw [hnone]
    exact isExtreme_empty _ earliest
  · rw [hnone]
    exact isExtreme_empty _ latest

theorem take_of_isLower (hr : r.bound.isLower = true) (scope : TimeScope) : scope.take r =
    { scope with
      start := if scope.start < r.date then r.date else scope.start
      startText := if scope.start < r.date then some r.text else scope.startText } := by
  rw [take, narrowBound, if_pos hr]
  split <;> rfl

theorem take_of_not_isLower (hr : r.bound.isLower = false) (scope : TimeScope) : scope.take r =
    { scope with
      stop := if scope.stop > r.date then r.date else scope.stop
      stopText := if scope.stop > r.date then some r.text else scope.stopText } := by
  rw [take, narrowBound, if_neg (by simp [hr])]
  split <;> rfl

/-- One more bound concerns one end of the window and leaves the other. -/
theorem Tightest.take (h : Tightest rs scope) (r : Reading) :
    Tightest (rs ++ [r]) (scope.take r) := by
  have hself := dated_concat_self rs r
  cases hr : r.bound.isLower with
  | true =>
    rw [hr] at hself
    rw [take_of_isLower hr]
    constructor
    · rw [hself]
      exact h.start.advance r.date r.text
    · rw [dated_concat_of_ne (by simp [hr])]
      exact h.stop
  | false =>
    rw [hr] at hself
    rw [take_of_not_isLower hr]
    constructor
    · rw [dated_concat_of_ne (by simp [hr])]
      exact h.start
    · rw [hself]
      exact h.stop.advance r.date r.text

theorem tightest_foldl (rs : List Reading) : Tightest rs (rs.foldl TimeScope.take unbounded) := by
  induction rs using List.reverseRecOn with
  | nil => exact tightest_unbounded
  | append_singleton rs r ih =>
    rw [List.foldl_concat]
    exact ih.take r

end TimeScope

/-! ### Clauses that bound a field -/

/-- **The clause is a range that bounds a field** by this text. -/
def Json.BoundsBy (clause : Json) (field : String) (b : Bound) (text : String) : Prop :=
  ∃ ranges params, clause.get? "range" = some ranges ∧ ranges.get? field = some (.obj params) ∧
    Assoc.get? b.key params = some (.str text)

/-- **The dates that bound a field** on one side, among some clauses, with their texts. A bound that
is no text, or no date, is not among them. -/
def TimeScope.datesIn (clauses : List Json) (field : String) (today : Date) (isLower : Bool) :
    Set (Date × String) :=
  {p | ∃ clause ∈ clauses, ∃ b : Bound, b.isLower = isLower ∧ clause.BoundsBy field b p.2 ∧
    today.ofBound? p.2 = some p.1}

theorem Date.ofBound?_june (today : Date) :
    today.ofBound? "2020-06-01" = Date.ofCivil? ⟨2020, 6, 1⟩ := by
  have hdigits : TimeBound.dateDigits? (Text.trimChars "2020-06-01".toList) =
      some (['2', '0', '2', '0'], ['0', '6'], ['0', '1']) := by decide +kernel
  simp only [Date.ofBound?, hdigits]
  rfl

namespace BoolGroup

open TimeScope Params

theorem rangeOn?_eq_some_iff {field : String} {clause : Json} {params : Assoc Json} :
    rangeOn? field clause = some params ↔
      ∃ ranges, clause.get? "range" = some ranges ∧ ranges.get? field = some (.obj params) := by
  simp only [rangeOn?, Option.bind_eq_bind, Option.bind_eq_some_iff]
  refine exists_congr fun ranges => and_congr_right fun _ => ?_
  constructor
  · rintro ⟨j, hj, h⟩
    cases j with
    | obj ps => exact Option.some.inj h ▸ hj
    | _ => exact nomatch h
  · exact fun h => ⟨_, h, rfl⟩

/-- The clauses of a group that every hit fulfils. -/
def required (g : BoolGroup) : List Json := g.clauses .filter ++ g.clauses .must

/-- What is read in the ranges of a group. -/
def readingsOn (g : BoolGroup) (field : String) (today : Date) : List Reading :=
  (g.timeRanges field).flatMap (readings today)

theorem timeScope_eq (g : BoolGroup) (field : String) (today : Date) :
    g.timeScope field today = (g.readingsOn field today).foldl TimeScope.take .unbounded := by
  rw [timeScope, readingsOn, List.foldl_flatMap]
  exact List.foldl_ext _ _ _ fun scope params _ => narrow_eq today scope params

theorem dated_readingsOn (g : BoolGroup) (field : String) (today : Date) (isLower : Bool) :
    dated isLower (g.readingsOn field today) = datesIn g.required field today isLower := by
  ext ⟨d, t⟩
  simp only [dated, datesIn, readingsOn, timeRanges, required, Set.mem_ofPred_eq, List.mem_flatMap,
    List.mem_filterMap, rangeOn?_eq_some_iff, mem_readings_iff, Json.BoundsBy]
  constructor
  · rintro ⟨⟨b, d', t'⟩, ⟨params, ⟨clause, hc, ranges, hranges, hparams⟩, hget, hdate⟩, hb, hp⟩
    cases hp
    exact ⟨clause, hc, b, hb, ⟨ranges, params, hranges, hparams, hget⟩, hdate⟩
  · rintro ⟨clause, hc, b, hb, ⟨ranges, params, hranges, hparams, hget⟩, hdate⟩
    exact ⟨⟨b, d, t⟩, ⟨params, ⟨clause, hc, ranges, hranges, hparams⟩, hget, hdate⟩, hb, rfl⟩

/-- **The start of the window** is the latest of the lower dates. -/
theorem timeScope_start (g : BoolGroup) (field : String) (today : Date) :
    IsExtreme (· < ·) earliest (datesIn g.required field today true) (g.timeScope field today).start
      (g.timeScope field today).startText := by
  rw [← dated_readingsOn, timeScope_eq]
  exact (tightest_foldl _).start

/-- **The end of the window** is the earliest of the upper dates. -/
theorem timeScope_stop (g : BoolGroup) (field : String) (today : Date) :
    IsExtreme (· > ·) latest (datesIn g.required field today false)
      (g.timeScope field today).stop (g.timeScope field today).stopText := by
  rw [← dated_readingsOn, timeScope_eq]
  exact (tightest_foldl _).stop

theorem timeScope_congr {g g' : BoolGroup} (h : ∀ c, c ∈ g'.required ↔ c ∈ g.required)
    (field : String) (today : Date) :
    (g'.timeScope field today).start = (g.timeScope field today).start ∧
      (g'.timeScope field today).stop = (g.timeScope field today).stop := by
  have hdates : datesIn g'.required field today = datesIn g.required field today := by
    funext isLower
    simp only [datesIn, h]
  have hstart := (g'.timeScope_start field today).isGreatest
  have hstop := (g'.timeScope_stop field today).isLeast
  rw [hdates] at hstart hstop
  exact ⟨hstart.unique (g.timeScope_start field today).isGreatest,
    hstop.unique (g.timeScope_stop field today).isLeast⟩

/-! ### Groups that are made by calls -/

/-- **The clauses that every hit fulfils**, as the valid calls put them into the group. -/
def requiredBy (calls : List Call) : List Json :=
  ((writes calls).filter fun w => w.key = "must" ∨ w.key = "filter").flatMap (·.change.items)

theorem clauses_run {v : Version} (hv : v.isSupported = true) (filtered : Bool)
    (calls : List Call) (o : Occur) : (run ⟨filtered, .empty v []⟩ calls).clauses o =
      (changesAt o.key (writes calls)).flatMap Change.items := by
  rw [run_eq (g := ⟨filtered, .empty v []⟩) hv]
  refine list_of_get? ?_
  exact ((follow_writes calls).get?_writeAll_empty rfl).trans (by cases o <;> rfl)

theorem mem_required_run_iff {v : Version} (hv : v.isSupported = true) (filtered : Bool)
    (calls : List Call) (clause : Json) :
    clause ∈ (run ⟨filtered, .empty v []⟩ calls).required ↔ clause ∈ requiredBy calls := by
  simp only [required, requiredBy, clauses_run hv, Occur.key, List.mem_append, List.mem_flatMap,
    mem_changesAt_iff, List.mem_filter, decide_eq_true_eq]
  constructor
  · rintro (⟨_, ⟨w, hw, hk, rfl⟩, hc⟩ | ⟨_, ⟨w, hw, hk, rfl⟩, hc⟩)
    · exact ⟨w, ⟨hw, .inr hk⟩, hc⟩
    · exact ⟨w, ⟨hw, .inl hk⟩, hc⟩
  · rintro ⟨w, ⟨hw, hk | hk⟩, hc⟩
    · exact .inr ⟨_, ⟨w, hw, hk, rfl⟩, hc⟩
    · exact .inl ⟨_, ⟨w, hw, hk, rfl⟩, hc⟩

/-- **The window of a group that is made by calls** is the tightest that its clauses allow. It
starts at the latest of the dates that bound the field from below, or in the year 1001 if none is
later, and it ends at the earliest of those that bound it from above, or in the year 9999. An end
that is not the default one has the text of a bound with its date. Two groups with the same clauses, in any
order and distributed over the two lists in any way, have windows of the same days. -/
theorem timeScope_run {v : Version} (hv : v.isSupported = true) (filtered : Bool) :
    ∃ g, (if filtered then newFiltered v else BoolGroup.new v) = .ok g ∧
      ∀ (calls : List Call) (field : String) (today : Date),
        let scope := (g.run calls).timeScope field today
        let lower := datesIn (requiredBy calls) field today true
        let upper := datesIn (requiredBy calls) field today false
        IsGreatest (insert earliest (Prod.fst '' lower)) scope.start ∧
        IsLeast (insert latest (Prod.fst '' upper)) scope.stop ∧
        (scope.startText = none ↔ scope.start = earliest) ∧
        (∀ t, scope.startText = some t → (scope.start, t) ∈ lower) ∧
        (scope.stopText = none ↔ scope.stop = latest) ∧
        (∀ t, scope.stopText = some t → (scope.stop, t) ∈ upper) ∧
        ∀ calls', (∀ c, c ∈ requiredBy calls' ↔ c ∈ requiredBy calls) →
          ((g.run calls').timeScope field today).start = scope.start ∧
            ((g.run calls').timeScope field today).stop = scope.stop := by
  have hnew : (if filtered then newFiltered v else BoolGroup.new v) =
      .ok (⟨filtered, .empty v []⟩ : BoolGroup) := by
    cases filtered <;> exact Params.new_bind_eq_ok_iff.mpr ⟨hv, rfl⟩
  refine ⟨_, hnew, fun calls field today => ?_⟩
  have hmem := mem_required_run_iff hv filtered
  have hdates (isLower : Bool) : datesIn (requiredBy calls) field today isLower =
      datesIn (run ⟨filtered, .empty v []⟩ calls).required field today isLower := by
    simp only [datesIn, hmem]
  intro scope lower upper
  have hstart : IsExtreme (· < ·) earliest lower scope.start scope.startText := by
    rw [show lower = _ from hdates true]
    exact timeScope_start _ field today
  have hstop : IsExtreme (· > ·) latest upper scope.stop scope.stopText := by
    rw [show upper = _ from hdates false]
    exact timeScope_stop _ field today
  refine ⟨hstart.isGreatest, hstop.isLeast, hstart.text_eq_none_iff, fun _ => hstart.mem,
    hstop.text_eq_none_iff, fun _ => hstop.mem,
    fun calls' h => timeScope_congr (fun c => ?_) field today⟩
  rw [hmem, hmem, h]

/-- Of two lower bounds the later one counts, in whatever list it is. -/
theorem timeScope_run_moved : ∃ g, newFiltered ⟨7, 10⟩ = .ok g ∧ ∀ today d : Date,
    Date.ofCivil? ⟨2020, 6, 1⟩ = some d →
      let since := Call.halfRange "at" "gte" "2020-06-01"
      let scope := (g.run [.startTime (some "at") none, .push .must since]).timeScope "at" today
      d ≤ scope.start ∧
      ((g.run [.push .filter since, .push .should .null,
        .push .must (Call.halfRange "at" "gte" "now-10d")]).timeScope "at" today).start =
          scope.start := by
  obtain ⟨g, hg, h⟩ := timeScope_run (v := ⟨7, 10⟩) rfl true
  refine ⟨g, hg, fun today d hd => ?_⟩
  have hscope := h [.startTime (some "at") none,
    .push .must (Call.halfRange "at" "gte" "2020-06-01")] "at" today
  refine ⟨hscope.1.2 (Set.mem_insert_of_mem _ ⟨(d, "2020-06-01"), ?_, rfl⟩),
    (hscope.2.2.2.2.2.2 _ fun c => ?_).1⟩
  · exact ⟨_, List.mem_cons_of_mem _ List.mem_cons_self, .gte, rfl, ⟨_, _, rfl, rfl, rfl⟩,
      (Date.ofBound?_june today).trans hd⟩
  · exact (List.Perm.swap _ _ []).mem_iff

end BoolGroup

end SearchCompiler
