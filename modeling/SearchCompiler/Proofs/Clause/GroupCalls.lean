import SearchCompiler.Proofs.Clause.Writes

/-! # A boolean group as four lists

A boolean group is made by any number of calls, of which some may fail. A call checks what it is
given before it writes, so that one that fails leaves the group as it is (`after_of_error`); one
that does not appends to one of the four lists, or sets the number of alternatives or the boost.
Whether the group is filtered shows around the keys that are written and not in them
(`run_eq_lists`). -/

namespace SearchCompiler.BoolGroup

open Outcome Params

/-- **A call** that writes into a group. -/
inductive Call where
  | push (o : Occur) (clause : Json)
  | extend (o : Occur) (clauses : List Json)
  | term (field : String) (v : Json) (o : Occur)
  | fullText (field : String) (query : Json) (o : Occur)
  | range (r : Range) (o : Occur)
  | startTime (field start : Option String)
  | endTime (field stop : Option String)
  | minimumShouldMatch (m : MinimumShouldMatch) (overwrite : Bool)
  | boost (x : Float)

/-- The group that a call makes of another one, or its error. -/
def call? (g : BoolGroup) : Call → Except ClauseError BoolGroup
  | .push o clause => .ok (g.push o clause)
  | .extend o clauses => .ok (g.extend o clauses)
  | .term field v o => g.withTerm field v o
  | .fullText field query o => g.withFullText field query o
  | .range r o => .ok (g.withRange r o)
  | .startTime field start => g.withStartTime field start
  | .endTime field stop => g.withEndTime field stop
  | .minimumShouldMatch m overwrite => .ok (g.withMinimumShouldMatch m overwrite)
  | .boost x => .ok (g.withBoost x)

/-! ### A call on a group in place -/

/-- Filters by one end of a range of time. -/
def Call.timeBound (field : Option String) (b : Bound) (text : String) :
    ExceptT ClauseError (StateM BoolGroup) Unit := do
  let r ← FieldClause.new .range (field.getD timeField) (← get).version
  modify (·.withRange (Range.withBound r b (.str text)) .filter)

/-- **Performs a call** on a group in place, one step after the other. -/
def Call.perform : Call → ExceptT ClauseError (StateM BoolGroup) Unit
  | push o clause => modify (·.push o clause)
  | extend o clauses => modify (·.extend o clauses)
  | term field v o => do
    let v ← requireValue .term v
    let c ← FieldClause.new .term field (← get).version
    modify (·.push o (Term.withValue c v).document)
  | fullText field query o => do
    let query ← requireValue .fullText query
    let c ← FieldClause.new .fullText field (← get).version
    modify (·.push o (FullText.withQuery c query).document)
  | range r o => modify (·.withRange r o)
  | startTime field start => timeBound field .gte (start.getD "now-10d")
  | endTime field stop => timeBound field .lte (stop.getD "now")
  | minimumShouldMatch m overwrite => modify (·.withMinimumShouldMatch m overwrite)
  | boost x => modify (·.withBoost x)

/-- The outcome of a call, and the group after it. -/
def after (g : BoolGroup) (c : Call) : Except ClauseError Unit × BoolGroup := c.perform.run.run g

/-- The group after one call after the other, whether they fail or not. -/
def run (g : BoolGroup) (calls : List Call) : BoolGroup := calls.foldl (fun g c => (g.after c).2) g

theorem run_timeBound (g : BoolGroup) (field : Option String) (b : Bound) (text : String) :
    (Call.timeBound field b text).run.run g = settle g (g.withTimeBound field b text) :=
  (run_get_bind _).trans (run_check_bind _ fun _ => rfl)

/-- **A call in place** gives the group that it makes, and otherwise the one it found. -/
theorem after_eq (g : BoolGroup) (c : Call) : g.after c = settle g (g.call? c) := by
  cases c with
  | term field v o =>
    exact run_check_bind _ fun _ => (run_get_bind _).trans (run_check_bind _ fun _ => rfl)
  | fullText field query o =>
    exact run_check_bind _ fun _ => (run_get_bind _).trans (run_check_bind _ fun _ => rfl)
  | startTime field start => exact g.run_timeBound field .gte (start.getD "now-10d")
  | endTime field stop => exact g.run_timeBound field .lte (stop.getD "now")
  | _ => rfl

/-! ### What a call writes -/

/-- Is this a value to search for? -/
def hasValue : Json → Bool
  | .null | .str "" => false
  | _ => true

/-- **Is there nothing wrong with a call?** A field needs a name and a search a value. -/
def Call.isValid : Call → Bool
  | term field v _ | fullText field v _ => hasValue v && isFieldName field
  | startTime field _ | endTime field _ => isFieldName (field.getD "@timestamp")
  | _ => true

/-- A range with one end. -/
def Call.halfRange (field side text : String) : Json :=
  .single "range" (.single field (.single side (.str text)))

/-- **What a call writes**, and under which key. -/
def Call.write : Call → Write
  | push o clause => ⟨o.key, .append [clause]⟩
  | extend o clauses => ⟨o.key, .append clauses⟩
  | term field v o => ⟨o.key, .append [.single "term" (.single field (.single "value" v))]⟩
  | fullText field query o =>
    ⟨o.key, .append [.single "match" (.single field (.single "query" query))]⟩
  | range r o => ⟨o.key, .append [r.document]⟩
  | startTime field start =>
    ⟨"filter", .append [halfRange (field.getD "@timestamp") "gte" (start.getD "now-10d")]⟩
  | endTime field stop =>
    ⟨"filter", .append [halfRange (field.getD "@timestamp") "lte" (stop.getD "now")]⟩
  | minimumShouldMatch m overwrite => ⟨"minimum_should_match", .set (.str m.render) overwrite⟩
  | boost x => ⟨"boost", .set (.ofFloat x) true⟩

/-- What the valid calls write, in order. -/
def writes (calls : List Call) : List Write := (calls.filter Call.isValid).map Call.write

/-- **The rule of a key**, if there are calls for it. -/
def rule? : String → Option Rule
  | "must" | "must_not" | "should" | "filter" => some .appends
  | "minimum_should_match" => some .keepsFirst
  | "boost" => some .keepsLast
  | _ => none

variable {g g' : BoolGroup}

theorem requireValue_bind_eq_ok_iff {α : Type} {k : ClauseKind} {v : Json}
    {f : Json → Except ClauseError α} {a : α} :
    requireValue k v >>= f = .ok a ↔ hasValue v = true ∧ f v = .ok a := by
  unfold requireValue
  split
  · exact ⟨fun h => (nomatch h), fun h => (nomatch h.1)⟩
  · exact ⟨fun h => (nomatch h), fun h => (nomatch h.1)⟩
  · have hv : hasValue v = true := by simp [hasValue]
    exact (and_iff_right hv).symm

theorem field_bind_eq_ok_iff (hg : g.version.isSupported = true) {α : Type} {k : FieldKind}
    {field : String} {f : FieldClause k → α} {a : α} :
    (FieldClause.new k field g.version >>= fun c => .ok (f c)) = .ok a ↔
      isFieldName field = true ∧ a = f ⟨field, .empty g.version []⟩ := by
  simp only [Outcome.bind_eq_ok, FieldClause.new_eq_ok_iff, hg, true_and]
  constructor
  · rintro ⟨_, ⟨hn, rfl⟩, h⟩
    exact ⟨hn, (Except.ok.inj h).symm⟩
  · rintro ⟨hn, rfl⟩
    exact ⟨_, ⟨hn, rfl⟩, rfl⟩

/-- **A call succeeds if it is valid**, and then it performs its write. -/
theorem call?_eq_ok_iff (hg : g.version.isSupported = true) (c : Call) :
    g.call? c = .ok g' ↔
      c.isValid = true ∧ g' = { g with params := g.params.write c.write } := by
  have hfree {x : BoolGroup} : (.ok x : Except ClauseError BoolGroup) = .ok g' ↔
      true = true ∧ g' = x := by
    rw [and_iff_right rfl, Except.ok.injEq, eq_comm]
  cases c with
  | term field v o =>
    rw [Call.isValid, Bool.and_eq_true, and_assoc]
    exact requireValue_bind_eq_ok_iff.trans (and_congr_right fun _ => field_bind_eq_ok_iff hg)
  | fullText field query o =>
    rw [Call.isValid, Bool.and_eq_true, and_assoc]
    exact requireValue_bind_eq_ok_iff.trans (and_congr_right fun _ => field_bind_eq_ok_iff hg)
  | startTime field start => exact field_bind_eq_ok_iff hg
  | endTime field stop => exact field_bind_eq_ok_iff hg
  | push o clause => exact hfree
  | extend o clauses => exact hfree
  | range r o => exact hfree
  | minimumShouldMatch m overwrite => exact hfree
  | boost x => exact hfree

/-! ### One call after the other -/

/-- **A call fails if it is not valid**, and then the group is as it was. -/
theorem after_of_error {c : Call} {e : ClauseError} (h : (g.after c).1 = .error e) :
    (g.after c).2 = g := by
  rw [after_eq] at h ⊢
  exact settle_of_error h

theorem exists_error_iff (hg : g.version.isSupported = true) (c : Call) :
    (∃ e, (g.after c).1 = .error e) ↔ c.isValid = false := by
  rw [after_eq, ← Bool.not_eq_true]
  cases hc : g.call? c with
  | error e =>
    refine iff_of_true ⟨e, rfl⟩ fun hv => ?_
    exact nomatch hc.symm.trans ((call?_eq_ok_iff hg c).mpr ⟨hv, rfl⟩)
  | ok g' =>
    exact iff_of_false (fun ⟨_, he⟩ => nomatch he) (not_not_intro ((call?_eq_ok_iff hg c).mp hc).1)

theorem after_of_isValid (hg : g.version.isSupported = true) {c : Call} (hc : c.isValid = true) :
    (g.after c).2 = { g with params := g.params.write c.write } := by
  rw [after_eq, (call?_eq_ok_iff hg c).mpr ⟨hc, rfl⟩]
  rfl

/-- **Only the valid calls write.** -/
theorem run_eq (hg : g.version.isSupported = true) (calls : List Call) :
    g.run calls = { g with params := g.params.writeAll (writes calls) } := by
  induction calls generalizing g with
  | nil => rfl
  | cons c calls ih =>
    rw [run, List.foldl_cons, ← run]
    cases hc : c.isValid with
    | true =>
      have hv : ({ g with params := g.params.write c.write } : BoolGroup).version = g.version :=
        version_write g.params c.write
      rw [after_of_isValid hg hc, ih (hv ▸ hg), writes, writes, List.filter_cons_of_pos hc]
      rfl
    | false =>
      obtain ⟨e, he⟩ := (exists_error_iff hg c).mpr hc
      rw [after_of_error he, ih hg, writes, writes, List.filter_cons_of_neg (by simp [hc])]

theorem follow_writes (calls : List Call) : Follow rule? (writes calls) := by
  rintro _ hw
  obtain ⟨c, -, rfl⟩ := List.mem_map.mp hw
  cases c with
  | push o clause => cases o <;> exact ⟨_, rfl, trivial⟩
  | extend o clauses => cases o <;> exact ⟨_, rfl, trivial⟩
  | term field v o => cases o <;> exact ⟨_, rfl, trivial⟩
  | fullText field query o => cases o <;> exact ⟨_, rfl, trivial⟩
  | range r o => cases o <;> exact ⟨_, rfl, trivial⟩
  | _ => exact ⟨_, rfl, trivial⟩

/-- No call clears a key. -/
theorem isClear_of_mem_writes {calls : List Call} {w : Write} (hw : w ∈ writes calls) :
    w.change.isClear = false := by
  obtain ⟨c, -, rfl⟩ := List.mem_map.mp hw
  cases c <;> rfl

theorem document_eq (filtered : Bool) (p : Params) : document ⟨filtered, p⟩ =
    if filtered then .single "bool" (.single "filter" (.single "bool" (.obj p.entries)))
    else .single "bool" (.obj p.entries) := rfl

/-- A value under the key of a list is the list of what is appended to it. -/
theorem list_of_get? {p : Params} {k : String} {cs : List Change}
    (h : p.get? k = Rule.appends.value cs) : p.list k = cs.flatMap Change.items := by
  rw [list, h]
  by_cases hcs : cs = [] <;> simp [Rule.value, hcs, Json.arr?]

/-- **A boolean group is four lists** and two values. Each list has what the valid calls append to
it, in the order of the calls; a call that is not valid fails and changes nothing. The document has
the keys that are written and no others, for a filtered group inside the filter of another one. -/
theorem run_eq_lists {v : Version} (hv : v.isSupported = true) (filtered : Bool) :
    ∃ g, (if filtered then newFiltered v else BoolGroup.new v) = .ok g ∧ ∀ calls,
      (∀ o, (g.run calls).clauses o =
        (changesAt o.key (writes calls)).flatMap Change.items) ∧
      (g.run calls).minimumShouldMatch? =
        Rule.keepsFirst.value (changesAt "minimum_should_match" (writes calls)) ∧
      (g.run calls).params.get? "boost" =
        Rule.keepsLast.value (changesAt "boost" (writes calls)) ∧
      (∃ members, (g.run calls).document =
          (if filtered then .single "bool" (.single "filter" (.single "bool" (.obj members)))
            else .single "bool" (.obj members)) ∧
        (∀ k, k ∈ Assoc.keys members ↔ ∃ w ∈ writes calls, w.key = k) ∧
        ∀ k, Assoc.get? k members = (g.run calls).params.get? k) ∧
      (∀ c, (∃ e, ((g.run calls).after c).1 = .error e) ↔ c.isValid = false) ∧
      ∀ c e, ((g.run calls).after c).1 = .error e → ((g.run calls).after c).2 = g.run calls := by
  have hnew : (if filtered then newFiltered v else BoolGroup.new v) =
      .ok (⟨filtered, .empty v []⟩ : BoolGroup) := by
    cases filtered <;> exact Params.new_bind_eq_ok_iff.mpr ⟨hv, rfl⟩
  refine ⟨_, hnew, fun calls => ?_⟩
  have hget (k : String) : ((Params.empty v []).writeAll (writes calls)).get? k =
      (rule? k).bind fun rule => rule.value (changesAt k (writes calls)) :=
    (follow_writes calls).get?_writeAll_empty rfl
  have hversion : ((Params.empty v []).writeAll (writes calls)).version = v := version_writeAll _ _
  rw [run_eq (g := ⟨filtered, .empty v []⟩) hv]
  refine ⟨fun o => list_of_get? ?_, hget _, hget _, ⟨_, document_eq _ _, fun k => ?_,
    ((hidden_empty v []).writeAll _).get?_entries⟩, fun c => ?_, fun c e => after_of_error⟩
  · exact (hget _).trans (by cases o <;> rfl)
  · exact mem_keys_writeAll_empty fun w hw => isClear_of_mem_writes hw
  · refine exists_error_iff ?_ c
    rw [BoolGroup.version, hversion, hv]

/-- A term without a field between other calls is left out. -/
theorem run_eq_lists_unnamedTerm : ∃ g, newFiltered ⟨7, 10⟩ = .ok g ∧
    ∀ j, let g' := g.run [.push .must j, .term " " (.str "ann") .must, .extend .filter [],
      .term "user" (.str "ann") .must, .minimumShouldMatch (.text "2") false,
      .minimumShouldMatch (.text "3") false]
    g'.clauses .must =
        [j, .single "term" (.single "user" (.single "value" (.str "ann")))] ∧
      g'.clauses .filter = [] ∧ g'.minimumShouldMatch? = some (.str "2") := by
  obtain ⟨g, hg, h⟩ := run_eq_lists (v := ⟨7, 10⟩) rfl true
  exact ⟨g, hg, fun j => ⟨(h _).1 .must, (h _).1 .filter, (h _).2.1⟩⟩

end SearchCompiler.BoolGroup
