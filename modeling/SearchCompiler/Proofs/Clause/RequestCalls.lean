import SearchCompiler.Proofs.Clause.Writes

/-! # A request as a record of keys

A request is made by any number of calls in any order. Every call writes to one key, and for every
key there is one rule by which the calls for it add up, whatever other calls stand between them
(`run_eq_record`). Keys that the version does not have are in no document, and the calls for them
can be left out. -/

namespace SearchCompiler.Request

open Params

/-- **A call** that writes into a request. -/
inductive Call where
  | query (q : Json) (overwrite : Bool)
  | sort (key : SortKey)
  | sorts (keys : List SortKey)
  | source (columns : List String)
  | aggs (a : Aggs)
  | size (n : Nat) (overwrite : Bool)
  | offset (n : Nat) (overwrite : Bool)
  | clearOffset
  | highlight (h : Highlight) (overwrite : Bool)
  | explain (b overwrite : Bool)
  | versionFlag (b overwrite : Bool)
  | searchAfter (values : List Json)
  | storedFields (fields : List String)
  | docvalueFields (fields : List String)
  | collapse (field : String)
  | trackTotalHits (b : Bool)
  | seqNoPrimaryTerm (b : Bool)

/-- The request after a call. -/
def call (r : Request) : Call → Request
  | .query q overwrite => r.withQuery q overwrite
  | .sort key => r.withSort key
  | .sorts keys => r.withSorts keys
  | .source columns => r.withSource columns
  | .aggs a => r.withAggs a
  | .size n overwrite => r.withSize n overwrite
  | .offset n overwrite => r.withOffset n overwrite
  | .clearOffset => r.clearOffset
  | .highlight h overwrite => r.withHighlight h overwrite
  | .explain b overwrite => r.withExplain b overwrite
  | .versionFlag b overwrite => r.withVersionFlag b overwrite
  | .searchAfter values => r.withSearchAfter values
  | .storedFields fields => r.withStoredFields fields
  | .docvalueFields fields => r.withDocvalueFields fields
  | .collapse field => r.withCollapse field
  | .trackTotalHits b => r.withTrackTotalHits b
  | .seqNoPrimaryTerm b => r.withSeqNoPrimaryTerm b

/-- The request after one call after the other. -/
def run (r : Request) (calls : List Call) : Request := calls.foldl call r

/-- **What a call writes**, and under which key. -/
def Call.write : Call → Write
  | query q overwrite => ⟨"query", .set q overwrite⟩
  | sort key => ⟨"sort", .append [key.document]⟩
  | sorts keys => ⟨"sort", .append (keys.map (·.document))⟩
  | source columns => ⟨"_source", .columns columns⟩
  | aggs a => ⟨"aggs", .set a.document true⟩
  | size n overwrite => ⟨"size", .set (.ofNat n) overwrite⟩
  | offset n overwrite => ⟨"from", .set (.ofNat n) overwrite⟩
  | clearOffset => ⟨"from", .clear⟩
  | highlight h overwrite => ⟨"highlight", .set h.document overwrite⟩
  | explain b overwrite => ⟨"explain", .set (.bool b) overwrite⟩
  | versionFlag b overwrite => ⟨"version", .set (.bool b) overwrite⟩
  | searchAfter values => ⟨"search_after", .append values⟩
  | storedFields fields => ⟨"stored_fields", .append (fields.map .str)⟩
  | docvalueFields fields => ⟨"docvalue_fields", .append (fields.map .str)⟩
  | collapse field => ⟨"collapse", .set (.obj [("field", .str field)]) true⟩
  | trackTotalHits b => ⟨"track_total_hits", .set (.bool b) true⟩
  | seqNoPrimaryTerm b => ⟨"seq_no_primary_term", .set (.bool b) true⟩

/-- **The rule of a key**, if there are calls for it. -/
def rule? : String → Option Rule
  | "query" | "size" | "from" | "highlight" | "explain" | "version" => some .keepsFirst
  | "aggs" | "collapse" | "track_total_hits" | "seq_no_primary_term" => some .keepsLast
  | "sort" | "search_after" | "stored_fields" | "docvalue_fields" => some .appends
  | "_source" => some .includes
  | _ => none

/-- Did this key come with a later version? -/
def isLater (v : Version) (k : String) : Bool :=
  gates.any fun g => g.key == k && decide (v.major < g.since)

variable {v : Version} {calls : List Call} {k : String}

theorem isGated_empty (v : Version) (k : String) :
    (Params.empty v gates).isGated k = isLater v k := by
  have hadmits (g : Gate) : (!g.admits v) = decide (v.major < g.since) := by
    rw [Gate.admits, Bool.eq_iff_iff]
    simp
  unfold Params.isGated isLater
  simp only [Params.empty, hadmits]

theorem params_call (r : Request) (c : Call) : (r.call c).params = r.params.write c.write := by
  cases c <;> rfl

theorem params_run (r : Request) (calls : List Call) :
    (r.run calls).params = r.params.writeAll (calls.map Call.write) := by
  induction calls generalizing r with
  | nil => rfl
  | cons c calls ih => rw [run, List.foldl_cons, ← run, ih, params_call]; rfl

@[simp] theorem gates_call (r : Request) (c : Call) :
    (r.call c).params.gates = r.params.gates := by
  rw [params_call, gates_write]

@[simp] theorem gates_run (r : Request) (calls : List Call) :
    (r.run calls).params.gates = r.params.gates := by
  rw [params_run, gates_writeAll]

theorem follow_write (calls : List Call) : Follow rule? (calls.map Call.write) := by
  rintro _ hw
  obtain ⟨c, -, rfl⟩ := List.mem_map.mp hw
  cases c <;> exact ⟨_, rfl, trivial⟩

theorem hidden_run (v : Version) (calls : List Call) :
    (run ⟨.empty v gates⟩ calls).params.Hidden := by
  rw [params_run]
  exact (hidden_empty v gates).writeAll _

theorem get?_run_eq_document (v : Version) (calls : List Call) (k : String) :
    (run ⟨.empty v gates⟩ calls).get? k = (run ⟨.empty v gates⟩ calls).document.get? k :=
  ((hidden_run v calls).get?_entries k).symm

theorem get?_run_of_isLater (hk : isLater v k = true) (calls : List Call) :
    (run ⟨.empty v gates⟩ calls).get? k = none := by
  refine get?_of_isGated ?_
  rw [params_run, isGated_writeAll]
  exact (isGated_empty v k).trans hk

theorem get?_run (hk : isLater v k = false) (calls : List Call) :
    (run ⟨.empty v gates⟩ calls).get? k =
      (rule? k).bind fun rule => rule.value (changesAt k (calls.map Call.write)) := by
  rw [get?, params_run]
  exact (follow_write calls).get?_writeAll_empty ((isGated_empty v k).trans hk)

/-- The calls for keys that came with a later version can be left out. -/
theorem run_filter (v : Version) (calls : List Call) :
    run ⟨.empty v gates⟩ (calls.filter fun c => !isLater v c.write.key) =
      run ⟨.empty v gates⟩ calls := by
  have hparams := (hidden_empty v gates).writeAll_filter (calls.map Call.write)
  simp only [List.filter_map, Function.comp_def, isGated_empty] at hparams
  rw [← params_run ⟨.empty v gates⟩, ← params_run ⟨.empty v gates⟩] at hparams
  exact congrArg Request.mk hparams

theorem isLater_of_lt {n : Nat} (hk : ⟨k, n⟩ ∈ gates) (hn : v.major < n) : isLater v k = true :=
  List.any_eq_true.mpr ⟨_, hk, by simpa using hn⟩

/-- **A request is a record of independent keys.** The value under a key is what the calls for that
key come to by its rule, in the order in which they were made. A key that came with a later version
is in no document and cannot be read, and the calls for it change nothing. -/
theorem run_eq_record (hv : v.isSupported = true) :
    ∃ r, Request.new v = .ok r ∧ ∀ calls,
      (∀ k, (r.run calls).document.get? k =
        if isLater v k then none
        else (rule? k).bind fun rule => rule.value (changesAt k (calls.map Call.write))) ∧
      (∀ k, (r.run calls).get? k = (r.run calls).document.get? k) ∧
      (v.major < 6 → (r.run calls).collapse? = none) ∧
      (v.major < 7 → (r.run calls).trackTotalHits? = none ∧
        (r.run calls).seqNoPrimaryTerm? = none) ∧
      r.run (calls.filter fun c => !isLater v c.write.key) = r.run calls := by
  refine ⟨⟨.empty v gates⟩, new_eq_ok_iff.mpr ⟨hv, rfl⟩, fun calls =>
    ⟨fun k => ?_, get?_run_eq_document v calls, fun h => ?_, fun h => ⟨?_, ?_⟩,
      run_filter v calls⟩⟩
  · rw [← get?_run_eq_document]
    split
    · next hk => exact get?_run_of_isLater hk calls
    · next hk => exact get?_run (by simpa using hk) calls
  · exact get?_run_of_isLater (isLater_of_lt (by decide) h) calls
  · exact get?_run_of_isLater (isLater_of_lt (by decide) h) calls
  · have hk : isLater v "seq_no_primary_term" = true := isLater_of_lt (by decide) h
    rw [seqNoPrimaryTerm?, flag?, get?_run_of_isLater hk]
    rfl

/-- The offset that counts is the first one after it was cleared. -/
theorem run_eq_record_offset : ∃ r, Request.new ⟨6, 8⟩ = .ok r ∧
    ∀ q, let r' := r.run [.offset 10 false, .trackTotalHits true, .clearOffset, .query q false,
      .offset 20 false, .offset 30 false]
    r'.document.get? "from" = some (.ofNat 20) ∧ r'.document.get? "query" = some q ∧
      r'.document.get? "track_total_hits" = none ∧ r'.document.get? "size" = none := by
  obtain ⟨r, hr, h⟩ := run_eq_record (v := ⟨6, 8⟩) rfl
  exact ⟨r, hr, fun q => ⟨(h _).1 "from", (h _).1 "query", (h _).1 "track_total_hits",
    (h _).1 "size"⟩⟩

end SearchCompiler.Request
