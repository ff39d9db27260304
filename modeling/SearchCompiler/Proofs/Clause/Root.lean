import SearchCompiler.Proofs.Clause.GroupCalls
import SearchCompiler.Proofs.Rebuild.Clause

/-! # The root of a document

A query has its parameters at the end of a path of keys: that of its kind, and below it that of its
field, or those of the filter that it stands in. Nothing stands beside the path. Every setter writes
under some key into the mapping at its end, which is what a write in place does to the document; a
key that is also one of the path is no exception, nor is one that came from a document.

* `Json.modifyAt_nest`: writing in place at the end of a path.
* `Clause.Sets.params_eq`, `Clause.Run.params_eq`: one setter, and one after the other.
* `Clause.Made.rooted`: where the parameters of a clause stand that is made or rebuilt.
* `Clause.Made.document_of_run`: the document after them. -/

namespace SearchCompiler

open Params

/-! ### Writing in place -/

namespace Json

/-- **A value at the end of a path**, with nothing beside it. -/
def nest : List String → Json → Json
  | [], j => j
  | k :: ks, j => .single k (nest ks j)

/-- **Changes the mapping at the end of a path** in place. A mapping that is not there is made, also
in the place of another value. -/
def modifyAt (f : Assoc Json → Assoc Json) : List String → Json → Json
  | [], j => .obj (f j.fields)
  | k :: ks, j => j.setField k (modifyAt f ks ((j.get? k).getD (.obj [])))

theorem setField_single (k : String) (j j' : Json) :
    (single k j).setField k j' = single k j' := by
  simp [single, setField, Assoc.insert]

theorem modifyAt_nest (f : Assoc Json → Assoc Json) (path : List String) (ms : Assoc Json) :
    modifyAt f path (nest path (.obj ms)) = nest path (.obj (f ms)) := by
  induction path with
  | nil => rfl
  | cons k ks ih =>
    have hget : (single k (nest ks (.obj ms))).get? k = some (nest ks (.obj ms)) := if_pos rfl
    rw [nest, modifyAt, hget, Option.getD_some, ih, setField_single, nest]

end Json

/-- **What a write makes of the members of a mapping.** -/
def Params.Write.onto (w : Write) (ms : Assoc Json) : Assoc Json :=
  match w.change with
  | .set v overwrite =>
    if !overwrite && (Assoc.get? w.key ms).isSome then ms else Assoc.insert w.key v ms
  | .append items => Assoc.insert w.key (.arr (itemsOf (Assoc.get? w.key ms) ++ items)) ms
  | .columns names => Assoc.insert w.key (Request.sourceWith names (Assoc.get? w.key ms)) ms
  | .clear => Assoc.erase w.key ms

theorem Params.entries_write {p : Params} (h : p.gates = []) (w : Write) :
    (p.write w).entries = w.onto p.entries := by
  obtain ⟨es, v, gates⟩ := p
  obtain rfl : gates = [] := h
  obtain ⟨k, c⟩ := w
  cases c with
  | set v overwrite => exact apply_ite Params.entries _ _ _
  | append items => rfl
  | columns names => rfl
  | clear => rfl

theorem Params.nest_writeAll {p : Params} (h : p.gates = []) (path : List String)
    (ws : List Write) : Json.nest path (p.writeAll ws).toJson =
      ws.foldl (fun doc w => doc.modifyAt w.onto path) (.nest path p.toJson) := by
  induction ws generalizing p with
  | nil => rfl
  | cons w ws ih =>
    have hdoc : Json.modifyAt w.onto path (.nest path p.toJson) = .nest path (p.write w).toJson := by
      rw [toJson, toJson, Json.modifyAt_nest, entries_write h]
    rw [List.foldl_cons, hdoc]
    exact ih ((gates_write p w).trans h)

/-! ### Setters -/

/-- **A setter** of a clause about one field. -/
inductive FieldClause.Setter : FieldKind → Type
  | value (v : Json) : Setter .term
  | query (v : Json) : Setter .fullText
  | analyzer (s : String) : Setter .fullText
  | fuzziness (v : Json) : Setter .fullText
  | operator (s : String) : Setter .fullText
  | zeroTermsQuery (s : String) : Setter .fullText
  | cutoffFrequency (x : Float) : Setter .fullText
  | bound (b : Bound) (v : Json) : Setter .range
  | format (s : String) : Setter .range
  | timeZone (s : String) : Setter .range
  | order (o : SortOrder) : Setter .sort
  | mode (s : String) : Setter .sort
  | unit (s : String) : Setter .sort
  | nestedPath (s : String) : Setter .sort
  | nestedFilter (v : Json) : Setter .sort
  | boost {k : FieldKind} (x : Float) : Setter k

namespace FieldClause.Setter

variable {k : FieldKind}

/-- The clause after a setter. -/
def apply : {k : FieldKind} → Setter k → FieldClause k → FieldClause k
  | _, value v, c => Term.withValue c v
  | _, query v, c => FullText.withQuery c v
  | _, analyzer s, c => FullText.withAnalyzer c s
  | _, fuzziness v, c => FullText.withFuzziness c v
  | _, operator s, c => FullText.withOperator c s
  | _, zeroTermsQuery s, c => FullText.withZeroTermsQuery c s
  | _, cutoffFrequency x, c => FullText.withCutoffFrequency c x
  | _, bound b v, c => Range.withBound c b v
  | _, format s, c => Range.withFormat c s
  | _, timeZone s, c => Range.withTimeZone c s
  | _, order o, c => SortKey.withOrder c o
  | _, mode s, c => SortKey.withMode c s
  | _, unit s, c => SortKey.withUnit c s
  | _, nestedPath s, c => SortKey.withNestedPath c s
  | _, nestedFilter v, c => SortKey.withNestedFilter c v
  | _, boost x, c => c.withBoost x

/-- What a setter writes, and under which key. -/
def write : {k : FieldKind} → Setter k → Write
  | _, value v => ⟨"value", .set v true⟩
  | _, query v => ⟨"query", .set v true⟩
  | _, analyzer s => ⟨"analyzer", .set (.str s) true⟩
  | _, fuzziness v => ⟨"fuzziness", .set v true⟩
  | _, operator s => ⟨"operator", .set (.str s) true⟩
  | _, zeroTermsQuery s => ⟨"zero_terms_query", .set (.str s) true⟩
  | _, cutoffFrequency x => ⟨"cutoff_frequency", .set (.ofFloat x) true⟩
  | _, bound b v => ⟨b.key, .set v true⟩
  | _, format s => ⟨"format", .set (.str s) true⟩
  | _, timeZone s => ⟨"time_zone", .set (.str s) true⟩
  | _, order o => ⟨"order", .set (.str o.text) true⟩
  | _, mode s => ⟨"mode", .set (.str s) true⟩
  | _, unit s => ⟨"unit", .set (.str s) true⟩
  | _, nestedPath s => ⟨"nested_path", .set (.str s) true⟩
  | _, nestedFilter v => ⟨"nested_filter", .set v true⟩
  | _, boost x => ⟨"boost", .set (.ofFloat x) true⟩

theorem apply_eq (s : Setter k) (c : FieldClause k) :
    s.apply c = { c with params := c.params.write s.write } := by
  cases s <;> rfl

end FieldClause.Setter

/-- **A setter** of a match of several values. -/
inductive Terms.Setter where
  | values (vs : List Json)
  | boost (x : Float)

namespace Terms.Setter

/-- The clause after a setter. -/
def apply : Setter → Terms → Terms
  | values vs, c => c.withValues vs
  | boost x, c => c.withBoost x

/-- What a setter writes into a clause about a field. The values stand under its name. -/
def write (field : String) : Setter → Write
  | values vs => ⟨field, .set (.arr vs) true⟩
  | boost x => ⟨"boost", .set (.ofFloat x) true⟩

theorem apply_eq (s : Setter) (c : Terms) :
    s.apply c = { c with params := c.params.write (s.write c.field) } := by
  cases s <;> rfl

end Terms.Setter

namespace Clause

/-- **One setter of a query or a sort key**: the clause before it, what it writes, and the clause
after it. A call on a group that fails writes nothing. -/
inductive Sets : Clause → List Write → Clause → Prop
  | bool (g : BoolGroup) (call : BoolGroup.Call) :
    Sets (.bool g) (BoolGroup.writes [call]) (.bool (g.after call).2)
  | term (c : Term) (s : FieldClause.Setter .term) : Sets (.term c) [s.write] (.term (s.apply c))
  | terms (c : Terms) (s : Terms.Setter) : Sets (.terms c) [s.write c.field] (.terms (s.apply c))
  | fullText (c : FullText) (s : FieldClause.Setter .fullText) :
    Sets (.fullText c) [s.write] (.fullText (s.apply c))
  | range (c : Range) (s : FieldClause.Setter .range) :
    Sets (.range c) [s.write] (.range (s.apply c))
  | sort (c : SortKey) (s : FieldClause.Setter .sort) : Sets (.sort c) [s.write] (.sort (s.apply c))

/-- **One setter after the other**, and all that they write. -/
inductive Run : Clause → List Write → Clause → Prop
  | done (c : Clause) : Run c [] c
  | step {c c' c'' : Clause} {ws ws' : List Write} (h : Sets c ws c') (hrest : Run c' ws' c'') :
    Run c (ws ++ ws') c''

/-- **The keys above the parameters** of a clause, from the top of its document. -/
def path : Clause → List String
  | bool g => if g.filtered then ["bool", "filter", "bool"] else ["bool"]
  | term c => ["term", c.field]
  | terms _ => ["terms"]
  | fullText c => ["match", c.field]
  | range c => ["range", c.field]
  | sort c => [c.field]
  | aggs _ | highlight _ | request _ => []

theorem document_eq_nest (c : Clause) : c.document = .nest c.path c.params.toJson := by
  cases c with
  | bool g =>
    obtain ⟨filtered, p⟩ := g
    cases filtered <;> rfl
  | _ => rfl

variable {c c' : Clause} {ws : List Write}

/-- **A setter writes into the parameters** and leaves the keys above them. -/
theorem Sets.params_eq (h : Sets c ws c') (hv : c.version.isSupported = true) :
    c'.path = c.path ∧ c'.params = c.params.writeAll ws := by
  cases h with
  | bool g call =>
    have hrun : (g.after call).2 = { g with params := g.params.writeAll (BoolGroup.writes [call]) } :=
      BoolGroup.run_eq hv [call]
    rw [hrun]
    exact ⟨rfl, rfl⟩
  | terms c s => rw [s.apply_eq]; exact ⟨rfl, rfl⟩
  | term c s | fullText c s | range c s | sort c s => rw [s.apply_eq]; exact ⟨rfl, rfl⟩

theorem Run.params_eq (h : Run c ws c') (hv : c.version.isSupported = true) :
    c'.path = c.path ∧ c'.params = c.params.writeAll ws := by
  induction h with
  | done c => exact ⟨rfl, rfl⟩
  | @step c c' c'' ws ws' h _ ih =>
    obtain ⟨hpath, hparams⟩ := h.params_eq hv
    have hv' : c'.version.isSupported = true := by
      rw [version, hparams, version_writeAll]
      exact hv
    obtain ⟨hpath', hparams'⟩ := ih hv'
    refine ⟨hpath'.trans hpath, hparams'.trans ?_⟩
    rw [hparams]
    exact List.foldl_append.symm

end Clause

/-! ### Where clauses come from -/

/-- The keys above the parameters of what is rebuilt from the body of a document. The body of a
clause about one field has the name of the field as its only key; that of a sort key may be the name
alone. -/
def ClauseKind.pathOf : ClauseKind → Json → List String
  | .bool, _ => ["bool"]
  | .terms, _ => ["terms"]
  | .sort, .str field => [field]
  | .sort, body => body.fields.keys
  | k, body => k.name :: body.fields.keys

/-- The kinds of queries, and sort keys. -/
def ClauseKind.hasPath : ClauseKind → Bool
  | .bool | .term | .terms | .fullText | .range | .sort => true
  | .aggs | .highlight | .request => false

/-- **A clause as it is made**, by its constructor or from a document that some registry accepts, and
the keys above its parameters. -/
inductive Clause.Made (v : Version) : Clause → List String → Prop
  | bool {g : BoolGroup} (h : BoolGroup.new v = .ok g) : Made v (.bool g) ["bool"]
  | filtered {g : BoolGroup} (h : BoolGroup.newFiltered v = .ok g) :
    Made v (.bool g) ["bool", "filter", "bool"]
  | term {n : String} {c : Term} (h : FieldClause.new .term n v = .ok c) :
    Made v (.term c) ["term", n]
  | terms {n : String} {c : Terms} (h : Terms.new n v = .ok c) : Made v (.terms c) ["terms"]
  | fullText {n : String} {c : FullText} (h : FieldClause.new .fullText n v = .ok c) :
    Made v (.fullText c) ["match", n]
  | range {n : String} {c : Range} (h : FieldClause.new .range n v = .ok c) :
    Made v (.range c) ["range", n]
  | sort {n : String} {c : SortKey} (h : FieldClause.new .sort n v = .ok c) : Made v (.sort c) [n]
  | document {r : Registry} {n : String} {body : Json} {k : ClauseKind} {c : Clause}
    (hk : k.hasPath = true) (hn : r.find? n = some (.builtin k))
    (h : r.fromDocument v (.single n body) = .ok c) : Made v c (k.pathOf body)

/-- **Parameters at the end of a path**, for a supported version and none of them gated. -/
structure Clause.Rooted (v : Version) (c : Clause) (path : List String) : Prop where
  isSupported : v.isSupported = true
  path_eq : c.path = path
  version_eq : c.params.version = v
  gates_eq : c.params.gates = []

namespace BoolGroup

variable {r : Registry} {v : Version}

theorem exists_writes_of_fillGroup (members : List (String × Json)) {g g' : BoolGroup}
    (h : r.fillGroup v g members = .ok g') :
    ∃ ws, g' = { g with params := g.params.writeAll ws } := by
  induction members generalizing g with
  | nil =>
    rw [Registry.fillGroup] at h
    exact ⟨[], (Except.ok.inj h).symm⟩
  | cons e members ih =>
    have hstep (w : Write) (h : r.fillGroup v { g with params := g.params.write w } members = .ok g') :
        ∃ ws, g' = { g with params := g.params.writeAll ws } := by
      obtain ⟨ws, hws⟩ := ih h
      exact ⟨w :: ws, hws⟩
    obtain ⟨key, value⟩ := e
    have hput (j : Json) (h : r.fillGroup v (g.put key j) members = .ok g') :
        ∃ ws, g' = { g with params := g.params.writeAll ws } := hstep ⟨key, .set j true⟩ h
    rw [Registry.fillGroup.eq_def] at h
    dsimp only at h
    split at h
    · next o items ho =>
      obtain ⟨docs, -, h⟩ := Outcome.bind_eq_ok.mp h
      exact hstep ⟨o.key, .append docs⟩ h
    · obtain ⟨c, -, h⟩ := Outcome.bind_eq_ok.mp h
      exact hput _ h
    · exact hput _ h

theorem rooted_of_groupOfBody {body : Json} {g : BoolGroup} (h : r.groupOfBody v body = .ok g) :
    (Clause.bool g).Rooted v ["bool"] := by
  rw [Registry.groupOfBody.eq_def] at h
  split at h
  · next members =>
    obtain ⟨g', hnew, h⟩ := Outcome.bind_eq_ok.mp h
    obtain ⟨hv, rfl⟩ := new_eq_ok_iff.mp hnew
    obtain ⟨ws, rfl⟩ := exists_writes_of_fillGroup members h
    exact ⟨hv, rfl, version_writeAll _ ws, gates_writeAll _ ws⟩
  · exact nomatch h

end BoolGroup

/-- A sort key is rebuilt in any of its forms with the field that its document names. -/
theorem SortKey.rooted_of_ofDocument {v : Version} {doc : Json} {c : SortKey}
    (h : SortKey.ofDocument doc v = .ok c) :
    (Clause.sort c).Rooted v (ClauseKind.sort.pathOf doc) := by
  have hbody {n : String} {p : Json} {c : SortKey} (hp : FieldClause.entry .sort doc = .ok (n, p))
      (hv : v.isSupported = true) (hn : c.field = n) (hversion : c.params.version = v)
      (hgates : c.params.gates = []) : (Clause.sort c).Rooted v (ClauseKind.sort.pathOf doc) := by
    obtain rfl := FieldClause.entry_eq_ok_iff.mp hp
    exact ⟨hv, congrArg ([·]) hn, hversion, hgates⟩
  unfold SortKey.ofDocument at h
  split at h
  · obtain ⟨-, hv, rfl⟩ := FieldClause.new_eq_ok_iff.mp h
    exact ⟨hv, rfl, rfl, rfl⟩
  · obtain ⟨⟨n, p⟩, hp, h⟩ := Outcome.bind_eq_ok.mp h
    obtain ⟨c', hc', h⟩ := Outcome.bind_eq_ok.mp h
    obtain ⟨-, hv, rfl⟩ := FieldClause.new_eq_ok_iff.mp hc'
    split at h
    · next members _ =>
      obtain rfl := Except.ok.inj h
      have hparams := putAll_empty v members
      exact hbody hp hv rfl (congrArg Params.version hparams) (congrArg Params.gates hparams)
    · split at h
      · obtain rfl := Except.ok.inj h
        exact hbody hp hv rfl rfl rfl
      · exact nomatch h
    · exact nomatch h

namespace Clause

variable {v : Version} {c c' : Clause} {keys : List String} {ws : List Write}

/-- **What is made has its parameters at the end of the path that it was made with.** -/
theorem Made.rooted (h : Made v c keys) : c.Rooted v keys := by
  cases h with
  | bool h => obtain ⟨hv, rfl⟩ := BoolGroup.new_eq_ok_iff.mp h; exact ⟨hv, rfl, rfl, rfl⟩
  | filtered h => obtain ⟨hv, rfl⟩ := Params.new_bind_eq_ok_iff.mp h; exact ⟨hv, rfl, rfl, rfl⟩
  | terms h => obtain ⟨-, hv, rfl⟩ := Terms.new_eq_ok_iff.mp h; exact ⟨hv, rfl, rfl, rfl⟩
  | term h | fullText h | range h | sort h =>
    obtain ⟨-, hv, rfl⟩ := FieldClause.new_eq_ok_iff.mp h
    exact ⟨hv, rfl, rfl, rfl⟩
  | @document r n body k c hk hn h =>
    rw [Json.single, Registry.fromDocument, hn] at h
    cases k with
    | bool =>
      obtain ⟨g, hg, h⟩ := Outcome.bind_eq_ok.mp h
      exact Except.ok.inj h ▸ BoolGroup.rooted_of_groupOfBody hg
    | terms =>
      obtain ⟨t, ht, h⟩ := Outcome.bind_eq_ok.mp h
      obtain ⟨hv, members, n, rfl, -, -, rfl⟩ := Terms.ofBody_eq_ok_iff.mp ht
      exact Except.ok.inj h ▸ ⟨hv, rfl, rfl, rfl⟩
    | term | fullText =>
      obtain ⟨t, ht, h⟩ := Outcome.bind_eq_ok.mp h
      obtain ⟨hv, n, p, -, rfl, rfl⟩ := FieldClause.ofBody_eq_ok_iff.mp ht
      exact Except.ok.inj h ▸ ⟨hv, rfl, rfl, rfl⟩
    | range =>
      obtain ⟨t, ht, h⟩ := Outcome.bind_eq_ok.mp h
      obtain ⟨hv, n, p, -, rfl, rfl⟩ :=
        FieldClause.ofBody_eq_ok_iff.mp ((Range.ofBody_eq_ok_iff "").mp ht).1
      exact Except.ok.inj h ▸ ⟨hv, rfl, rfl, rfl⟩
    | sort =>
      obtain ⟨s, hs, h⟩ := Outcome.bind_eq_ok.mp h
      exact Except.ok.inj h ▸ SortKey.rooted_of_ofDocument hs
    | aggs | highlight | request => exact absurd hk Bool.false_ne_true

/-- **The root of a document never changes**, whichever setters are called: the keys above the
parameters are those that the clause was made with, and nothing stands beside them. The document is
the one that is written in place at the end of their path. -/
theorem Made.document_of_run (hm : Made v c keys) (h : Run c ws c') :
    c'.path = keys ∧ (∃ members, c'.document = .nest keys (.obj members)) ∧
      c'.document = ws.foldl (fun doc w => doc.modifyAt w.onto keys) c.document := by
  obtain ⟨hv, rfl, hversion, hgates⟩ := hm.rooted
  have hsupported : c.version.isSupported = true := by rwa [version, hversion]
  obtain ⟨hpath, hparams⟩ := h.params_eq hsupported
  have hdoc : c'.document = .nest c.path (c.params.writeAll ws).toJson := by
    rw [c'.document_eq_nest, hpath, hparams]
  refine ⟨hpath, ⟨_, hdoc⟩, ?_⟩
  rw [hdoc, nest_writeAll hgates, ← c.document_eq_nest]

/-- A filter is added to a group that stands in a filter itself, and a call on it fails; the terms of
a field are named like their kind. -/
theorem Made.document_of_run_filter :
    ∃ g g' t t' ws ws', Made .standard (.bool g) ["bool", "filter", "bool"] ∧
      Made .standard (.terms t) ["terms"] ∧ Run (.bool g) ws (.bool g') ∧
      Run (.terms t) ws' (.terms t') ∧
      (Clause.bool g').document =
        .single "bool" (.single "filter" (.single "bool" (.single "filter" (.arr [.null])))) ∧
      (Clause.terms t').document = .single "terms" (.single "terms" (.arr [.null])) := by
  have hg : Made .standard (.bool ⟨true, .empty .standard []⟩) ["bool", "filter", "bool"] :=
    .filtered (Params.new_bind_eq_ok_iff.mpr ⟨rfl, rfl⟩)
  have ht : Made .standard (.terms ⟨"terms", .empty .standard []⟩) ["terms"] :=
    .terms (Terms.new_eq_ok_iff.mpr ⟨by decide, rfl, rfl⟩)
  have hrun := Run.step (.bool ⟨true, .empty .standard []⟩ (.push .filter .null))
    (.step (.bool _ (.term "" .null .must)) (.done _))
  have hrun' := Run.step (.terms ⟨"terms", .empty .standard []⟩ (.values [.null])) (.done _)
  refine ⟨_, _, _, _, _, _, hg, ht, hrun, hrun', ?_, ?_⟩
  · rw [(hg.document_of_run hrun).2.2]
    rfl
  · rw [(ht.document_of_run hrun').2.2]
    rfl

end Clause

end SearchCompiler
