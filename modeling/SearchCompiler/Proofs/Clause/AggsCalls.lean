import SearchCompiler.Proofs.Clause.Construct

/-! # Containers of aggregations under calls

A container is a tree: a bucket may hold a container of its own, and an aggregation is known by the
path of names that leads to it. A call writes a node under one name of the container that it is made
on. What was under that name before is replaced, with all that was in it; other names are not
touched.

An aggregation that is there therefore stays where it is as long as no call hits it: one that uses
its name, or the name of a bucket around it, for a new node, or one that puts another container into
a bucket around it (`Call.Spares`). `keeps_iff_spares` says so of one call, and
`run_keeps_iff_spares` of any number of them. -/

namespace SearchCompiler

/-! ### Paths of names -/

namespace Json

/-- **The aggregation at a path of names**, without the aggregations in it. -/
def aggregation? : List String → Json → Option Json
  | [], _ => none
  | n :: path, doc => (doc.get? n).bind fun node =>
    if path = [] then some (node.eraseField "aggs")
    else (node.get? "aggs").bind (aggregation? path)

/-- The aggregation at a path in the container of a bucket. -/
def inner? (path : List String) (node : Json) : Option Json :=
  (node.get? "aggs").bind (aggregation? path)

/-- **All aggregations are kept**: each is in the other container as well, at the same path. -/
def KeepsAggregations (doc doc' : Json) : Prop :=
  ∀ path d, doc.aggregation? path = some d → doc'.aggregation? path = some d

variable {doc doc' doc'' node old : Json} {n : String} {path : List String}

theorem aggregation?_singleton (n : String) (doc : Json) :
    doc.aggregation? [n] = (doc.get? n).map (eraseField "aggs") := by
  simp only [aggregation?, if_pos, Option.map_eq_bind]
  rfl

theorem aggregation?_cons (h : path ≠ []) (n : String) (doc : Json) :
    doc.aggregation? (n :: path) = (doc.get? n).bind (inner? path) := by
  simp only [aggregation?, if_neg h]
  rfl

theorem inner?_nil (node : Json) : node.inner? [] = none := by
  unfold inner?
  cases node.get? "aggs" <;> rfl

theorem KeepsAggregations.refl (doc : Json) : doc.KeepsAggregations doc := fun _ _ h => h

theorem KeepsAggregations.trans (h : doc.KeepsAggregations doc')
    (h' : doc'.KeepsAggregations doc'') : doc.KeepsAggregations doc'' :=
  fun path d hd => h' path d (h path d hd)

/-- **A new node keeps all aggregations** iff it is the one that was there under its name, with all
that was in it. -/
theorem keepsAggregations_setField_iff : doc.KeepsAggregations (doc.setField n node) ↔
    ∀ old, doc.get? n = some old → old.eraseField "aggs" = node.eraseField "aggs" ∧
      ∀ path d, old.inner? path = some d → node.inner? path = some d := by
  constructor
  · intro h old hold
    constructor
    · have hself := h [n] (old.eraseField "aggs") (by simp [aggregation?_singleton, hold])
      rw [aggregation?_singleton, get?_setField_self] at hself
      exact (Option.some.inj hself).symm
    · intro path d hd
      have hpath : path ≠ [] := by
        rintro rfl
        exact nomatch (inner?_nil old).symm.trans hd
      have hin := h (n :: path) d (by rw [aggregation?_cons hpath, hold]; exact hd)
      rwa [aggregation?_cons hpath, get?_setField_self] at hin
  · intro h path d hd
    cases path with
    | nil => exact nomatch hd
    | cons n' path =>
      by_cases hn : n' = n
      · subst hn
        obtain ⟨old, hold, hin⟩ := Option.bind_eq_some_iff.mp hd
        obtain ⟨hdef, hinner⟩ := h old hold
        by_cases hpath : path = []
        · rw [if_pos hpath, hdef] at hin
          rw [hpath, aggregation?_singleton, get?_setField_self]
          exact hin
        · rw [if_neg hpath] at hin
          rw [aggregation?_cons hpath, get?_setField_self]
          exact hinner path d hin
      · rw [aggregation?, get?_setField_of_ne hn]
        exact hd

end Json

namespace Aggs

/-! ### One call -/

/-- **A call** that adds to a container. -/
inductive Call where
  | terms (field : String) (name : Option String) (order : BucketOrder)
  | metric (field : String) (k : MetricKind) (name : Option String)
  | nest (bucket : String) (child : Aggs)

/-- The container that a call makes of another one, or its error. -/
def call? (a : Aggs) : Call → Except ClauseError Aggs
  | .terms field name order => .ok (a.terms field name order)
  | .metric field k name => .ok (a.metric field k name)
  | .nest bucket child => a.nest bucket child

/-- No key of the container depends on the version. -/
def Ungated (a : Aggs) : Prop := a.params.gates = []

/-- **A name is free for a node** if there is no aggregation of this name, or the same one with none
in it. -/
def IsFree (a : Aggs) (n : String) (node : Json) : Prop :=
  ∀ old, a.get? n = some old → old.eraseField "aggs" = node ∧ ∀ path, old.inner? path = none

/-- **The call hits nothing that is there.** A new node needs a free name, and a container that is
put into a bucket has to have all aggregations that are in the bucket already. -/
def Call.Spares (a : Aggs) : Call → Prop
  | terms field name order => a.IsFree (name.getD (bucketName field)) (bucketNode field order)
  | metric field k name => k = .count ∨
    a.IsFree (name.getD (k.metricName field)) (metricNode k field)
  | nest bucket child => ∀ old, a.get? bucket = some old →
    ∀ path d, old.inner? path = some d → child.document.aggregation? path = some d

variable {a a' : Aggs} {n : String} {node : Json} {c : Call}

theorem get?_document (h : a.Ungated) (n : String) : a.document.get? n = a.get? n := by
  rw [get?, Params.get?, Params.isGated_of_ungated h]
  rfl

theorem put_eq (h : a.Ungated) (n : String) (node : Json) :
    (⟨a.params.put n node⟩ : Aggs).Ungated ∧
      (⟨a.params.put n node⟩ : Aggs).document = a.document.setField n node := by
  rw [Params.put_of_not_gated (Params.isGated_of_ungated h n)]
  exact ⟨h, rfl⟩

theorem ungated_of_call? (h : a.Ungated) (hc : a.call? c = .ok a') : a'.Ungated := by
  cases c with
  | terms field name order =>
    obtain rfl := Except.ok.inj hc
    exact (put_eq h _ _).1
  | metric field k name =>
    obtain rfl := Except.ok.inj hc
    unfold metric
    split
    · exact h
    · exact (put_eq h _ _).1
  | nest bucket child =>
    rw [call?, nest] at hc
    split at hc
    · obtain rfl := Except.ok.inj hc
      exact (put_eq h _ _).1
    · exact nomatch hc

theorem keeps_put_iff (h : a.Ungated) (hdef : node.eraseField "aggs" = node)
    (hinner : ∀ path, node.inner? path = none) :
    a.document.KeepsAggregations (a.document.setField n node) ↔ a.IsFree n node := by
  rw [Json.keepsAggregations_setField_iff]
  simp only [get?_document h, IsFree, hdef, hinner]
  refine forall₂_congr fun old _ => and_congr_right fun _ => forall_congr' fun path => ?_
  rw [Option.eq_none_iff_forall_ne_some]
  exact forall_congr' fun d => imp_congr_right fun _ => iff_of_false (fun he => nomatch he) id

/-- **A call keeps all aggregations** iff it hits none of them. -/
theorem keeps_iff_spares (h : a.Ungated) (hc : a.call? c = .ok a') :
    a.document.KeepsAggregations a'.document ↔ c.Spares a := by
  cases c with
  | terms field name order =>
    obtain rfl := Except.ok.inj hc
    rw [terms, (put_eq h _ _).2]
    exact keeps_put_iff h rfl fun _ => rfl
  | metric field k name =>
    obtain rfl := Except.ok.inj hc
    unfold metric
    split
    · next hk => exact iff_of_true (.refl _) (.inl hk)
    · next hk =>
      rw [(put_eq h _ _).2, Call.Spares, or_iff_right hk]
      have hmetric : (metricNode k field).get? "aggs" = none := by cases k <;> rfl
      refine keeps_put_iff h (by cases k <;> rfl) fun path => ?_
      rw [Json.inner?, hmetric]
      rfl
  | nest bucket child =>
    rw [call?, nest] at hc
    split at hc
    · next node hnode =>
      obtain rfl := Except.ok.inj hc
      have hdef : (Json.setField (.obj node) "aggs" child.document).eraseField "aggs" =
          (Json.obj node).eraseField "aggs" := by
        simp [Json.setField, Json.eraseField, Assoc.erase_insert_self]
      have hinner (path : List String) :
          (Json.setField (.obj node) "aggs" child.document).inner? path =
            child.document.aggregation? path := by
        rw [Json.inner?, Json.get?_setField_self]
        rfl
      rw [(put_eq h _ _).2, Json.keepsAggregations_setField_iff, Call.Spares]
      simp only [get?_document h, hinner, hdef]
      refine forall₂_congr fun old hold => and_iff_right ?_
      rw [Option.some.inj ((show a.get? bucket = _ from hnode).symm.trans hold)]
    · cases hc

/-! ### One call after the other -/

/-- The container after one successful call after the other. -/
def run? (a : Aggs) (calls : List Call) : Except ClauseError Aggs := calls.foldlM call? a

/-- **No call of a run hits anything** that is there when it is made. -/
def SparesAll (a : Aggs) : List Call → Prop
  | [] => True
  | c :: calls => c.Spares a ∧ ∀ a', a.call? c = .ok a' → a'.SparesAll calls

variable {calls xs ys : List Call} {a₁ : Aggs}

theorem run?_cons (a : Aggs) (c : Call) (calls : List Call) :
    a.run? (c :: calls) = a.call? c >>= fun a' => a'.run? calls := rfl

theorem ungated_of_run? (h : a.Ungated) (hr : a.run? calls = .ok a') : a'.Ungated := by
  induction calls generalizing a with
  | nil => exact Except.ok.inj hr ▸ h
  | cons c calls ih =>
    obtain ⟨a₁, hc, hr⟩ := Outcome.bind_eq_ok.mp hr
    exact ih (ungated_of_call? h hc) hr

theorem SparesAll.of_append (hs : a.SparesAll (xs ++ ys)) (hr : a.run? xs = .ok a₁) :
    a₁.SparesAll ys := by
  induction xs generalizing a with
  | nil => exact Except.ok.inj hr ▸ hs
  | cons c xs ih =>
    obtain ⟨a₂, hc, hr⟩ := Outcome.bind_eq_ok.mp hr
    exact ih (hs.2 a₂ hc) hr

theorem SparesAll.left (hs : a.SparesAll (xs ++ ys)) : a.SparesAll xs := by
  induction xs generalizing a with
  | nil => trivial
  | cons c xs ih => exact ⟨hs.1, fun a' hc => ih (hs.2 a' hc)⟩

/-- By induction on the calls, each of which keeps all that the earlier ones have left. -/
theorem SparesAll.keeps (h : a.Ungated) (hs : a.SparesAll calls) (hr : a.run? calls = .ok a') :
    a.document.KeepsAggregations a'.document := by
  induction calls generalizing a with
  | nil => exact Except.ok.inj hr ▸ .refl _
  | cons c calls ih =>
    obtain ⟨a₁, hc, hr⟩ := Outcome.bind_eq_ok.mp hr
    exact ((keeps_iff_spares h hc).mpr hs.1).trans (ih (ungated_of_call? h hc) (hs.2 a₁ hc) hr)

/-- If all that is there is kept between any two calls, each call spares it. -/
theorem sparesAll_of_keeps (h : a.Ungated) (hr : a.run? calls = .ok a')
    (hkeeps : ∀ xs ys a₁ a₂, xs ++ ys <+: calls → a.run? xs = .ok a₁ → a₁.run? ys = .ok a₂ →
      a₁.document.KeepsAggregations a₂.document) : a.SparesAll calls := by
  induction calls generalizing a with
  | nil => trivial
  | cons c calls ih =>
    obtain ⟨a₁, hc, hr⟩ := Outcome.bind_eq_ok.mp hr
    have hone : a.run? [c] = .ok a₁ := by rw [run?_cons, hc]; rfl
    refine ⟨(keeps_iff_spares h hc).mp (hkeeps [] [c] a a₁ ⟨calls, rfl⟩ rfl hone), fun a₂ hc' => ?_⟩
    obtain rfl := Except.ok.inj (hc.symm.trans hc')
    refine ih (ungated_of_call? h hc) hr fun xs ys b₁ b₂ hpre hxs hys => ?_
    refine hkeeps (c :: xs) ys b₁ b₂ (List.cons_prefix_cons.mpr ⟨rfl, hpre⟩) ?_ hys
    rw [run?_cons, hc]
    exact hxs

/-- **Aggregations stay where they are** through a run of successful calls iff no call hits one. A
call hits an aggregation if it uses its name, or that of a bucket around it, for a new node, or if
it puts a container without the aggregation into a bucket around it. -/
theorem run_keeps_iff_spares {v : Version} (hv : v.isSupported = true) :
    ∃ a, Aggs.new v = .ok a ∧ ∀ calls a', a.run? calls = .ok a' →
      ((∀ xs ys a₁ a₂, xs ++ ys <+: calls → a.run? xs = .ok a₁ → a₁.run? ys = .ok a₂ →
        a₁.document.KeepsAggregations a₂.document) ↔ a.SparesAll calls) := by
  have hungated : (⟨.empty v []⟩ : Aggs).Ungated := rfl
  refine ⟨⟨.empty v []⟩, new_eq_ok_iff.mpr ⟨hv, rfl⟩, fun calls a' hr =>
    ⟨sparesAll_of_keeps hungated hr, ?_⟩⟩
  rintro hs xs ys a₁ a₂ ⟨zs, rfl⟩ hxs hys
  exact (hs.left.of_append hxs).keeps (ungated_of_run? hungated hxs) hys

/-- A container with one metric. -/
def ofMetric (k : MetricKind) (field : String) : Aggs :=
  ⟨⟨[(k.metricName field, metricNode k field)], .standard, []⟩⟩

/-- A metric beside a bucket leaves the one in it. -/
theorem run_keeps_iff_spares_beside : ∃ a, Aggs.new .standard = .ok a ∧
    ∀ a₁ a₂, a.run? [.terms "host" none default, .nest "group_by_host" (ofMetric .max "lineno")] =
        .ok a₁ → a₁.run? [.metric "size" .avg none] = .ok a₂ →
      a₂.document.aggregation? ["group_by_host", "max_lineno"] =
        some (metricNode .max "lineno") := by
  obtain ⟨a, ha, h⟩ := run_keeps_iff_spares (v := .standard) rfl
  obtain rfl := (new_eq_ok_iff.mp ha).2
  refine ⟨_, ha, fun a₁ a₂ h₁ h₂ => ?_⟩
  obtain rfl := Except.ok.inj h₁
  obtain rfl := Except.ok.inj h₂
  refine (h [_, _, .metric "size" .avg none] _ rfl).mpr ?_ _ [.metric "size" .avg none] _ _
    (List.prefix_refl _) h₁ h₂ _ _ rfl
  refine ⟨fun _ hold => (nomatch hold), fun _ hc => ?_⟩
  obtain rfl := Except.ok.inj hc
  refine ⟨fun _ hold => ?_, fun _ hc => ?_⟩
  · obtain rfl := Option.some.inj hold
    exact fun _ _ hd => nomatch hd
  · obtain rfl := Except.ok.inj hc
    exact ⟨.inr fun _ hold => (nomatch hold), fun _ _ => trivial⟩

/-- **A bucket loses what is in it** if another container is put into it, or if the bucket is added
once more. -/
theorem not_keepsAggregations_again : ∃ a a₁ a₂ a₃, Aggs.new .standard = .ok a ∧
    a.run? [.terms "host" none default, .nest "group_by_host" (ofMetric .max "lineno")] = .ok a₁ ∧
    a₁.run? [.nest "group_by_host" (ofMetric .min "lineno")] = .ok a₂ ∧
    a₁.run? [.terms "host" none default] = .ok a₃ ∧
    a₁.document.aggregation? ["group_by_host", "max_lineno"] = some (metricNode .max "lineno") ∧
    a₂.document.aggregation? ["group_by_host", "max_lineno"] = none ∧
    a₃.document.aggregation? ["group_by_host", "max_lineno"] = none :=
  ⟨_, _, _, _, rfl, rfl, rfl, rfl, rfl, rfl, rfl⟩

end Aggs

end SearchCompiler
