import SearchCompiler.Clause.Registry
import SearchCompiler.Proofs.Clause.RequestCalls

/-! # Adding to what was rebuilt

Some calls add to what is under a key already: items to a list, columns to a selection, a field to
those that are marked up. In a rebuilt request there may be a value of any form. Where a list is
expected under the key itself, a single value becomes its first item. The columns of a selection and
the fields to be marked up are not treated so: what has another form there is dropped.

* `Addition.Effect`: what adding does to a document.
* `rebuilt_effect`: every call that adds to a rebuilt request, or to rebuilt options, does so. -/

namespace SearchCompiler

/-- **What a call adds**, and where. -/
inductive Addition where
  /-- Items to the list under a key. -/
  | items (key : String) (added : List Json)
  /-- Columns to those that are included in a selection. -/
  | columns (names : List String)
  /-- A field to those that are marked up. -/
  | field (name : String) (options : Json)

/-- **One value added to another**, with all that was there before. -/
inductive Json.Joined : Option Json → Json → Json → Prop where
  | nothing {new : Json} : Joined none new new
  | null {new : Json} : Joined (some .null) new new
  | items {xs ys : List Json} : Joined (some (.arr xs)) (.arr ys) (.arr (xs ++ ys))
  | value {j : Json} {ys : List Json} (hn : j.isNull = false) (hl : j.arr? = none) :
      Joined (some j) (.arr ys) (.arr (j :: ys))
  | member {ms ms' : Assoc Json} {n : String} {v : Json}
      (others : ∀ k ≠ n, Assoc.get? k ms' = Assoc.get? k ms)
      (self : Assoc.get? n ms' = some v) : Joined (some (.obj ms)) (.single n v) (.obj ms')

namespace Addition

/-- The key of a document that is written. -/
def key : Addition → String
  | items key _ => key
  | columns _ => "_source"
  | field _ _ => "fields"

/-- The part of the value under the key to which something is added. -/
def part? : Addition → Json → Option Json
  | columns _ => Json.get? "includes"
  | _ => some

/-- **What a document has** in the place where something is added. A selection that is no mapping
includes nothing. -/
def held? (a : Addition) (doc : Json) : Option Json := (doc.get? a.key).bind a.part?

/-- What is there afterwards, if nothing was there before. -/
def alone : Addition → Json
  | items _ added => .arr added
  | columns names => .ofStrings names
  | field n options => .single n options

/-- Has this value the form of something that can be added to? -/
def takes : Addition → Json → Bool
  | items _ _, _ => true
  | columns _, j => j.isNull || j.arr?.isSome
  | field _ _, j => j.isNull || j.isMapping

/-- **Nothing of another form** is in the place. -/
def Fits (a : Addition) (doc : Json) : Prop := ∀ j ∈ a.held? doc, a.takes j = true

/-- **What adding does to a document.** -/
structure Effect (a : Addition) (doc doc' : Json) : Prop where
  /-- Other keys are as before. -/
  others : ∀ k ≠ a.key, doc'.get? k = doc.get? k
  /-- So are other parts of a selection than the columns that it includes. -/
  beside : ∀ names, a = columns names → ∀ k ≠ "includes",
    (doc'.get? "_source").bind (Json.get? k) = (doc.get? "_source").bind (Json.get? k)
  /-- All that was in the place is there still, beside the addition, iff it has the right form. -/
  joined : ∃ new, a.held? doc' = some new ∧ (Json.Joined (a.held? doc) a.alone new ↔ a.Fits doc)
  /-- What has another form is lost. -/
  replaced : ¬ a.Fits doc → a.held? doc' = some a.alone

end Addition

/-! ### One value added to another -/

namespace Json

theorem Joined.of_itemsOf (old : Option Json) (ys : List Json) :
    Joined old (.arr ys) (.arr (Params.itemsOf old ++ ys)) := by
  cases old with
  | none => exact .nothing
  | some j => cases j <;> first | exact .null | exact .items | exact .value rfl rfl

theorem Joined.of_setField (ms : Assoc Json) (n : String) (v : Json) :
    Joined (some (.obj ms)) (.single n v) ((obj ms).setField n v) :=
  .member (fun _ hk => Assoc.get?_insert_of_ne hk v ms) (Assoc.get?_insert_self n v ms)

end Json

namespace Addition

variable (a : Addition)

/-- What is in the place afterwards. -/
def joinedTo : Addition → Option Json → Json
  | items _ added, old => .arr (Params.itemsOf old ++ added)
  | columns names, old => .arr ((old.bind Json.arr?).getD [] ++ names.map .str)
  | field n options, old => (old.getD (.obj [])).setField n options

theorem joined_joinedTo {old : Option Json} (h : ∀ j ∈ old, a.takes j = true) :
    Json.Joined old a.alone (a.joinedTo old) := by
  cases a with
  | items key added => exact .of_itemsOf old added
  | columns names =>
    cases old with
    | none => exact .nothing
    | some j =>
      have hform := h j rfl
      cases j with
      | null => exact .null
      | arr xs => exact .items
      | _ => exact Bool.noConfusion hform
  | field n options =>
    cases old with
    | none => exact .nothing
    | some j =>
      have hform := h j rfl
      cases j with
      | null => exact .null
      | obj ms => exact .of_setField ms n options
      | _ => exact Bool.noConfusion hform

theorem joinedTo_of_not_takes {j : Json} (h : a.takes j = false) :
    a.joinedTo (some j) = a.alone := by
  cases a with
  | items key added => exact nomatch h
  | columns names => cases j <;> first | rfl | exact nomatch h
  | field n options => cases j <;> first | rfl | exact nomatch h

/-- What is added is, alone, no sum of itself and a value of another form. -/
theorem not_joined_alone {j : Json} (h : a.takes j = false) {added new : Json}
    (hadded : added = a.alone) (hnew : new = a.alone) : ¬ Json.Joined (some j) added new := by
  intro hj
  cases hj with
  | null => cases a <;> exact nomatch h
  | items =>
    cases a with
    | field n options => exact nomatch hadded
    | _ => exact nomatch h
  | value hn hl => exact List.cons_ne_self _ _ (Json.arr.inj (hnew.trans hadded.symm))
  | member others self =>
    cases a with
    | columns names => exact nomatch hadded
    | _ => exact nomatch h

theorem joined_joinedTo_iff {old : Option Json} :
    Json.Joined old a.alone (a.joinedTo old) ↔ ∀ j ∈ old, a.takes j = true := by
  refine ⟨fun h j hj => ?_, a.joined_joinedTo⟩
  obtain rfl : old = some j := hj
  by_contra hform
  have hform' : a.takes j = false := by simpa using hform
  exact a.not_joined_alone hform' rfl (a.joinedTo_of_not_takes hform') h

/-! ### The effect of an addition -/

/-- The value under the key afterwards. -/
def combine : Addition → Option Json → Json
  | columns names, old => Request.sourceWith names old
  | a, old => a.joinedTo old

theorem part?_combine (old : Option Json) :
    a.part? (a.combine old) = some (a.joinedTo (old.bind a.part?)) := by
  cases a with
  | items key added => cases old <;> rfl
  | columns names =>
    rw [combine, part?, Request.sourceWith, Json.get?_setField_self]
    cases old <;> rfl
  | field n options => cases old <;> rfl

theorem get?_sourceWith_of_ne {k : String} (hk : k ≠ "includes") (names : List String)
    (old : Option Json) : (Request.sourceWith names old).get? k = old.bind (Json.get? k) := by
  rw [Request.sourceWith, Json.get?_setField_of_ne hk]
  cases old <;> rfl

variable {a} {p : Params}

/-- **An addition has its effect**, if the version has the key. -/
theorem effect_modify (h : p.isGated a.key = false) :
    a.Effect p.toJson (p.modify a.key a.combine).toJson := by
  have hentries : (p.modify a.key a.combine).toJson =
      p.toJson.setField a.key (a.combine (p.toJson.get? a.key)) := by
    simp [Params.modify, h, Params.toJson, Json.setField, Json.get?]
  have hheld : a.held? (p.modify a.key a.combine).toJson =
      some (a.joinedTo (a.held? p.toJson)) := by
    rw [held?, hentries, Json.get?_setField_self]
    exact a.part?_combine _
  refine ⟨fun k hk => ?_, ?_, ⟨_, hheld, a.joined_joinedTo_iff⟩, fun hfits => ?_⟩
  · rw [hentries, Json.get?_setField_of_ne hk]
  · rintro names rfl k hk
    rw [hentries]
    refine (congrArg (Option.bind · _) (Json.get?_setField_self ..)).trans ?_
    exact get?_sourceWith_of_ne hk names _
  · unfold Fits at hfits
    push Not at hfits
    obtain ⟨j, hj, hform⟩ := hfits
    rw [hheld, show a.held? p.toJson = some j from hj,
      a.joinedTo_of_not_takes (Bool.not_eq_true _ ▸ hform)]

end Addition

/-! ### The gates of a rebuilt request -/

namespace Registry

variable {r : Registry} {v : Version} {req req' : Request} {k : String} {value : Json}

theorem gates_takeMember (h : takeMember req k value = .ok req') :
    req'.params.gates = req.params.gates := by
  unfold takeMember at h
  split at h
  · obtain ⟨sorts, -, h⟩ := Outcome.bind_eq_ok.mp h
    exact Except.ok.inj h ▸ req.gates_call (.sorts sorts)
  · split at h
    · next columns _ => exact Except.ok.inj h ▸ req.gates_call (.source columns)
    · exact Except.ok.inj h ▸ Params.gates_modify ..
  · obtain ⟨a, -, h⟩ := Outcome.bind_eq_ok.mp h
    exact Except.ok.inj h ▸ req.gates_call (.aggs a)
  · obtain ⟨a, -, h⟩ := Outcome.bind_eq_ok.mp h
    exact Except.ok.inj h ▸ req.gates_call (.aggs a)
  · obtain ⟨hl, -, h⟩ := Outcome.bind_eq_ok.mp h
    exact Except.ok.inj h ▸ req.gates_call (.highlight hl true)
  · exact Except.ok.inj h ▸ Params.gates_modify ..

theorem gates_fillRequest {members : List (String × Json)}
    (h : r.fillRequest v req members = .ok req') : req'.params.gates = req.params.gates := by
  induction members generalizing req with
  | nil =>
    rw [fillRequest] at h
    rw [Except.ok.inj h]
  | cons e members ih =>
    rw [fillRequest] at h
    split at h
    · obtain ⟨c, -, h⟩ := Outcome.bind_eq_ok.mp h
      exact (ih h).trans (req.gates_call (.query c.document true))
    · obtain ⟨req₁, hreq, h⟩ := Outcome.bind_eq_ok.mp h
      exact (ih h).trans (gates_takeMember hreq)

theorem gates_requestOfBody {body : Json} (h : r.requestOfBody v body = .ok req) :
    req.params.gates = Request.gates := by
  cases body with
  | obj members =>
    rw [requestOfBody] at h
    obtain ⟨req₁, hnew, h⟩ := Outcome.bind_eq_ok.mp h
    rw [gates_fillRequest h, (Request.new_eq_ok_iff.mp hnew).2]
    rfl
  | _ => exact nomatch h

end Registry

/-! ### Calls that add -/

namespace Request

/-- **What a call adds to a request**, if it is one that adds to what is there. -/
def Call.addition? : Call → Option Addition
  | sort key => some (.items "sort" [key.document])
  | sorts keys => some (.items "sort" (keys.map (·.document)))
  | source columns => some (.columns columns)
  | searchAfter values => some (.items "search_after" values)
  | storedFields fields => some (.items "stored_fields" (fields.map .str))
  | docvalueFields fields => some (.items "docvalue_fields" (fields.map .str))
  | _ => none

theorem isGated_addition {r : Request} (h : r.params.gates = gates) {c : Call} {a : Addition}
    (ha : c.addition? = some a) : r.params.isGated a.key = false := by
  rw [Params.isGated, h]
  cases c <;> simp only [Call.addition?, reduceCtorEq, Option.some.injEq] at ha <;>
    exact ha ▸ rfl

theorem params_call_addition {r : Request} {c : Call} {a : Addition} (ha : c.addition? = some a) :
    (r.call c).params = r.params.modify a.key a.combine := by
  cases c <;> simp only [Call.addition?, reduceCtorEq, Option.some.injEq] at ha <;>
    exact ha ▸ rfl

end Request

namespace Highlight

/-- **A call** that writes into highlighting options. -/
inductive Call where
  | preTags (tags : List String)
  | postTags (tags : List String)
  | field (name : String) (options : Json)
  | order (s : String)
  | fragmentSize (n : Nat)
  | numberOfFragments (n : Nat)

/-- The options after a call. -/
def call (h : Highlight) : Call → Highlight
  | .preTags tags => h.withPreTags tags
  | .postTags tags => h.withPostTags tags
  | .field name options => h.withField name options
  | .order s => h.withOrder s
  | .fragmentSize n => h.withFragmentSize n
  | .numberOfFragments n => h.withNumberOfFragments n

/-- The options after one call after the other. -/
def run (h : Highlight) (calls : List Call) : Highlight := calls.foldl call h

/-- **What a call adds to the options**, if it is one that adds to what is there. -/
def Call.addition? : Call → Option Addition
  | preTags tags => some (.items "pre_tags" (tags.map .str))
  | postTags tags => some (.items "post_tags" (tags.map .str))
  | field name options => some (.field name options)
  | _ => none

theorem gates_call (h : Highlight) (c : Call) : (h.call c).params.gates = h.params.gates := by
  cases c <;> exact Params.gates_modify ..

theorem gates_run (h : Highlight) (calls : List Call) :
    (h.run calls).params.gates = h.params.gates := by
  induction calls generalizing h with
  | nil => rfl
  | cons c calls ih => exact (ih (h.call c)).trans (gates_call h c)

theorem gates_ofBody {body : Json} {v : Version} {h : Highlight} (hb : ofBody body v = .ok h) :
    h.params.gates = [] := by
  cases body with
  | obj members =>
    obtain ⟨_, hnew, hb⟩ := Outcome.bind_eq_ok.mp hb
    obtain ⟨p, hp, hnew⟩ := Outcome.bind_eq_ok.mp hnew
    obtain rfl := Except.ok.inj hnew
    obtain rfl := (Params.new_eq_ok_iff.mp hp).2
    rw [← Except.ok.inj hb, Params.putAll_empty]
  | _ => exact nomatch hb

theorem params_call_addition {h : Highlight} {c : Call} {a : Addition}
    (ha : c.addition? = some a) : (h.call c).params = h.params.modify a.key a.combine := by
  cases c <;> simp only [Call.addition?, reduceCtorEq, Option.some.injEq] at ha <;>
    exact ha ▸ rfl

end Highlight

/-- **A call that adds to what was rebuilt** has the effect of its addition, whatever other calls
were made before it. Other keys are left as they are. What is in the place of the addition stays
there, unless it stands for the columns of a selection and is no list, or for the fields to be
marked up and is no mapping. -/
theorem rebuilt_effect (r : Registry) (v : Version) (body : Json) :
    (∀ req, r.requestOfBody v body = .ok req →
      ∀ calls c a, Request.Call.addition? c = some a →
        a.Effect (req.run calls).document ((req.run calls).call c).document) ∧
    ∀ h, Highlight.ofBody body v = .ok h →
      ∀ calls c a, Highlight.Call.addition? c = some a →
        a.Effect (h.run calls).document ((h.run calls).call c).document := by
  constructor
  · intro req hreq calls c a ha
    have hgates : (req.run calls).params.gates = Request.gates :=
      (Request.gates_run req calls).trans (Registry.gates_requestOfBody hreq)
    rw [Request.document, Request.document, Request.params_call_addition ha]
    exact Addition.effect_modify (Request.isGated_addition hgates ha)
  · intro h hh calls c a ha
    have hgates : (h.run calls).params.gates = [] :=
      (Highlight.gates_run h calls).trans (Highlight.gates_ofBody hh)
    rw [Highlight.document, Highlight.document, Highlight.params_call_addition ha]
    exact Addition.effect_modify (Params.isGated_of_ungated hgates a.key)

/-- A request with a value in the place of the columns that it includes. -/
def including (value : Json) : Json := .single "_source" (.single "includes" value)

/-- Options with a value in the place of the fields to be marked up. -/
def marking (value : Json) : Json := .single "fields" value

/-- A list of columns and a mapping of fields are added to. -/
theorem rebuilt_effect_added : ∃ req h,
    Registry.builtin.requestOfBody .standard (including (.ofStrings ["host"])) = .ok req ∧
    Highlight.ofBody (marking (.single "title" (.obj []))) .standard = .ok h ∧
    (∃ new, (Addition.columns ["msg"]).held? (req.withSource ["msg"]).document = some new ∧
      Json.Joined (some (.ofStrings ["host"])) (.ofStrings ["msg"]) new) ∧
    ∃ new, (Addition.field "body" (.obj [])).held? (h.withField "body" (.obj [])).document =
        some new ∧
      Json.Joined (some (.single "title" (.obj []))) (.single "body" (.obj [])) new := by
  refine ⟨_, _, rfl, rfl, ?_, ?_⟩
  · obtain ⟨new, hnew, hjoined⟩ := ((rebuilt_effect .builtin .standard
      (including (.ofStrings ["host"]))).1 _ rfl [] (.source ["msg"]) _ rfl).joined
    refine ⟨new, hnew, hjoined.mpr fun j hj => ?_⟩
    obtain rfl := Option.some.inj hj
    rfl
  · obtain ⟨new, hnew, hjoined⟩ := ((rebuilt_effect .builtin .standard
      (marking (.single "title" (.obj [])))).2 _ rfl [] (.field "body" (.obj [])) _ rfl).joined
    refine ⟨new, hnew, hjoined.mpr fun j hj => ?_⟩
    obtain rfl := Option.some.inj hj
    rfl

/-- **A single column and a list of fields are lost** when something is added to them. -/
theorem not_joined_of_other_form : ∃ req h,
    Registry.builtin.requestOfBody .standard (including (.str "host")) = .ok req ∧
    Highlight.ofBody (marking (.arr [.single "title" (.obj [])])) .standard = .ok h ∧
    req.document = including (.str "host") ∧
    (req.withSource ["msg"]).document = including (.ofStrings ["msg"]) ∧
    h.document = marking (.arr [.single "title" (.obj [])]) ∧
    (h.withField "body" (.obj [])).document = marking (.single "body" (.obj [])) :=
  ⟨_, _, rfl, rfl, rfl, rfl, rfl, rfl⟩

end SearchCompiler
