import Mathlib.Data.List.DropRight
import SearchCompiler.Proofs.Clause.Construct

/-! # Sequences of writes

A clause is put together by one write after the other, each to a single key. After any number of
them the value under a key is what the writes to that key make of it, one after the other and
without regard to the writes in between (`get?_writeAll`); a write to a key that the version does
not have leaves the parameters as they are (`Hidden.write_of_isGated`).

Where all writes to a key are of one sort, a `Rule` says in one formula what they come to
(`Rule.foldl_apply`). -/

namespace SearchCompiler

namespace Params

/-- **What a write does** to the value under its key. -/
inductive Change where
  /-- Sets the value, one that is there already only on demand. -/
  | set (v : Json) (overwrite : Bool)
  /-- Adds to the end of a list. -/
  | append (items : List Json)
  /-- Adds columns to a selection. -/
  | columns (names : List String)
  | clear

namespace Change

/-- The value afterwards. -/
def apply : Change → Option Json → Option Json
  | set v true, _ => some v
  | set v false, old => old.or (some v)
  | append items, old => some (.arr (itemsOf old ++ items))
  | columns names, old => some (Request.sourceWith names old)
  | clear, _ => none

/-- The value that is set, and whether it replaces another one. -/
def set? : Change → Option (Json × Bool)
  | set v overwrite => some (v, overwrite)
  | _ => none

/-- What is added to a list. -/
def items : Change → List Json
  | append items => items
  | columns names => names.map .str
  | _ => []

def isClear : Change → Bool
  | clear => true
  | _ => false

end Change

/-- **A write**: a key, and what happens to the value under it. -/
structure Write where
  key : String
  change : Change

/-- Performs a write. -/
def write (p : Params) (w : Write) : Params :=
  match w.change with
  | .set v overwrite => p.putOnce w.key v overwrite
  | .append items => p.append w.key items
  | .columns names => p.modify w.key (Request.sourceWith names)
  | .clear => p.erase w.key

/-- Performs one write after the other. -/
def writeAll (p : Params) (ws : List Write) : Params := ws.foldl write p

/-- What the writes to a key do, in order. -/
def changesAt (k : String) (ws : List Write) : List Change :=
  (ws.filter (·.key = k)).map (·.change)

variable {p : Params} {w : Write} {ws : List Write} {k : String}

theorem changesAt_cons_self (w : Write) (ws : List Write) :
    changesAt w.key (w :: ws) = w.change :: changesAt w.key ws := by
  simp [changesAt]

theorem changesAt_cons_of_ne (h : w.key ≠ k) : changesAt k (w :: ws) = changesAt k ws := by
  simp [changesAt, h]

theorem mem_changesAt_iff {c : Change} :
    c ∈ changesAt k ws ↔ ∃ w ∈ ws, w.key = k ∧ w.change = c := by
  simp [changesAt, and_assoc]

theorem changesAt_eq_nil_iff : changesAt k ws = [] ↔ ∀ w ∈ ws, w.key ≠ k := by
  simp [changesAt]

/-! ### One write -/

theorem modify_cases (p : Params) (k : String) (f : Option Json → Json) :
    p.modify k f = p ∨ p.isGated k = false ∧
      ∃ v, p.modify k f = { p with entries := Assoc.insert k v p.entries } := by
  unfold modify
  split
  · exact .inl rfl
  · next h => exact .inr ⟨by simpa using h, _, rfl⟩

@[simp] theorem gates_modify (p : Params) (k : String) (f : Option Json → Json) :
    (p.modify k f).gates = p.gates := by
  obtain hp | ⟨-, v, hp⟩ := modify_cases p k f <;> rw [hp]

/-- A write does nothing, or it inserts or removes one entry. -/
theorem write_cases (p : Params) (w : Write) :
    p.write w = p ∨
    (p.isGated w.key = false ∧
      ∃ v, p.write w = { p with entries := Assoc.insert w.key v p.entries }) ∨
    p.write w = { p with entries := Assoc.erase w.key p.entries } := by
  have hmod (f : Option Json → Json) : p.modify w.key f = p ∨
      (p.isGated w.key = false ∧
        ∃ v, p.modify w.key f = { p with entries := Assoc.insert w.key v p.entries }) ∨
      p.modify w.key f = { p with entries := Assoc.erase w.key p.entries } :=
    (modify_cases p w.key f).imp_right Or.inl
  unfold write
  split
  · unfold putOnce
    split
    · exact .inl rfl
    · exact hmod _
  · exact hmod _
  · exact hmod _
  · exact .inr (.inr rfl)

@[simp] theorem isGated_write (p : Params) (w : Write) (k : String) :
    (p.write w).isGated k = p.isGated k := by
  obtain h | ⟨-, v, h⟩ | h := write_cases p w <;> rw [h] <;> rfl

@[simp] theorem version_write (p : Params) (w : Write) : (p.write w).version = p.version := by
  obtain h | ⟨-, v, h⟩ | h := write_cases p w <;> rw [h]

@[simp] theorem gates_write (p : Params) (w : Write) : (p.write w).gates = p.gates := by
  obtain h | ⟨-, v, h⟩ | h := write_cases p w <;> rw [h]

theorem get?_entries_write_of_ne (p : Params) (h : k ≠ w.key) :
    Assoc.get? k (p.write w).entries = Assoc.get? k p.entries := by
  obtain hw | ⟨-, v, hw⟩ | hw := write_cases p w <;> rw [hw]
  · exact Assoc.get?_insert_of_ne h _ _
  · exact Assoc.get?_erase_of_ne h _

theorem get?_write_of_ne (p : Params) (h : k ≠ w.key) : (p.write w).get? k = p.get? k := by
  unfold get?
  rw [isGated_write, get?_entries_write_of_ne p h]

theorem get?_write_self (h : p.isGated w.key = false) :
    (p.write w).get? w.key = w.change.apply (p.get? w.key) := by
  obtain ⟨k, c⟩ := w
  cases c with
  | set v overwrite =>
    cases overwrite with
    | true => exact get?_put_self h v
    | false =>
      simp only [write, putOnce, Change.apply]
      cases hv : p.get? k with
      | none => simpa using get?_put_self h v
      | some old => simpa using hv
  | append items => exact get?_modify_self h _
  | columns names => exact get?_modify_self h _
  | clear =>
    unfold get? write erase
    rw [Assoc.get?_erase_self]
    exact ite_self _

/-! ### Keys that the version does not have -/

theorem get?_of_isGated (h : p.isGated k = true) : p.get? k = none := if_pos h

/-- There is no entry under a key that the version does not have. -/
def Hidden (p : Params) : Prop := ∀ k, p.isGated k = true → Assoc.get? k p.entries = none

theorem hidden_empty (v : Version) (gates : List Gate) : (empty v gates).Hidden := fun _ _ => rfl

namespace Hidden

/-- What can be read is then all that there is. -/
theorem get?_entries (h : p.Hidden) (k : String) : Assoc.get? k p.entries = p.get? k := by
  unfold get?
  split
  · next hk => exact h k hk
  · rfl

/-- **A write to a key that the version does not have does nothing.** -/
theorem write_of_isGated (h : p.Hidden) (hw : p.isGated w.key = true) : p.write w = p := by
  obtain hp | ⟨hw', -⟩ | he := write_cases p w
  · exact hp
  · exact absurd (hw.symm.trans hw') (by decide)
  · -- a removal does not ask for the version, but finds nothing
    rw [he, Assoc.erase_eq_self (h _ hw)]

theorem write (h : p.Hidden) (w : Write) : (p.write w).Hidden := by
  intro k hk
  rw [isGated_write] at hk
  by_cases hkw : k = w.key
  · rw [h.write_of_isGated (hkw ▸ hk)]
    exact h k hk
  · rw [get?_entries_write_of_ne p hkw]
    exact h k hk

theorem writeAll (h : p.Hidden) (ws : List Write) : (p.writeAll ws).Hidden := by
  induction ws generalizing p with
  | nil => exact h
  | cons w ws ih => exact ih (h.write w)

/-- Without the writes to keys that the version does not have the outcome is the same. -/
theorem writeAll_filter (h : p.Hidden) (ws : List Write) :
    p.writeAll (ws.filter fun w => !p.isGated w.key) = p.writeAll ws := by
  induction ws generalizing p with
  | nil => rfl
  | cons w ws ih =>
    have ih' := ih (h.write w)
    simp only [isGated_write] at ih'
    cases hw : p.isGated w.key with
    | true =>
      rw [h.write_of_isGated hw] at ih'
      rw [List.filter_cons_of_neg (by simp [hw]), ih']
      exact congrArg (fun q => ws.foldl Params.write q) (h.write_of_isGated hw).symm
    | false =>
      rw [List.filter_cons_of_pos (by simp [hw])]
      exact ih'

end Hidden

/-! ### One write after the other -/

@[simp] theorem isGated_writeAll (p : Params) (ws : List Write) (k : String) :
    (p.writeAll ws).isGated k = p.isGated k := by
  induction ws generalizing p with
  | nil => rfl
  | cons w ws ih => exact (ih (p.write w)).trans (isGated_write p w k)

@[simp] theorem version_writeAll (p : Params) (ws : List Write) :
    (p.writeAll ws).version = p.version := by
  induction ws generalizing p with
  | nil => rfl
  | cons w ws ih => exact (ih (p.write w)).trans (version_write p w)

@[simp] theorem gates_writeAll (p : Params) (ws : List Write) : (p.writeAll ws).gates = p.gates := by
  induction ws generalizing p with
  | nil => rfl
  | cons w ws ih => exact (ih (p.write w)).trans (gates_write p w)

/-- **The value under a key** is what the writes to that key make of it. -/
theorem get?_writeAll (h : p.isGated k = false) (ws : List Write) :
    (p.writeAll ws).get? k = (changesAt k ws).foldl (fun old c => c.apply old) (p.get? k) := by
  induction ws generalizing p with
  | nil => rfl
  | cons w ws ih =>
    have ih' := ih ((isGated_write p w k).trans h)
    by_cases hk : w.key = k
    · subst hk
      rw [changesAt_cons_self, List.foldl_cons, ← get?_write_self h]
      exact ih'
    · rw [changesAt_cons_of_ne hk, ← get?_write_of_ne p (Ne.symm hk)]
      exact ih'

/-! ### What the writes to a key come to -/

/-- What is set after the key was last cleared. -/
def setsOf (cs : List Change) : List (Json × Bool) :=
  (cs.rtakeWhile (!·.isClear)).filterMap Change.set?

/-- **The value that stays**: the last one that replaces others, or else the first. -/
def standing (sets : List (Json × Bool)) : Option Json :=
  ((sets.filter (·.2)).getLast?.or sets.head?).map (·.1)

theorem setsOf_concat_set (cs : List Change) (v : Json) (overwrite : Bool) :
    setsOf (cs ++ [.set v overwrite]) = setsOf cs ++ [(v, overwrite)] := by
  unfold setsOf
  rw [List.rtakeWhile_concat_pos _ _ _ rfl, List.filterMap_append]
  rfl

theorem setsOf_concat_clear (cs : List Change) : setsOf (cs ++ [.clear]) = [] := by
  unfold setsOf
  rw [List.rtakeWhile_concat_neg _ _ _ (by decide)]
  rfl

theorem standing_concat_true (sets : List (Json × Bool)) (v : Json) :
    standing (sets ++ [(v, true)]) = some v := by
  simp [standing]

theorem standing_concat_false (sets : List (Json × Bool)) (v : Json) :
    standing (sets ++ [(v, false)]) = (standing sets).or (some v) := by
  have hfilter : (sets ++ [(v, false)]).filter (·.2) = sets.filter (·.2) := by simp
  unfold standing
  rw [hfilter, List.head?_append, ← Option.or_assoc, Option.map_or]
  rfl

/-- **How the writes to a key add up.** -/
inductive Rule where
  /-- The first value stays until one replaces it or it is cleared. -/
  | keepsFirst
  /-- The last value stays. -/
  | keepsLast
  /-- All items are in one list. -/
  | appends
  /-- All columns are in one selection. -/
  | includes

namespace Rule

/-- The changes of a rule. -/
def Allows : Rule → Change → Prop
  | keepsFirst, .set _ _ => True
  | keepsFirst, .clear => True
  | keepsLast, .set _ true => True
  | appends, .append _ => True
  | includes, .columns _ => True
  | _, _ => False

/-- **What a sequence of changes comes to.** -/
def value : Rule → List Change → Option Json
  | keepsFirst, cs => standing (setsOf cs)
  | keepsLast, cs => ((cs.filterMap Change.set?).getLast?).map (·.1)
  | appends, cs => if cs = [] then none else some (.arr (cs.flatMap Change.items))
  | includes, cs =>
    if cs = [] then none else some (.single "includes" (.arr (cs.flatMap Change.items)))

@[simp] theorem value_nil (r : Rule) : r.value [] = none := by cases r <;> rfl

variable {cs : List Change}

theorem itemsOf_value_appends (cs : List Change) :
    itemsOf (appends.value cs) = cs.flatMap Change.items := by
  by_cases h : cs = [] <;> simp [value, itemsOf, h]

theorem sourceWith_value_includes (names : List String) (cs : List Change) :
    Request.sourceWith names (includes.value cs) =
      .single "includes" (.arr (cs.flatMap Change.items ++ names.map .str)) := by
  by_cases h : cs = []
  · subst h
    rfl
  · simp [value, h, Request.sourceWith, Json.single, Json.get?, Json.arr?, Json.setField,
      Assoc.get?, Assoc.insert]

theorem value_concat (r : Rule) {c : Change} (h : r.Allows c) (cs : List Change) :
    r.value (cs ++ [c]) = c.apply (r.value cs) := by
  match r, c with
  | keepsFirst, .set v true =>
    rw [value, setsOf_concat_set]
    exact standing_concat_true _ v
  | keepsFirst, .set v false =>
    rw [value, setsOf_concat_set]
    exact standing_concat_false _ v
  | keepsFirst, .clear =>
    rw [value, setsOf_concat_clear]
    rfl
  | keepsLast, .set v true => simp [value, Change.apply, Change.set?]
  | appends, .append items =>
    rw [Change.apply, itemsOf_value_appends]
    simp [value, Change.items]
  | includes, .columns names =>
    rw [Change.apply, sourceWith_value_includes]
    simp [value, Change.items]

/-- **A rule says what its changes come to.** -/
theorem foldl_apply (r : Rule) (h : ∀ c ∈ cs, r.Allows c) :
    cs.foldl (fun old c => c.apply old) none = r.value cs := by
  induction cs using List.reverseRecOn with
  | nil => exact r.value_nil.symm
  | append_singleton cs c ih =>
    have hc : r.Allows c := h c (by simp)
    have hcs : ∀ c ∈ cs, r.Allows c := fun c hc => h c (List.mem_append_left _ hc)
    rw [List.foldl_concat, ih hcs, value_concat r hc]

end Rule

/-! ### Rules for all keys -/

/-- Every write is to a key with a rule, and does what the rule expects. -/
def Follow (rule? : String → Option Rule) (ws : List Write) : Prop :=
  ∀ w ∈ ws, ∃ rule, rule? w.key = some rule ∧ rule.Allows w.change

namespace Follow

variable {rule? : String → Option Rule}

theorem allows (h : Follow rule? ws) {rule : Rule} (hk : rule? k = some rule) :
    ∀ c ∈ changesAt k ws, rule.Allows c := by
  intro c hc
  obtain ⟨w, hw, rfl, rfl⟩ := mem_changesAt_iff.mp hc
  obtain ⟨rule', hrule', hallows⟩ := h w hw
  rwa [Option.some.inj (hk.symm.trans hrule')]

theorem changesAt_eq_nil (h : Follow rule? ws) (hk : rule? k = none) : changesAt k ws = [] := by
  refine changesAt_eq_nil_iff.mpr fun w hw he => ?_
  obtain ⟨rule, hrule, -⟩ := h w hw
  rw [he, hk] at hrule
  exact nomatch hrule

/-- **New parameters have under every key what its rule says.** -/
theorem get?_writeAll_empty {v : Version} {gates : List Gate} (h : Follow rule? ws)
    (hk : (empty v gates).isGated k = false) :
    ((empty v gates).writeAll ws).get? k =
      (rule? k).bind fun rule => rule.value (changesAt k ws) := by
  rw [get?_writeAll hk, get?_empty]
  cases hr : rule? k with
  | none => rw [h.changesAt_eq_nil hr]; rfl
  | some rule => exact rule.foldl_apply (h.allows hr)

end Follow

theorem Change.isSome_apply {c : Change} (h : c.isClear = false) (old : Option Json) :
    (c.apply old).isSome = true := by
  match c, h with
  | .set v true, _ => rfl
  | .set v false, _ => cases old <;> rfl
  | .append _, _ => rfl
  | .columns _, _ => rfl

theorem mem_keys_writeAll_empty {v : Version} (h : ∀ w ∈ ws, w.change.isClear = false) :
    k ∈ ((empty v []).writeAll ws).entries.keys ↔ ∃ w ∈ ws, w.key = k := by
  rw [← Assoc.isSome_get?_iff, ((hidden_empty v []).writeAll ws).get?_entries, get?_writeAll rfl]
  rcases List.eq_nil_or_concat (changesAt k ws) with hnil | ⟨cs, c, hcs⟩
  · rw [hnil]
    refine iff_of_false Bool.false_ne_true fun ⟨w, hw, hk⟩ => ?_
    exact changesAt_eq_nil_iff.mp hnil w hw hk
  · have hc : c ∈ changesAt k ws := by simp [hcs]
    obtain ⟨w, hw, hk, rfl⟩ := mem_changesAt_iff.mp hc
    rw [hcs, List.concat_eq_append, List.foldl_concat]
    exact iff_of_true (Change.isSome_apply (h w hw) _) ⟨w, hw, hk⟩

end Params

end SearchCompiler
