import SearchCompiler.Proofs.Clause.Construct
import SearchCompiler.Proofs.Group.Items
import SearchCompiler.Proofs.Outcome
import SearchCompiler.Proofs.Predicate.Tree

/-! # The walk over a predicate, recursively

The groups of a predicate are filled by a walk with a list of expressions to come. The same items
come out of a recursion over the predicate, `Expr.items`, which gives what an expression adds to a
group of some connective that a number of groups enclose. The walk visits an expression to its end
before anything that comes after it (`OpenGroups.visits`): a group left open is closed by the next
expression, since none of those to come is enclosed by more groups than the present one.

* `compileWhere_eq_ok_iff`: the group of a predicate holds the items of the recursion.
* `Expr.Fills`: the recursion as rules, by which facts about its items are proved. -/

namespace SearchCompiler

/-- The item of a leaf in a group of some connective. -/
def Expr.leafItem (v : Version) (o : Op) (e : Expr) : Compile Item := do
  match ← Leaf.compile v e with
  | .clause c inverted => return .ofLeaf v o c inverted
  | _ => .error (.unsupported (.asPredicate e.op))

/-- **The items of an expression** in a group of some connective, enclosed by so many groups. -/
def Expr.items (v : Version) (d : Nat) (o : Op) : Expr → Compile (List Item)
  | .node o' l r =>
    if o'.isLogical then
      if o' ≠ o ∧ maxDepth ≤ d then .error (.nestedTooDeep maxDepth)
      else
        match l, r with
        | .expr l, .expr r => do
          let d' := if o' = o then d else d + 1
          let is := (← l.items v d' o') ++ (← r.items v d' o')
          return if o' = o then is else [.ofGroup v o is]
        | l, .expr _ => .error (.ambiguous o' (.notAnExpression l))
        | _, r => .error (.ambiguous o' (.notAnExpression r))
    else do return [← Expr.leafItem v o (.node o' l r)]

/-- The sides of a connective, which have to be expressions. The right one is looked at first. -/
def Expr.sides (o : Op) : Operand → Operand → Compile (Expr × Expr)
  | .expr l, .expr r => .ok (l, r)
  | l, .expr _ => .error (.ambiguous o (.notAnExpression l))
  | _, r => .error (.ambiguous o (.notAnExpression r))

namespace Expr

variable {v : Version} {d : Nat} {o o' : Op} {l r : Operand}

theorem sides_eq_ok_iff {p : Expr × Expr} :
    sides o l r = .ok p ↔ l = .expr p.1 ∧ r = .expr p.2 := by
  obtain ⟨a, b⟩ := p
  cases l <;> cases r <;> simp [sides]

theorem items_leaf (h : o'.isLogical = false) :
    items v d o (.node o' l r) = leafItem v o (.node o' l r) >>= fun i => .ok [i] := by
  rw [items.eq_def]
  simp [h]

theorem items_chain (h : o.isLogical = true) :
    items v d o (.node o l r) = sides o l r >>= fun p =>
      p.1.items v d o >>= fun is => p.2.items v d o >>= fun js => .ok (is ++ js) := by
  rw [items.eq_def]
  cases l <;> cases r <;> simp [h, sides]

theorem items_group (h : o'.isLogical = true) (ho : o' ≠ o) :
    items v d o (.node o' l r) =
      if maxDepth ≤ d then .error (.nestedTooDeep maxDepth)
      else sides o' l r >>= fun p =>
        p.1.items v (d + 1) o' >>= fun is => p.2.items v (d + 1) o' >>= fun js =>
          .ok [.ofGroup v o (is ++ js)] := by
  rw [items.eq_def]
  by_cases hd : maxDepth ≤ d
  · simp [h, ho, hd]
  · cases l <;> cases r <;> simp [h, ho, hd, sides]

/-- A group inside another one has the items that fill a group of its own connective. -/
theorem items_group_eq_ok_iff {is : List Item} (h : o'.isLogical = true) (ho : o' ≠ o) :
    items v d o (.node o' l r) = .ok is ↔ d < maxDepth ∧
      ∃ js, items v (d + 1) o' (.node o' l r) = .ok js ∧ is = [.ofGroup v o js] := by
  have hc : items v d o (.node o' l r) = if maxDepth ≤ d then .error (.nestedTooDeep maxDepth)
      else items v (d + 1) o' (.node o' l r) >>= fun js => .ok [.ofGroup v o js] := by
    simp only [items_group h ho, items_chain h, bind_assoc, Outcome.ok_bind]
  rw [hc]
  split
  · next hd => exact ⟨fun e => (nomatch e), fun e => absurd e.1 (Nat.not_lt.mpr hd)⟩
  · next hd =>
    rw [Outcome.bind_eq_ok]
    constructor
    · rintro ⟨js, hjs, e⟩; exact ⟨Nat.not_le.mp hd, js, hjs, (Except.ok.inj e).symm⟩
    · rintro ⟨-, js, hjs, rfl⟩; exact ⟨js, hjs, rfl⟩

end Expr

/-! ### Closing groups -/

namespace OpenGroups

variable {v : Version}

theorem backTo_of_depth_le {s : OpenGroups} {d : Nat} (h : s.depth ≤ d) : s.backTo d = s := by
  obtain ⟨g, gs⟩ := s
  cases gs with
  | nil => rfl
  | cons g' gs =>
    have h' : gs.length + 1 ≤ d := h
    simp only [backTo, closeTo]
    rw [if_neg (by omega)]

theorem backTo_cons {g g' : OpenGroup} {gs : List OpenGroup} {d : Nat} (h : d ≤ gs.length) :
    OpenGroups.backTo ⟨g, g' :: gs⟩ d = OpenGroups.backTo ⟨g'.attachGroup g, gs⟩ d := by
  simp only [backTo, closeTo]
  rw [if_pos (by omega)]

/-- The walk does not tell an open group from a closed one that encloses nothing to come. -/
theorem fill_close {g g' : OpenGroup} {gs : List OpenGroup} {es : List (Expr × Nat)}
    (h : ∀ x ∈ es, x.2 ≤ gs.length) :
    fill ⟨g, g' :: gs⟩ v es = fill ⟨g'.attachGroup g, gs⟩ v es := by
  cases es with
  | nil =>
    rw [fill, fill, finish, finish, backTo_cons (Nat.zero_le _)]
  | cons x es =>
    obtain ⟨⟨o, l, r⟩, d⟩ := x
    have hd : d ≤ gs.length := h _ List.mem_cons_self
    rw [fill, fill, backTo_cons hd]

/-! ### One expression after the other -/

theorem fill_leaf {s : OpenGroups} {o : Op} {l r : Operand} {d : Nat} {es : List (Expr × Nat)}
    (h : o.isLogical = false) :
    s.fill v ((.node o l r, d) :: es) =
      (s.backTo d).addLeaf v (.node o l r) >>= fun s => s.fill v es := by
  rw [fill.eq_def]
  simp only [h, Bool.false_eq_true, if_false]
  cases (s.backTo d).addLeaf v (.node o l r) <;> rfl

theorem fill_connective {s : OpenGroups} {o : Op} {l r : Operand} {d : Nat}
    {es : List (Expr × Nat)} (h : o.isLogical = true) :
    s.fill v ((.node o l r, d) :: es) =
      (s.backTo d).enter v o >>= fun s => Expr.sides o l r >>= fun p =>
        s.fill v ((p.1, s.depth) :: (p.2, s.depth) :: es) := by
  rw [fill.eq_def]
  simp only [h, if_true]
  cases (s.backTo d).enter v o with
  | error e => rfl
  | ok s => cases l <;> cases r <;> rfl

/-- The walk visits an expression to its end: it goes on with what comes after it once the items of
the expression are in the group. -/
def Visits (v : Version) (e : Expr) : Prop :=
  ∀ (s : OpenGroups) (es : List (Expr × Nat)), (∀ x ∈ es, x.2 ≤ s.depth) →
    s.fill v ((e, s.depth) :: es) = e.items v s.depth s.current.connective >>= fun is =>
      fill ⟨s.current.pushAll is, s.enclosing⟩ v es

theorem Visits.pair {l r : Expr} (hl : Visits v l) (hr : Visits v r) (s : OpenGroups)
    {es : List (Expr × Nat)} (hes : ∀ x ∈ es, x.2 ≤ s.depth) :
    s.fill v ((l, s.depth) :: (r, s.depth) :: es) =
      l.items v s.depth s.current.connective >>= fun is =>
        r.items v s.depth s.current.connective >>= fun js =>
          fill ⟨s.current.pushAll (is ++ js), s.enclosing⟩ v es := by
  have hr' : ∀ x ∈ (r, s.depth) :: es, x.2 ≤ s.depth := by
    intro x hx
    rcases List.mem_cons.mp hx with rfl | hx
    · exact Nat.le_refl _
    · exact hes x hx
  rw [hl s _ hr']
  congr 1
  funext is
  refine (hr ⟨s.current.pushAll is, s.enclosing⟩ es hes).trans ?_
  congr 1
  funext js
  rw [OpenGroup.pushAll_append]

/-- **The walk visits every expression to its end.** -/
theorem visits (e : Expr) : Visits v e := by
  induction e using Expr.connectiveInduction with
  | leaf o l r ho =>
    intro s es hes
    rw [fill_leaf ho, backTo_of_depth_le (Nat.le_refl _), Expr.items_leaf ho, addLeaf,
      Expr.leafItem]
    simp only [bind_assoc]
    congr 1
    funext c
    cases c with
    | clause c inverted => simp [OpenGroup.attach_eq]
    | operand f i => rfl
    | metric f k => rfl
  | connective o l r ho ihl ihr =>
    intro s es hes
    rw [fill_connective ho, backTo_of_depth_le (Nat.le_refl _), enter]
    by_cases hs : o = s.current.connective
    · rw [if_pos hs, ← hs, Expr.items_chain ho, Outcome.ok_bind, bind_assoc]
      refine Outcome.bind_congr fun p hp => ?_
      obtain ⟨rfl, rfl⟩ := Expr.sides_eq_ok_iff.mp hp
      rw [(ihl _ rfl).pair (ihr _ rfl) s hes, ← hs]
      simp only [bind_assoc, Outcome.ok_bind]
    · rw [if_neg hs, Expr.items_group ho hs]
      by_cases hd : maxDepth ≤ s.depth
      · rw [if_pos hd, if_pos hd]; rfl
      · rw [if_neg hd, if_neg hd, Outcome.ok_bind, bind_assoc]
        refine Outcome.bind_congr fun p hp => ?_
        obtain ⟨rfl, rfl⟩ := Expr.sides_eq_ok_iff.mp hp
        -- nothing to come is inside the new group
        have hes' : ∀ x ∈ es, x.2 ≤ s.depth + 1 := fun x hx => Nat.le_succ_of_le (hes x hx)
        have hp := (ihl _ rfl).pair (ihr _ rfl) ⟨⟨o, .empty v⟩, s.current :: s.enclosing⟩ hes'
        refine hp.trans ?_
        simp only [bind_assoc, Outcome.ok_bind]
        refine Outcome.bind_congr fun is _ => Outcome.bind_congr fun js _ => ?_
        rw [fill_close hes]
        rfl

end OpenGroups

/-! ### The items of a whole predicate -/

theorem Expr.isLogical_connective (e : Expr) : e.connective.isLogical = true := by
  unfold Expr.connective
  split
  · assumption
  · rfl

/-- The outermost group before it is filled. -/
def topGroup (c : Config) : BoolGroup := ⟨c.filterContext, .empty c.version []⟩

/-- The outermost group is that of its items, with a filter around it if there is to be one. -/
theorem core_pushAll_topGroup (c : Config) (is : List Item) :
    ((topGroup c).pushAll is).core = (BoolGroup.ofItems c.version is).document := by
  have hp : ((topGroup c).pushAll is).params = (BoolGroup.ofItems c.version is).params :=
    BoolGroup.params_pushAll (topGroup c) (.empty c.version) rfl is
  rw [BoolGroup.document_ofItems, BoolGroup.core, BoolGroup.core, hp]

theorem ofClause_topGroup_iff {c : Config} {g : BoolGroup} :
    Compile.ofClause (if c.filterContext then BoolGroup.newFiltered c.version
      else BoolGroup.new c.version) = .ok g ↔ c.version.isSupported = true ∧ g = topGroup c := by
  have hf : ∀ filtered, (Params.new c.version [] >>= fun p => .ok (BoolGroup.mk filtered p)) =
      .ok g ↔ c.version.isSupported = true ∧ g = ⟨filtered, .empty c.version []⟩ := fun filtered =>
    Params.new_bind_eq_ok_iff
  rw [Compile.ofClause, Outcome.mapError_eq_ok, topGroup]
  cases c.filterContext with
  | true => exact hf true
  | false => exact hf false

theorem compileWhere_none_eq_ok_iff {c : Config} {g : BoolGroup} :
    compileWhere c none = .ok g ↔ c.version.isSupported = true ∧ g = topGroup c := by
  rw [compileWhere, Outcome.bind_eq_ok, ← ofClause_topGroup_iff]
  simp only [Outcome.pure_eq_ok, Except.ok.injEq, exists_eq_right]

theorem compileWhere_eq {c : Config} (hv : c.version.isSupported = true) (e : Expr) :
    compileWhere c (some e) =
      e.items c.version 0 e.connective >>= fun is => .ok ((topGroup c).pushAll is) := by
  have hw := OpenGroups.visits (v := c.version) e ⟨⟨e.connective, topGroup c⟩, []⟩ []
    (by simp)
  rw [compileWhere, ofClause_topGroup_iff.mpr ⟨hv, rfl⟩, Outcome.ok_bind]
  refine hw.trans (Outcome.bind_congr fun is _ => ?_)
  rw [OpenGroups.fill]; rfl

/-- **The group of a predicate holds the items of the recursion.** -/
theorem compileWhere_eq_ok_iff {c : Config} {e : Expr} {g : BoolGroup} :
    compileWhere c (some e) = .ok g ↔ c.version.isSupported = true ∧
      ∃ is, e.items c.version 0 e.connective = .ok is ∧ g = (topGroup c).pushAll is := by
  constructor
  · intro h
    obtain ⟨_, hg, -⟩ := Outcome.bind_eq_ok.mp h
    have hv := (ofClause_topGroup_iff.mp hg).1
    rw [compileWhere_eq hv] at h
    obtain ⟨is, his, hg⟩ := Outcome.bind_eq_ok.mp h
    exact ⟨hv, is, his, (Except.ok.inj hg).symm⟩
  · rintro ⟨hv, is, his, rfl⟩
    rw [compileWhere_eq hv, his]
    rfl

theorem isSupported_of_compileWhere {c : Config} {root : Option Expr} {g : BoolGroup}
    (h : compileWhere c root = .ok g) : c.version.isSupported = true := by
  cases root with
  | none => exact (compileWhere_none_eq_ok_iff.mp h).1
  | some e => exact (compileWhere_eq_ok_iff.mp h).1

/-! ### Rules for the items -/

namespace Expr

/-- **An expression fills a group** of some connective, enclosed by so many groups, with items. -/
inductive Fills (v : Version) : Nat → Op → Expr → List Item → Prop
  | leaf {d : Nat} {o o' : Op} {l r : Operand} {c : Clause} {inverted : Bool}
    (ho : o'.isLogical = false)
    (hc : Leaf.compile v (.node o' l r) = .ok (.clause c inverted)) :
    Fills v d o (.node o' l r) [.ofLeaf v o c inverted]
  | chain {d : Nat} {o : Op} {l r : Expr} {is js : List Item} (ho : o.isLogical = true)
    (hl : Fills v d o l is) (hr : Fills v d o r js) :
    Fills v d o (.node o (.expr l) (.expr r)) (is ++ js)
  | group {d : Nat} {o o' : Op} {l r : Expr} {is js : List Item} (ho : o'.isLogical = true)
    (hne : o' ≠ o) (hd : d < maxDepth) (hl : Fills v (d + 1) o' l is)
    (hr : Fills v (d + 1) o' r js) :
    Fills v d o (.node o' (.expr l) (.expr r)) [.ofGroup v o (is ++ js)]

variable {v : Version} {d : Nat} {o o' : Op} {is : List Item}

theorem fills_leaf_iff {l r : Operand} (ho : o'.isLogical = false) :
    (Expr.node o' l r).Fills v d o is ↔ ∃ c inverted,
      Leaf.compile v (.node o' l r) = .ok (.clause c inverted) ∧ is = [.ofLeaf v o c inverted] := by
  constructor
  · intro h
    cases h with
    | leaf _ hc => exact ⟨_, _, hc, rfl⟩
    | chain ho' => rw [ho] at ho'; simp at ho'
    | group ho' => rw [ho] at ho'; simp at ho'
  · rintro ⟨c, inverted, hc, rfl⟩
    exact .leaf ho hc

theorem Fills.sides {l r : Operand} (h : (Expr.node o' l r).Fills v d o is)
    (ho : o'.isLogical = true) : ∃ a b, l = .expr a ∧ r = .expr b := by
  cases h with
  | leaf ho' => rw [ho] at ho'; simp at ho'
  | chain => exact ⟨_, _, rfl, rfl⟩
  | group => exact ⟨_, _, rfl, rfl⟩

theorem fills_chain_iff {l r : Expr} (ho : o.isLogical = true) :
    (Expr.node o (.expr l) (.expr r)).Fills v d o is ↔
      ∃ js ks, l.Fills v d o js ∧ r.Fills v d o ks ∧ is = js ++ ks := by
  constructor
  · intro h
    cases h with
    | leaf ho' => rw [ho] at ho'; simp at ho'
    | chain _ hl hr => exact ⟨_, _, hl, hr, rfl⟩
    | group _ hne => exact absurd rfl hne
  · rintro ⟨js, ks, hl, hr, rfl⟩
    exact .chain ho hl hr

theorem fills_group_iff {l r : Operand} (ho : o'.isLogical = true) (hne : o' ≠ o) :
    (Expr.node o' l r).Fills v d o is ↔
      d < maxDepth ∧ ∃ js, (Expr.node o' l r).Fills v (d + 1) o' js ∧
        is = [.ofGroup v o js] := by
  constructor
  · intro h
    cases h with
    | leaf ho' => rw [ho] at ho'; simp at ho'
    | chain => exact absurd rfl hne
    | group _ _ hd hl hr => exact ⟨hd, _, .chain ho hl hr, rfl⟩
  · rintro ⟨hd, js, h, rfl⟩
    obtain ⟨a, b, rfl, rfl⟩ := h.sides ho
    obtain ⟨ks, ls, hl, hr, rfl⟩ := (fills_chain_iff ho).mp h
    exact .group ho hne hd hl hr

theorem leafItem_eq_ok_iff {e : Expr} {i : Item} :
    e.leafItem v o = .ok i ↔
      ∃ c inverted, Leaf.compile v e = .ok (.clause c inverted) ∧ i = .ofLeaf v o c inverted := by
  rw [leafItem, Outcome.bind_eq_ok]
  constructor
  · rintro ⟨c, hc, h⟩
    cases c with
    | clause c inverted => exact ⟨c, inverted, hc, (Except.ok.inj h).symm⟩
    | operand f i => exact nomatch h
    | metric f k => exact nomatch h
  · rintro ⟨c, inverted, hc, rfl⟩
    exact ⟨_, hc, rfl⟩

/-- **The rules give what the recursion does.** -/
theorem items_eq_ok_iff (e : Expr) : ∀ {d : Nat} {o : Op} {is : List Item},
    e.items v d o = .ok is ↔ e.Fills v d o is := by
  induction e using connectiveInduction with
  | leaf o' l r ho =>
    intro d o is
    rw [items_leaf ho, fills_leaf_iff ho, Outcome.bind_eq_ok]
    constructor
    · rintro ⟨i, hi, h⟩
      obtain ⟨c, inverted, hc, rfl⟩ := leafItem_eq_ok_iff.mp hi
      exact ⟨c, inverted, hc, (Except.ok.inj h).symm⟩
    · rintro ⟨c, inverted, hc, rfl⟩
      exact ⟨_, leafItem_eq_ok_iff.mpr ⟨c, inverted, hc, rfl⟩, rfl⟩
  | connective o' l r ho ihl ihr =>
    have hchain : ∀ d is, (Expr.node o' l r).items v d o' = .ok is ↔
        (Expr.node o' l r).Fills v d o' is := by
      intro d is
      simp only [items_chain ho, Outcome.bind_eq_ok, sides_eq_ok_iff]
      constructor
      · rintro ⟨p, ⟨rfl, rfl⟩, js, hjs, ks, hks, h⟩
        obtain rfl := Except.ok.inj h
        exact .chain ho ((ihl _ rfl).mp hjs) ((ihr _ rfl).mp hks)
      · intro h
        obtain ⟨a, b, rfl, rfl⟩ := h.sides ho
        obtain ⟨js, ks, hl, hr, rfl⟩ := (fills_chain_iff ho).mp h
        exact ⟨(a, b), ⟨rfl, rfl⟩, js, (ihl _ rfl).mpr hl, ks, (ihr _ rfl).mpr hr, rfl⟩
    intro d o is
    by_cases hne : o' = o
    · subst hne
      exact hchain d is
    · simp only [items_group_eq_ok_iff ho hne, fills_group_iff ho hne, hchain]

namespace Fills

variable {e : Expr}

theorem ne_nil (h : e.Fills v d o is) : is ≠ [] := by
  induction h with
  | leaf => simp
  | chain ho hl hr ihl ihr => simp [ihl]
  | group => simp

theorem admits (h : e.Fills v d o is) (ho : o.isLogical = true) :
    ∀ i ∈ is, o.admits i.occur = true := by
  induction h with
  | @leaf d o o' l r c inverted ho' hc =>
    intro i hi
    obtain rfl := List.mem_singleton.mp hi
    rcases Op.isLogical_iff.mp ho with rfl | rfl <;> cases inverted <;> rfl
  | chain ho' hl hr ihl ihr =>
    intro i hi
    rcases List.mem_append.mp hi with hi | hi
    · exact ihl ho i hi
    · exact ihr ho i hi
  | group ho' hne hd hl hr ihl ihr =>
    intro i hi
    obtain rfl := List.mem_singleton.mp hi
    rcases Op.isLogical_iff.mp ho with rfl | rfl <;> rfl

end Fills

end Expr

theorem exists_fills_of_compileWhere {c : Config} {e : Expr} {g : BoolGroup}
    (h : compileWhere c (some e) = .ok g) :
    ∃ is, e.Fills c.version 0 e.connective is ∧ g = (topGroup c).pushAll is := by
  obtain ⟨-, is, his, hg⟩ := compileWhere_eq_ok_iff.mp h
  exact ⟨is, (Expr.items_eq_ok_iff e).mp his, hg⟩

theorem exists_compileWhere_mixed : ∃ g, compileWhere {} (some .mixed) = .ok g :=
  ⟨_, compileWhere_eq_ok_iff.mpr ⟨rfl, _, rfl, rfl⟩⟩

end SearchCompiler
