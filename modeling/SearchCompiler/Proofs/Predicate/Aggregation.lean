import SearchCompiler.Compile.Projection
import SearchCompiler.Proofs.Predicate.Operator
import SearchCompiler.Proofs.Text.Blank

/-! # Reading aggregations in text

What the readers of the grammar take off a text that begins with an aggregation, whose name may be
written in any case, and the text of an ordering by a metric, which is read as the aggregation of
the metric.

* `Grammar.aggregateCall_append`: an aggregation and what follows it.
* `OrderEntry.read_call`: an ordering by an aggregation.
* `OrderEntry.read_orderText`: an ordering by a metric. -/

namespace SearchCompiler

namespace Grammar

/-- **What an aggregation can range over**: a star or an identifier. -/
def IsTarget (t : List Char) : Prop := t = ['*'] ∨ t ≠ [] ∧ ∀ c ∈ t, isIdentChar c = true

/-- **The name of an aggregation**, in any case. -/
structure IsFunction (o : Op) (w : List Char) : Prop where
  cls : o.cls = .aggregation
  letters : w.map Char.toLower = (Text.asciiLower o.text).toList

variable {o : Op} {w t rest : List Char}

theorem asciiLower_text_mem (ho : o.cls = .aggregation) : Text.asciiLower o.text ∈ functionNames := by
  cases o <;> first | exact absurd ho (by decide) | decide

/-- No name of an aggregation begins with another one, so only the name that stands before a
bracket fits there. -/
theorem IsFunction.unique (h : IsFunction o w) {n : String} (hn : n ∈ functionNames)
    {left : List Char} (hfits : strip? n.toList (w ++ '(' :: rest) = some left) :
    n = Text.asciiLower o.text := by
  have hprefix : ∀ n ∈ functionNames, ∀ m ∈ functionNames, n.toList <+: m.toList → n = m := by
    decide
  have hparen : ∀ n ∈ functionNames, '(' ∉ n.toList := by decide
  obtain ⟨w', heq, hw'⟩ := strip?_eq_some_iff.mp hfits
  rcases List.append_eq_append_iff.mp heq with ⟨x, rfl, hx⟩ | ⟨x, rfl, -⟩
  · cases x with
    | nil =>
      refine String.toList_injective ?_
      rw [← hw', List.append_nil, h.letters]
    | cons c x =>
      obtain rfl : '(' = c := (List.cons.inj hx).1
      refine absurd ?_ (hparen n hn)
      rw [← hw', List.map_append]
      exact List.mem_append_right _ List.mem_cons_self
  · refine hprefix n hn _ (asciiLower_text_mem h.cls) ?_
    rw [← hw', ← h.letters, List.map_append]
    exact List.prefix_append _ _

theorem functionName?_append (h : IsFunction o w) (rest : List Char) :
    functionName? (w ++ '(' :: rest) = some (w, '(' :: rest) := by
  have hfits : strip? (Text.asciiLower o.text).toList (w ++ '(' :: rest) = some ('(' :: rest) :=
    strip?_eq_some_iff.mpr ⟨w, rfl, h.letters⟩
  have hlen : (Text.asciiLower o.text).length = w.length := by
    rw [← String.length_toList, ← h.letters, List.length_map]
  obtain ⟨r, hr⟩ : ∃ r, functionName? (w ++ '(' :: rest) = some r := by
    refine Option.isSome_iff_exists.mp
      (List.findSome?_isSome_iff.mpr ⟨_, asciiLower_text_mem h.cls, ?_⟩)
    rw [hfits]
    rfl
  obtain ⟨n, hn, hmap⟩ := List.exists_of_findSome?_eq_some hr
  obtain ⟨left, hleft, rfl⟩ := Option.map_eq_some_iff.mp hmap
  obtain rfl := h.unique hn hleft
  obtain rfl := Option.some.inj (hleft.symm.trans hfits)
  rw [hr, hlen, List.take_left]

/-- An aggregation without blanks is read as far as it goes. -/
theorem aggregateCall_append (hw : IsFunction o w) (ht : IsTarget t) (rest : List Char) :
    aggregateCall (w ++ '(' :: (t ++ ')' :: rest)) = .ok ((w, t), rest) := by
  have hopen : ∀ cs, skip ('(' :: cs) = '(' :: cs := fun _ => rfl
  have hclose : skip (')' :: rest) = ')' :: rest := rfl
  obtain ⟨hskip, htarget⟩ : skip (t ++ ')' :: rest) = t ++ ')' :: rest ∧
      target (t ++ ')' :: rest) = .ok (t, ')' :: rest) := by
    rcases ht with rfl | ⟨hne, ht⟩
    · exact ⟨rfl, rfl⟩
    · have hident : ident (t ++ ')' :: rest) = .ok (t, ')' :: rest) :=
        ident_eq_ok_iff.mpr ⟨hne, rfl, ht, by rintro _ ⟨⟩; rfl⟩
      obtain ⟨c, t, rfl⟩ := List.exists_cons_of_ne_nil hne
      have hc : isIdentChar c = true := ht c List.mem_cons_self
      refine ⟨List.dropWhile_cons_of_neg (by simp [isGap_of_isIdentChar hc]), ?_⟩
      rw [List.cons_append, target, ← List.cons_append]
      · exact hident
      · rintro rest' h
        obtain rfl : c = '*' := (List.cons.inj h).1
        exact absurd hc (by decide)
  unfold aggregateCall
  simp only [functionName?_append hw, hopen, hskip, htarget, hclose]

theorem aggregateExpr_of_isFunction (h : IsFunction o w) (t : List Char) :
    aggregateExpr w t = .ok (.aggregate o (.name (String.ofList t))) := by
  have hkey : Op.keyword (String.ofList w) = Text.asciiLower o.text := by
    have hname : (Text.asciiLower o.text).toList.all isWordChar = true ∧
        Text.asciiLower o.text ≠ "" :=
      (show ∀ n ∈ functionNames, n.toList.all isWordChar = true ∧ n ≠ "" by decide) _
        (asciiLower_text_mem h.cls)
    have hword : IsWord (Text.asciiLower o.text) w [] := ⟨h.letters, fun _ hc => nomatch hc⟩
    exact keyword_of_isWord hword hname.1 hname.2
  have hread : Op.read? (String.ofList w) = some o := by
    rw [Op.read?, hkey]
    have hcls := h.cls
    cases o <;> first | exact absurd hcls (by decide) | decide
  unfold aggregateExpr
  dsimp only
  rw [hread]
  exact if_pos h.cls

end Grammar

namespace OrderEntry

open Grammar

section
variable {o : Op} {w t rest : List Char} {d : SortOrder} (hw : IsFunction o w) (ht : IsTarget t)
  (hd : direction (optionalComma (skip rest)) = (d, []))

include hw ht hd

theorem parts_call : parts (w ++ '(' :: (t ++ ')' :: rest)) = .ok ((.call w t, d), []) := by
  rw [parts, targetPart, aggregateCall_append hw ht]
  simp only [hd, show skip [] = [] from rfl]

/-- **An ordering by an aggregation.** -/
theorem read_call {s : String} (hs : Text.trimChars s.toList = w ++ '(' :: (t ++ ')' :: rest)) :
    read s = .ok ⟨.aggregate (.aggregate o (.name (String.ofList t))), d⟩ := by
  unfold read
  simp only [hs, parts_call hw ht hd]
  rw [aggregateExpr_of_isFunction hw]
  rfl

end

/-- The direction that stands after a target, if there is one. -/
def directionAfter : Option SortOrder → List Char
  | none => []
  | some d => ' ' :: d.text.toList

theorem direction_directionAfter (d : Option SortOrder) :
    direction (optionalComma (skip (directionAfter d))) = (d.getD .asc, []) := by
  rcases d with _ | _ | _ <;> rfl

theorem trimChars_call (kind : MetricKind) (t : List Char) (d : Option SortOrder) :
    Text.trimChars (kind.key.toList ++ '(' :: (t ++ ')' :: directionAfter d)) =
      kind.key.toList ++ '(' :: (t ++ ')' :: directionAfter d) := by
  have hne : kind.key.toList ≠ [] := by cases kind <;> decide
  have hfront : ∀ c ∈ kind.key.toList.head?, Text.isBlank c = false := by
    cases kind <;> rintro _ ⟨⟩ <;> rfl
  have hback : ∀ c ∈ (')' :: directionAfter d).getLast?, Text.isBlank c = false := by
    rcases d with _ | _ | _ <;> rintro _ ⟨⟩ <;> rfl
  exact Text.trimChars_between hne (List.cons_ne_nil _ _) hfront hback ('(' :: t)

end OrderEntry

theorem MetricKind.exists_isFunction (kind : MetricKind) :
    ∃ o : Op, o.metric? = some kind ∧ Grammar.IsFunction o kind.key.toList := by
  cases kind with
  | count => exact ⟨.count, rfl, rfl, by decide⟩
  | sum => exact ⟨.sum, rfl, rfl, by decide⟩
  | max => exact ⟨.max, rfl, rfl, by decide⟩
  | min => exact ⟨.min, rfl, rfl, by decide⟩
  | avg => exact ⟨.avg, rfl, rfl, by decide⟩

/-- The text that orders by a metric, ascending if no direction is given. -/
def Metric.orderText (m : Metric) (d : Option SortOrder) : String :=
  m.kind.key ++ "(" ++ m.field ++ ")" ++ d.elim "" fun d => " " ++ d.text

theorem Metric.toList_orderText (m : Metric) (d : Option SortOrder) : (m.orderText d).toList =
    m.kind.key.toList ++ '(' :: (m.field.toList ++ ')' :: OrderEntry.directionAfter d) := by
  cases d <;> simp [orderText, OrderEntry.directionAfter]

/-- **The text of a metric is read as its aggregation.** -/
theorem OrderEntry.read_orderText {m : Metric} (hne : m.field ≠ "")
    (hm : m.field.toList.all Grammar.isIdentChar = true) (d : Option SortOrder) :
    ∃ o : Op, o.metric? = some m.kind ∧
      read (m.orderText d) = .ok ⟨.aggregate (.aggregate o (.name m.field)), d.getD .asc⟩ := by
  obtain ⟨o, ho, hw⟩ := m.kind.exists_isFunction
  have ht : Grammar.IsTarget m.field.toList :=
    Or.inr ⟨fun h => hne (String.toList_eq_nil_iff.mp h), List.all_eq_true.mp hm⟩
  have htrim : Text.trimChars (m.orderText d).toList =
      m.kind.key.toList ++ '(' :: (m.field.toList ++ ')' :: directionAfter d) := by
    rw [m.toList_orderText, trimChars_call]
  have hread := read_call hw ht (direction_directionAfter d) htrim
  rw [String.ofList_toList] at hread
  exact ⟨o, ho, hread⟩

end SearchCompiler
