import Mathlib
import QueryShaping.Proofs.Evaluation.Parts
import QueryShaping.Proofs.Query.Pushdown

/-!
# Repeated rows

How often a row occurs in the result of a set operation, by how often it occurs in the arms. Rows count as one when
they have the same key.

Repetitions are dropped after the rows are sorted, and the first of equal rows stays. A grouping by all that is shown
opens one group for each row that is no repetition, and shows it before the groups are sorted. Equal rows have equal
sort keys and sorting is stable, so both give the same rows in the same order.
-/

namespace QueryShaping

open List

variable {env : Environment} {outer : List Frame} {α : Type}

/-- How often rows with a key occur in a relation. -/
def Relation.occurrences (r : Relation) (key : Key) : Nat :=
  r.rows.countP fun row => Key.ofValues row = key

/-- How often a row occurs in the result of a set operation on multisets, by how often it occurs on either side. -/
def SetOperator.multiplicity (op : SetOperator) (distinct : Bool) (m n : Nat) : Nat :=
  match op, distinct with
  | .union, false => m + n
  | .intersect, false => min m n
  | .except, false => m - n
  | .union, true => if 0 < m + n then 1 else 0
  | .intersect, true => if 0 < m ∧ 0 < n then 1 else 0
  | .except, true => if 0 < m ∧ n = 0 then 1 else 0

theorem countP_distinctRows (key : Key) (seen : List Key) (rows : List Row) :
    (distinctRows seen rows).countP (fun row => Key.ofValues row = key) =
      if key ∈ seen then 0 else min 1 (rows.countP fun row => Key.ofValues row = key) := by
  induction rows generalizing seen with
  | nil => simp [distinctRows]
  | cons row rest ih =>
    rw [distinctRows]
    by_cases hrow : Key.ofValues row = key
    · by_cases hseen : key ∈ seen <;> simp [hrow, hseen, ih]
    · by_cases hseen : Key.ofValues row ∈ seen <;> simp [hrow, hseen, ih, Ne.symm hrow]

theorem countP_filter_key (p : Key → Bool) (rows : List Row) (key : Key) :
    (rows.filter fun row => p (Key.ofValues row)).countP (fun row => Key.ofValues row = key) =
      if p key then rows.countP fun row => Key.ofValues row = key else 0 := by
  rw [countP_filter]
  split
  · rename_i h
    refine countP_congr fun row _ => ?_
    simp only [Bool.and_eq_true, decide_eq_true_eq]
    exact ⟨fun hrow => hrow.1, fun hrow => ⟨hrow, hrow ▸ h⟩⟩
  · rename_i h
    refine List.countP_eq_zero.2 fun row _ hrow => h ?_
    simp only [Bool.and_eq_true, decide_eq_true_eq] at hrow
    exact hrow.1 ▸ hrow.2

theorem Relation.contains_keys (r : Relation) (key : Key) :
    (r.rows.map Key.ofValues).contains key = decide (0 < r.occurrences key) := by
  rw [contains_eq_mem, decide_eq_decide, Relation.occurrences, countP_pos_iff, mem_map]
  simp

/-- How often a row is kept, where the rows of the left side are compared with the keys of the right side. -/
def SetOperator.kept : SetOperator → (m n : Nat) → Nat
  | .union, m, n => m + n
  | .intersect, m, n => if 0 < n then m else 0
  | .except, m, n => if n = 0 then m else 0

theorem Relation.occurrences_combine (op : SetOperator) (distinct : Bool) (l r : Relation) (key : Key) :
    (combine op distinct l r).occurrences key =
      let kept := op.kept (l.occurrences key) (r.occurrences key)
      if distinct then min 1 kept else kept := by
  have hkept : (combine op false l r).occurrences key = op.kept (l.occurrences key) (r.occurrences key) := by
    cases op with
    | union => exact countP_append
    | intersect =>
      refine (countP_filter_key (r.rows.map Key.ofValues).contains l.rows key).trans ?_
      simp only [contains_keys, decide_eq_true_eq]
      rfl
    | except =>
      refine (countP_filter_key (fun k => !(r.rows.map Key.ofValues).contains k) l.rows key).trans ?_
      simp only [contains_keys, Bool.not_eq_true', decide_eq_false_iff_not, Nat.not_lt, Nat.le_zero]
      rfl
  cases distinct with
  | false => exact hkept
  | true =>
    rw [← hkept]
    exact (countP_distinctRows key [] _).trans (if_neg not_mem_nil)

/-- A set operation keeps as many copies of a row as its arms have together, in both or on the left only, where it drops
repetitions or unites. An intersection or difference of all rows keeps every copy on the left or none, which is the right
number for rows that are no more often on the left, and for those that are not on the right. -/
theorem Source.occurrences_setOperation (id : TableId) (aliasName : Option String) (op : SetOperator) (distinct : Bool)
    {left right : Select} {l r : Relation} (hleft : left.run env outer = .ok l) (hright : right.run env outer = .ok r) :
    ∃ found, (Source.setOperation id aliasName op distinct left right).rows env outer = .ok found ∧ ∀ key,
      (found.occurrences key = op.multiplicity distinct (l.occurrences key) (r.occurrences key) ↔
        distinct ∨ op = .union ∨ l.occurrences key ≤ r.occurrences key ∨ r.occurrences key = 0) ∧
      (distinct = false → found.occurrences key = op.kept (l.occurrences key) (r.occurrences key)) := by
  refine ⟨combine op distinct l r, ?_, fun key => ?_⟩
  · rw [Source.rows, hleft, hright]
    rfl
  · rw [Relation.occurrences_combine]
    generalize l.occurrences key = m
    generalize r.occurrences key = n
    cases distinct <;> cases op <;> simp [SetOperator.kept, SetOperator.multiplicity] <;> grind

/-- The column of a table that has only one. -/
def columnX (id : TableId) (table : String) : Select :=
  { Select.fromSource (.table id none table none) with projections := [⟨"X", .column ⟨id, none, "X", none, false⟩⟩] }

def onesAndOne : Environment :=
  ⟨[("Ones", ⟨["X"], [[.int32 1], [.int64 1], [.int32 2]]⟩), ("One", ⟨["X"], [[.int32 1], [.int32 2]]⟩)], .empty⟩

theorem onesAndOne_runs : (columnX 1 "Ones").run onesAndOne [] = .ok ⟨["X"], [[.int32 1], [.int64 1], [.int32 2]]⟩ ∧
    (columnX 2 "One").run onesAndOne [] = .ok ⟨["X"], [[.int32 1], [.int32 2]]⟩ :=
  ⟨by cbv, by cbv⟩

theorem Source.occurrences_except_ones :
    ∃ found, (Source.setOperation 3 none .except false (columnX 1 "Ones") (columnX 2 "One")).rows onesAndOne [] =
      .ok found ∧ found.occurrences [.int 2] = 0 ∧ found.occurrences [.int 1] ≠ 2 - 1 := by
  obtain ⟨found, hfound, h⟩ :=
    occurrences_setOperation 3 none .except false onesAndOne_runs.1 onesAndOne_runs.2
  exact ⟨found, hfound, (h [.int 2]).1.2 (by decide), fun heq => absurd ((h [.int 1]).1.1 heq) (by decide)⟩

/-- A row that is twice on the left and once on the right is kept twice. -/
theorem Source.occurrences_intersect_ones :
    ∃ l r found, (columnX 1 "Ones").run onesAndOne [] = .ok l ∧ (columnX 2 "One").run onesAndOne [] = .ok r ∧
      (Source.setOperation 3 none .intersect false (columnX 1 "Ones") (columnX 2 "One")).rows onesAndOne [] = .ok found ∧
      found.occurrences [.int 1] ≠ SetOperator.multiplicity .intersect false (l.occurrences [.int 1])
        (r.occurrences [.int 1]) :=
  ⟨_, _, _, onesAndOne_runs.1, onesAndOne_runs.2, by cbv, by decide⟩

/-! ## Groups of equal rows -/

theorem distinctRows_congr {seen seen' : List Key} (h : ∀ key, key ∈ seen ↔ key ∈ seen') (rows : List Row) :
    distinctRows seen rows = distinctRows seen' rows := by
  have hfilter := @filter_distinctRows (fun _ => true) (fun _ _ _ => rfl) rows seen seen' fun row _ => by simp [h]
  simpa using hfilter

theorem distinctRows_distinctRows (seen : List Key) (rows : List Row) :
    distinctRows seen (distinctRows seen rows) = distinctRows seen rows := by
  induction rows generalizing seen with
  | nil => rfl
  | cons row rest ih =>
    by_cases h : seen.contains (Key.ofValues row)
    · rw [distinctRows, if_pos h, ih]
    · rw [distinctRows, if_neg h, distinctRows, if_neg h, ih]

/-- Whether a group has this item first, by the key of its row. -/
def Opens (first : α × Row) (group : Key × List α) : Prop :=
  group.1 = Key.ofValues first.2 ∧ group.2.head? = some first.1

theorem opens_addToGroup {firsts : List (α × Row)} {groups : List (Key × List α)} (h : Forall₂ Opens firsts groups)
    (item : α × Row) :
    Forall₂ Opens (if Key.ofValues item.2 ∈ firsts.map (Key.ofValues ·.2) then firsts else firsts ++ [item])
      (addToGroup (Key.ofValues item.2) item.1 groups) := by
  induction h with
  | nil => exact .cons ⟨rfl, rfl⟩ .nil
  | @cons first group firsts groups hfirst hrest ih =>
    obtain ⟨key, members⟩ := group
    obtain ⟨rfl, hhead⟩ : key = Key.ofValues first.2 ∧ members.head? = some first.1 := hfirst
    rw [addToGroup]
    by_cases hkey : Key.ofValues item.2 = Key.ofValues first.2
    · rw [if_pos hkey, map_cons, if_pos (hkey ▸ mem_cons_self)]
      exact .cons ⟨rfl, by simp [hhead]⟩ hrest
    · rw [if_neg hkey]
      split at ih <;> rename_i hmem <;> simp only [map_cons, mem_cons, hkey, hmem, false_or, if_true, if_false]
      all_goals exact .cons ⟨rfl, hhead⟩ ih

/-- Items that are grouped by the keys of their rows open a group for each row that is no repetition. -/
theorem opens_foldl_addToGroup (items : List (α × Row)) {firsts : List (α × Row)} {groups : List (Key × List α)}
    (h : Forall₂ Opens firsts groups) :
    ∃ new ⊆ items, new.map (·.2) = distinctRows (firsts.map (Key.ofValues ·.2)) (items.map (·.2)) ∧
      Forall₂ Opens (firsts ++ new)
        (items.foldl (fun groups item => addToGroup (Key.ofValues item.2) item.1 groups) groups) := by
  induction items generalizing firsts groups with
  | nil => exact ⟨[], List.Subset.refl _, rfl, (append_nil firsts).symm ▸ h⟩
  | cons item items ih =>
    have hadded := opens_addToGroup h item
    rw [foldl_cons, map_cons, distinctRows, contains_eq_mem]
    split at hadded <;> rename_i hmem <;> obtain ⟨new, hsub, hrows, hopens⟩ := ih hadded
    · exact ⟨new, subset_cons_of_subset _ hsub, by rw [if_pos (decide_eq_true hmem), hrows], hopens⟩
    · refine ⟨item :: new, cons_subset_cons _ hsub, ?_, by simpa using hopens⟩
      rw [if_neg (by simpa using hmem), map_cons, hrows]
      exact congrArg _ (distinctRows_congr (by simp [or_comm]) _)

theorem heads_groupByKey (items : List (α × Row)) :
    ∃ firsts, firsts.map (·.2) = distinctRows [] (items.map (·.2)) ∧
      Forall₂ (fun first group => first ∈ items ∧ some first.1 = group.head?) firsts
        (groupByKey (items.map fun item => (Key.ofValues item.2, item.1))) := by
  obtain ⟨firsts, hsub, hrows, hopens⟩ := @opens_foldl_addToGroup α items [] [] .nil
  have hgroups : groupByKey (items.map fun item => (Key.ofValues item.2, item.1)) =
      (items.foldl (fun groups item => addToGroup (Key.ofValues item.2) item.1 groups) []).map (·.2) :=
    congrArg (List.map _) foldl_map
  refine ⟨firsts, hrows, ?_⟩
  rw [hgroups, forall₂_map_right_iff, forall₂_and_left]
  exact ⟨fun first hfirst => hsub hfirst, hopens.imp fun _ _ h => h.2.symm⟩

theorem Except.filterMapM_ok_of_forall₂ {ε β γ : Type} {f : β → Except ε (Option γ)} {l : List β} {found : List γ}
    (h : List.Forall₂ (fun b a => f a = .ok (some b)) found l) : l.filterMapM f = .ok found := by
  induction h with
  | nil => rfl
  | cons hhead _ ih =>
    rw [filterMapM_cons, hhead]
    simp only [bind, Except.bind, ih]
    rfl

/-! ## Values in groups -/

/-- A value that is found for a row is found for any group that begins with this row. -/
theorem Expr.eval_keeps_group (frame : Frame) (group : Option (List Frame)) (e : Expr) :
    Keeps (e.eval env (.ofRow frame outer)) (e.eval env ⟨frame, outer, group⟩) := by
  induction e using induction_parts with
  | h e ih =>
    refine eval_of_parts Keeps.comparison ih (fun _ _ => .refl _) (fun _ _ => .refl _) fun hcall => ?_
    obtain ⟨name, herror⟩ := @eval_of_isAggregateCall env (.ofRow frame outer) rfl e hcall
    rw [herror]
    exact .of_error _ _

theorem Expr.evalAll_keeps_group (frame : Frame) (group : Option (List Frame)) (es : List Expr) :
    Keeps (evalAll env es (.ofRow frame outer)) (evalAll env es ⟨frame, outer, group⟩) := by
  rw [evalAll_eq_mapM, evalAll_eq_mapM]
  exact Keeps.comparison.mapM_same fun e _ => e.eval_keeps_group frame group

namespace Select

variable {s : Select}

/-- Whether an expression is projected, as the same one or as one that is equal to it. -/
def Projects (s : Select) (e : Expr) : Prop :=
  ∃ p ∈ s.projections, p.expr = e ∨ p.expr == e

/-- A projected expression has its sort key in the row. -/
theorem Projects.sortKey {e : Expr} (h : s.Projects e) (env : Environment) : ∃ i : Nat, ∀ scope row,
    Projection.evalAll env s.projections [] scope = .ok row →
      e.sortKey env (s.placeOf e) row scope = .ok (row[i]?.getD .null) := by
  cases hplace : s.placeOf e with
  | some i => exact ⟨i, fun _ _ _ => rfl⟩
  | none =>
    obtain ⟨p, hp, rfl | heq⟩ := h
    · obtain ⟨i, hi⟩ := List.mem_iff_getElem?.1 hp
      refine ⟨i, fun scope row hrow => ?_⟩
      obtain ⟨v, hv, hcell⟩ := (Projection.evalAll_eq_ok_iff.1 hrow).2 i p hi
      rw [hv]
      exact hcell
    · exact absurd heq (Bool.eq_false_iff.1 (findIdx?_eq_none_iff.1 hplace p hp))

/-- A select whose orderings are projected has all sort keys at places of the row. -/
theorem keyedRow_of_projects (h : ∀ t ∈ s.orderings, s.Projects t.expr) (env : Environment) :
    ∃ places : List (Nat × Bool), places.map (·.2) = s.orderings.map (·.ascending) ∧ ∀ scope row,
      Projection.evalAll env s.projections [] scope = .ok row →
        s.keyedRow env [] scope = .ok (row, keysAt places row) := by
  choose! place hplace using fun t ht => (h t ht).sortKey env
  refine ⟨s.orderings.map fun t => (place t, t.ascending), by simp, fun scope row hrow => ?_⟩
  have hkeys : s.orderings.mapM (fun t => t.expr.sortKey env (s.placeOf t.expr) row scope) =
      .ok (keysAt (s.orderings.map fun t => (place t, t.ascending)) row) := by
    rw [Except.mapM_eq_ok_iff, keysAt, map_map, map_map]
    exact map_congr_left fun t ht => hplace t ht scope row hrow
  rw [keyedRow, hrow]
  exact congrArg (· >>= fun keys => pure (row, keys)) hkeys

variable {frames : List Frame} {rows : List (Row × List Value)} {places : List (Nat × Bool)} {items : List (Frame × Row)}

/-- The values that identify a row, when it is grouped by all that it shows. -/
abbrev shown (env : Environment) (s : Select) (scope : Scope) : Except Error Row :=
  Expr.evalAll env (s.projections.map (·.expr)) scope

theorem evalAll_projections (env : Environment) (ps : List Projection) (scope : Scope) :
    Projection.evalAll env ps [] scope = Expr.evalAll env (ps.map (·.expr)) scope := by
  induction ps with
  | nil => rfl
  | cons p ps ih =>
    rw [Projection.evalAll_cons, map_cons, Expr.evalAll, ← ih]
    rfl

section Grouping

variable (hkeyed : ∀ scope row, s.shown env scope = .ok row → s.keyedRow env [] scope = .ok (row, keysAt places row))

include hkeyed

/-- The rows of a select without groups, each with the frame that it is projected from. -/
theorem exists_items (h : frames.mapM (fun frame => s.keyedRow env [] (.ofRow frame outer)) = .ok rows) :
    ∃ items : List (Frame × Row), rows = items.map (fun item => (item.2, keysAt places item.2)) ∧
      groupFrames (fun frame => s.shown env (.ofRow frame outer)) frames =
        .ok (groupByKey (items.map fun item => (Key.ofValues item.2, item.1))) ∧
      ∀ item ∈ items, s.shown env (.ofRow item.1 outer) = .ok item.2 := by
  have hitem : ∀ frame ∈ frames, ∀ keyed, s.keyedRow env [] (.ofRow frame outer) = .ok keyed →
      ∃ item : Frame × Row, keyed = (item.2, keysAt places item.2) ∧ (do
        let values ← s.shown env (.ofRow frame outer)
        return (Key.ofValues values, frame)) = Except.ok (Key.ofValues item.2, item.1) ∧
        s.shown env (.ofRow item.1 outer) = .ok item.2 := by
    intro frame _ keyed hframe
    obtain ⟨row, hrow, -⟩ := Except.bind_eq_ok_iff.1 hframe
    have hrow : s.shown env (.ofRow frame outer) = .ok row := (evalAll_projections env s.projections _).symm.trans hrow
    rw [hkeyed _ row hrow] at hframe
    exact ⟨(frame, row), (Except.ok.inj hframe).symm, by rw [hrow]; rfl, hrow⟩
  obtain ⟨items, hrows, hkeys, hshown⟩ := Except.mapM_ok_of_views hitem h
  refine ⟨items, hrows, ?_, hshown⟩
  rw [groupFrames, hkeys]
  rfl

/-- Under a grouping by all that is shown, each row that is no repetition stands for its group. -/
theorem keyedRows_groupBy (hprojections : s.projections ≠ []) (hgrouped : s.grouped = false)
    (hgroups : groupFrames (fun frame => s.shown env (.ofRow frame outer)) frames =
      .ok (groupByKey (items.map fun item => (Key.ofValues item.2, item.1))))
    (hshown : ∀ item ∈ items, s.shown env (.ofRow item.1 outer) = .ok item.2) :
    keyedRows env { s with groupBy := s.projections.map (·.expr) } frames outer =
      .ok ((distinctRows [] (items.map (·.2))).map fun row => (row, keysAt places row)) := by
  have hhaving : s.having = none := by
    simp only [grouped, isGrouped, Bool.or_eq_false_iff, Option.isSome_eq_false_iff, Option.isNone_iff_eq_none] at hgrouped
    exact hgrouped.1.2
  have hisGrouped : grouped { s with groupBy := s.projections.map (·.expr) } := by
    simp [grouped, isGrouped, hprojections]
  have hgroups' : groups env { s with groupBy := s.projections.map (·.expr) } frames outer =
      .ok (groupByKey (items.map fun item => (Key.ofValues item.2, item.1))) := by
    rw [groups, if_neg (by simpa using hprojections)]
    exact hgroups
  obtain ⟨firsts, hrows, hheads⟩ := heads_groupByKey items
  rw [keyedRows, if_pos hisGrouped, hgroups', ← hrows, map_map]
  refine Except.filterMapM_ok_of_forall₂ ((forall₂_map_left_iff).2 (hheads.imp fun first group hfirst => ?_))
  -- The group is seen through the frame of its first row.
  have hscope : Scope.ofGroup group outer = ⟨first.1, outer, some group⟩ := by rw [Scope.ofGroup, ← hfirst.2]; rfl
  have hrow := Expr.evalAll_keeps_group first.1 (some group) _ first.2 (hshown first hfirst.1)
  rw [hscope, hhaving]
  exact congrArg (· >>= fun result => pure (some result)) (hkeyed _ _ hrow)

end Grouping

/-- Repetitions can be dropped before the rows are sorted, by a grouping or otherwise. -/
theorem arrange_distinctRows (hplaces : places.map (·.2) = s.orderings.map (·.ascending)) {shown : List Row}
    (h : Sorts (leAt places) shown) (groupBy : List Expr) :
    arrange { s with distinct := true } (shown.map fun row => (row, keysAt places row)) =
      arrange { s with groupBy } ((distinctRows [] shown).map fun row => (row, keysAt places row)) := by
  have hsort (l : List Row) : sortByKeys (s.orderings.map (·.ascending)) (l.map fun row => (row, keysAt places row)) =
      l.mergeSort (leAt places) := by
    rw [← hplaces, sortByKeys_map]
    exact map_id' _
  have hdistinct : distinctRows [] (shown.mergeSort (leAt places)) = (distinctRows [] shown).mergeSort (leAt places) :=
    withoutRepetitions_mergeSort true h
  simp only [arrange, hsort, ← hdistinct, if_true]
  cases s.distinct with
  | false => rfl
  | true => exact (distinctRows_distinctRows [] _).symm

/-- The rows of a select that drops repetitions are those of the select that groups by all that is shown. -/
theorem run_distinct_eq_run_groupBy (hprojections : s.projections ≠ []) (hgrouped : s.grouped = false)
    (hnumbers : ∀ p ∈ s.projections, p.expr.isRowNumber = false) (hprojects : ∀ t ∈ s.orderings, s.Projects t.expr)
    (hsorts : s.SortsConsistently env outer) {r : Relation} (h : s.run env outer = .ok r) :
    ∃ found, run env { s with distinct := true } outer = .ok found ∧
      run env { s with groupBy := s.projections.map (·.expr) } outer = .ok found := by
  obtain ⟨places, hplaces, hkeyed⟩ := keyedRow_of_projects hprojects env
  simp only [evalAll_projections] at hkeyed
  obtain ⟨frames, rows, offset, limit, hframes, hrows, hoffset, hlimit, -⟩ := run_eq_ok_iff.1 h
  have htransitive := hsorts frames rows hframes hrows
  obtain ⟨items, rfl, hgroups, hshown⟩ := exists_items hkeyed (keyedRows_of_unnumbered hgrouped hnumbers frames outer ▸ hrows)
  rw [map_map] at htransitive
  have harrange := arrange_distinctRows hplaces (sorts_leAt (by rwa [map_map])) (s.projections.map (·.expr))
  refine ⟨_, run_eq_ok_iff.2 ⟨frames, _, offset, limit, hframes, hrows, hoffset, hlimit, rfl⟩, ?_⟩
  rw [map_map] at harrange
  refine run_eq_ok_iff.2 ⟨frames, _, offset, limit, hframes, keyedRows_groupBy hkeyed hprojections hgrouped hgroups hshown,
    hoffset, hlimit, ?_⟩
  exact congrArg (fun rows => Relation.mk s.columns (cutRows offset limit rows)) harrange

/-- The rows of a table with one column, in their order and without the first ones. -/
def sortedX (skipped : Int64) : Select :=
  { columnX 1 "Rows" with
    orderings := [⟨.column ⟨1, none, "X", none, false⟩, true⟩]
    offset := some (.literal (.int64 skipped)) }

def rowsOfX (values : List Value) : Environment :=
  ⟨[("Rows", ⟨["X"], values.map ([·])⟩)], .empty⟩

theorem run_distinct_eq_run_groupBy_widths :
    let env := rowsOfX [.int32 2, .int64 1, .int32 1, .int64 2, .int32 3]
    (sortedX 1).SortsConsistently env [] ∧ ∃ found, found.rows = [[.int32 2], [.int32 3]] ∧
      run env { sortedX 1 with distinct := true } [] = .ok found ∧
      run env { sortedX 1 with groupBy := (sortedX 1).projections.map (·.expr) } [] = .ok found := by
  intro env
  have hsorts : (sortedX 1).SortsConsistently env [] := by
    intro frames rows hframes hrows
    cases hframes
    cbv at hrows
    cases hrows
    exact keysSortTransitively_of_forall_lt 1 (by decide) (by decide)
  have hprojects : ∀ t ∈ (sortedX 1).orderings, (sortedX 1).Projects t.expr :=
    forall_mem_singleton.2 ⟨_, mem_cons_self, .inl rfl⟩
  obtain ⟨found, hdistinct, hgroupBy⟩ :=
    run_distinct_eq_run_groupBy (s := sortedX 1) (by decide) (by decide) (by decide) hprojects hsorts (by cbv)
  have hrows : run env { sortedX 1 with distinct := true } [] = .ok ⟨["X"], [[.int32 2], [.int32 3]]⟩ := by cbv
  exact ⟨hsorts, found, by rw [Except.ok.inj (hdistinct.symm.trans hrows)], hdistinct, hgroupBy⟩

/-- Any two of these values compare. The last one is before the second, but both are equal to those between them. -/
theorem run_distinct_ne_run_groupBy :
    let values : List Value := [.float64 ⟨0x4340000000000000⟩, .int64 9007199254740993, .float64 ⟨0x4340000000000000⟩,
      .int64 9007199254740992]
    (values.all fun a => values.all fun b => (a.compare? b).isSome) ∧
      run (rowsOfX values) { sortedX 0 with distinct := true } [] = .ok ⟨["X"],
        [[.float64 ⟨0x4340000000000000⟩], [.int64 9007199254740993], [.int64 9007199254740992]]⟩ ∧
      run (rowsOfX values) { sortedX 0 with groupBy := (sortedX 0).projections.map (·.expr) } [] = .ok ⟨["X"],
        [[.float64 ⟨0x4340000000000000⟩], [.int64 9007199254740992], [.int64 9007199254740993]]⟩ := by
  have hequal : (Value.float64 ⟨0x4340000000000000⟩).sortOrder (.float64 ⟨0x4340000000000000⟩) = .eq := by decide
  have hfirst : (Value.float64 ⟨0x4340000000000000⟩).sortOrder (.int64 9007199254740993) = .eq := by decide
  have hsecond : (Value.int64 9007199254740993).sortOrder (.float64 ⟨0x4340000000000000⟩) = .eq := by decide
  have hthird : (Value.float64 ⟨0x4340000000000000⟩).sortOrder (.int64 9007199254740992) = .eq := by decide
  have hlast : (Value.int64 9007199254740993).sortOrder (.int64 9007199254740992) = .gt := by decide
  refine ⟨by decide, ?_, ?_⟩
  · refine run_eq_ok_iff.2 ⟨_, _, some 0, none, rfl, by cbv, rfl, rfl, ?_⟩
    simp [arrange, sortedX, columnX, columns, sortByKeys, List.mergeSort, compareKeys, hequal, hfirst, hsecond, hthird,
      distinctRows, Key.ofValues, KeyPart.ofValue, cutRows]
  · refine run_eq_ok_iff.2 ⟨_, _, some 0, none, rfl, by cbv, rfl, rfl, ?_⟩
    simp [arrange, sortedX, columnX, columns, sortByKeys, List.mergeSort, compareKeys, hfirst, hthird, hlast, cutRows,
      fromSource, empty]

end Select

end QueryShaping
