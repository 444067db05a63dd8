import Mathlib
import QueryShaping.Proofs.Evaluation.Rows

/-!
# Row numbers of a select

A projection that numbers rows counts the frames of each partition from one, in the order of its sort keys and then of
the frames. This is so where the sort order is consistent among the keys of a partition. That any two of them compare is
not enough: an integer and a float compare as floats, so two integers may differ that are both equal to one float.
-/

namespace QueryShaping

open List

/-- The partition and the sort keys of each frame. -/
def windowRows (env : Environment) (partitions : List Expr) (orderings : List SortTerm) (frames outer : List Frame) :
    Except Error (List (Key × List Value)) :=
  frames.mapM fun frame => do
    let partition ← Expr.evalAll env partitions (.ofRow frame outer)
    let keys ← SortTerm.evalAll env orderings (.ofRow frame outer)
    return (Key.ofValues partition, keys)

/-- Whether rows are numbered within their partitions, by their keys and, where these are equal, by their places. -/
structure NumbersRows (ascending : List Bool) (rows : List (Key × List Value)) (numbers : List Nat) : Prop where
  length_eq : numbers.length = rows.length
  bijOn : ∀ k, Set.BijOn (numbers.getD · 0) {i | rows[i]?.map (·.1) = some k} (Set.Icc 1 (rows.countP (·.1 = k)))
  lt : ∀ {i j : Nat} {row row' : Key × List Value}, rows[i]? = some row → rows[j]? = some row' → row.1 = row'.1 →
    compareKeys ascending row.2 row'.2 = .lt ∨ compareKeys ascending row.2 row'.2 = .eq ∧ i < j →
    numbers.getD i 0 < numbers.getD j 0

section Windows

variable {env : Environment} {partitions : List Expr} {orderings : List SortTerm} {frames outer : List Frame}
  {rows : List (Key × List Value)}

/-- Every row has one key for each sort term. -/
theorem length_of_mem_windowRows (h : windowRows env partitions orderings frames outer = .ok rows) :
    ∀ row ∈ rows, row.2.length = orderings.length := by
  intro row hrow
  obtain ⟨frame, -, hframe⟩ := mem_map.1 (Except.mapM_eq_ok_iff.1 h ▸ mem_map_of_mem hrow)
  obtain ⟨partition, -, hframe⟩ := Except.bind_eq_ok_iff.1 hframe
  obtain ⟨keys, hkeys, hframe⟩ := Except.bind_eq_ok_iff.1 hframe
  cases hframe
  rw [SortTerm.evalAll_eq_mapM] at hkeys
  have hlength := congrArg List.length (Except.mapM_eq_ok_iff.1 hkeys)
  rw [length_map, length_map] at hlength
  exact hlength.symm

theorem numbersRows_rowNumbers (h : windowRows env partitions orderings frames outer = .ok rows)
    (htransitive : ∀ k, KeysSortTransitively ((rows.filter (·.1 = k)).map (·.2))) :
    NumbersRows (orderings.map (·.ascending)) rows (rowNumbers (orderings.map (·.ascending)) rows) where
  length_eq := length_rowNumbers _ rows
  bijOn := bijOn_rowNumbers
  lt {i j row row'} hi hj hpartition hbefore := by
    have hlength : ∀ row ∈ rows, row.2.length = (orderings.map (·.ascending)).length := by
      simpa only [length_map] using length_of_mem_windowRows h
    exact rowNumbers_lt (htransitive row'.1) hlength hi hj hpartition rfl hbefore

/-- A row has the number of its frame in the cell of a projection that numbers rows. -/
theorem Select.cell_keyedRows {s : Select} (hgrouped : s.grouped = false) {i : Nat} {p : Projection}
    (hp : s.projections[i]? = some p) {numbers : List Nat}
    (hnumbers : p.expr.windowColumn env frames outer = .ok (numbers.map some)) {keyed : List (Row × List Value)}
    (h : s.keyedRows env frames outer = .ok keyed) {k : Nat} {row : Row} {keys : List Value}
    (hk : keyed[k]? = some (row, keys)) : ∃ n, numbers[k]? = some n ∧ row[i]? = some (.int64 (Int64.ofNat n)) := by
  rw [keyedRows, hgrouped, if_neg Bool.false_ne_true] at h
  obtain ⟨windows, hwindows, h⟩ := Except.bind_eq_ok_iff.1 h
  have hframe := congrArg (·[k]?) (Except.mapM_eq_ok_iff.1 h)
  simp only [getElem?_map, hk, Option.map_some] at hframe
  obtain ⟨numbered, hnumbered, hkeyed⟩ := Option.map_eq_some_iff.1 hframe
  obtain ⟨row', hrow, hkeyed⟩ := Except.bind_eq_ok_iff.1 hkeyed
  obtain ⟨keys', -, hkeyed⟩ := Except.bind_eq_ok_iff.1 hkeyed
  obtain ⟨rfl, -⟩ := Prod.mk.inj (Except.pure_eq_ok_iff.1 hkeyed)
  obtain ⟨column, number, hcolumn, hnumber, hi⟩ :=
    Projection.windows_getElem? hwindows (List.getElem?_zip_eq_some.1 hnumbered).2 hp
  obtain rfl := Except.ok.inj (hnumbers.symm.trans hcolumn)
  rw [getElem?_map] at hnumber
  obtain ⟨n, hn, rfl⟩ := Option.map_eq_some_iff.1 hnumber
  obtain ⟨v, hv, hcell⟩ := (Projection.evalAll_eq_ok_iff.1 hrow).2 i p hp
  rw [hi] at hcell
  exact ⟨n, hn, hv.trans (congrArg some (Except.ok.inj hcell).symm)⟩

/-- A projection that numbers rows counts each partition from one, each number once, in the order of the sort keys and
then of the frames. It does not matter in which order the partitions are taken, and each row has its number. -/
theorem Select.numbers_within_partitions {s : Select} {i : Nat} {aliasName : String}
    (hp : s.projections[i]? = some ⟨aliasName, .rowNumber partitions orderings⟩)
    (hrows : windowRows env partitions orderings frames outer = .ok rows)
    (htransitive : ∀ k, KeysSortTransitively ((rows.filter (·.1 = k)).map (·.2))) :
    ∃ numbers, (Expr.rowNumber partitions orderings).windowColumn env frames outer = .ok (numbers.map some) ∧
      NumbersRows (orderings.map (·.ascending)) rows numbers ∧
      (∀ groups, groups.Perm (partitionsOf rows) →
        writeNumbers (orderings.map (·.ascending)) rows.length groups = numbers) ∧
      (s.grouped = false → ∀ keyed, s.keyedRows env frames outer = .ok keyed → ∀ (k : Nat) (row : Row) keys,
        keyed[k]? = some (row, keys) → ∃ n, numbers[k]? = some n ∧ row[i]? = some (.int64 (Int64.ofNat n))) := by
  have hcolumn : (Expr.rowNumber partitions orderings).windowColumn env frames outer =
      .ok ((rowNumbers (orderings.map (·.ascending)) rows).map some) := by
    rw [windowRows] at hrows
    rw [Expr.windowColumn, hrows]
    rfl
  exact ⟨_, hcolumn, numbersRows_rowNumbers hrows htransitive, fun groups h => writeNumbers_eq_rowNumbers h,
    fun hgrouped keyed h k row keys hk => cell_keyedRows hgrouped hp hcolumn h hk⟩

end Windows

/-- A column of the only source. -/
def columnNamed (name : String) : Expr :=
  .column ⟨1, none, name, none, false⟩

/-- Frames of parts and values. -/
def framesOf (rows : List (Int32 × Value)) : List Frame :=
  rows.map fun row => [⟨1, ["Part", "X"], some [.int32 row.1, row.2]⟩]

/-- The number of each row within its part, by its value. -/
def numberedInParts (ascending : Bool) : Select :=
  { Select.empty with
    projections := [⟨"X", columnNamed "X"⟩, ⟨"N", .rowNumber [columnNamed "Part"] [⟨columnNamed "X", ascending⟩]⟩] }

theorem Select.numbers_within_partitions_of_ties :
    ∃ rows numbers, NumbersRows [false] rows numbers ∧
      rows.map (·.2) = [[.int32 5], [.int32 8], [.int32 7], [.int32 5], [.int32 8]] ∧ numbers = [2, 1, 1, 3, 2] := by
  have hrows : windowRows ⟨[], .empty⟩ [columnNamed "Part"] [⟨columnNamed "X", false⟩]
      (framesOf [(1, .int32 5), (2, .int32 8), (1, .int32 7), (1, .int32 5), (2, .int32 8)]) [] =
      .ok [(Key.ofValues [.int32 1], [.int32 5]), (Key.ofValues [.int32 2], [.int32 8]),
        (Key.ofValues [.int32 1], [.int32 7]), (Key.ofValues [.int32 1], [.int32 5]),
        (Key.ofValues [.int32 2], [.int32 8])] := by cbv
  obtain ⟨numbers, hcolumn, hnumbers, -⟩ :=
    numbers_within_partitions (s := numberedInParts false) (i := 1) rfl hrows fun k => by
      refine (keysSortTransitively_of_forall_lt 1 ?_ ?_).mono (map_subset _ (filter_sublist).subset)
      · decide
      · decide
  refine ⟨_, numbers, hnumbers, rfl, List.map_injective_iff.2 (Option.some_injective _) ?_⟩
  exact Except.ok.inj (hcolumn.symm.trans (by cbv))

/-- Any two of these values compare. The last one is before the first, but both are equal to those between them. -/
theorem Select.numbers_against_order :
    let values : List Value := [.int64 9007199254740993, .float64 ⟨0x4340000000000000⟩, .float64 ⟨0x4340000000000000⟩,
      .int64 9007199254740992]
    (values.all fun a => values.all fun b => (a.compare? b).isSome) ∧
      compareKeys [true] [.int64 9007199254740992] [.int64 9007199254740993] = .lt ∧
      (Expr.rowNumber [columnNamed "Part"] [⟨columnNamed "X", true⟩]).windowColumn ⟨[], .empty⟩
        (framesOf (values.map (1, ·))) [] = .ok [some 1, some 2, some 3, some 4] := by
  refine ⟨by decide, by decide, ?_⟩
  have hfirst : (Value.int64 9007199254740993).sortOrder (.float64 ⟨0x4340000000000000⟩) = .eq := by decide
  have hequal : (Value.float64 ⟨0x4340000000000000⟩).sortOrder (.float64 ⟨0x4340000000000000⟩) = .eq := by decide
  have hlast : (Value.float64 ⟨0x4340000000000000⟩).sortOrder (.int64 9007199254740992) = .eq := by decide
  have hnumbers (k : Key) : rowNumbers [true] [(k, [.int64 9007199254740993]), (k, [.float64 ⟨0x4340000000000000⟩]),
      (k, [.float64 ⟨0x4340000000000000⟩]), (k, [.int64 9007199254740992])] = [1, 2, 3, 4] := by
    simp [rowNumbers, groupByKey, addToGroup, sortByKeys, List.mergeSort, compareKeys, hfirst, hequal, hlast]
  exact congrArg (fun numbers => Except.ok (List.map some numbers)) (hnumbers (Key.ofValues [.int32 1]))

end QueryShaping
