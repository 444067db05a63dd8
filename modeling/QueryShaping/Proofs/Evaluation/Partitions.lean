import Mathlib.Data.List.Nodup
import Mathlib.Data.Set.Function
import Mathlib.Order.Interval.Set.Defs
import QueryShaping.Proofs.Evaluation.Sorting

/-!
# Numbers within partitions

Rows are grouped by partition, each partition is sorted by itself, and each row gets the number that it has there. What
is known of a sorted partition is known of the numbers: it has each of its rows once, in the order of their keys and then
of their places. The numbers are brought back to the rows by the places of the rows. A place is in one partition only,
so it does not matter in which order the partitions are taken.
-/

namespace QueryShaping

open List

variable {written : List (Nat × Nat)} {α : Type}

/-! ## Groups -/

theorem addToGroup_map {keys : List Key} (hnodup : keys.Nodup) (members : Key → List α) {key : Key}
    (hnew : key ∉ keys → members key = []) (item : α) :
    addToGroup key item (keys.map fun k => (k, members k)) =
      (if key ∈ keys then keys else keys ++ [key]).map fun k => (k, members k ++ if key = k then [item] else []) := by
  induction keys with
  | nil => simp [addToGroup, hnew not_mem_nil]
  | cons k keys ih =>
    rw [nodup_cons] at hnodup
    rw [map_cons, addToGroup]
    by_cases hk : key = k
    · subst hk
      have hrest : keys.map (fun k => (k, members k ++ if key = k then [item] else [])) =
          keys.map fun k => (k, members k) := by
        refine map_congr_left fun k hmem => ?_
        have hne : key ≠ k := fun heq => hnodup.1 (by rw [heq]; exact hmem)
        rw [if_neg hne, append_nil]
      simp [hrest]
    · have hmem : key ∈ k :: keys ↔ key ∈ keys := by simp [hk]
      rw [if_neg hk, ih hnodup.2 fun h => hnew fun h' => h (hmem.1 h')]
      by_cases hkeys : key ∈ keys <;> simp [hk, hkeys]

theorem foldl_addToGroup_eq (items : List (Key × α)) :
    ∃ keys : List Key, keys.Nodup ∧ (∀ item ∈ items, item.1 ∈ keys) ∧
      items.foldl (fun groups item => addToGroup item.1 item.2 groups) [] =
        keys.map fun k => (k, (items.filter (·.1 = k)).map (·.2)) := by
  induction items using List.reverseRecOn with
  | nil => exact ⟨[], nodup_nil, by simp, rfl⟩
  | append_singleton items item ih =>
    obtain ⟨keys, hnodup, hmem, heq⟩ := ih
    have hnew (h : item.1 ∉ keys) : (items.filter (·.1 = item.1)).map (·.2) = [] := by
      rw [map_eq_nil_iff, filter_eq_nil_iff]
      exact fun other hother heq => h (of_decide_eq_true heq ▸ hmem other hother)
    refine ⟨if item.1 ∈ keys then keys else keys ++ [item.1], ?_, ?_, ?_⟩
    · split
      · exact hnodup
      · rename_i h
        exact hnodup.append (nodup_singleton _) (disjoint_singleton.2 h)
    · grind
    · rw [foldl_concat, heq, addToGroup_map hnodup (fun k => (items.filter (·.1 = k)).map (·.2)) hnew]
      refine map_congr_left fun k _ => ?_
      by_cases hk : item.1 = k <;> simp [hk]

/-- Each key that occurs has one group, of the items with this key in their order. -/
theorem groupByKey_eq (items : List (Key × α)) :
    ∃ keys : List Key, keys.Nodup ∧ (∀ item ∈ items, item.1 ∈ keys) ∧
      groupByKey items = keys.map fun k => (items.filter (·.1 = k)).map (·.2) := by
  obtain ⟨keys, hnodup, hmem, heq⟩ := foldl_addToGroup_eq items
  refine ⟨keys, hnodup, hmem, ?_⟩
  show (items.foldl (fun groups item => addToGroup item.1 item.2 groups) []).map (·.2) = _
  rw [heq, map_map]
  rfl

/-! ## Stable sorting -/

/-- Where items are sorted that have increasing places, equals stay in the order of their places. -/
theorem Sorts.pairwise_mergeSort_places {le : α → α → Bool} {l : List α} (h : Sorts le l) {place : α → Nat}
    (hplace : l.Pairwise fun a b => place a < place b) :
    (l.mergeSort le).Pairwise fun a b => le a b ∧ (le b a → place a < place b) := by
  rw [pairwise_iff_forall_sublist]
  intro a b hsub
  have hab : le a b := pairwise_iff_forall_sublist.1 h.pairwise_mergeSort hsub
  refine ⟨hab, fun hba => pairwise_iff_forall_sublist.1 hplace ?_⟩
  have ha : a ∈ l := List.mem_mergeSort.1 (hsub.subset mem_cons_self)
  have hclass := hsub.filter (alike le a)
  rw [(h.mono (List.cons_subset.2 ⟨ha, List.Subset.refl l⟩)).filter_mergeSort,
    List.filter_eq_self.2 (by simp [alike, hab, hba, h.refl ha])] at hclass
  exact hclass.trans filter_sublist

/-! ## Numbers at places -/

/-- Writes numbers to places. -/
def writeAll (written : List (Nat × Nat)) (numbers : List Nat) : List Nat :=
  written.foldl (fun numbers x => numbers.set x.1 x.2) numbers

theorem length_writeAll (written : List (Nat × Nat)) (numbers : List Nat) :
    (writeAll written numbers).length = numbers.length := by
  induction written generalizing numbers with
  | nil => rfl
  | cons x written ih => exact (ih _).trans length_set

theorem writeAll_getElem?_of_notMem {place : Nat} (h : place ∉ written.map (·.1))
    (numbers : List Nat) : (writeAll written numbers)[place]? = numbers[place]? := by
  induction written generalizing numbers with
  | nil => rfl
  | cons x written ih =>
    rw [map_cons, mem_cons, not_or] at h
    exact (ih h.2 _).trans (getElem?_set_ne (Ne.symm h.1))

/-- Each place that is written once has the number that is written there. -/
theorem writeAll_getElem? (hnodup : (written.map (·.1)).Nodup) {x : Nat × Nat}
    (hx : x ∈ written) {numbers : List Nat} (hlt : x.1 < numbers.length) :
    (writeAll written numbers)[x.1]? = some x.2 := by
  induction written generalizing numbers with
  | nil => cases hx
  | cons y written ih =>
    rw [map_cons, nodup_cons] at hnodup
    rcases mem_cons.1 hx with rfl | hx
    · exact (writeAll_getElem?_of_notMem hnodup.1 _).trans (getElem?_set_self hlt)
    · exact ih hnodup.2 hx (by rwa [length_set])

/-- Numbers that are sorted by their places have these places. -/
theorem mergeSort_places_getElem? {count : Nat}
    (hplaces : (written.map (·.1)).Perm (List.range count)) {x : Nat × Nat} (hx : x ∈ written) :
    ((written.mergeSort fun a b => a.1 ≤ b.1).map (·.2))[x.1]? = some x.2 := by
  have hsorted : (written.mergeSort fun a b => a.1 ≤ b.1).map (·.1) = List.range count := by
    refine (((mergeSort_perm _ _).map _).trans hplaces).eq_of_pairwise (fun a b _ _ => Nat.le_antisymm) ?_ ?_
    · rw [pairwise_map]
      refine (List.pairwise_mergeSort (fun a b c hab hbc => ?_) (fun a b => ?_) _).imp of_decide_eq_true
      · exact decide_eq_true (Nat.le_trans (of_decide_eq_true hab) (of_decide_eq_true hbc))
      · rcases Nat.le_total a.1 b.1 with h | h <;> simp [h]
    · exact pairwise_le_range
  obtain ⟨i, hi⟩ := List.mem_iff_getElem?.1 (List.mem_mergeSort.2 hx)
  have hplace : (List.range count)[i]? = some x.1 := by
    rw [← hsorted, getElem?_map, hi]
    rfl
  obtain rfl : i = x.1 := by simpa using (List.getElem?_eq_some_iff.1 hplace).2
  rw [getElem?_map, hi]
  rfl

/-! ## Numbers of rows -/

section Partitions

variable (asc : List Bool) (rows : List (Key × List Value))

/-- The rows of each partition, each row as its place and its sort keys. -/
def partitionsOf : List (List (Nat × List Value)) :=
  groupByKey (rows.zipIdx.map fun x => (x.1.1, (x.2, x.1.2)))

/-- The places of the rows of all partitions, each partition sorted and counted from one. -/
def countedPlaces (partitions : List (List (Nat × List Value))) : List (Nat × Nat) :=
  partitions.flatMap fun members => (sortByKeys asc members).zipIdx 1

/-- The numbers of rows, written one partition after the other to the places of the rows. -/
def writeNumbers (count : Nat) (partitions : List (List (Nat × List Value))) : List Nat :=
  writeAll (countedPlaces asc partitions) (List.replicate count 0)

/-- The rows of a partition with their places, as they are sorted. -/
def sortedPartition (k : Key) : List ((Key × List Value) × Nat) :=
  (rows.zipIdx.filter (·.1.1 = k)).mergeSort fun a b => keysLe asc a.1.2 b.1.2

theorem rowNumbers_eq : rowNumbers asc rows =
    ((countedPlaces asc (partitionsOf rows)).mergeSort fun a b => a.1 ≤ b.1).map (·.2) := rfl

variable {asc rows}

theorem mem_sortedPartition {k : Key} {x : (Key × List Value) × Nat} :
    x ∈ sortedPartition asc rows k ↔ rows[x.2]? = some x.1 ∧ x.1.1 = k := by
  simp [sortedPartition, mem_zipIdx_iff_getElem?]

theorem nodup_sortedPartition (k : Key) : ((sortedPartition asc rows k).map (·.2)).Nodup := by
  have hsub : ((rows.zipIdx.filter (·.1.1 = k)).map (·.2)).Sublist (List.range' 0 rows.length) := by
    rw [← zipIdx_map_snd 0 rows]
    exact List.filter_sublist.map _
  exact ((mergeSort_perm _ _).map _).nodup_iff.2 (hsub.nodup nodup_range')

theorem length_sortedPartition (k : Key) : (sortedPartition asc rows k).length = rows.countP (·.1 = k) := by
  rw [sortedPartition, length_mergeSort, ← countP_eq_length_filter]
  conv_rhs => rw [← zipIdx_map_fst 0 rows, countP_map]
  rfl

variable (asc rows)

/-- Each partition is sorted and counted by itself. -/
theorem countedPlaces_partitionsOf : ∃ keys : List Key, keys.Nodup ∧ (∀ row ∈ rows, row.1 ∈ keys) ∧
    countedPlaces asc (partitionsOf rows) = keys.flatMap fun k => ((sortedPartition asc rows k).map (·.2)).zipIdx 1 := by
  obtain ⟨keys, hnodup, hmem, hgroups⟩ := groupByKey_eq (rows.zipIdx.map fun x => (x.1.1, (x.2, x.1.2)))
  refine ⟨keys, hnodup, fun row hrow => ?_, ?_⟩
  · obtain ⟨i, hi⟩ := List.mem_iff_getElem?.1 hrow
    exact hmem _ (mem_map.2 ⟨(row, i), List.mk_mem_zipIdx_iff_getElem?.2 hi, rfl⟩)
  · rw [countedPlaces, partitionsOf, hgroups, flatMap_map]
    refine congrArg (keys.flatMap ·) (funext fun k => ?_)
    rw [filter_map, map_map]
    exact congrArg (List.zipIdx · 1) (sortByKeys_map asc _ Prod.snd fun x : (Key × List Value) × Nat => x.1.2)

/-- Every place is counted once. -/
theorem countedPlaces_perm : ((countedPlaces asc (partitionsOf rows)).map (·.1)).Perm (List.range rows.length) := by
  obtain ⟨keys, hnodup, hmem, heq⟩ := countedPlaces_partitionsOf asc rows
  have hplaces : (countedPlaces asc (partitionsOf rows)).map (·.1) =
      keys.flatMap fun k => (sortedPartition asc rows k).map (·.2) := by
    rw [heq, map_flatMap]
    simp only [zipIdx_map_fst]
  rw [hplaces, perm_ext_iff_of_nodup _ nodup_range]
  · intro i
    rw [mem_flatMap, mem_range]
    constructor
    · rintro ⟨k, -, hi⟩
      obtain ⟨x, hx, rfl⟩ := mem_map.1 hi
      exact (List.getElem?_eq_some_iff.1 (mem_sortedPartition.1 hx).1).1
    · intro hi
      exact ⟨rows[i].1, hmem _ (getElem_mem hi), mem_map.2
        ⟨(rows[i], i), mem_sortedPartition.2 ⟨getElem?_eq_getElem hi, rfl⟩, rfl⟩⟩
  · refine List.nodup_flatMap.2 ⟨fun k _ => nodup_sortedPartition k, hnodup.imp fun {k k'} hne => ?_⟩
    intro i hi hi'
    obtain ⟨x, hx, rfl⟩ := mem_map.1 hi
    obtain ⟨x', hx', heq⟩ := mem_map.1 hi'
    rw [mem_sortedPartition] at hx hx'
    rw [heq, hx.1, Option.some.injEq] at hx'
    exact hne (hx.2.symm.trans ((congrArg Prod.fst hx'.1).trans hx'.2))

theorem length_rowNumbers : (rowNumbers asc rows).length = rows.length := by
  have h := (countedPlaces_perm asc rows).length_eq
  rw [length_map, length_range] at h
  rw [rowNumbers_eq, length_map, length_mergeSort, h]

variable {asc rows}

/-- The numbers do not depend on the order in which the partitions are taken. -/
theorem writeNumbers_eq_rowNumbers {partitions : List (List (Nat × List Value))}
    (h : partitions.Perm (partitionsOf rows)) : writeNumbers asc rows.length partitions = rowNumbers asc rows := by
  have hperm : (countedPlaces asc partitions).Perm (countedPlaces asc (partitionsOf rows)) := h.flatMap_right _
  have hplaces := (hperm.map Prod.fst).trans (countedPlaces_perm asc rows)
  have hlength : (writeNumbers asc rows.length partitions).length = rows.length :=
    (length_writeAll _ _).trans length_replicate
  refine ext_getElem? fun i => ?_
  by_cases hi : i < rows.length
  · obtain ⟨x, hx, rfl⟩ := mem_map.1 (hplaces.mem_iff.2 (mem_range.2 hi))
    rw [rowNumbers_eq, mergeSort_places_getElem? (countedPlaces_perm asc rows) (hperm.mem_iff.1 hx)]
    exact writeAll_getElem? (hplaces.nodup_iff.2 nodup_range) hx (by rwa [length_replicate])
  · rw [getElem?_eq_none (by omega), getElem?_eq_none (by rw [length_rowNumbers]; omega)]

/-- The number of a row is one more than the rows before it in its sorted partition. -/
theorem rowNumbers_getD {k : Key} {n : Nat} {x : (Key × List Value) × Nat}
    (hx : (sortedPartition asc rows k)[n]? = some x) : (rowNumbers asc rows).getD x.2 0 = n + 1 := by
  obtain ⟨keys, -, hmem, heq⟩ := countedPlaces_partitionsOf asc rows
  obtain ⟨hrow, rfl⟩ := mem_sortedPartition.1 (mem_of_getElem? hx)
  have hcounted : (x.2, n + 1) ∈ countedPlaces asc (partitionsOf rows) := by
    rw [heq, mem_flatMap]
    refine ⟨x.1.1, hmem _ (mem_of_getElem? hrow), ?_⟩
    rw [mk_mem_zipIdx_iff_le_and_getElem?_sub]
    exact ⟨Nat.le_add_left 1 n, by simp [hx]⟩
  rw [rowNumbers_eq, getD_eq_getElem?_getD, mergeSort_places_getElem? (countedPlaces_perm asc rows) hcounted]
  rfl

theorem exists_getElem?_sortedPartition (asc : List Bool) {i : Nat} {row : Key × List Value} (hi : rows[i]? = some row) :
    ∃ n : Nat, (sortedPartition asc rows row.1)[n]? = some (row, i) :=
  List.mem_iff_getElem?.1 (mem_sortedPartition.2 ⟨hi, rfl⟩)

/-- A partition has the numbers from one to its size, each of them once. -/
theorem bijOn_rowNumbers (k : Key) : Set.BijOn ((rowNumbers asc rows).getD · 0)
    {i | rows[i]?.map (·.1) = some k} (Set.Icc 1 (rows.countP (·.1 = k))) := by
  refine ⟨fun i hi => ?_, fun i hi j hj heq => ?_, fun n hn => ?_⟩
  · obtain ⟨row, hrow, rfl⟩ := Option.map_eq_some_iff.1 hi
    obtain ⟨n, hn⟩ := exists_getElem?_sortedPartition asc hrow
    have hlt := (List.getElem?_eq_some_iff.1 hn).1
    rw [length_sortedPartition] at hlt
    show (rowNumbers asc rows).getD i 0 ∈ _
    rw [rowNumbers_getD hn]
    exact ⟨Nat.le_add_left 1 n, hlt⟩
  · obtain ⟨row, hrow, rfl⟩ := Option.map_eq_some_iff.1 hi
    obtain ⟨row', hrow', hkey⟩ := Option.map_eq_some_iff.1 hj
    obtain ⟨n, hn⟩ := exists_getElem?_sortedPartition asc hrow
    obtain ⟨m, hm⟩ := exists_getElem?_sortedPartition asc hrow'
    rw [hkey] at hm
    have hsame : n + 1 = m + 1 := (rowNumbers_getD hn).symm.trans (heq.trans (rowNumbers_getD hm))
    rw [Nat.succ.inj hsame, hm] at hn
    exact congrArg Prod.snd (Option.some.inj hn).symm
  · have hlt : n - 1 < (sortedPartition asc rows k).length := by
      rw [length_sortedPartition]
      exact Nat.lt_of_lt_of_le (Nat.sub_lt hn.1 Nat.one_pos) hn.2
    have hx := getElem?_eq_getElem hlt
    obtain ⟨hrow, hkey⟩ := mem_sortedPartition.1 (mem_of_getElem? hx)
    refine ⟨_, Option.map_eq_some_iff.2 ⟨_, hrow, hkey⟩, ?_⟩
    show (rowNumbers asc rows).getD _ 0 = n
    rw [rowNumbers_getD hx]
    exact Nat.sub_add_cancel hn.1

/-- In a sorted partition, rows are in the order of their keys, and those with equal keys in that of their places. -/
theorem pairwise_sortedPartition {k : Key} (h : KeysSortTransitively ((rows.filter (·.1 = k)).map (·.2)))
    (hlength : ∀ row ∈ rows, row.2.length = asc.length) :
    (sortedPartition asc rows k).Pairwise fun a b =>
      keysLe asc a.1.2 b.1.2 ∧ (keysLe asc b.1.2 a.1.2 → a.2 < b.2) := by
  have hkeys : ∀ keys ∈ (rows.filter (·.1 = k)).map (·.2), keys.length = asc.length := by
    rw [forall_mem_map]
    exact fun row hrow => hlength row (mem_of_mem_filter hrow)
  have hsub : (rows.zipIdx.filter (·.1.1 = k)).map (fun x => x.1.2) ⊆ (rows.filter (·.1 = k)).map (·.2) := by
    intro keys hmem
    obtain ⟨x, hx, rfl⟩ := mem_map.1 hmem
    rw [mem_filter] at hx
    exact mem_map_of_mem (mem_filter.2 ⟨fst_mem_of_mem_zipIdx hx.1, hx.2⟩)
  refine Sorts.pairwise_mergeSort_places (Sorts.of_map ((h.sorts asc hkeys).mono hsub)) (List.Pairwise.filter _ ?_)
  rw [← pairwise_map (f := Prod.snd) (R := (· < ·)), zipIdx_map_snd]
  exact pairwise_lt_range'

/-- What comes before by its keys, or by its place where the keys are equal, has the smaller number. -/
theorem rowNumbers_lt {k : Key} (h : KeysSortTransitively ((rows.filter (·.1 = k)).map (·.2)))
    (hlength : ∀ row ∈ rows, row.2.length = asc.length) {i j : Nat} {row row' : Key × List Value}
    (hi : rows[i]? = some row) (hj : rows[j]? = some row') (hk : row.1 = k) (hk' : row'.1 = k)
    (hbefore : compareKeys asc row.2 row'.2 = .lt ∨ compareKeys asc row.2 row'.2 = .eq ∧ i < j) :
    (rowNumbers asc rows).getD i 0 < (rowNumbers asc rows).getD j 0 := by
  obtain ⟨n, hn⟩ := exists_getElem?_sortedPartition asc hi
  obtain ⟨m, hm⟩ := exists_getElem?_sortedPartition asc hj
  rw [hk] at hn
  rw [hk'] at hm
  rw [rowNumbers_getD hn, rowNumbers_getD hm, Nat.add_lt_add_iff_right]
  by_contra hle
  rcases Nat.lt_or_eq_of_le (Nat.not_lt.1 hle) with hlt | rfl
  · obtain ⟨hm, hrow'⟩ := List.getElem?_eq_some_iff.1 hm
    obtain ⟨hn, hrow⟩ := List.getElem?_eq_some_iff.1 hn
    have hback := pairwise_iff_getElem.1 (pairwise_sortedPartition h hlength) m n hm hn hlt
    rw [hrow, hrow', keysLe, keysLe, compareKeys_swap asc row.2 row'.2] at hback
    rcases hbefore with hbefore | ⟨hbefore, hij⟩
    · simp [hbefore] at hback
    · have hji : j < i := hback.2 (by simp [hbefore])
      omega
  · obtain ⟨rfl, rfl⟩ : row' = row ∧ j = i := by simpa [hn] using hm.symm
    have hself := compareKeys_swap asc row'.2 row'.2
    rcases hbefore with hbefore | ⟨-, hij⟩
    · simp [hbefore] at hself
    · exact Nat.lt_irrefl _ hij

end Partitions

end QueryShaping
