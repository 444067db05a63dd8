import Mathlib
import QueryShaping.Proofs.Evaluation.RowNumbers
import QueryShaping.Proofs.Revision.Alias
import QueryShaping.Proofs.Revision.Contiguity
import QueryShaping.Proofs.Revision.PageBounds

/-!
# Pages of elements

The limit and the offset of an element query hold for the elements of each parent. The query that is prepared for it
numbers the rows of each key by the orderings and keeps the numbers in bounds. For each key these rows, in the order of
their numbers, are the slice that the limit and the offset cut out of the rows that the query has with this key.

The rows are followed frame by frame. A number is put behind the row of each frame, the bounds select by these numbers,
and sorting what is left by them undoes the detour: the sorted frames of one key, counted from one, are the frames with
their numbers. Sorting the frames of a key by themselves is the same as taking them from all sorted frames only where the
order is consistent. Numbering sorts by the same values as the query itself only where an ordering is not read from a
projection that is merely equal to it.
-/

namespace QueryShaping

open List Joining

variable {α : Type}

/-- Sorting can be exchanged with a selection. -/
theorem Sorts.mergeSort_filter {le : α → α → Bool} {l : List α} (h : Sorts le l) (p : α → Bool) :
    (l.filter p).mergeSort le = (l.mergeSort le).filter p := by
  have hsub : l.filter p ⊆ l := filter_sublist.subset
  have hmem {a : α} : a ∈ (l.filter p).mergeSort le ∨ a ∈ (l.mergeSort le).filter p → a ∈ l := by
    simp +contextual
  refine eq_of_sorted le (fun a ha => h.refl (hmem (.inl ha))) (fun a ha => h.refl (hmem (.inr ha)))
    (h.mono hsub).pairwise_mergeSort (h.pairwise_mergeSort.filter p) fun a ha => ?_
  have hcons {l' : List α} (hl' : l' ⊆ l) : Sorts le (a :: l') := h.mono (cons_subset.2 ⟨hmem ha, hl'⟩)
  rw [(hcons hsub).filter_mergeSort, filter_comm, ← (hcons (List.Subset.refl l)).filter_mergeSort, filter_comm]

/-- Where items have numbers, and other items are these in the order of their numbers, sorting by the numbers gives them. -/
theorem mergeSort_eq_of_perm {le : α → α → Bool} {number : α → Nat} {l l' : List α} (hperm : l.Perm l')
    (hle : ∀ a ∈ l, ∀ b ∈ l, le a b = decide (number a ≤ number b))
    (hl' : l'.Pairwise fun a b => number a < number b) : l.mergeSort le = l' := by
  have hsorts : Sorts le l := by
    constructor <;> grind
  have hnodup : (l'.map number).Nodup := (pairwise_map.2 hl').imp Nat.ne_of_lt
  refine ((mergeSort_perm l le).trans hperm).eq_of_pairwise (fun a b ha hb hab hba => ?_) hsorts.pairwise_mergeSort ?_
  · rw [mem_mergeSort] at ha
    have hb' := hperm.mem_iff.2 hb
    rw [hle a ha b hb', decide_eq_true_eq] at hab
    rw [hle b hb' a ha, decide_eq_true_eq] at hba
    exact inj_on_of_nodup_map hnodup (hperm.mem_iff.1 ha) hb (Nat.le_antisymm hab hba)
  · refine hl'.imp_of_mem fun {a b} ha hb hlt => ?_
    rw [hle a (hperm.mem_iff.2 ha) b (hperm.mem_iff.2 hb)]
    exact decide_eq_true (Nat.le_of_lt hlt)

/-- What is numbered with one key has the numbers that count it as it is sorted. -/
theorem zip_rowNumbers_perm (asc : List Bool) (key : α → Key) (values : α → List Value) (l : List α) (k : Key) :
    ((l.zip (rowNumbers asc (l.map fun a => (key a, values a)))).filter fun x => key x.1 = k).Perm
      (((l.filter (key · = k)).mergeSort fun a b => keysLe asc (values a) (values b)).zipIdx 1) := by
  let rows := l.map fun a => (key a, values a)
  let numbered (x : α × Nat) : α × Nat := (x.1, (rowNumbers asc rows).getD x.2 0)
  let sorted := (l.zipIdx.filter (key ·.1 = k)).mergeSort fun a b => keysLe asc (values a.1) (values b.1)
  have hzip : l.zip (rowNumbers asc rows) = l.zipIdx.map numbered := by
    refine ext_getElem (by simp [length_rowNumbers, rows]) fun i h h' => ?_
    simp at h
    simp [numbered, h]
  have hsorted : sorted.map (·.1) = (l.filter (key · = k)).mergeSort fun a b => keysLe asc (values a) (values b) := by
    conv_rhs => rw [← zipIdx_map_fst 0 l, filter_map]
    exact map_mergeSort fun _ _ _ _ => rfl
  have hpartition : sorted.map (fun x => ((key x.1, values x.1), x.2)) = sortedPartition asc rows k := by
    rw [sortedPartition, zipIdx_map, filter_map]
    exact map_mergeSort fun _ _ _ _ => rfl
  have hnumbered : sorted.map numbered = (sorted.map (·.1)).zipIdx 1 := by
    refine ext_getElem? fun n => ?_
    rw [getElem?_map, getElem?_zipIdx, getElem?_map]
    cases h : sorted[n]? with
    | none => rfl
    | some x =>
      have hn : (sortedPartition asc rows k)[n]? = some ((key x.1, values x.1), x.2) := by
        rw [← hpartition, getElem?_map, h]
        rfl
      exact congrArg (fun n => some (x.1, n)) ((rowNumbers_getD hn).trans (Nat.add_comm n 1))
  rw [hzip, filter_map, ← hsorted, ← hnumbered]
  exact ((mergeSort_perm _ _).map numbered).symm

/-- Whether a number counted from one is behind an offset and within a limit. -/
def inBounds (offset limit : Option Nat) (n : Nat) : Bool :=
  offset.all (· < n) && limit.all (n ≤ offset.getD 0 + ·)

/-- Rows with numbers in bounds are a slice. -/
theorem map_filter_inBounds (offset limit : Option Nat) (rows : List Row) :
    ((rows.zipIdx 1).filter (inBounds offset limit ·.2)).map (·.1) = cutRows offset limit rows := by
  induction rows using List.reverseRecOn with
  | nil => cases limit <;> simp [cutRows]
  | append_singleton rows row ih =>
    have hdrop (n : Nat) : [row].drop n = if n = 0 then [row] else [] := by cases n <;> simp
    have htake (n : Nat) : [row].take n = if n = 0 then [] else [row] := by cases n <;> simp
    rw [zipIdx_append, filter_append, map_append, ih]
    cases offset <;> cases limit <;> simp [cutRows, inBounds, drop_append, take_append, hdrop, htake, filter_cons]
    all_goals grind

/-- One numbering of rows behind projections that number none. -/
theorem Projection.windows_concat {env : Environment} {ps : List Projection} {p : Projection} {frames outer : List Frame}
    (hps : ∀ q ∈ ps, q.expr.isRowNumber = false) {column : List (Option Nat)}
    (hp : p.expr.windowColumn env frames outer = .ok column) :
    Projection.windows env (ps ++ [p]) frames outer = .ok (column.map (ps.map (fun _ => none) ++ [·])) := by
  have hlength := Expr.length_windowColumn hp
  induction ps with
  | nil =>
    rw [nil_append, Projection.windows, windowColumn_eq, hp]
    exact congrArg Except.ok (ext_getElem (by simp [hlength]) (by simp))
  | cons q ps ih =>
    obtain ⟨hq, hps⟩ := forall_mem_cons.1 hps
    rw [cons_append, Projection.windows, windowColumn_eq, Expr.windowColumn_of_not_isRowNumber hq, ih hps]
    exact congrArg Except.ok (ext_getElem (by simp [hlength]) (by simp))

namespace Select

variable {env : Environment} {s : Select} {outer : List Frame} {key : List Nat} {kept : List Frame} {name : String}

/-! ## Numbered rows -/

/-- What is projected at places. -/
def projectedAt (s : Select) (places : List Nat) : List Expr :=
  places.filterMap fun i => s.projections[i]?.map (·.expr)

/-- Whether the projection that an ordering is read from is that same expression. -/
def ReadsOwn (s : Select) : Prop :=
  ∀ t ∈ s.orderings, ∀ i, s.placeOf t.expr = some i → s.projections[i]?.map (·.expr) = some t.expr

/-- The sort keys of a frame. -/
def keysOf (env : Environment) (s : Select) (outer : List Frame) (frame : Frame) : List Value :=
  s.orderings.map fun t => s.keyOf env outer t.expr frame

theorem Gives.eval_projected {frame : Frame} (h : s.Gives env outer frame) {i : Nat} {e : Expr}
    (he : s.projections[i]?.map (·.expr) = some e) :
    e.eval env (.ofRow frame outer) = .ok ((s.rowOf env outer frame)[i]?.getD .null) := by
  obtain ⟨p, hp, rfl⟩ := Option.map_eq_some_iff.1 he
  have hcell := Projection.cell_of_evalAll h.row hp
  rwa [getElem?_nil] at hcell

/-- What is projected at places evaluates to the cells there. -/
theorem Gives.evalAll_projectedAt {frame : Frame} (h : s.Gives env outer frame) (hkey : Below s.width key) :
    Expr.evalAll env (s.projectedAt key) (.ofRow frame outer) =
      .ok (key.map fun i => (s.rowOf env outer frame)[i]?.getD .null) := by
  rw [Expr.evalAll_eq_mapM, Except.mapM_eq_ok_iff, map_map, projectedAt, map_filterMap, ← filterMap_eq_map]
  refine filterMap_congr fun i hi => ?_
  obtain ⟨e, he⟩ : ∃ e, s.projections[i]?.map (·.expr) = some e := ⟨_, by rw [getElem?_eq_getElem (hkey i hi)]; rfl⟩
  rw [he]
  exact congrArg some (h.eval_projected he)

/-- Orderings evaluate to the sort keys. -/
theorem Gives.evalAll_orderings {frame : Frame} (h : s.Gives env outer frame) (hown : s.ReadsOwn) :
    SortTerm.evalAll env s.orderings (.ofRow frame outer) = .ok (s.keysOf env outer frame) := by
  rw [SortTerm.evalAll_eq_mapM, Except.mapM_eq_ok_iff, keysOf, map_map]
  refine map_congr_left fun t ht => ?_
  have hkey := h.key t ht
  cases hplace : s.placeOf t.expr with
  | none => rwa [hplace] at hkey
  | some i =>
    rw [hplace] at hkey
    exact (h.eval_projected (hown t ht i hplace)).trans hkey

/-- The numbers of frames, within each key and by the sort keys. -/
def numbersOf (env : Environment) (s : Select) (outer : List Frame) (key : List Nat) (kept : List Frame) : List Nat :=
  rowNumbers (s.orderings.map (·.ascending)) (kept.map fun frame =>
    (identifierAt key (s.rowOf env outer frame), s.keysOf env outer frame))

/-- The frames with their numbers. -/
def numberedFrames (env : Environment) (s : Select) (outer : List Frame) (key : List Nat) (kept : List Frame) :
    List (Frame × Nat) :=
  kept.zip (s.numbersOf env outer key kept)

/-- The row of a frame with its number behind it. -/
def numberedRow (env : Environment) (s : Select) (outer : List Frame) (x : Frame × Nat) : Row :=
  s.rowOf env outer x.1 ++ [.int64 (Int64.ofNat x.2)]

/-- The select with the numbers of its rows behind them. -/
def withNumbers (s : Select) (key : List Nat) (name : String) : Select :=
  { s with orderings := [] }.widen [⟨name, .rowNumber (s.projectedAt key) s.orderings⟩]

section Numbers

variable (hgives : ∀ frame ∈ kept, s.Gives env outer frame) (hkey : Below s.width key) (hown : s.ReadsOwn)

include hgives hkey hown

theorem windowColumn_rowNumber : (Expr.rowNumber (s.projectedAt key) s.orderings).windowColumn env kept outer =
    .ok ((s.numbersOf env outer key kept).map some) := by
  have hrows : windowRows env (s.projectedAt key) s.orderings kept outer = .ok (kept.map fun frame =>
        (identifierAt key (s.rowOf env outer frame), s.keysOf env outer frame)) := by
    rw [windowRows, Except.mapM_eq_ok_iff, map_map]
    refine map_congr_left fun frame hframe => ?_
    rw [(hgives frame hframe).evalAll_projectedAt hkey, (hgives frame hframe).evalAll_orderings hown]
    rfl
  rw [windowRows] at hrows
  rw [Expr.windowColumn, hrows]
  rfl

theorem keyedRows_withNumbers (h : s.RowWise) (name : String) : (s.withNumbers key name).keyedRows env kept outer =
    .ok ((s.numberedFrames env outer key kept).map fun x => (s.numberedRow env outer x, [])) := by
  have hgrouped : (s.withNumbers key name).grouped = false := by
    have hs := h.grouped
    simp only [grouped, isGrouped, withNumbers, widen, any_append] at hs ⊢
    simpa [Expr.containsAggregate] using hs
  rw [keyedRows, hgrouped, if_neg Bool.false_ne_true]
  refine Except.bind_eq_ok_iff.2 ⟨_, Projection.windows_concat (p := ⟨name, _⟩) h.unnumbered
    (windowColumn_rowNumber hgives hkey hown), ?_⟩
  rw [Except.mapM_eq_ok_iff, map_map, map_map, zip_map_right, map_map]
  refine map_congr_left fun x hx => ?_
  have hrow : Projection.evalAll env (s.withNumbers key name).projections
      (s.projections.map (fun _ => none) ++ [some x.2]) (.ofRow x.1 outer) = .ok (s.numberedRow env outer x) := by
    refine Projection.evalAll_append (hgives _ (of_mem_zip hx).1).row (fun i hi => ?_) ?_
    · rw [getElem?_append_left (by simpa using hi), getElem?_map, getElem?_nil]
      cases s.projections[i]? <;> rfl
    · rw [drop_left' (by simp)]
      rfl
  exact Except.bind_eq_ok_iff.2 ⟨_, hrow, rfl⟩

/-- A select with a row for each frame gives these rows with their numbers when it is numbered. -/
theorem run_withNumbers (h : s.RowWise) (name : String) (hkept : s.keptFrames env outer = .ok kept) :
    (s.withNumbers key name).run env outer = .ok ⟨(s.withNumbers key name).columns,
      (s.numberedFrames env outer key kept).map (s.numberedRow env outer)⟩ := by
  have hbound {e : Option Expr} (he : e = none) : Expr.countOption env e outer = .ok none := by rw [he]; rfl
  refine run_eq_ok_iff.2 ⟨kept, _, none, none, hkept, keyedRows_withNumbers hgives hkey hown h name,
    hbound h.offset, hbound h.limit, ?_⟩
  have hdistinct : (s.withNumbers key name).distinct = false := h.distinct
  rw [arrange, hdistinct]
  exact congrArg (Relation.mk _) (sortByKeys_of_sorted [] _ (pairwise_of_forall fun _ _ => rfl)).symm

end Numbers

end Select

/-! ## Bounds that count rows -/

/-- An expression that has a number of rows as its value, whatever the row is that is looked at. -/
def Expr.CountsTo (env : Environment) (e : Expr) (n : Nat) : Prop :=
  ∃ (v : Value) (i : Int64), (∀ scope, e.eval env scope = .ok v) ∧ v.int64? = some i ∧ i.toInt = n

/-- An integer that is stored as an integer is stored as it is. -/
theorem int64?_of_storedValue {mapping : Option TypeMapping} {v w : Value} {i j : Int64}
    (h : storedValue mapping v = .ok w) (hv : v.int64? = some i) (hw : w.int64? = some j) : i = j := by
  unfold storedValue storeWith at h
  cases hc : mapping.bind TypeMapping.converter with
  | none =>
    simp only [hc] at h
    cases h
    exact Option.some.inj (hv.symm.trans hw)
  | some c =>
    simp only [hc] at h
    cases c <;> cases v <;> cases hv <;> cases h <;> cases hw

theorem eval_add {env : Environment} {scope : Scope} {a b : Expr} {vo vl : Value} {o l : Int64}
    (ho : vo.int64? = some o) (hl : vl.int64? = some l) (ha : a.eval env scope = .ok vo) (hb : b.eval env scope = .ok vl) :
    (Expr.binary .add a b).eval env scope = arithmetic .add vo vl := by
  have heval : (Expr.binary .add a b).eval env scope = applyBinary .add vo vl := by
    simp only [Expr.eval, ha, hb, bind, Except.bind]
    rfl
  have hnull : (vo.isNull || vl.isNull) = false := by
    cases vo <;> cases ho <;> cases vl <;> cases hl <;> rfl
  rw [heval, applyBinary, hnull]
  rfl

/-- The sum of two bounds, if it fits, counts the rows up to the end of the page. -/
theorem Expr.CountsTo.add {env : Environment} {offset limit : Expr} {o l : Nat} (ho : offset.CountsTo env o)
    (hl : limit.CountsTo env l) (hsum : o + l < 2 ^ 63) : (addBounds offset limit).CountsTo env (o + l) := by
  obtain ⟨vo, io, heo, hio, hon⟩ := ho
  obtain ⟨vl, il, hel, hil, hln⟩ := hl
  have hcast : io.toInt + il.toInt = (o + l : Nat) := by rw [hon, hln, Nat.cast_add]
  have hle : Int64.minValue.toInt ≤ io.toInt + il.toInt ∧ io.toInt + il.toInt ≤ Int64.maxValue.toInt := by
    rw [hcast, Int64.toInt_minValue, Int64.toInt_maxValue]
    omega
  have htoInt : (Int64.ofInt (io.toInt + il.toInt)).toInt = (o + l : Nat) := by
    rw [Int64.toInt_ofInt_of_le hle.1 (Int.lt_add_one_of_le hle.2), hcast]
  obtain ⟨w, hw, hint⟩ := arithmetic_add_of_fits hio hil (fits64_iff.2 hle)
  have hadd : (Expr.binary .add offset limit).CountsTo env (o + l) :=
    ⟨w, _, fun scope => (eval_add hio hil (heo scope) (hel scope)).trans hw, hint, htoInt⟩
  unfold addBounds
  split
  · split
    · rename_i ho' hl'
      obtain rfl := int64?_of_storedValue (heo (.ofRow [] [])) ho' hio
      obtain rfl := int64?_of_storedValue (hel (.ofRow [] [])) hl' hil
      refine ⟨_, _, fun scope => rfl, rfl, ?_⟩
      rw [Int.min_eq_right hle.2, Int.max_eq_right hle.1, htoInt]
    · exact hadd
  · exact hadd

section Bounds

variable {env : Environment} {scope : Scope} {number : Expr} {n : Nat}

theorem Expr.CountsTo.eval_comparison {bound : Expr} {m : Nat} (h : bound.CountsTo env m) {op : BinaryOp}
    (hlogical : op.isLogical = false) (hop : op.isComparison = true) (hn : n < 2 ^ 63)
    (hnumber : number.eval env scope = .ok (.int64 (Int64.ofNat n))) :
    (Expr.binary op number bound).eval env scope = .ok (.bool (op.admits (Ord.compare (n : Int) m))) := by
  obtain ⟨v, i, heval, hv, hi⟩ := h
  have hnull : v.isNull = false := by cases v <;> first | rfl | cases hv
  simp only [Expr.eval, hlogical, hnumber, heval, bind, Except.bind]
  rw [← hi, ← Int64.toInt_ofNat_of_lt hn, applyBinary, hnull, if_pos hop, compare?_integer hv]
  rfl

theorem holdsOption_of_eval {e : Expr} {b : Bool} (h : e.eval env scope = .ok (.bool b)) :
    Expr.holdsOption env (some e) scope = .ok b := by
  rw [Expr.holdsOption, h]
  cases b <;> rfl

theorem eval_both {a b : Expr} {x y : Bool} (ha : a.eval env scope = .ok (.bool x)) (hb : b.eval env scope = .ok (.bool y)) :
    (a.both b).eval env scope = .ok (.bool (x && y)) := by
  simp only [Expr.both, Expr.eval, ha, hb]
  cases x <;> cases y <;> rfl

/-- Bounds that count rows hold for the numbers in bounds. -/
theorem holdsOption_rowBounds {offset limit : Option Expr} {o l : Option Nat}
    (hoffset : Option.Rel (Expr.CountsTo env) offset o) (hlimit : Option.Rel (Expr.CountsTo env) limit l)
    (hsum : o.getD 0 + l.getD 0 < 2 ^ 63) (hn : n < 2 ^ 63)
    (hnumber : number.eval env scope = .ok (.int64 (Int64.ofNat n))) :
    Expr.holdsOption env (Expr.conjunction? (rowBounds number offset limit)) scope = .ok (inBounds o l n) := by
  have hlower {bound : Expr} {m : Nat} (h : bound.CountsTo env m) :
      (Expr.binary .greaterThan number bound).eval env scope = .ok (.bool (decide (m < n))) := by
    rw [h.eval_comparison rfl rfl hn hnumber]
    congr 2
    rw [Bool.eq_iff_iff]
    simp [BinaryOp.admits, compare_gt_iff_gt]
  have hupper {bound : Expr} {m : Nat} (h : bound.CountsTo env m) :
      (Expr.binary .lessThanOrEqual number bound).eval env scope = .ok (.bool (decide (n ≤ m))) := by
    rw [h.eval_comparison rfl rfl hn hnumber]
    congr 2
    rw [Bool.eq_iff_iff]
    simp [BinaryOp.admits, compare_gt_iff_gt]
  cases hoffset with
  | none =>
    cases hlimit with
    | none => rfl
    | some hlimit => exact (holdsOption_of_eval (hupper hlimit)).trans (by simp [inBounds])
  | some hoffset =>
    cases hlimit with
    | none => exact (holdsOption_of_eval (hlower hoffset)).trans (by simp [inBounds])
    | some hlimit => exact holdsOption_of_eval (eval_both (hlower hoffset) (hupper (hoffset.add hlimit hsum)))

end Bounds

namespace Select

section Over

variable {inner : Select} {id : TableId} {aliasName : String} {width : Nat} {places : List (Nat × Bool)} {rows : List Row}
  {env : Environment}

/-- A column of a derived table is found at the place of its projection. -/
theorem placeOf_outerColumn (hnodup : inner.columns.Nodup) {i : Nat} {p : Projection} (hp : inner.projections[i]? = some p)
    (places : List (Nat × Bool)) :
    (overDerived id aliasName inner width places).placeOf (.column (outerColumn id aliasName p)) =
      if i < width then some i else none := by
  have hname {k : Nat} {q : Projection} (hq : inner.projections[k]? = some q) : inner.columns[k]? = some q.aliasName := by
    rw [columns, getElem?_map, hq, Option.map_some]
  -- Equal columns have one name, and there is one column of each name.
  have heq {j : Nat} {q : Projection} (hq : inner.projections[j]? = some q)
      (h : (Expr.column (outerColumn id aliasName q) == .column (outerColumn id aliasName p)) = true) : j = i := by
    have hsame : q.aliasName = p.aliasName := congrArg ColumnRef.name (of_decide_eq_true h)
    exact (getElem?_inj (List.getElem?_eq_some_iff.1 (hname hq)).1 hnodup).1 (by rw [hname hq, hname hp, hsame])
  obtain ⟨hlt, hget⟩ := List.getElem?_eq_some_iff.1 hp
  rw [placeOf, overDerived, findIdx?_map]
  split
  · rename_i hi
    refine List.findIdx?_eq_some_iff_getElem.2 ⟨by simp [hi, hlt], ?_, fun j hj hbeq => ?_⟩
    · rw [getElem_take, hget]
      exact decide_eq_true rfl
    · rw [getElem_take] at hbeq
      exact Nat.ne_of_lt hj (heq (getElem?_eq_getElem _) hbeq)
  · rename_i hi
    refine findIdx?_eq_none_iff.2 fun q hq => Bool.eq_false_iff.2 fun hbeq => ?_
    obtain ⟨j, hj⟩ := List.mem_iff_getElem?.1 hq
    rw [getElem?_take, Option.ite_none_right_eq_some] at hj
    exact hi (heq hj.2 hbeq ▸ hj.1)

theorem joinAll_derived {r : Relation} {outer : List Frame} (hrun : inner.run env outer = .ok r) :
    Source.joinAll env [.derived id (some aliasName) inner] [[]] outer =
      .ok (r.rows.map fun row => [⟨id, r.columns, some row⟩]) := by
  simp only [Source.joinAll, Source.rows, hrun, bind, Except.bind]
  simp [crossJoin, Frame.extendAll, Frame.extend, Source.id]

end Over

variable {env : Environment} {s : Select} {outer : List Frame} {key identifier : List Nat} {kept : List Frame}
  {name : String} {id : TableId} {offset limit : Option Expr} {o l : Option Nat}

/-! ## Pages -/

/-- The projection of the numbers. -/
abbrev numberProjection (s : Select) (key : List Nat) (name : String) : Projection :=
  ⟨name, .rowNumber (s.projectedAt key) s.orderings⟩

/-- The numbers in the derived table. -/
def numberColumn (s : Select) (key : List Nat) (name : String) (id : TableId) : Expr :=
  .column (outerColumn id elementAlias (s.numberProjection key name))

/-- The numbered rows within bounds. -/
def page (s : Select) (key : List Nat) (name : String) (id : TableId) (offset limit : Option Expr) : Select :=
  { overDerived id elementAlias (s.withNumbers key name) (s.withNumbers key name).width [] with
    predicate := Expr.conjunction? (rowBounds (s.numberColumn key name id) offset limit) }

theorem getElem?_withNumbers (s : Select) (key : List Nat) (name : String) :
    (s.withNumbers key name).projections[s.width]? = some (s.numberProjection key name) :=
  getElem?_concat_length

theorem width_withNumbers (s : Select) (key : List Nat) (name : String) : (s.withNumbers key name).width = s.width + 1 :=
  width_widen _ _

/-- The numbers are found among the columns of the page. -/
theorem addProjections_numberColumn (hnodup : (s.withNumbers key name).columns.Nodup) (id : TableId)
    (offset limit : Option Expr) (hint : String) :
    (s.page key name id offset limit).addProjections [(s.numberColumn key name id, hint)] =
      (s.page key name id offset limit, [s.width]) := by
  have hplace : (s.page key name id offset limit).projectionIndex? (s.numberColumn key name id) = some s.width := by
    refine (placeOf_outerColumn hnodup (s.getElem?_withNumbers key name) []).trans (if_pos ?_)
    rw [width_withNumbers]
    exact Nat.lt_succ_self _
  simp only [addProjections, addProjection, hplace]

theorem isRowNumber_of_beq {e : Expr} {partitions : List Expr} {orderings : List SortTerm}
    (h : (e == .rowNumber partitions orderings) = true) : e.isRowNumber = true := by
  cases e with
  | rowNumber => rfl
  | _ => cases h

theorem columns_addProjection_nodup {e : Expr} {hint : String} (h : s.columns.Nodup) :
    (s.addProjection e hint).1.columns.Nodup := by
  unfold addProjection
  split
  · exact h
  · have hcolumns (name : String) : (s.project name e).columns = s.columns ++ [name] := map_append
    rw [hcolumns]
    exact h.append (nodup_singleton _) (disjoint_singleton.2 (s.uniqueName_notMem_columns hint))

theorem columns_projectKey_nodup {innerKey : List Expr} (h : s.columns.Nodup) :
    (s.projectKey innerKey).1.columns.Nodup := by
  induction innerKey generalizing s with
  | nil => exact h
  | cons e rest ih =>
    have hgroup : (s.extendGrouping e).columns = s.columns := by
      unfold extendGrouping
      split <;> rfl
    exact ih (columns_addProjection_nodup (hgroup ▸ h))

/-- Rows are numbered in a derived table, and bounded by their numbers outside. -/
theorem keepNumbered_page (h : s.RowWise) (hordered : s.orderings ≠ []) (hnodup : s.columns.Nodup)
    (key identifier : List Nat) (offset limit : Option Expr) (fresh : Fresh) :
    ∃ name fresh', (s.withNumbers key name).columns.Nodup ∧ Steps (s.keepNumbered key identifier offset limit) fresh
      { s.page key name fresh.nextTable offset limit with
        orderings := [⟨s.numberColumn key name fresh.nextTable, true⟩] } fresh' := by
  have hindex : projectionIndex? { s with orderings := [] } (.rowNumber (s.projectedAt key) s.orderings) = none := by
    rw [projectionIndex?, findIdx?_eq_none_iff]
    refine fun p hp => Bool.eq_false_iff.2 fun hbeq => ?_
    cases (isRowNumber_of_beq hbeq).symm.trans (h.unnumbered p hp)
  obtain ⟨name, hadd⟩ : ∃ name, addProjection { s with orderings := [] } (.rowNumber (s.projectedAt key) s.orderings) "row" =
      (s.withNumbers key name, s.width) := by
    rw [addProjection, hindex]
    exact ⟨_, rfl⟩
  have hnumbered : (s.withNumbers key name).columns.Nodup := by
    have hadded : (addProjection { s with orderings := [] } (.rowNumber (s.projectedAt key) s.orderings)
        "row").1.columns.Nodup := columns_addProjection_nodup hnodup
    rwa [hadd] at hadded
  refine ⟨name, { fresh with nextTable := fresh.nextTable + 1 }, hnumbered, ?_⟩
  have hpush : (s.withNumbers key name).pushDown fresh.nextTable elementAlias =
      overDerived fresh.nextTable elementAlias (s.withNumbers key name) (s.withNumbers key name).width [] := by
    have hinner : (s.withNumbers key name).inner [] false = s.withNumbers key name := by
      simp [inner, withNumbers, widen]
    have hexposed : exposeOrderings { s.withNumbers key name with orderings := [] } (s.withNumbers key name).orderings =
        (widen { s.withNumbers key name with orderings := [] } [], []) := by
      rw [widen_nil]
      rfl
    have hlimited : ((s.withNumbers key name).limit.isSome || (s.withNumbers key name).offset.isSome) = false := by
      show (s.limit.isSome || s.offset.isSome) = false
      rw [h.limit, h.offset]
      rfl
    rw [pushDown_eq _ _ hexposed, hlimited, hinner]
  have hcolumn : projectionExpr (overDerived fresh.nextTable elementAlias (s.withNumbers key name)
      (s.withNumbers key name).width []) s.width = .ok (s.numberColumn key name fresh.nextTable) := by
    simp only [projectionExpr, overDerived, take_length, getElem?_map, getElem?_withNumbers]
    rfl
  have hparts : key.filterMap (fun i => s.projections[i]?.map (·.expr)) = s.projectedAt key := rfl
  simp only [keepNumbered, isEmpty_eq_false_iff.2 hordered, hparts, Bool.false_eq_true, if_false, hadd, steps_bind,
    steps_ofExcept, steps_pure, steps_pushDownFresh, hpush]
  refine ⟨_, _, ⟨rfl, rfl⟩, _, _, ⟨hcolumn, rfl⟩, ?_, rfl⟩
  rw [page]
  cases Expr.conjunction? (rowBounds (s.numberColumn key name fresh.nextTable) offset limit) <;> rfl

/-- The rows whose numbers are in bounds. -/
theorem run_page (hnodup : (s.withNumbers key name).columns.Nodup)
    (hlength : ∀ x ∈ s.numberedFrames env outer key kept, (s.rowOf env outer x.1).length = s.width)
    (hrun : (s.withNumbers key name).run env outer = .ok ⟨(s.withNumbers key name).columns,
      (s.numberedFrames env outer key kept).map (s.numberedRow env outer)⟩)
    (hoffset : Option.Rel (Expr.CountsTo env) offset o) (hlimit : Option.Rel (Expr.CountsTo env) limit l)
    (hsum : o.getD 0 + l.getD 0 < 2 ^ 63) (hsize : ∀ x ∈ s.numberedFrames env outer key kept, x.2 < 2 ^ 63) :
    (s.page key name id offset limit).run env outer = .ok ⟨(s.withNumbers key name).columns,
      ((s.numberedFrames env outer key kept).filter (inBounds o l ·.2)).map (s.numberedRow env outer)⟩ := by
  have htest : ∀ x ∈ s.numberedFrames env outer key kept, Expr.holdsOption env (s.page key name id offset limit).predicate
      (.ofRow [⟨id, (s.withNumbers key name).columns, some (s.numberedRow env outer x)⟩] outer) =
        .ok (inBounds o l x.2) := by
    intro x hx
    refine holdsOption_rowBounds hoffset hlimit hsum (hsize x hx) ?_
    rw [numberColumn, eval_outerColumn env hnodup (s.getElem?_withNumbers key name), ← hlength x hx, numberedRow,
      getElem?_concat_length]
    rfl
  have hframes : (s.page key name id offset limit).keptFrames env outer =
      .ok ((((s.numberedFrames env outer key kept).filter (inBounds o l ·.2)).map (s.numberedRow env outer)).map fun row =>
        [⟨id, (s.withNumbers key name).columns, some row⟩]) := by
    refine Except.bind_eq_ok_iff.2 ⟨_, joinAll_derived hrun, Except.filterM_eq_ok_iff.2 ⟨?_, ?_⟩⟩
    · rw [map_map]
      exact forall_mem_map.2 fun x hx => ⟨_, htest x hx⟩
    · rw [map_map, map_map, filter_map]
      refine congrArg (map _) (filter_congr fun x hx => ?_)
      exact (congrArg Except.saysYes (htest x hx)).symm
  have hrows : ∀ row ∈ ((s.numberedFrames env outer key kept).filter (inBounds o l ·.2)).map (s.numberedRow env outer),
      row.length = (s.withNumbers key name).width := by
    refine forall_mem_map.2 fun x hx => ?_
    rw [numberedRow, length_append, hlength x (mem_of_mem_filter hx), width_withNumbers]
    rfl
  refine run_eq_ok_iff.2 ⟨_, _, none, none, hframes,
    keyedRows_overDerived hnodup hrows (List.forall_mem_nil _) outer, rfl, rfl, ?_⟩
  let rows := ((s.numberedFrames env outer key kept).filter (inBounds o l ·.2)).map (s.numberedRow env outer)
  have hsorted : sortByKeys [] (rows.map fun row => (row.take (s.withNumbers key name).width, keysAt [] row)) =
      rows.map (·.take (s.withNumbers key name).width) :=
    sortByKeys_of_sorted [] _ (pairwise_of_forall fun _ _ => rfl)
  have hwhole := map_congr_left fun row hrow => take_of_length_le (Nat.le_of_eq (hrows row hrow))
  rw [hwhole, map_id'] at hsorted
  have hcolumns : (s.page key name id offset limit).columns = (s.withNumbers key name).columns := by
    simp only [columns, page, overDerived, take_length, map_map]
    rfl
  exact (congrArg₂ Relation.mk hcolumns hsorted).symm

section Slices

variable (hgives : ∀ frame ∈ kept, s.Gives env outer frame) (hkey : Below s.width key)

/-- The frames of a key with their numbers are these frames as they are sorted, counted from one. -/
theorem numberedFrames_perm (k : Key) :
    ((s.numberedFrames env outer key kept).filter fun x => identifierAt key (s.rowOf env outer x.1) = k).Perm
      (((kept.filter fun frame => identifierAt key (s.rowOf env outer frame) = k).mergeSort
        (s.frameLe env outer s.orderings)).zipIdx 1) :=
  zip_rowNumbers_perm _ (fun frame => identifierAt key (s.rowOf env outer frame)) (s.keysOf env outer) kept k

theorem le_of_mem_numberedFrames {x : Frame × Nat} (hx : x ∈ s.numberedFrames env outer key kept) : x.2 ≤ kept.length := by
  have hmem := (numberedFrames_perm _).mem_iff.1 (mem_filter.2 ⟨hx, decide_eq_true rfl⟩)
  have hlt := snd_lt_add_of_mem_zipIdx hmem
  rw [length_mergeSort] at hlt
  have hle := length_filter_le (fun frame => identifierAt key (s.rowOf env outer frame) =
    identifierAt key (s.rowOf env outer x.1)) kept
  omega

include hgives

theorem leAt_numberedRow {a b : Frame × Nat} (ha : a ∈ s.numberedFrames env outer key kept)
    (hb : b ∈ s.numberedFrames env outer key kept) (hsize : kept.length < 2 ^ 63) :
    leAt [(s.width, true)] (s.numberedRow env outer a) (s.numberedRow env outer b) = decide (a.2 ≤ b.2) := by
  have hcell {x : Frame × Nat} (hx : x ∈ s.numberedFrames env outer key kept) :
      keysAt [(s.width, true)] (s.numberedRow env outer x) = [.int64 (Int64.ofNat x.2)] := by
    rw [keysAt, map_singleton, ← (hgives x.1 (of_mem_zip hx).1).length_rowOf, numberedRow, getElem?_concat_length]
    rfl
  have hcompare (i j : Int64) : compareKeys [true] [.int64 i] [.int64 j] = (Ord.compare i.toInt j.toInt).then .eq := rfl
  have hlt {x : Frame × Nat} (hx : x ∈ s.numberedFrames env outer key kept) : (Int64.ofNat x.2).toInt = x.2 :=
    Int64.toInt_ofNat_of_lt (Nat.lt_of_le_of_lt (le_of_mem_numberedFrames hx) hsize)
  rw [leAt, hcell ha, hcell hb, keysLe, map_singleton, hcompare, Ordering.then_eq, hlt ha, hlt hb, Bool.eq_iff_iff]
  simp [compare_gt_iff_gt]

include hkey

/-- The rows of a page with a key, in the order of their numbers, are a slice of the sorted rows with this key. -/
theorem mergeSort_filter_page (hsorts : Sorts (s.frameLe env outer s.orderings) kept) (hsize : kept.length < 2 ^ 63)
    (o l : Option Nat) (k : Key) :
    (((((s.numberedFrames env outer key kept).filter (inBounds o l ·.2)).map (s.numberedRow env outer)).filter
      (identifierAt key · = k)).mergeSort (leAt [(s.width, true)])).map (·.take s.width) =
    cutRows o l (((kept.mergeSort (s.frameLe env outer s.orderings)).map (s.rowOf env outer)).filter
      (identifierAt key · = k)) := by
  have hlength {x : Frame × Nat} (hx : x ∈ s.numberedFrames env outer key kept) :
      (s.rowOf env outer x.1).length = s.width := (hgives x.1 (of_mem_zip hx).1).length_rowOf
  let own := ((s.numberedFrames env outer key kept).filter fun x => identifierAt key (s.rowOf env outer x.1) = k).filter
    (inBounds o l ·.2)
  let sorted := (kept.filter fun frame => identifierAt key (s.rowOf env outer frame) = k).mergeSort
    (s.frameLe env outer s.orderings)
  have hmem {x : Frame × Nat} (hx : x ∈ own) : x ∈ s.numberedFrames env outer key kept :=
    mem_of_mem_filter (mem_of_mem_filter hx)
  have hown : (((s.numberedFrames env outer key kept).filter (inBounds o l ·.2)).map (s.numberedRow env outer)).filter
      (identifierAt key · = k) = own.map (s.numberedRow env outer) := by
    rw [filter_map, filter_comm]
    refine congrArg (map _) (congrArg (List.filter _) (filter_congr fun x hx => ?_))
    rw [Function.comp_apply, numberedRow, ← identifierAt_take (hlength hx ▸ hkey), take_left' rfl]
  have hperm : own.Perm ((sorted.zipIdx 1).filter (inBounds o l ·.2)) := (numberedFrames_perm k).filter _
  have hordered : own.mergeSort (fun a b => leAt [(s.width, true)] (s.numberedRow env outer a) (s.numberedRow env outer b)) =
      (sorted.zipIdx 1).filter (inBounds o l ·.2) := by
    refine mergeSort_eq_of_perm hperm (fun a ha b hb => leAt_numberedRow hgives (hmem ha) (hmem hb) hsize)
      (Pairwise.filter _ ?_)
    rw [← pairwise_map (f := Prod.snd) (R := (· < ·)), zipIdx_map_snd]
    exact pairwise_lt_range'
  have hmap : (own.mergeSort fun a b => leAt [(s.width, true)] (s.numberedRow env outer a) (s.numberedRow env outer b)).map
      (s.numberedRow env outer) = (own.map (s.numberedRow env outer)).mergeSort (leAt [(s.width, true)]) :=
    map_mergeSort fun _ _ _ _ => rfl
  have hsorted : sorted.map (s.rowOf env outer) = ((kept.mergeSort (s.frameLe env outer s.orderings)).map
      (s.rowOf env outer)).filter (identifierAt key · = k) := by
    rw [filter_map]
    exact congrArg (map _) (hsorts.mergeSort_filter _)
  rw [hown, ← hmap, hordered, map_map, ← hsorted, ← map_filter_inBounds, zipIdx_map,
    filter_map, map_map]
  refine map_congr_left fun x hx => ?_
  exact take_left' (hlength (hmem (hperm.mem_iff.2 hx)))

end Slices

/-! ## Element queries -/

section Elements

variable {innerKey : List Expr}

theorem addProjection_eq_widen (s : Select) (e : Expr) (hint : String) :
    ∃ new, (s.addProjection e hint).1 = s.widen new ∧ ∀ p ∈ new, p.expr = e := by
  unfold addProjection
  split
  · exact ⟨[], s.widen_nil.symm, List.forall_mem_nil _⟩
  · exact ⟨_, rfl, forall_mem_singleton.2 rfl⟩

/-- The key is projected behind what there is. -/
theorem projectKey_eq_widen (hgroupBy : s.groupBy = []) (innerKey : List Expr) :
    ∃ new, (s.projectKey innerKey).1 = s.widen new ∧ ∀ p ∈ new, p.expr ∈ innerKey := by
  induction innerKey generalizing s with
  | nil => exact ⟨[], s.widen_nil.symm, List.forall_mem_nil _⟩
  | cons e rest ih =>
    have hgroup : s.extendGrouping e = s := by rw [extendGrouping, hgroupBy]; rfl
    obtain ⟨one, hone, hexpr⟩ := s.addProjection_eq_widen e "key"
    obtain ⟨more, hmore, hexprs⟩ := @ih (s.widen one) hgroupBy
    refine ⟨one ++ more, by simp only [projectKey, hgroup, hone, hmore, widen_widen], forall_mem_append.2 ⟨?_, ?_⟩⟩
    · exact fun p hp => hexpr p hp ▸ mem_cons_self
    · exact fun p hp => mem_cons_of_mem e (hexprs p hp)

/-- The element query with its key projected and with all its rows. -/
def keyed (s : Select) (innerKey : List Expr) : Select :=
  (s.projectKey innerKey).1.bounded none none

/-- Whether an element query has pages: it is ordered and limited, and has a row for each combination of its sources. -/
structure Paged (s : Select) (innerKey : List Expr) (identifier : List Nat) : Prop where
  ordered : s.orderings ≠ []
  limited : s.limited = true
  distinct : s.distinct = false
  groupBy : s.groupBy = []
  having : s.having = none
  nodup : s.columns.Nodup
  plain : ∀ e ∈ s.projections.map (·.expr) ++ innerKey, e.containsAggregate = false ∧ e.isRowNumber = false
  own : (s.keyed innerKey).ReadsOwn
  identifier : Below (s.projectKey innerKey).1.width identifier

theorem Paged.rowWise (h : s.Paged innerKey identifier) : (s.keyed innerKey).RowWise := by
  obtain ⟨new, hnew, hexpr⟩ := projectKey_eq_widen h.groupBy innerKey
  have hplain : ∀ p ∈ (s.keyed innerKey).projections, p.expr.containsAggregate = false ∧ p.expr.isRowNumber = false := by
    rw [keyed, hnew]
    refine forall_mem_append.2 ⟨fun p hp => h.plain _ ?_, fun p hp => h.plain _ ?_⟩
    · exact mem_append_left _ (mem_map_of_mem hp)
    · exact mem_append_right _ (hexpr p hp)
  have haggregates : (s.keyed innerKey).projections.any (·.expr.containsAggregate) = false := by
    simpa using fun p hp => (hplain p hp).1
  refine ⟨?_, fun p hp => (hplain p hp).2, by rw [keyed, hnew]; exact h.distinct, rfl, rfl⟩
  rw [grouped, isGrouped, haggregates, keyed, hnew]
  simp only [bounded, widen, h.groupBy, h.having]
  rfl

/-- The page of an element query is prepared. -/
theorem Paged.exists_page (h : s.Paged innerKey identifier) (fresh : Fresh) :
    ∃ name fresh', ((s.keyed innerKey).withNumbers (s.projectKey innerKey).2 name).columns.Nodup ∧
      Steps (s.prepareElement innerKey identifier) fresh
        ⟨(s.keyed innerKey).page (s.projectKey innerKey).2 name fresh.nextTable s.offset s.limit,
          (s.projectKey innerKey).2, [((s.keyed innerKey).width, true)]⟩ fresh' := by
  obtain ⟨new, hnew, -⟩ := projectKey_eq_widen h.groupBy innerKey
  have hordered : (s.keyed innerKey).orderings ≠ [] := by
    rw [keyed, hnew]
    exact h.ordered
  obtain ⟨name, fresh', hnodup, hsteps⟩ := keepNumbered_page h.rowWise hordered (columns_projectKey_nodup h.nodup)
    (s.projectKey innerKey).2 identifier s.offset s.limit fresh
  have hjoinable : (s.projectKey innerKey).1.makeJoinable (s.projectKey innerKey).2 identifier =
      (s.keyed innerKey).keepNumbered (s.projectKey innerKey).2 identifier s.offset s.limit := by
    have hcollapsed : isCollapsed ((s.widen new).bounded none none) = false := by
      simp [isCollapsed, bounded, widen, h.distinct, h.groupBy]
    rw [keyed, hnew]
    refine (if_pos h.limited).trans ?_
    exact (congrArg (pushDownWhen _ · >>= _) hcollapsed).trans (pure_bind _ _)
  refine ⟨name, fresh', hnodup, ?_⟩
  simp only [prepareElement, hjoinable, steps_bind, steps_ofExcept, steps_pure]
  refine ⟨(), fresh, ⟨checkIdentifier_of_below _ h.identifier, rfl⟩, _, _, hsteps, ?_, rfl⟩
  have hadd := addProjections_numberColumn hnodup fresh.nextTable s.offset s.limit "c"
  exact congrArg (fun x : Select × List Nat => (⟨x.1, (s.projectKey innerKey).2, x.2.zip [true]⟩ : Element)) hadd

/-- A limited element query is prepared to give, for each key, the rows of its page: those that the query itself has with
this key, from the offset up to the limit. -/
theorem prepareElement_pages (h : s.Paged innerKey identifier) (env : Environment) (outer : List Frame) (fresh : Fresh)
    {o l : Option Nat} (hoffset : Option.Rel (Expr.CountsTo env) s.offset o)
    (hlimit : Option.Rel (Expr.CountsTo env) s.limit l) (hsum : o.getD 0 + l.getD 0 < 2 ^ 63)
    (hsorts : (s.keyed innerKey).SortsConsistently env outer) {r : Relation}
    (hrun : (s.keyed innerKey).run env outer = .ok r) (hsize : r.rows.length < 2 ^ 63) :
    ∃ element fresh' page, Steps (s.prepareElement innerKey identifier) fresh element fresh' ∧
      element.key = (s.projectKey innerKey).2 ∧ element.query.run env outer = .ok page ∧ ∀ k : Key,
        ((page.rows.filter (identifierAt element.key · = k)).mergeSort (leAt element.orderings)).map
          (·.take r.columns.length) = cutRows o l (r.rows.filter (identifierAt element.key · = k)) := by
  obtain ⟨name, fresh', hnodup, hsteps⟩ := h.exists_page fresh
  obtain ⟨kept, hkept, hgives, hkeyed, hrows⟩ := h.rowWise.run_eq_ok hrun
  have hkey : Below (s.keyed innerKey).width (s.projectKey innerKey).2 := (s.projectKey_width innerKey).2
  have hwidth : r.columns.length = (s.keyed innerKey).width := by
    obtain ⟨_, _, _, _, _, _, _, _, rfl⟩ := run_eq_ok_iff.1 hrun
    exact length_map _
  have hlength : kept.length < 2 ^ 63 := by rwa [hrows, length_map, length_mergeSort] at hsize
  have hsorted : Sorts ((s.keyed innerKey).frameLe env outer (s.keyed innerKey).orderings) kept := by
    have htransitive := hsorts kept _ hkept hkeyed
    rw [map_map] at htransitive
    exact (htransitive.sorts _ (by simp)).of_map
  refine ⟨_, fresh', _, hsteps, rfl, run_page hnodup (fun x hx => (hgives x.1 (of_mem_zip hx).1).length_rowOf)
    (run_withNumbers hgives hkey h.own h.rowWise name hkept) hoffset hlimit hsum
    (fun x hx => Nat.lt_of_le_of_lt (le_of_mem_numberedFrames hx) hlength), fun k => ?_⟩
  rw [hwidth, hrows]
  exact mergeSort_filter_page hgives hkey hsorted hlength o l k

end Elements

/-- The posts of two blogs, with ranks, and how many to skip. -/
def rankedPosts : Environment where
  tables := [("Posts", ⟨["Id", "BlogId", "Rank"], [[.int32 10, .int32 1, .int32 2], [.int32 11, .int32 2, .int32 1],
    [.int32 12, .int32 1, .int32 1], [.int32 13, .int32 1, .int32 2], [.int32 14, .int32 2, .int32 1]]⟩)]
  parameters := .ofList [("skip", .int64 1)]

/-- The second post by rank. -/
def secondByRank : Select :=
  { empty with
    projections := [⟨"Id", .column ⟨1, none, "Id", none, true⟩⟩], sources := [.table 1 none "Posts" none]
    orderings := [⟨.column ⟨1, none, "Rank", none, true⟩, true⟩]
    offset := some (.parameter "skip" none), limit := some (.constant (.int32 1) none) }

theorem prepareElement_secondByRank :
    secondByRank.Paged [.column ⟨1, none, "BlogId", none, true⟩] [0] ∧
      (secondByRank.keyed [.column ⟨1, none, "BlogId", none, true⟩]).SortsConsistently rankedPosts [] ∧
      ∃ element fresh' page,
        Steps (secondByRank.prepareElement [.column ⟨1, none, "BlogId", none, true⟩] [0]) ⟨0, 2⟩ element fresh' ∧
        element.query.run rankedPosts [] = .ok page ∧
        ((page.rows.filter (identifierAt element.key · = Key.ofValues [.int32 1])).mergeSort
          (leAt element.orderings)).map (·.take 2) = [[.int32 10, .int32 1]] := by
  have hpaged : secondByRank.Paged [.column ⟨1, none, "BlogId", none, true⟩] [0] := by
    refine ⟨nofun, rfl, rfl, rfl, rfl, by decide, by decide, fun t ht p hp => ?_, by decide⟩
    cases mem_singleton.1 ht
    cases hp
  have hsorts : (secondByRank.keyed [.column ⟨1, none, "BlogId", none, true⟩]).SortsConsistently rankedPosts [] := by
    intro frames rows hframes hrows
    cases hframes
    cbv at hrows
    cases hrows
    exact keysSortTransitively_of_forall_lt 1 (by decide) (by decide)
  have hskip : (Expr.parameter "skip" none).CountsTo rankedPosts 1 :=
    ⟨.int64 1, 1, fun _ => (by cbv : rankedPosts.parameter "skip" none = .ok (.int64 1)), rfl, rfl⟩
  have htake : (Expr.constant (.int32 1) none).CountsTo rankedPosts 1 := ⟨.int32 1, 1, fun _ => rfl, rfl, rfl⟩
  have hrun : (secondByRank.keyed [.column ⟨1, none, "BlogId", none, true⟩]).run rankedPosts [] =
      .ok ⟨["Id", "key"], [[.int32 11, .int32 2], [.int32 12, .int32 1], [.int32 14, .int32 2], [.int32 10, .int32 1],
        [.int32 13, .int32 1]]⟩ := by cbv
  obtain ⟨element, fresh', page, hsteps, hkey, hpage, hrows⟩ := prepareElement_pages hpaged rankedPosts [] ⟨0, 2⟩
    (.some hskip) (.some htake) (by decide) hsorts hrun (by decide)
  refine ⟨hpaged, hsorts, element, fresh', page, hsteps, hpage, (hrows _).trans ?_⟩
  rw [hkey]
  cbv

/-- A number and the negative zero, under one parent. -/
def oneAndNegativeZeroOfParent : Environment where
  tables := [("Rows", ⟨["Id", "X", "Parent"], [[.int32 1, .float64 ⟨0x3FF0000000000000⟩, .int32 7],
    [.int32 2, .float64 ⟨0x8000000000000000⟩, .int32 7]]⟩)]
  parameters := .empty

/-- The first row by a comparison with one zero, with the comparison with the other one. -/
def firstBySignedZero : Select :=
  { empty with
    projections := [⟨"Id", .column ⟨1, some "r", "Id", none, true⟩⟩, ⟨"V", differsFrom ⟨0⟩ "r"⟩]
    sources := [.table 1 (some "r") "Rows" none]
    orderings := [⟨differsFrom ⟨0x8000000000000000⟩ "r", true⟩]
    limit := some (.constant (.int32 1) none) }

/-- Zeros of either sign are equal literals, so that the query is sorted by one comparison and numbered by another. -/
theorem prepareElement_ne_of_signed_zeros :
    firstBySignedZero.columns.Nodup ∧
      (firstBySignedZero.keyed [.column ⟨1, some "r", "Parent", none, true⟩]).SortsConsistently
        oneAndNegativeZeroOfParent [] ∧
      ((firstBySignedZero.keyed [.column ⟨1, some "r", "Parent", none, true⟩]).run oneAndNegativeZeroOfParent
        []).toOption.map Relation.rows = some [[.int32 1, .bool true, .int32 7], [.int32 2, .bool true, .int32 7]] ∧
      (firstBySignedZero.preparedRows oneAndNegativeZeroOfParent [.column ⟨1, some "r", "Parent", none, true⟩] [0] ⟨0, 3⟩
        []).toOption.map Relation.rows = some [[.int32 2, .bool true, .int32 7, .int64 1]] := by
  refine ⟨by decide, ?_, by cbv, by cbv⟩
  intro frames rows hframes hrows
  cases hframes
  cbv at hrows
  cases hrows
  exact keysSortTransitively_of_forall_lt 1 (by decide) (by decide)

end Select

end QueryShaping
