import Mathlib.Data.List.Basic
import Mathlib.Data.List.Forall2
import QueryShaping.Proofs.Query.UniqueName
import QueryShaping.Proofs.Query.Widening
import QueryShaping.Proofs.Revision.Alias

/-!
# Pushing a select down keeps its rows

A select that is pushed down has its rows in a derived table, with what it is ordered by in hidden columns behind them.
Every row of the derived table shows two things: the row of the select, when it is cut to the columns of the select, and
its sort keys, when it is read at the places at which the orderings were exposed. The select outside reads the same two
things, so it sorts the same rows by the same keys. What remains is the order of the clauses. Where the derived table is
sorted and cut already, sorting it once more changes nothing; where it only drops repetitions, these can be dropped
before or after sorting, since all keys are part of the row.

Orderings are looked up by equality, and equal literals need not be the same: zeros of either sign are equal. An ordering
that is not projected has to be told apart from the others by that equality, or it would be read from the column of
another one.
-/

namespace QueryShaping

open List

variable {places : List (Nat × Bool)} {terms : List SortTerm} {rows : List Row} {frames outer : List Frame} {i : Nat}

namespace Select

/-! ## Exposed orderings -/

/-- What is known of the projections that are hidden behind those of a select, so that its orderings are found. -/
structure Hides (s : Select) (hidden : List Projection) : Prop where
  origin : ∀ p ∈ hidden, ∃ t ∈ s.orderings, s.placeOf t.expr = none ∧ p.expr = t.expr
  distinct : s.distinct → hidden = []
  nodup : (s.widen hidden).columns.Nodup

/-- Whether an expression is found at a place of the widened select, as the same expression if it is hidden. -/
def ShownAt (s : Select) (hidden : List Projection) (e : Expr) (i : Nat) : Prop :=
  s.placeOf e = some i ∨ s.placeOf e = none ∧ ∃ j p, i = s.width + j ∧ hidden[j]? = some p ∧ p.expr = e

/-- Whether orderings are found at places of the widened select, with their directions. -/
def ShownAll (s : Select) (hidden : List Projection) : List SortTerm → List (Nat × Bool) → Prop :=
  List.Forall₂ fun t place => place.2 = t.ascending ∧ s.ShownAt hidden t.expr place.1

/-- Whether each ordering that is not projected is the only one of its kind: what counts as equal to it is the same
expression. -/
def TellsOrderingsApart (s : Select) : Prop :=
  ∀ t ∈ s.orderings, ∀ u ∈ s.orderings, s.placeOf t.expr = none → s.placeOf u.expr = none → (u.expr == t.expr) →
    u.expr = t.expr

variable {s : Select} {hidden : List Projection}

theorem placeOf_widen (e : Expr) : (s.widen hidden).placeOf e =
    (s.placeOf e).or ((hidden.findIdx? (·.expr == e)).map (· + s.width)) :=
  findIdx?_append

theorem placeOf_lt {e : Expr} (h : s.placeOf e = some i) : i < s.width :=
  (List.findIdx?_eq_some_iff_findIdx_eq.1 h).1

/-- An ordering that is found among the hidden projections is found as itself. -/
theorem Hides.shownAt (h : s.Hides hidden) (hapart : s.TellsOrderingsApart) {t : SortTerm} (ht : t ∈ s.orderings)
    (hi : (s.widen hidden).placeOf t.expr = some i) : s.ShownAt hidden t.expr i := by
  rw [placeOf_widen, Option.or_eq_some_iff] at hi
  obtain hi | ⟨hnone, hi⟩ := hi
  · exact .inl hi
  · rw [Option.map_eq_some_iff] at hi
    obtain ⟨j, hj, rfl⟩ := hi
    rw [findIdx?_eq_some_iff_getElem] at hj
    obtain ⟨hlt, hbeq, -⟩ := hj
    obtain ⟨u, hu, hplace, heq⟩ := h.origin hidden[j] (getElem_mem hlt)
    refine .inr ⟨hnone, j, hidden[j], Nat.add_comm _ _, getElem?_eq_getElem hlt, ?_⟩
    rw [heq] at hbeq ⊢
    exact hapart t ht u hu hnone hplace hbeq

theorem ShownAt.mono {e : Expr} (h : s.ShownAt hidden e i) {hidden' : List Projection}
    (hle : hidden <+: hidden') : s.ShownAt hidden' e i := by
  obtain h | ⟨hnone, j, p, rfl, hp, rfl⟩ := h
  · exact .inl h
  · obtain ⟨more, rfl⟩ := hle
    refine .inr ⟨hnone, j, p, rfl, ?_, rfl⟩
    rw [getElem?_append_left (List.getElem?_eq_some_iff.1 hp).1, hp]

/-- The name of an added projection is new. -/
theorem uniqueName_notMem_columns (s : Select) (hint : String) :
    uniqueName hint (s.projections.map fun p => Text.lowercase p.aliasName) ∉ s.columns := by
  intro hmem
  obtain ⟨p, hp, hname⟩ := mem_map.1 hmem
  have hnew := lowercase_uniqueName_notMem hint (s.projections.map fun p => Text.lowercase p.aliasName)
  rw [← hname] at hnew
  exact hnew (mem_map.2 ⟨p, hp, rfl⟩)

theorem ShownAt.lt_width {e : Expr} (h : s.ShownAt hidden e i) : i < (s.widen hidden).width := by
  rw [width_widen]
  obtain h | ⟨-, j, p, rfl, hp, -⟩ := h
  · exact Nat.lt_add_right _ (placeOf_lt h)
  · exact Nat.add_lt_add_left (List.getElem?_eq_some_iff.1 hp).1 _

/-- One more ordering is exposed. -/
theorem exposeOrdering_step (hapart : s.TellsOrderingsApart) {t : SortTerm} (ht : t ∈ s.orderings)
    (hdistinct : s.distinct → (s.placeOf t.expr).isSome) (h : s.Hides hidden) :
    ∃ hidden' i, (s.widen hidden).exposeOrdering t.expr = (s.widen hidden', some i) ∧ hidden <+: hidden' ∧
      s.Hides hidden' ∧ s.ShownAt hidden' t.expr i := by
  unfold exposeOrdering
  cases hi : (s.widen hidden).projectionIndex? t.expr with
  | some i => exact ⟨hidden, i, rfl, prefix_refl hidden, h, h.shownAt hapart ht hi⟩
  | none =>
    have hnone : s.placeOf t.expr = none := by
      have hi : (s.widen hidden).placeOf t.expr = none := hi
      rw [placeOf_widen, Option.or_eq_none_iff] at hi
      exact hi.1
    have hs : s.distinct = false := by
      by_contra hd
      simp [hnone] at hdistinct
      exact hd hdistinct
    have hw : (s.widen hidden).distinct = false := hs
    let name := uniqueName "c" ((s.widen hidden).projections.map fun p => Text.lowercase p.aliasName)
    have hname : name ∉ (s.widen hidden).columns := uniqueName_notMem_columns _ "c"
    refine ⟨hidden ++ [⟨name, t.expr⟩], s.width + hidden.length, ?_, prefix_append _ _, ⟨?_, ?_, ?_⟩, ?_⟩
    · simp only [hw, Bool.false_eq_true, if_false, addProjection, hi]
      rw [← widen_widen, ← width_widen]
      rfl
    · intro p hp
      rcases mem_append.1 hp with hp | hp
      · exact h.origin p hp
      · rw [mem_singleton] at hp
        exact ⟨t, ht, hnone, by rw [hp]⟩
    · intro hd
      rw [hs] at hd
      cases hd
    · rw [← widen_widen]
      simp only [columns, widen, map_append, map_cons, map_nil] at hname ⊢
      refine List.Nodup.append ?_ (nodup_singleton name) ?_
      · simpa [columns, widen] using h.nodup
      · simpa [disjoint_singleton] using hname
    · exact .inr ⟨hnone, hidden.length, ⟨name, t.expr⟩, rfl, by simp, rfl⟩

/-- What is exposed does not depend on the orderings that the select itself has. -/
theorem exposeOrderings_withOrderings (terms own : List SortTerm) :
    exposeOrderings { s with orderings := own } terms =
      ({ (s.exposeOrderings terms).1 with orderings := own }, (s.exposeOrderings terms).2) := by
  have hstep (s : Select) (e : Expr) : exposeOrdering { s with orderings := own } e =
      ({ (s.exposeOrdering e).1 with orderings := own }, (s.exposeOrdering e).2) := by
    obtain ⟨projections, _, _, _, _, _, _, _, distinct⟩ := s
    simp only [exposeOrdering, addProjection, projectionIndex?]
    cases projections.findIdx? (·.expr == e) with
    | some i => rfl
    | none => cases distinct <;> rfl
  induction terms generalizing s with
  | nil => rfl
  | cons t rest ih =>
    obtain ⟨expr, ascending⟩ := t
    simp only [exposeOrderings, hstep, ih]

/-- All orderings are exposed, one after the other. -/
theorem exposeOrderings_spec (hapart : s.TellsOrderingsApart)
    (hdistinct : ∀ t ∈ s.orderings, s.distinct → (s.placeOf t.expr).isSome) (h : s.Hides hidden)
    (hterms : terms ⊆ s.orderings) :
    ∃ hidden' places, (s.widen hidden).exposeOrderings terms = (s.widen hidden', places) ∧ hidden <+: hidden' ∧
      s.Hides hidden' ∧ s.ShownAll hidden' terms places := by
  induction terms generalizing hidden with
  | nil => exact ⟨hidden, [], rfl, prefix_refl hidden, h, .nil⟩
  | cons t rest ih =>
    obtain ⟨ht, hrest⟩ := List.cons_subset.1 hterms
    obtain ⟨hidden₁, i, hstep, hle₁, h₁, hshown⟩ := exposeOrdering_step hapart ht (hdistinct t ht) h
    obtain ⟨hidden₂, places, hrun, hle₂, h₂, hplaces⟩ := ih h₁ hrest
    refine ⟨hidden₂, (i, t.ascending) :: places, ?_, hle₁.trans hle₂, h₂, .cons ⟨rfl, hshown.mono hle₂⟩ hplaces⟩
    obtain ⟨expr, ascending⟩ := t
    simp only [exposeOrderings, hstep, hrun]
    rfl

/-! ## The rows inside -/

/-- The select in the derived table: with hidden projections, and with its orderings only if these are needed. -/
def inner (s : Select) (hidden : List Projection) (ordered : Bool) : Select :=
  { s.widen hidden with orderings := if ordered then s.orderings else [] }

/-- The sort keys of a row, at the places where the orderings were exposed. -/
def keysAt (places : List (Nat × Bool)) (row : Row) : List Value :=
  places.map fun place => row[place.1]?.getD .null

variable {env : Environment} {numbers numbers' : List (Option Nat)} {scope : Scope} {row extra : Row}

/-- The hidden cells of a row hold the values of the orderings that are not projected. -/
structure HiddenCells (env : Environment) (hidden : List Projection) (scope : Scope) (extra : Row) : Prop where
  length_eq : extra.length = hidden.length
  eval_eq : ∀ (j : Nat) (p : Projection), hidden[j]? = some p → p.expr.eval env scope = .ok (extra[j]?.getD .null)

theorem Hides.exists_hiddenCells (h : s.Hides hidden) {keys : List Value}
    (hkeys : (s.orderings.mapM fun t => t.expr.sortKey env (s.placeOf t.expr) row scope) = .ok keys) :
    ∃ extra, HiddenCells env hidden scope extra := by
  have heval : ∀ p ∈ hidden, ∃ v, p.expr.eval env scope = .ok v := by
    intro p hp
    obtain ⟨t, ht, hplace, heq⟩ := h.origin p hp
    obtain ⟨k, hk⟩ := List.mem_iff_getElem?.1 ht
    have hmap := congrArg (·[k]?) (Except.mapM_eq_ok_iff.1 hkeys)
    simp only [getElem?_map, hk, Option.map_some, hplace, Expr.sortKey] at hmap
    obtain ⟨v, -, hv⟩ := Option.map_eq_some_iff.1 hmap.symm
    exact ⟨v, by rw [heq, ← hv]⟩
  obtain ⟨extra, hextra⟩ := Except.mapM_ok_of_forall heval
  have hmap := Except.mapM_eq_ok_iff.1 hextra
  refine ⟨extra, by simpa using (congrArg List.length hmap).symm, fun j p hp => ?_⟩
  have hj := congrArg (·[j]?) hmap
  simp only [getElem?_map, hp, Option.map_some] at hj
  obtain ⟨v, hv, hj⟩ := Option.map_eq_some_iff.1 hj.symm
  rw [hv, Option.getD_some, ← hj]

theorem HiddenCells.evalAll (h : HiddenCells env hidden scope extra)
    (hrow : Projection.evalAll env s.projections numbers scope = .ok row)
    (hn : ∀ i < s.width, numbers'[i]?.join = numbers[i]?.join) (hn' : ∀ i, s.width ≤ i → numbers'[i]?.join = none) :
    Projection.evalAll env (s.widen hidden).projections numbers' scope = .ok (row ++ extra) := by
  refine Projection.evalAll_append hrow hn (Projection.evalAll_eq_ok_iff.2 ⟨h.length_eq, fun j p hp => ?_⟩)
  have hlt : j < extra.length := h.length_eq ▸ (List.getElem?_eq_some_iff.1 hp).1
  refine ⟨extra[j], getElem?_eq_getElem hlt, ?_⟩
  have heval := h.eval_eq j p hp
  rw [getElem?_eq_getElem hlt, Option.getD_some] at heval
  rw [getElem?_drop, hn' _ (Nat.le_add_right _ _)]
  exact heval

/-- A sort key is what the widened row has at the place of its ordering. -/
theorem ShownAt.sortKey {e : Expr} (h : s.ShownAt hidden e i) (hcells : HiddenCells env hidden scope extra)
    (hrow : row.length = s.width) :
    e.sortKey env (s.placeOf e) row scope = .ok ((row ++ extra)[i]?.getD .null) := by
  obtain h | ⟨hnone, j, p, rfl, hp, rfl⟩ := h
  · rw [h, getElem?_append_left (hrow ▸ placeOf_lt h)]
    rfl
  · rw [hnone, ← hrow, getElem?_append_right (Nat.le_add_right _ _), Nat.add_sub_cancel_left]
    exact hcells.eval_eq j p hp

theorem ShownAll.keys_eq (h : s.ShownAll hidden terms places)
    (hcells : HiddenCells env hidden scope extra) (hrow : row.length = s.width) :
    (terms.mapM fun t => t.expr.sortKey env (s.placeOf t.expr) row scope) = .ok (keysAt places (row ++ extra)) := by
  rw [Except.mapM_eq_ok_iff, keysAt, map_map]
  induction h with
  | nil => rfl
  | cons hhead _ ih =>
    rw [map_cons, map_cons, hhead.2.sortKey hcells hrow, ih]
    rfl

/-- The widened row has the same sort keys. -/
theorem Hides.sortKey_widen (h : s.Hides hidden) (hapart : s.TellsOrderingsApart)
    (hcells : HiddenCells env hidden scope extra) (hrow : row.length = s.width) {t : SortTerm} (ht : t ∈ s.orderings) :
    t.expr.sortKey env ((s.widen hidden).placeOf t.expr) (row ++ extra) scope =
      t.expr.sortKey env (s.placeOf t.expr) row scope := by
  cases hi : (s.widen hidden).placeOf t.expr with
  | some i => exact ((h.shownAt hapart ht hi).sortKey hcells hrow).symm
  | none =>
    rw [placeOf_widen, Option.or_eq_none_iff] at hi
    rw [hi.1]
    rfl

/-- The row inside, of which the row outside and its sort keys can be read. -/
theorem Hides.keyedRow (h : s.Hides hidden) (hapart : s.TellsOrderingsApart)
    (hplaces : s.ShownAll hidden s.orderings places) (ordered : Bool) {keyed : Row × List Value}
    (hkeyed : s.keyedRow env numbers scope = .ok keyed) (numbers' : List (Option Nat))
    (hn : ∀ i < s.width, numbers'[i]?.join = numbers[i]?.join) (hn' : ∀ i, s.width ≤ i → numbers'[i]?.join = none) :
    ∃ full, keyed = (full.take s.width, keysAt places full) ∧
      (s.inner hidden ordered).keyedRow env numbers' scope = .ok (full, if ordered then keysAt places full else []) ∧
      full.length = (s.widen hidden).width ∧ ∀ p ∈ hidden, ∃ v, p.expr.eval env scope = .ok v := by
  obtain ⟨row, hrow, hkeyed⟩ := Except.bind_eq_ok_iff.1 hkeyed
  obtain ⟨keys, hkeys, hkeyed⟩ := Except.bind_eq_ok_iff.1 hkeyed
  cases hkeyed
  obtain ⟨extra, hcells⟩ := h.exists_hiddenCells hkeys
  have hlength : row.length = s.width := (Projection.evalAll_eq_ok_iff.1 hrow).1
  have hkeys' := hplaces.keys_eq hcells hlength
  refine ⟨row ++ extra, ?_, ?_, ?_, ?_⟩
  · rw [take_left' hlength]
    rw [hkeys'] at hkeys
    cases hkeys
    rfl
  · have hrow' := hcells.evalAll hrow hn hn'
    unfold Select.keyedRow inner
    simp only [hrow', bind, Except.bind]
    cases ordered with
    | false => rfl
    | true =>
      have heq : (s.orderings.mapM fun t => t.expr.sortKey env ((s.widen hidden).placeOf t.expr) (row ++ extra) scope) =
          .ok (keysAt places (row ++ extra)) := by
        rw [Except.mapM_eq_ok_iff] at hkeys' ⊢
        rw [← hkeys']
        exact map_congr_left fun t ht => h.sortKey_widen hapart hcells hlength ht
      exact congrArg (fun x => x >>= fun keys => pure (row ++ extra, keys)) heq
  · rw [length_append, hlength, hcells.length_eq, width_widen]
  · intro p hp
    obtain ⟨j, hj⟩ := List.mem_iff_getElem?.1 hp
    exact ⟨_, hcells.eval_eq j p hj⟩

theorem Hides.grouped_inner (h : s.Hides hidden) (hordered : s.grouped ∨ ∀ t ∈ s.orderings, t.expr.containsAggregate = false)
    (ordered : Bool) : (s.inner hidden ordered).grouped = s.grouped := by
  have heq : (s.inner hidden ordered).grouped = (s.grouped || hidden.any (·.expr.containsAggregate)) := by
    simp only [grouped, isGrouped, inner, widen, any_append, Bool.or_assoc]
  rw [heq]
  obtain hg | hordered := hordered
  · rw [hg, Bool.true_or]
  · have hnone : hidden.any (·.expr.containsAggregate) = false := by
      rw [any_eq_false]
      intro p hp
      obtain ⟨t, ht, -, hexpr⟩ := h.origin p hp
      rw [hexpr, hordered t ht]
      exact Bool.false_ne_true
    rw [hnone, Bool.or_false]

/-- Hidden projections number no rows: where there is a row at all, the select itself had to evaluate them. -/
theorem Hides.windows (h : s.Hides hidden) {windows : List (List (Option Nat))}
    (hwindows : Projection.windows env s.projections frames outer = .ok windows)
    (hrows : ∀ numbered ∈ frames.zip windows, ∃ keyed, s.keyedRow env numbered.2 (.ofRow numbered.1 outer) = .ok keyed) :
    Projection.windows env (s.projections ++ hidden) frames outer =
      .ok (windows.map (· ++ hidden.map fun _ => none)) := by
  have hlength := Projection.length_windows hwindows
  cases frames with
  | nil =>
    rw [length_nil, length_eq_zero_iff] at hlength
    rw [hlength, Projection.windows_nil]
    rfl
  | cons frame frames =>
    obtain ⟨numbers, rest, rfl⟩ := exists_cons_of_length_eq_add_one hlength
    obtain ⟨keyed, hkeyed⟩ := hrows (frame, numbers) mem_cons_self
    obtain ⟨row, -, hkeyed⟩ := Except.bind_eq_ok_iff.1 hkeyed
    obtain ⟨keys, hkeys, -⟩ := Except.bind_eq_ok_iff.1 hkeyed
    obtain ⟨extra, hcells⟩ := h.exists_hiddenCells hkeys
    have hnone : ∀ p ∈ hidden, p.expr.isRowNumber = false := by
      intro p hp
      obtain ⟨j, hj⟩ := List.mem_iff_getElem?.1 hp
      have heval := hcells.eval_eq j p hj
      by_contra hrow
      rw [Expr.eval_of_isRowNumber (by simpa using hrow)] at heval
      cases heval
    rw [Projection.windows_append hnone, hwindows]
    rfl

/-- The rows inside, of which the rows and their sort keys can be read. -/
theorem Hides.keyedRows (h : s.Hides hidden) (hapart : s.TellsOrderingsApart)
    (hplaces : s.ShownAll hidden s.orderings places) (ordered : Bool)
    (hordered : s.grouped ∨ ∀ t ∈ s.orderings, t.expr.containsAggregate = false)
    {rows : List (Row × List Value)} (hrows : s.keyedRows env frames outer = .ok rows) :
    ∃ fulls : List Row, rows = fulls.map (fun full => (full.take s.width, keysAt places full)) ∧
      (s.inner hidden ordered).keyedRows env frames outer =
        .ok (fulls.map fun full => (full, if ordered then keysAt places full else [])) ∧
      ∀ full ∈ fulls, full.length = (s.widen hidden).width := by
  rw [Select.keyedRows] at hrows ⊢
  rw [h.grouped_inner hordered]
  cases hgrouped : s.grouped with
  | true =>
    simp only [hgrouped, if_true] at hrows ⊢
    obtain ⟨groups, hgroups, hrows⟩ := Except.bind_eq_ok_iff.1 hrows
    have hgroups' : (s.inner hidden ordered).groups env frames outer = .ok groups := hgroups
    rw [hgroups']
    refine Except.filterMapM_ok_of_views (fun group _ b hb => ?_) hrows
    obtain ⟨holds, hholds, hb⟩ := Except.bind_eq_ok_iff.1 hb
    have hholds' : Expr.holdsOption env (s.inner hidden ordered).having (Scope.ofGroup group outer) = .ok holds := hholds
    simp only [hholds', bind, Except.bind]
    cases holds with
    | false =>
      cases hb
      exact ⟨none, rfl, rfl, fun _ hx => by cases hx⟩
    | true =>
      obtain ⟨keyed, hkeyed, hb⟩ := Except.bind_eq_ok_iff.1 hb
      cases hb
      obtain ⟨full, hfull, hinner, hlength, -⟩ := h.keyedRow hapart hplaces ordered hkeyed []
        (fun _ _ => rfl) (fun _ _ => rfl)
      refine ⟨some full, by rw [hfull]; rfl, ?_, fun x hx => by cases hx; exact hlength⟩
      simp only [if_true, hinner]
      rfl
  | false =>
    simp only [hgrouped, Bool.false_eq_true, if_false] at hrows ⊢
    obtain ⟨windows, hwindows, hrows⟩ := Except.bind_eq_ok_iff.1 hrows
    have hrow : ∀ numbered ∈ frames.zip windows, ∃ keyed, s.keyedRow env numbered.2 (.ofRow numbered.1 outer) = .ok keyed := by
      intro numbered hmem
      have hmap := Except.mapM_eq_ok_iff.1 hrows
      have hmem := mem_map_of_mem (f := fun numbered : Frame × List (Option Nat) =>
        s.keyedRow env numbered.2 (.ofRow numbered.1 outer)) hmem
      rw [hmap] at hmem
      obtain ⟨keyed, -, hkeyed⟩ := mem_map.1 hmem
      exact ⟨keyed, hkeyed.symm⟩
    have hinner : Projection.windows env (s.inner hidden ordered).projections frames outer = _ := h.windows hwindows hrow
    rw [hinner]
    simp only [bind, Except.bind, zip_map_right, mapM_map]
    refine Except.mapM_ok_of_views (fun numbered hmem keyed hkeyed => ?_) hrows
    have hlength := Projection.length_of_mem_windows hwindows (of_mem_zip hmem).2
    obtain ⟨full, hfull, hinner, hwidth, -⟩ := h.keyedRow hapart hplaces ordered hkeyed
      (numbered.2 ++ hidden.map fun _ => none)
      (fun i hi => by rw [getElem?_append_left (hlength ▸ hi)])
      (fun i hi => by
        rw [getElem?_append_right (hlength ▸ hi), getElem?_map]
        cases hidden[i - numbered.2.length]? <;> rfl)
    exact ⟨full, hfull, hinner, hwidth⟩

/-! ## The select outside -/

theorem filterMap_getElem?_range {α : Type} (l : List α) (n : Nat) : (List.range n).filterMap (l[·]?) = l.take n := by
  induction n with
  | zero => rfl
  | succ n ih =>
    rw [range_succ, filterMap_append, ih, take_add_one]
    cases h : l[n]? <;> simp [h]

/-- The column of a derived table that stands for a projection of the select in it. -/
def outerColumn (id : TableId) (aliasName : String) (p : Projection) : ColumnRef :=
  ⟨id, some aliasName, p.aliasName, p.expr.mapping?, p.expr.isNullable⟩

/-- The select over a derived table that projects its first columns. -/
def overDerived (id : TableId) (aliasName : String) (inner : Select) (width : Nat) (places : List (Nat × Bool)) : Select :=
  { empty with
    projections := (inner.projections.take width).map fun p => ⟨p.aliasName, .column (outerColumn id aliasName p)⟩
    sources := [.derived id (some aliasName) inner]
    orderings := places.filterMap fun place =>
      inner.projections[place.1]?.map fun p => ⟨.column (outerColumn id aliasName p), place.2⟩ }

theorem pushDown_eq (id : TableId) (aliasName : String)
    (hexposed : exposeOrderings { s with orderings := [] } s.orderings =
      ({ s with orderings := [] }.widen hidden, places)) :
    s.pushDown id aliasName =
      overDerived id aliasName (s.inner hidden (s.limit.isSome || s.offset.isSome)) s.width places := by
  have hcolumns (inner : Select) : (List.range s.width).filterMap (fun i =>
      (inner.projections[i]?.map (outerColumn id aliasName)).map fun c => (⟨c.name, .column c⟩ : Projection)) =
      (inner.projections.take s.width).map fun p => ⟨p.aliasName, .column (outerColumn id aliasName p)⟩ := by
    rw [← filterMap_getElem?_range, map_filterMap]
    simp only [Option.map_map]
    rfl
  have horderings (inner : Select) : places.filterMap (fun place =>
      (inner.projections[place.1]?.map (outerColumn id aliasName)).map fun c => (⟨.column c, place.2⟩ : SortTerm)) =
      places.filterMap fun place =>
        inner.projections[place.1]?.map fun p => ⟨.column (outerColumn id aliasName p), place.2⟩ := by
    simp only [Option.map_map]
    rfl
  simp only [pushDown, hexposed, overDerived, ← hcolumns, ← horderings]
  rfl

section Over

variable {inner : Select} {id : TableId} {aliasName : String} {width : Nat} {places : List (Nat × Bool)}

/-- Columns of a row are found by name, which works because the names are distinct. -/
theorem Bound.get_of_nodup {columns : List String} (hnodup : columns.Nodup) {name : String}
    (hname : columns[i]? = some name) (id : TableId) (row : Row) :
    (⟨id, columns, some row⟩ : Bound).get name = .ok (row[i]?.getD .null) := by
  obtain ⟨hlt, hname⟩ := List.getElem?_eq_some_iff.1 hname
  unfold Bound.get
  split
  · rename_i index hfind
    rw [findIdx?_eq_some_iff_getElem] at hfind
    obtain ⟨hindex, heq, -⟩ := hfind
    have heq : columns[index] = columns[i] := (of_decide_eq_true heq).trans hname.symm
    rw [hnodup.getElem_inj_iff] at heq
    rw [heq]
    rfl
  · rename_i hfind
    rw [findIdx?_eq_none_iff] at hfind
    exact absurd hname (of_decide_eq_false (hfind _ (getElem_mem hlt)))

theorem eval_outerColumn (env : Environment) (hnodup : inner.columns.Nodup) {p : Projection} (hp : inner.projections[i]? = some p)
    (row : Row) (outer : List Frame) :
    (Expr.column (outerColumn id aliasName p)).eval env (.ofRow [⟨id, inner.columns, some row⟩] outer) =
      .ok (row[i]?.getD .null) := by
  have hname : inner.columns[i]? = some p.aliasName := by rw [columns, getElem?_map, hp, Option.map_some]
  rw [← Bound.get_of_nodup hnodup hname id row]
  simp [Expr.eval, Scope.column, Scope.bound?, Scope.frames, Scope.ofRow, outerColumn]

theorem keptFrames_overDerived {outer : List Frame} {r : Relation} (hrun : inner.run env outer = .ok r) :
    (overDerived id aliasName inner width places).keptFrames env outer =
      .ok (r.rows.map fun row => [⟨id, r.columns, some row⟩]) := by
  simp only [keptFrames, overDerived, empty, Source.joinAll, Source.rows, hrun, bind, Except.bind, Expr.holdsOption]
  rw [Except.filterM_eq_ok_iff]
  exact ⟨fun _ _ => ⟨true, rfl⟩, by simp [crossJoin, Frame.extendAll, Frame.extend, Source.id, Except.saysYes]⟩

/-- The row outside is read off the row inside. -/
theorem evalAll_overDerived (hnodup : inner.columns.Nodup) {row : Row} (hrow : row.length = inner.width) (outer : List Frame) :
    Projection.evalAll env (overDerived id aliasName inner width places).projections
      ((overDerived id aliasName inner width places).projections.map fun _ => none)
      (.ofRow [⟨id, inner.columns, some row⟩] outer) = .ok (row.take width) := by
  rw [Projection.evalAll_eq_ok_iff]
  refine ⟨by simp [overDerived, hrow], fun i p hp => ?_⟩
  have hnone : (((overDerived id aliasName inner width places).projections.map fun _ => (none : Option Nat))[i]?).join =
      none := by
    rw [getElem?_map, hp]
    rfl
  simp only [overDerived, getElem?_map, Option.map_eq_some_iff, getElem?_take, Option.ite_none_right_eq_some] at hp
  obtain ⟨q, ⟨hi, hq⟩, rfl⟩ := hp
  have hlt : i < row.length := hrow ▸ (List.getElem?_eq_some_iff.1 hq).1
  refine ⟨row[i], by rw [getElem?_take_of_lt hi, getElem?_eq_getElem hlt], ?_⟩
  rw [hnone]
  exact (eval_outerColumn env hnodup hq row outer).trans (by rw [getElem?_eq_getElem hlt]; rfl)

/-- A sort key outside is read off the row inside, by whichever way it is found. -/
theorem sortKey_overDerived (env : Environment) (hnodup : inner.columns.Nodup) {row : Row} (outer : List Frame) {p : Projection}
    (hp : inner.projections[i]? = some p) :
    (Expr.column (outerColumn id aliasName p)).sortKey env
      ((overDerived id aliasName inner width places).placeOf (.column (outerColumn id aliasName p))) (row.take width)
      (.ofRow [⟨id, inner.columns, some row⟩] outer) = .ok (row[i]?.getD .null) := by
  cases hplace : (overDerived id aliasName inner width places).placeOf (.column (outerColumn id aliasName p)) with
  | none => exact eval_outerColumn env hnodup hp row outer
  | some j =>
    obtain ⟨hlt, hbeq, -⟩ := findIdx?_eq_some_iff_getElem.1 hplace
    obtain ⟨q, hq⟩ : ∃ q, (inner.projections.take width)[j]? = some q :=
      ⟨_, getElem?_eq_getElem (by simpa [overDerived] using hlt)⟩
    rw [getElem?_take, Option.ite_none_right_eq_some] at hq
    obtain ⟨hj, hq⟩ := hq
    -- Equal columns have one name, and there is one column of each name.
    have hname : q.aliasName = p.aliasName := by
      have hget : (overDerived id aliasName inner width places).projections[j] =
          ⟨q.aliasName, .column (outerColumn id aliasName q)⟩ := by
        obtain ⟨_, rfl⟩ := List.getElem?_eq_some_iff.1 hq
        simp [overDerived]
      rw [hget] at hbeq
      exact congrArg ColumnRef.name (of_decide_eq_true hbeq)
    have hcolumn {k : Nat} {r : Projection} (hr : inner.projections[k]? = some r) : inner.columns[k]? = some r.aliasName := by
      rw [columns, getElem?_map, hr, Option.map_some]
    have heq : j = i := by
      have hji : inner.columns[j]? = inner.columns[i]? := by rw [hcolumn hq, hcolumn hp, hname]
      exact (getElem?_inj (List.getElem?_eq_some_iff.1 (hcolumn hq)).1 hnodup).1 hji
    subst heq
    rw [Expr.sortKey, getElem?_take_of_lt hj]

/-- The sort keys outside are read off the row inside, too. -/
theorem keyedRow_overDerived (hnodup : inner.columns.Nodup) {row : Row} (hrow : row.length = inner.width)
    (hplaces : ∀ place ∈ places, place.1 < inner.width) (outer : List Frame) :
    (overDerived id aliasName inner width places).keyedRow env
      ((overDerived id aliasName inner width places).projections.map fun _ => none)
      (.ofRow [⟨id, inner.columns, some row⟩] outer) = .ok (row.take width, keysAt places row) := by
  have hkeys : ((overDerived id aliasName inner width places).orderings.mapM fun t => t.expr.sortKey env
      ((overDerived id aliasName inner width places).placeOf t.expr) (row.take width)
      (.ofRow [⟨id, inner.columns, some row⟩] outer)) = .ok (keysAt places row) := by
    rw [Except.mapM_eq_ok_iff, keysAt, map_map]
    change List.map _ (places.filterMap fun place => _) = _
    rw [map_filterMap, ← filterMap_eq_map]
    refine filterMap_congr fun place hmem => ?_
    have hp := getElem?_eq_getElem (hplaces place hmem)
    rw [hp, Option.map_some, Option.map_some, sortKey_overDerived env hnodup outer hp]
    rfl
  simp only [keyedRow, evalAll_overDerived hnodup hrow outer, hkeys, bind, Except.bind]
  rfl

theorem expr_of_mem_overDerived {p : Projection} (hp : p ∈ (overDerived id aliasName inner width places).projections) :
    ∃ q, p.expr = .column (outerColumn id aliasName q) := by
  obtain ⟨q, -, rfl⟩ := mem_map.1 hp
  exact ⟨q, rfl⟩

theorem grouped_overDerived : (overDerived id aliasName inner width places).grouped = false := by
  have hany : (overDerived id aliasName inner width places).projections.any (·.expr.containsAggregate) = false := by
    rw [any_eq_false]
    intro p hp
    obtain ⟨c, hc⟩ := expr_of_mem_overDerived hp
    rw [hc]
    exact Bool.false_ne_true
  rw [grouped, isGrouped, hany]
  rfl

theorem windows_overDerived (frames outer : List Frame) :
    Projection.windows env (overDerived id aliasName inner width places).projections frames outer =
      .ok (frames.map fun _ => (overDerived id aliasName inner width places).projections.map fun _ => none) := by
  have hnone : ∀ p ∈ (overDerived id aliasName inner width places).projections, p.expr.isRowNumber = false := by
    intro p hp
    obtain ⟨c, hc⟩ := expr_of_mem_overDerived hp
    rw [hc]
    rfl
  exact Projection.windows_of_not_isRowNumber hnone frames outer

theorem keyedRows_overDerived (hnodup : inner.columns.Nodup)
    (hrows : ∀ row ∈ rows, row.length = inner.width) (hplaces : ∀ place ∈ places, place.1 < inner.width)
    (outer : List Frame) :
    (overDerived id aliasName inner width places).keyedRows env (rows.map fun row => [⟨id, inner.columns, some row⟩]) outer =
      .ok (rows.map fun row => (row.take width, keysAt places row)) := by
  rw [keyedRows, grouped_overDerived]
  simp only [Bool.false_eq_true, if_false, windows_overDerived, bind, Except.bind]
  rw [Except.mapM_eq_ok_iff, map_map, zip_map', map_map, map_map]
  exact map_congr_left fun row hmem => keyedRow_overDerived hnodup (hrows row hmem) hplaces outer

theorem run_overDerived (hnodup : inner.columns.Nodup) {outer : List Frame}
    (hrun : inner.run env outer = .ok ⟨inner.columns, rows⟩) (hrows : ∀ row ∈ rows, row.length = inner.width)
    (hplaces : ∀ place ∈ places, place.1 < inner.width) :
    (overDerived id aliasName inner width places).run env outer =
      .ok ⟨inner.columns.take width, sortByKeys (places.map (·.2)) (rows.map fun row => (row.take width, keysAt places row))⟩ := by
  have hcolumns : (overDerived id aliasName inner width places).columns = inner.columns.take width := by
    rw [columns, overDerived, map_map, columns, ← map_take]
    rfl
  have hascending : (overDerived id aliasName inner width places).orderings.map (·.ascending) = places.map (·.2) := by
    change List.map _ (places.filterMap fun place => _) = _
    rw [map_filterMap, ← filterMap_eq_map]
    refine filterMap_congr fun place hmem => ?_
    rw [getElem?_eq_getElem (hplaces place hmem)]
    rfl
  rw [run_eq, keptFrames_overDerived hrun, hcolumns]
  simp only [bind, Except.bind, keyedRows_overDerived hnodup hrows hplaces]
  rw [arrange, hascending]
  rfl

end Over

/-! ## The rows outside -/

/-- The rows without repetitions, if these are not wanted. -/
def withoutRepetitions (distinct : Bool) (rows : List Row) : List Row :=
  if distinct then distinctRows [] rows else rows

theorem withoutRepetitions_sublist (distinct : Bool) (rows : List Row) :
    (withoutRepetitions distinct rows).Sublist rows := by
  cases distinct with
  | true => exact distinctRows_sublist [] rows
  | false => exact List.Sublist.refl rows

theorem cutRows_sublist (offset limit : Option Nat) (rows : List Row) : (cutRows offset limit rows).Sublist rows := by
  unfold cutRows
  cases limit with
  | none => exact drop_sublist _ _
  | some n => exact (take_sublist _ _).trans (drop_sublist _ _)

theorem cutRows_map (offset limit : Option Nat) (f : Row → Row) (rows : List Row) :
    cutRows offset limit (rows.map f) = (cutRows offset limit rows).map f := by
  unfold cutRows
  cases limit <;> simp only [map_drop, map_take]

/-- The order of rows by what stands at places of them. -/
def leAt (places : List (Nat × Bool)) (a b : Row) : Bool :=
  keysLe (places.map (·.2)) (keysAt places a) (keysAt places b)

theorem keysAt_congr (places : List (Nat × Bool)) {a b : Row} (h : Key.ofValues a = Key.ofValues b) :
    Key.ofValues (keysAt places a) = Key.ofValues (keysAt places b) := by
  simp only [Key.ofValues, keysAt, map_map]
  refine map_congr_left fun place _ => ?_
  have hplace := congrArg (·[place.1]?) h
  simp only [Key.ofValues, getElem?_map] at hplace
  cases ha : a[place.1]? <;> cases hb : b[place.1]? <;> simp_all

theorem sorts_leAt (h : KeysSortTransitively (rows.map (keysAt places))) : Sorts (leAt places) rows :=
  (h.sorts (places.map Prod.snd) (by simp [keysAt])).of_map

/-- Rows can be sorted before or after repetitions are dropped. -/
theorem withoutRepetitions_mergeSort (distinct : Bool) (h : Sorts (leAt places) rows) :
    withoutRepetitions distinct (rows.mergeSort (leAt places)) =
      (withoutRepetitions distinct rows).mergeSort (leAt places) := by
  cases distinct with
  | true => exact distinctRows_mergeSort (fun _ _ => keysAt_congr places) h
  | false => rfl

theorem ShownAll.ascending_eq (h : s.ShownAll hidden terms places) :
    terms.map (·.ascending) = places.map (·.2) := by
  induction h with
  | nil => rfl
  | cons hhead _ ih => rw [map_cons, map_cons, hhead.1, ih]

theorem ShownAll.lt_width (h : s.ShownAll hidden terms places) :
    ∀ place ∈ places, place.1 < (s.widen hidden).width := by
  induction h with
  | nil => simp
  | cons hhead _ ih => exact forall_mem_cons.2 ⟨hhead.2.lt_width, ih⟩

/-- The rows of the select, under any orderings, are those of the derived table, cut to its width. -/
theorem Hides.arrange_eq (h : s.Hides hidden)
    (hplaces : terms.map (·.ascending) = places.map (·.2)) {fulls : List Row}
    (hlength : ∀ full ∈ fulls, full.length = (s.widen hidden).width) :
    arrange { s with orderings := terms } (fulls.map fun full => (full.take s.width, keysAt places full)) =
      (withoutRepetitions s.distinct (fulls.mergeSort (leAt places))).map (·.take s.width) := by
  rw [arrange, hplaces, sortByKeys_map]
  change withoutRepetitions s.distinct ((fulls.mergeSort (leAt places)).map _) = _
  cases hdistinct : s.distinct with
  | false => rfl
  | true =>
    -- Nothing is hidden then, so nothing is cut off.
    have htake (rows : List Row) (hsub : rows ⊆ fulls) : rows.map (·.take s.width) = rows := by
      refine (map_congr_left fun row hmem => ?_).trans (map_id' rows)
      rw [take_of_length_le]
      rw [hlength row (hsub hmem), h.distinct hdistinct, widen_nil]
    rw [htake _ (mergeSort_perm fulls _).subset,
      htake _ (List.Subset.trans (withoutRepetitions_sublist true _).subset (mergeSort_perm fulls _).subset)]

theorem arrange_inner (hplaces : s.ShownAll hidden s.orderings places) (ordered : Bool) (fulls : List Row) :
    (s.inner hidden ordered).arrange (fulls.map fun full => (full, if ordered then keysAt places full else [])) =
      withoutRepetitions s.distinct (if ordered then fulls.mergeSort (leAt places) else fulls) := by
  have hsorted : sortByKeys ((s.inner hidden ordered).orderings.map (·.ascending))
      (fulls.map fun full => (full, if ordered then keysAt places full else [])) =
        if ordered then fulls.mergeSort (leAt places) else fulls := by
    cases ordered with
    | true =>
      have hascending : (s.inner hidden true).orderings.map (·.ascending) = places.map (·.2) := hplaces.ascending_eq
      rw [hascending]
      exact (sortByKeys_map _ fulls _ _).trans (map_id' _)
    | false =>
      refine (sortByKeys_of_sorted _ _ (pairwise_of_forall fun _ _ => ?_)).trans (map_id' _)
      rfl
  rw [arrange, hsorted]
  rfl

/-- Sorting outside gives back the order inside, and it gives the order where there was none inside. -/
theorem mergeSort_cutRows (h : Sorts (leAt places) rows) (distinct : Bool)
    {ordered : Bool} {offset limit : Option Nat} (hwhole : ordered = false → offset = none ∧ limit = none) :
    (cutRows offset limit (withoutRepetitions distinct
        (if ordered then rows.mergeSort (leAt places) else rows))).mergeSort (leAt places) =
      cutRows offset limit (withoutRepetitions distinct (rows.mergeSort (leAt places))) := by
  cases ordered with
  | true =>
    refine mergeSort_of_pairwise (h.pairwise_mergeSort.sublist ?_)
    exact (cutRows_sublist _ _ _).trans (withoutRepetitions_sublist _ _)
  | false =>
    obtain ⟨rfl, rfl⟩ := hwhole rfl
    exact (withoutRepetitions_mergeSort distinct h).symm

/-- The relation of the derived table. -/
theorem run_inner (hplaces : s.ShownAll hidden s.orderings places) (ordered : Bool)
    {fulls : List Row} {offset limit : Option Nat} (hframes : s.keptFrames env outer = .ok frames)
    (hfulls : (s.inner hidden ordered).keyedRows env frames outer =
      .ok (fulls.map fun full => (full, if ordered then keysAt places full else [])))
    (hoffset : Expr.countOption env s.offset outer = .ok offset)
    (hlimit : Expr.countOption env s.limit outer = .ok limit) :
    (s.inner hidden ordered).run env outer = .ok ⟨(s.inner hidden ordered).columns, cutRows offset limit
      (withoutRepetitions s.distinct (if ordered then fulls.mergeSort (leAt places) else fulls))⟩ := by
  rw [← arrange_inner hplaces]
  exact run_eq_ok_iff.2 ⟨frames, _, offset, limit, hframes, hfulls, hoffset, hlimit, rfl⟩

/-- Whether the sort keys of the rows that the select has can be sorted. -/
def SortsConsistently (env : Environment) (s : Select) (outer : List Frame) : Prop :=
  ∀ frames rows, s.keptFrames env outer = .ok frames → s.keyedRows env frames outer = .ok rows →
    KeysSortTransitively (rows.map (·.2))

/-- Whether the rows of a select are kept when it is pushed down. -/
structure Pushable (s : Select) : Prop where
  nodup : s.columns.Nodup
  projected : s.distinct = false ∨ ∀ t ∈ s.orderings, (s.placeOf t.expr).isSome
  aggregates : s.grouped ∨ ∀ t ∈ s.orderings, t.expr.containsAggregate = false
  apart : s.TellsOrderingsApart

/-- Whether rows are cut off. -/
abbrev limited (s : Select) : Bool := s.limit.isSome || s.offset.isSome

theorem bounds_of_not_limited (h : s.limited = false) : s.limit = none ∧ s.offset = none := by
  rwa [limited, Bool.or_eq_false_iff, Option.isSome_eq_false_iff, Option.isSome_eq_false_iff, Option.isNone_iff_eq_none,
    Option.isNone_iff_eq_none] at h

/-- A select that is pushed down, by what is hidden in the derived table. -/
theorem Pushable.exists_pushDown_eq (hs : s.Pushable) :
    ∃ hidden places, s.Hides hidden ∧ s.ShownAll hidden s.orderings places ∧ ∀ id aliasName, s.pushDown id aliasName =
      overDerived id aliasName (s.inner hidden s.limited) s.width places := by
  have hdistinct : ∀ t ∈ s.orderings, s.distinct → (s.placeOf t.expr).isSome := by
    intro t ht hd
    exact hs.projected.elim (fun hd' => absurd hd (by simp [hd'])) fun hall => hall t ht
  have hnil : s.Hides [] := { origin := by simp, distinct := fun _ => rfl, nodup := by simpa [widen_nil] using hs.nodup }
  obtain ⟨hidden, places, hexposed, -, h, hplaces⟩ := exposeOrderings_spec hs.apart hdistinct hnil (List.Subset.refl _)
  refine ⟨hidden, places, h, hplaces, fun id aliasName => pushDown_eq id aliasName ?_⟩
  rw [widen_nil] at hexposed
  rw [exposeOrderings_withOrderings, hexposed]
  rfl

/-- The rows of a select are found in the derived table, in the order of the places. -/
theorem Hides.run_eq_ok (h : s.Hides hidden) (hs : s.Pushable)
    (hplaces : s.ShownAll hidden s.orderings places) {outer : List Frame} (hsorts : s.SortsConsistently env outer)
    {r : Relation} (hrun : s.run env outer = .ok r) :
    ∃ found, (s.inner hidden s.limited).run env outer = .ok ⟨(s.inner hidden s.limited).columns, found⟩ ∧
      (∀ row ∈ found, row.length = (s.widen hidden).width) ∧
      r = ⟨s.columns, (found.mergeSort (leAt places)).map (·.take s.width)⟩ := by
  -- The stages of the select itself, with its rows as views of those of the derived table.
  obtain ⟨frames, rows, offset, limit, hframes, hrows, hoffset, hlimit, rfl⟩ := run_eq_ok_iff.1 hrun
  have htransitive := hsorts frames rows hframes hrows
  obtain ⟨fulls, rfl, hfulls, hlength⟩ := h.keyedRows hs.apart hplaces s.limited hs.aggregates hrows
  rw [show s.arrange _ = _ from h.arrange_eq hplaces.ascending_eq hlength]
  have hsorted : Sorts (leAt places) fulls := by
    rw [map_map] at htransitive
    exact sorts_leAt htransitive
  have hwhole : s.limited = false → offset = none ∧ limit = none := by
    intro hlimited
    obtain ⟨hlimit', hoffset'⟩ := bounds_of_not_limited hlimited
    rw [hoffset'] at hoffset
    rw [hlimit'] at hlimit
    cases hoffset
    cases hlimit
    exact ⟨rfl, rfl⟩
  refine ⟨_, run_inner hplaces s.limited hframes hfulls hoffset hlimit, fun row hmem => ?_, ?_⟩
  · have hmem := (withoutRepetitions_sublist _ _).subset ((cutRows_sublist _ _ _).subset hmem)
    refine hlength row ?_
    split at hmem
    · exact (mergeSort_perm _ _).subset hmem
    · exact hmem
  · rw [mergeSort_cutRows hsorted s.distinct hwhole, cutRows_map]

theorem Hides.run_overDerived (h : s.Hides hidden) {ordered : Bool}
    (hplaces : ∀ place ∈ places, place.1 < (s.widen hidden).width) {outer : List Frame} {found : List Row}
    (hinner : (s.inner hidden ordered).run env outer = .ok ⟨(s.inner hidden ordered).columns, found⟩)
    (hlength : ∀ row ∈ found, row.length = (s.widen hidden).width) (id : TableId) (aliasName : String) :
    (overDerived id aliasName (s.inner hidden ordered) s.width places).run env outer =
      .ok ⟨s.columns, (found.mergeSort (leAt places)).map (·.take s.width)⟩ := by
  have hcolumns : (s.inner hidden ordered).columns.take s.width = s.columns := by simp [columns, inner, widen]
  have hnodup : (s.inner hidden ordered).columns.Nodup := h.nodup
  rw [Select.run_overDerived hnodup hinner hlength hplaces, hcolumns, sortByKeys_map]
  rfl

/-- Pushing a select down keeps its columns and its rows in their order. -/
theorem run_pushDown (s : Select) (env : Environment) (outer : List Frame) (id : TableId) (aliasName : String)
    (hnodup : s.columns.Nodup) (hprojected : s.distinct = false ∨ ∀ t ∈ s.orderings, (s.placeOf t.expr).isSome)
    (haggregates : s.grouped ∨ ∀ t ∈ s.orderings, t.expr.containsAggregate = false) (hapart : s.TellsOrderingsApart)
    (hsorts : s.SortsConsistently env outer) {r : Relation} (hrun : s.run env outer = .ok r) :
    (s.pushDown id aliasName).run env outer = .ok r := by
  have hs : s.Pushable := ⟨hnodup, hprojected, haggregates, hapart⟩
  obtain ⟨hidden, places, h, hplaces, hpushDown⟩ := hs.exists_pushDown_eq
  obtain ⟨found, hinner, hlength, rfl⟩ := h.run_eq_ok hs hplaces hsorts hrun
  rw [hpushDown]
  exact h.run_overDerived hplaces.lt_width hinner hlength id aliasName

/-- Rows under tags, one of them under none. -/
def taggedRows : Environment where
  tables := [("Rows", ⟨["Id", "Tag"], [[.int32 1, .string "a"], [.int32 2, .string "b"], [.int32 3, .string "c"],
    [.int32 4, .string "b"], [.int32 5, .null]]⟩)]
  parameters := .empty

/-- The tags by the number of their rows, which is not projected, without the most frequent one. -/
def rankedTags : Select :=
  let tag : Expr := .column ⟨1, some "r", "Tag", none, true⟩
  { empty with
    projections := [⟨"Tag", tag⟩]
    sources := [.table 1 (some "r") "Rows" none]
    groupBy := [tag]
    having := some tag.isNullTest.negation
    orderings := [⟨.apply "COUNT" [], false⟩, ⟨tag, false⟩]
    limit := some (.literal (.int64 5))
    offset := some (.literal (.int64 1)) }

theorem run_pushDown_rankedTags :
    rankedTags.columns.Nodup ∧ rankedTags.distinct = false ∧ rankedTags.grouped ∧ rankedTags.TellsOrderingsApart ∧
      rankedTags.SortsConsistently taggedRows [] ∧
      (rankedTags.pushDown 2 "t").run taggedRows [] = .ok ⟨["Tag"], [[.string "c"], [.string "a"]]⟩ := by
  have hnodup : rankedTags.columns.Nodup := by decide
  have hapart : rankedTags.TellsOrderingsApart := by
    rintro t (_ | ⟨_, _ | ⟨_, ⟨⟩⟩⟩) u (_ | ⟨_, _ | ⟨_, ⟨⟩⟩⟩) ht _ heq
    · rfl
    · cases heq
    · cases ht
    · cases ht
  have hsorts : rankedTags.SortsConsistently taggedRows [] := by
    intro frames rows hframes hrows
    cases hframes
    cbv at hrows
    cases hrows
    exact keysSortTransitively_of_forall_lt 2 (by decide) (by decide)
  exact ⟨hnodup, rfl, rfl, hapart, hsorts,
    run_pushDown _ _ _ _ _ hnodup (.inl rfl) (.inl rfl) hapart hsorts (by cbv)⟩

/-- A number and the negative zero. -/
def oneAndNegativeZero : Environment where
  tables := [("Rows", ⟨["Id", "X"],
    [[.int32 1, .float64 ⟨0x3FF0000000000000⟩], [.int32 2, .float64 ⟨0x8000000000000000⟩]]⟩)]
  parameters := .empty

/-- A select that is sorted by a comparison with one zero and then with the other. -/
def sortedByBothZeros : Select :=
  { empty with
    projections := [⟨"Id", .column ⟨1, some "r", "Id", none, true⟩⟩]
    sources := [.table 1 (some "r") "Rows" none]
    orderings := [⟨differsFrom ⟨0⟩ "r", true⟩, ⟨differsFrom ⟨0x8000000000000000⟩ "r", true⟩] }

/-- Zeros of either sign are equal literals, so that an ordering may be read from the column of another one. -/
theorem run_pushDown_ne_of_signed_zeros :
    sortedByBothZeros.columns.Nodup ∧ sortedByBothZeros.distinct = false ∧
      (∀ t ∈ sortedByBothZeros.orderings, t.expr.containsAggregate = false) ∧
      sortedByBothZeros.SortsConsistently oneAndNegativeZero [] ∧
      (sortedByBothZeros.run oneAndNegativeZero []).toOption.map Relation.rows = some [[.int32 2], [.int32 1]] ∧
      ((sortedByBothZeros.pushDown 2 "t").run oneAndNegativeZero []).toOption.map Relation.rows =
        some [[.int32 1], [.int32 2]] := by
  refine ⟨by decide, rfl, by decide, ?_, by cbv, by cbv⟩
  intro frames rows hframes hrows
  cases hframes
  cbv at hrows
  cases hrows
  exact keysSortTransitively_of_forall_lt 2 (by decide) (by decide)

end Select

end QueryShaping
