import QueryShaping.Evaluation.Run
import QueryShaping.Proofs.Evaluation.Partitions
import QueryShaping.Proofs.Fallible

/-!
# The rows of a select

A select is evaluated in stages: its frames are joined and filtered, each frame or each group of frames gives a row with
sort keys, and the rows are sorted, made distinct and cut. `Select.run_eq` says that evaluation is these stages one after
the other, so that what is true of each of them can be said by itself.

A projected row has one cell for each projection. A projection that numbers rows takes its cell from the numbers of the
frame, every other one is evaluated. Two projections of one expression have equal cells, so it does not matter from which
of them a sort key is taken.
-/

namespace QueryShaping

open List

variable {numbers : List (Option Nat)} {frames outer : List Frame} {windows : List (List (Option Nat))}
  {scope : Scope}

/-- Whether the expression numbers rows. -/
def Expr.isRowNumber : Expr → Bool
  | .rowNumber _ _ => true
  | _ => false

theorem Expr.windowColumn_of_not_isRowNumber {e : Expr} (h : e.isRowNumber = false) (env : Environment)
    (frames outer : List Frame) : e.windowColumn env frames outer = .ok (frames.map fun _ => none) := by
  cases e with
  | rowNumber partitions orderings => cases h
  | _ => rfl

theorem Expr.eval_of_isRowNumber {e : Expr} (h : e.isRowNumber) (env : Environment) (scope : Scope) :
    e.eval env scope = .error (.evaluation .misplacedRowNumber) := by
  cases e with
  | rowNumber partitions orderings => rfl
  | _ => cases h

theorem Expr.evalAll_eq_mapM (env : Environment) (es : List Expr) (scope : Scope) :
    Expr.evalAll env es scope = es.mapM fun e => e.eval env scope := by
  induction es with
  | nil => rfl
  | cons e es ih => rw [Expr.evalAll, mapM_cons, ih]

theorem Expr.length_windowColumn {env : Environment} {e : Expr} {column : List (Option Nat)}
    (h : e.windowColumn env frames outer = .ok column) : column.length = frames.length := by
  cases e with
  | rowNumber partitions orderings =>
    obtain ⟨rows, hrows, h⟩ := Except.bind_eq_ok_iff.1 h
    cases h
    have hlength := congrArg List.length (Except.mapM_eq_ok_iff.1 hrows)
    rw [length_map, length_map] at hlength
    rw [length_map, length_rowNumbers, hlength]
  | _ =>
    rw [windowColumn_of_not_isRowNumber rfl] at h
    cases h
    exact length_map _

/-! ## Projected rows -/

/-- The sort key that a term with this expression has, taken from the row at its place if it has one. -/
def Expr.sortKey (env : Environment) (e : Expr) (place : Option Nat) (row : Row) (scope : Scope) : Except Error Value :=
  match place with
  | some index => .ok (row[index]?.getD .null)
  | none => e.eval env scope

namespace SortTerm

theorem eval_eq (env : Environment) (t : SortTerm) (scope : Scope) : t.eval env scope = t.expr.eval env scope := by
  cases t
  rfl

theorem evalAll_eq_mapM (env : Environment) (ts : List SortTerm) (scope : Scope) :
    SortTerm.evalAll env ts scope = ts.mapM fun t => t.expr.eval env scope := by
  induction ts with
  | nil => rfl
  | cons t ts ih => rw [SortTerm.evalAll, mapM_cons, ih, eval_eq]

theorem keys_eq_mapM (env : Environment) (ts : List SortTerm) (place : SortTerm → Option Nat) (row : Row)
    (scope : Scope) :
    SortTerm.keys env ts (ts.map place) row scope = ts.mapM fun t => t.expr.sortKey env (place t) row scope := by
  induction ts with
  | nil => rfl
  | cons t ts ih =>
    rw [map_cons, mapM_cons, ← ih]
    cases h : place t <;> simp only [SortTerm.keys, Expr.sortKey, eval_eq]

end SortTerm

namespace Projection

theorem windowColumn_eq (env : Environment) (p : Projection) (frames outer : List Frame) :
    p.windowColumn env frames outer = p.expr.windowColumn env frames outer := by
  cases p
  rfl

variable {env : Environment} {ps : List Projection}

/-- The cell of a projection in a row with this number, if it numbers rows. -/
def cell (env : Environment) (p : Projection) (number : Option Nat) (scope : Scope) : Except Error Value :=
  match number with
  | some n => .ok (.int64 (Int64.ofNat n))
  | none => p.expr.eval env scope

theorem evalAll_cons (p : Projection) (numbers : List (Option Nat)) (scope : Scope) :
    evalAll env (p :: ps) numbers scope = (do
      let v ← p.cell env numbers.head?.join scope
      let vs ← evalAll env ps numbers.tail scope
      return v :: vs) := by
  obtain ⟨aliasName, expr⟩ := p
  cases h : numbers.head?.join <;> simp only [evalAll, h, cell, Projection.eval]

/-- A projected row has the cell of each projection at its place. -/
theorem evalAll_eq_ok_iff {row : Row} : evalAll env ps numbers scope = .ok row ↔
      row.length = ps.length ∧
        ∀ (i : Nat) (p : Projection), ps[i]? = some p →
          ∃ v, row[i]? = some v ∧ p.cell env numbers[i]?.join scope = .ok v := by
  induction ps generalizing numbers row with
  | nil =>
    have hnil : evalAll env [] numbers scope = .ok [] := by rw [evalAll]
    rw [hnil]
    cases row <;> simp
  | cons p ps ih =>
    have htail (i : Nat) : numbers.tail[i]? = numbers[i + 1]? := by cases numbers <;> simp
    have hhead : numbers.head? = numbers[0]? := head?_eq_getElem?
    rw [evalAll_cons, Except.bind_eq_ok_iff]
    constructor
    · rintro ⟨v, hv, h⟩
      obtain ⟨vs, hvs, h⟩ := Except.bind_eq_ok_iff.1 h
      cases h
      obtain ⟨hlength, hcells⟩ := ih.1 hvs
      refine ⟨by simp [hlength], fun i q hq => ?_⟩
      cases i with
      | zero =>
        cases hq
        exact ⟨v, rfl, by rw [← hhead]; exact hv⟩
      | succ i =>
        obtain ⟨w, hw, hcell⟩ := hcells i q hq
        exact ⟨w, hw, by rw [← htail]; exact hcell⟩
    · rintro ⟨hlength, hcells⟩
      cases row with
      | nil => simp at hlength
      | cons v vs =>
        obtain ⟨w, hw, hcell⟩ := hcells 0 p rfl
        cases hw
        refine ⟨v, by rw [hhead]; exact hcell, ?_⟩
        rw [Except.bind_eq_ok_iff]
        refine ⟨vs, ih.2 ⟨by simpa using hlength, fun i q hq => ?_⟩, rfl⟩
        obtain ⟨x, hx, hcell⟩ := hcells (i + 1) q hq
        exact ⟨x, hx, by rw [htail]; exact hcell⟩

theorem cell_of_evalAll {row : Row} {i : Nat} {p : Projection}
    (h : evalAll env ps numbers scope = .ok row) (hp : ps[i]? = some p) :
    p.cell env numbers[i]?.join scope = .ok (row[i]?.getD .null) := by
  obtain ⟨v, hv, hcell⟩ := (evalAll_eq_ok_iff.1 h).2 i p hp
  rw [hcell, hv, Option.getD_some]

theorem evalAll_append {qs : List Projection} {numbers numbers' : List (Option Nat)} {row row' : Row}
    (h : evalAll env ps numbers scope = .ok row) (hn : ∀ i < ps.length, numbers'[i]?.join = numbers[i]?.join)
    (h' : evalAll env qs (numbers'.drop ps.length) scope = .ok row') :
    evalAll env (ps ++ qs) numbers' scope = .ok (row ++ row') := by
  rw [evalAll_eq_ok_iff] at h h' ⊢
  refine ⟨by simp [h.1, h'.1], fun i p hp => ?_⟩
  by_cases hi : i < ps.length
  · rw [getElem?_append_left hi] at hp
    rw [getElem?_append_left (h.1 ▸ hi), hn i hi]
    exact h.2 i p hp
  · rw [Nat.not_lt] at hi
    rw [getElem?_append_right hi] at hp
    rw [getElem?_append_right (h.1 ▸ hi), h.1]
    have hcell := h'.2 (i - ps.length) p hp
    rwa [getElem?_drop, Nat.add_sub_cancel' hi] at hcell

theorem evalAll_take {qs : List Projection} {row : Row}
    (h : evalAll env (ps ++ qs) numbers scope = .ok row) : evalAll env ps numbers scope = .ok (row.take ps.length) := by
  rw [evalAll_eq_ok_iff] at h ⊢
  refine ⟨by simp [h.1], fun i p hp => ?_⟩
  have hi := (List.getElem?_eq_some_iff.1 hp).1
  rw [getElem?_take_of_lt hi]
  exact h.2 i p (by rw [getElem?_append_left hi, hp])

/-- Only the numbers that there are count. -/
theorem evalAll_congr {numbers numbers' : List (Option Nat)} (h : ∀ i : Nat, numbers[i]?.join = numbers'[i]?.join)
    (scope : Scope) : evalAll env ps numbers scope = evalAll env ps numbers' scope := by
  induction ps generalizing numbers numbers' with
  | nil => rw [evalAll, evalAll]
  | cons p ps ih =>
    have hhead : numbers.head?.join = numbers'.head?.join := by simpa [head?_eq_getElem?] using h 0
    have htail (i : Nat) : numbers.tail[i]?.join = numbers'.tail[i]?.join := by simpa using h (i + 1)
    rw [evalAll_cons, evalAll_cons, hhead, ih htail]

/-! ## Numbers in rows -/

theorem length_windows
    (h : Projection.windows env ps frames outer = .ok windows) : windows.length = frames.length := by
  induction ps generalizing windows with
  | nil =>
    rw [Projection.windows] at h
    cases h
    exact length_map _
  | cons p ps ih =>
    rw [Projection.windows, windowColumn_eq, Except.bind_eq_ok_iff] at h
    obtain ⟨column, hcolumn, h⟩ := h
    obtain ⟨columns, hcolumns, h⟩ := Except.bind_eq_ok_iff.1 h
    cases h
    rw [length_zipWith, Expr.length_windowColumn hcolumn, ih hcolumns, Nat.min_self]

theorem length_of_mem_windows
    (h : Projection.windows env ps frames outer = .ok windows) (hmem : numbers ∈ windows) :
    numbers.length = ps.length := by
  induction ps generalizing windows numbers with
  | nil =>
    rw [Projection.windows] at h
    cases h
    obtain ⟨frame, -, rfl⟩ := mem_map.1 hmem
    rfl
  | cons p ps ih =>
    obtain ⟨column, -, h⟩ := Except.bind_eq_ok_iff.1 h
    obtain ⟨columns, hcolumns, h⟩ := Except.bind_eq_ok_iff.1 h
    cases h
    obtain ⟨k, hk⟩ := List.mem_iff_getElem?.1 hmem
    rw [getElem?_zipWith_eq_some] at hk
    obtain ⟨number, rest, -, hrest, rfl⟩ := hk
    rw [length_cons, length_cons, ih hcolumns (mem_of_getElem? hrest)]

/-- Projections that number no rows add an empty place each to the numbers. -/
theorem windows_append {qs : List Projection} (hqs : ∀ q ∈ qs, q.expr.isRowNumber = false) :
    Projection.windows env (ps ++ qs) frames outer =
      (Projection.windows env ps frames outer).map (List.map (· ++ qs.map fun _ => none)) := by
  induction ps with
  | nil =>
    rw [nil_append]
    induction qs with
    | nil => simp [Projection.windows, Except.map]
    | cons q qs ih =>
      rw [Projection.windows.eq_2, windowColumn_eq, Expr.windowColumn_of_not_isRowNumber (hqs q mem_cons_self),
        ih fun r hr => hqs r (mem_cons_of_mem q hr)]
      simp [Projection.windows, Except.map, bind, Except.bind, pure, Except.pure]
  | cons p ps ih =>
    rw [cons_append, Projection.windows, Projection.windows, ih]
    cases p.windowColumn env frames outer with
    | error e => rfl
    | ok column =>
      cases Projection.windows env ps frames outer with
      | error e => rfl
      | ok columns =>
        simp [Except.map, bind, Except.bind, pure, Except.pure, zipWith_map_right, map_zipWith]

theorem windows_of_not_isRowNumber (hps : ∀ p ∈ ps, p.expr.isRowNumber = false) (frames outer : List Frame) :
    Projection.windows env ps frames outer = .ok (frames.map fun _ => ps.map fun _ => none) := by
  rw [← nil_append ps, windows_append hps]
  simp [Projection.windows, Except.map]

theorem windows_nil (env : Environment) (ps : List Projection) (outer : List Frame) :
    Projection.windows env ps [] outer = .ok [] := by
  induction ps with
  | nil => rfl
  | cons p ps ih =>
    obtain ⟨aliasName, expr⟩ := p
    rw [Projection.windows, ih]
    cases expr <;> simp [Projection.windowColumn, Expr.windowColumn, bind, Except.bind, pure, Except.pure]

/-- The numbers of a frame are those of the columns, at the place of the frame. -/
theorem windows_getElem? (h : Projection.windows env ps frames outer = .ok windows) {k i : Nat} {p : Projection}
    (hk : windows[k]? = some numbers) (hp : ps[i]? = some p) :
    ∃ column number, p.expr.windowColumn env frames outer = .ok column ∧ column[k]? = some number ∧
      numbers[i]? = some number := by
  induction ps generalizing windows numbers i with
  | nil => simp at hp
  | cons q ps ih =>
    rw [Projection.windows, windowColumn_eq, Except.bind_eq_ok_iff] at h
    obtain ⟨column, hcolumn, h⟩ := h
    obtain ⟨columns, hcolumns, h⟩ := Except.bind_eq_ok_iff.1 h
    cases h
    rw [getElem?_zipWith_eq_some] at hk
    obtain ⟨number, rest, hnumber, hrest, rfl⟩ := hk
    cases i with
    | zero =>
      cases hp
      exact ⟨column, number, hcolumn, hnumber, rfl⟩
    | succ i =>
      obtain ⟨column', number', h'⟩ := ih hcolumns hrest hp
      exact ⟨column', number', h'⟩

/-- The numbers of a frame belong to projections that number rows, and those of one expression are equal. -/
structure Numbered (ps : List Projection) (numbers : List (Option Nat)) : Prop where
  isRowNumber : ∀ (i : Nat) (p : Projection), ps[i]? = some p → numbers[i]?.join.isSome → p.expr.isRowNumber
  unique : ∀ (i j : Nat) (p q : Projection), ps[i]? = some p → ps[j]? = some q → p.expr = q.expr →
    numbers[i]?.join = numbers[j]?.join

theorem numbered_nil (ps : List Projection) : Numbered ps [] :=
  ⟨fun _ _ _ h => by simp at h, fun _ _ _ _ _ _ _ => by simp⟩

theorem numbered_of_windows (h : Projection.windows env ps frames outer = .ok windows) (hmem : numbers ∈ windows) :
    Numbered ps numbers := by
  obtain ⟨k, hk⟩ := List.mem_iff_getElem?.1 hmem
  constructor
  · intro i p hp hsome
    obtain ⟨column, number, hcolumn, hnumber, hi⟩ := windows_getElem? h hk hp
    cases hrow : p.expr.isRowNumber with
    | true => rfl
    | false =>
      rw [Expr.windowColumn_of_not_isRowNumber hrow] at hcolumn
      cases hcolumn
      rw [getElem?_map, Option.map_eq_some_iff] at hnumber
      obtain ⟨frame, -, rfl⟩ := hnumber
      simp [hi] at hsome
  · intro i j p q hp hq hpq
    obtain ⟨column, number, hcolumn, hnumber, hi⟩ := windows_getElem? h hk hp
    obtain ⟨column', number', hcolumn', hnumber', hj⟩ := windows_getElem? h hk hq
    rw [← hpq, hcolumn] at hcolumn'
    cases hcolumn'
    rw [hnumber] at hnumber'
    cases hnumber'
    rw [hi, hj]

/-- Two projections of one expression have equal cells. -/
theorem cells_eq (hn : Numbered ps numbers) {row : Row}
    (h : evalAll env ps numbers scope = .ok row) {i j : Nat} {p q : Projection} (hp : ps[i]? = some p)
    (hq : ps[j]? = some q) (hpq : p.expr = q.expr) : row[i]?.getD .null = row[j]?.getD .null := by
  have hi := cell_of_evalAll h hp
  have hj := cell_of_evalAll h hq
  rw [hn.unique i j p q hp hq hpq] at hi
  unfold cell at hi hj
  rw [hpq] at hi
  exact Except.ok.inj (hi.symm.trans hj)

/-- The cell of a projection that numbers no rows is its value. -/
theorem eval_eq_cell (hn : Numbered ps numbers) {row : Row} (h : evalAll env ps numbers scope = .ok row) {i : Nat}
    {p : Projection} (hp : ps[i]? = some p) (hplain : p.expr.isRowNumber = false) :
    p.expr.eval env scope = .ok (row[i]?.getD .null) := by
  have hi := cell_of_evalAll h hp
  cases hnumber : numbers[i]?.join with
  | some n =>
    have hrow := hn.isRowNumber i p hp (by rw [hnumber]; rfl)
    cases hplain.symm.trans hrow
  | none =>
    rw [hnumber] at hi
    exact hi

/-- The cell of a projection that has a value without the others is this value. -/
theorem cell_eq_of_eval (hn : Numbered ps numbers) {row : Row}
    (h : evalAll env ps numbers scope = .ok row) {i : Nat} {p : Projection} (hp : ps[i]? = some p) {v : Value}
    (hv : p.expr.eval env scope = .ok v) : row[i]?.getD .null = v := by
  cases hrow : p.expr.isRowNumber with
  | true => cases (Expr.eval_of_isRowNumber hrow env scope).symm.trans hv
  | false => exact Except.ok.inj ((eval_eq_cell hn h hp hrow).symm.trans hv)

end Projection

/-! ## The stages of a select -/

/-- The frames that one more source makes of the frames before it, where `rows` gives the rows of a source and `holds`
whether a condition is fulfilled. -/
def Source.joinBy (rows : Source → List Frame → Except Error Relation) (holds : Expr → Scope → Except Error Bool) :
    Source → (frames outer : List Frame) → Except Error (List Frame)
  | .joined .cross source, frames, outer => do return crossJoin frames source.id (← rows source outer)
  | .joined kind source, frames, outer => do
    let joined ← frames.mapM fun frame => do
      let r ← rows source (frame :: outer)
      return applyRows kind source.id r frame
    return joined.flatten
  | .joinedOn kind source predicate, frames, outer => do
    let r ← rows source outer
    let joined ← frames.mapM (joinWhere kind source.id r fun frame => holds predicate (.ofRow frame outer))
    return joined.flatten
  | source, frames, outer => do return crossJoin frames source.id (← rows source outer)

/-- Whether a condition is fulfilled. -/
def Expr.holds (env : Environment) (e : Expr) (scope : Scope) : Except Error Bool := do
  holdsWith e (← e.eval env scope)

theorem Source.joinAll_cons (env : Environment) (s : Source) (rest : List Source) (frames outer : List Frame) :
    Source.joinAll env (s :: rest) frames outer =
      s.joinBy (Source.rows env) (Expr.holds env) frames outer >>= fun frames => Source.joinAll env rest frames outer := by
  cases s with
  | joined kind source => cases kind <;> simp only [Source.joinAll, joinBy, bind_assoc, pure_bind]
  | _ => simp only [Source.joinAll, joinBy, Expr.holds, bind_assoc, pure_bind]

namespace Select

/-- The joined frames that fulfil the condition. -/
def keptFrames (env : Environment) (s : Select) (outer : List Frame) : Except Error (List Frame) := do
  let frames ← Source.joinAll env s.sources [[]] outer
  frames.filterM fun frame => Expr.holdsOption env s.predicate (.ofRow frame outer)

/-- The place of an expression among the projections, if it is one of them. -/
def placeOf (s : Select) (e : Expr) : Option Nat :=
  s.projections.findIdx? (·.expr == e)

/-- A projected row with its sort keys. -/
def keyedRow (env : Environment) (s : Select) (numbers : List (Option Nat)) (scope : Scope) :
    Except Error (Row × List Value) := do
  let row ← Projection.evalAll env s.projections numbers scope
  let keys ← s.orderings.mapM fun t => t.expr.sortKey env (s.placeOf t.expr) row scope
  return (row, keys)

/-- Whether rows come from groups of frames. -/
def grouped (s : Select) : Bool :=
  Select.isGrouped s.projections s.groupBy s.having

def groups (env : Environment) (s : Select) (frames outer : List Frame) : Except Error (List (List Frame)) :=
  if s.groupBy.isEmpty then pure [frames]
  else groupFrames (fun frame => Expr.evalAll env s.groupBy (.ofRow frame outer)) frames

/-- The rows with their sort keys, in the order of the frames or groups. -/
def keyedRows (env : Environment) (s : Select) (frames outer : List Frame) : Except Error (List (Row × List Value)) :=
  if s.grouped then do
    let groups ← s.groups env frames outer
    groupedRows (Expr.holdsOption env s.having) (s.keyedRow env []) outer groups
  else do
    let windows ← Projection.windows env s.projections frames outer
    (frames.zip windows).mapM fun numbered => s.keyedRow env numbered.2 (.ofRow numbered.1 outer)

/-- Where nothing is grouped or numbered, each frame gives its row by itself. -/
theorem keyedRows_of_unnumbered {env : Environment} {s : Select} (hgrouped : s.grouped = false)
    (hunnumbered : ∀ p ∈ s.projections, p.expr.isRowNumber = false) (frames outer : List Frame) :
    s.keyedRows env frames outer = frames.mapM fun frame => s.keyedRow env [] (.ofRow frame outer) := by
  have hnone (scope : Scope) : s.keyedRow env (s.projections.map fun _ => none) scope = s.keyedRow env [] scope := by
    have hnumbers (i : Nat) : (s.projections.map fun _ => (none : Option Nat))[i]?.join = ([] : List (Option Nat))[i]?.join := by
      rw [getElem?_map, getElem?_nil]
      cases s.projections[i]? <;> rfl
    rw [keyedRow, Projection.evalAll_congr hnumbers, keyedRow]
  have hzip : frames.zip (frames.map fun _ => s.projections.map fun _ => (none : Option Nat)) =
      frames.map fun frame => (frame, s.projections.map fun _ => none) := List.map_prod_left_eq_zip.symm
  rw [keyedRows, hgrouped, Projection.windows_of_not_isRowNumber hunnumbered]
  simp only [Bool.false_eq_true, if_false, bind, Except.bind, hzip, mapM_map, Function.comp_def, hnone]

/-- The rows in their order, without repetitions if these are not wanted. -/
def arrange (s : Select) (rows : List (Row × List Value)) : List Row :=
  let sorted := sortByKeys (s.orderings.map (·.ascending)) rows
  if s.distinct then distinctRows [] sorted else sorted

/-- The rows between the offset and the limit. -/
def cut (env : Environment) (s : Select) (rows : List Row) (outer : List Frame) : Except Error (List Row) := do
  let offset ← Expr.countOption env s.offset outer
  let limit ← Expr.countOption env s.limit outer
  return cutRows offset limit rows

def columns (s : Select) : List String :=
  s.projections.map (·.aliasName)

/-- A select is evaluated stage by stage. -/
theorem run_eq (env : Environment) (s : Select) (outer : List Frame) : s.run env outer = (do
    let frames ← s.keptFrames env outer
    let rows ← s.keyedRows env frames outer
    let rows ← s.cut env (s.arrange rows) outer
    return ⟨s.columns, rows⟩) := by
  obtain ⟨projections, sources, predicate, groupBy, having, orderings, limit, offset, distinct⟩ := s
  simp only [run, keptFrames, keyedRows, keyedRow, grouped, groups, arrange, cut, columns, placeOf,
    SortTerm.keys_eq_mapM, bind_assoc, pure_bind]
  refine bind_congr fun frames => bind_congr fun frames => ?_
  split
  · split
    · simp only [pure_bind]
      rfl
    · simp only [bind_assoc]
      rfl
  · simp only [bind_assoc]

/-- A select has a result where each of its stages has one. -/
theorem run_eq_ok_iff {env : Environment} {s : Select} {outer : List Frame} {r : Relation} :
    s.run env outer = .ok r ↔ ∃ frames rows offset limit, s.keptFrames env outer = .ok frames ∧
      s.keyedRows env frames outer = .ok rows ∧ Expr.countOption env s.offset outer = .ok offset ∧
      Expr.countOption env s.limit outer = .ok limit ∧ r = ⟨s.columns, cutRows offset limit (s.arrange rows)⟩ := by
  simp only [run_eq, cut, bind_assoc, pure_bind, Except.bind_eq_ok_iff, Except.pure_eq_ok_iff]
  constructor
  · rintro ⟨frames, hframes, rows, hrows, offset, hoffset, limit, hlimit, rfl⟩
    exact ⟨frames, rows, offset, limit, hframes, hrows, hoffset, hlimit, rfl⟩
  · rintro ⟨frames, rows, offset, limit, hframes, hrows, hoffset, hlimit, rfl⟩
    exact ⟨frames, hframes, rows, hrows, offset, hoffset, limit, hlimit, rfl⟩

end Select

end QueryShaping
