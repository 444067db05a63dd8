import QueryShaping.Evaluation.Scope
import QueryShaping.Value.Key
import QueryShaping.Value.Order

/-!
# The clauses of a select

Each clause as an operation on lists of frames or rows. Where a clause depends on expressions, their evaluation is
an argument.
-/

namespace QueryShaping

/-! ## Sources -/

def Frame.extend (frame : Frame) (id : TableId) (columns : List String) (row : Option Row) : Frame :=
  frame ++ [⟨id, columns, row⟩]

/-- One extension of a frame for each row of a relation. -/
def Frame.extendAll (frame : Frame) (id : TableId) (r : Relation) : List Frame :=
  r.rows.map fun row => frame.extend id r.columns (some row)

/-- The frame extended by a missing row. -/
def Frame.extendNull (frame : Frame) (id : TableId) (r : Relation) : Frame :=
  frame.extend id r.columns none

def crossJoin (frames : List Frame) (id : TableId) (r : Relation) : List Frame :=
  frames.flatMap fun frame => frame.extendAll id r

/-- The extensions of a frame that fulfil a condition. A left join keeps the frame when there is none. -/
def joinWhere (kind : ConditionalJoinKind) (id : TableId) (r : Relation) (condition : Frame → Except Error Bool)
    (frame : Frame) : Except Error (List Frame) := do
  let matched ← (frame.extendAll id r).filterM condition
  return if kind = .left && matched.isEmpty then [frame.extendNull id r] else matched

/-- The extensions of a frame by the rows that were found for it. -/
def applyRows (kind : JoinKind) (id : TableId) (r : Relation) (frame : Frame) : List Frame :=
  if kind = .outerApply && r.rows.isEmpty then [frame.extendNull id r] else frame.extendAll id r

/-! ## Rows as sets -/

/-- The rows whose key is not that of an earlier row. -/
def distinctRows : List Key → List Row → List Row
  | _, [] => []
  | seen, row :: rest =>
    let key := Key.ofValues row
    if seen.contains key then distinctRows seen rest else row :: distinctRows (key :: seen) rest

/-- A set operation on the results of two selects, with the column names of the left one. -/
def combine (op : SetOperator) (distinct : Bool) (left right : Relation) : Relation :=
  let keys := right.rows.map Key.ofValues
  let rows := match op with
    | .union => left.rows ++ right.rows
    | .intersect => left.rows.filter fun row => keys.contains (Key.ofValues row)
    | .except => left.rows.filter fun row => !keys.contains (Key.ofValues row)
  ⟨left.columns, if distinct then distinctRows [] rows else rows⟩

/-! ## Grouping -/

/-- Adds an item to the group of its key, or opens one at the end. -/
def addToGroup (key : Key) (item : α) : List (Key × List α) → List (Key × List α)
  | [] => [(key, [item])]
  | (other, members) :: rest =>
    if key = other then (other, members ++ [item]) :: rest else (other, members) :: addToGroup key item rest

/-- Groups items by key, in the order in which the keys appear. -/
def groupByKey (items : List (Key × α)) : List (List α) :=
  (items.foldl (fun groups (key, item) => addToGroup key item groups) []).map (·.2)

/-- Groups frames by the values of the grouping expressions. -/
def groupFrames (key : Frame → Except Error (List Value)) (frames : List Frame) :
    Except Error (List (List Frame)) := do
  let items ← frames.mapM fun frame => do
    let values ← key frame
    return (Key.ofValues values, frame)
  return groupByKey items

/-- The scope of a group, seen through its first row. -/
def Scope.ofGroup (group outer : List Frame) : Scope :=
  ⟨group.head?.getD [], outer, some group⟩

/-- One result for each group that fulfils a condition. -/
def groupedRows (condition : Scope → Except Error Bool) (row : Scope → Except Error α) (outer : List Frame)
    (groups : List (List Frame)) : Except Error (List α) :=
  groups.filterMapM fun group => do
    let scope := Scope.ofGroup group outer
    if ← condition scope then
      let result ← row scope
      return some result
    else return none

/-! ## Ordering -/

/-- The order of two lists of sort keys, term by term, where a term may be reversed. -/
def compareKeys : (ascending : List Bool) → List Value → List Value → Ordering
  | asc :: rest, a :: as, b :: bs =>
    let o := a.sortOrder b
    (if asc then o else o.swap).then (compareKeys rest as bs)
  | _, _, _ => .eq

/-- Sorts items by their keys; items with equal keys keep their order. -/
def sortByKeys (ascending : List Bool) (items : List (α × List Value)) : List α :=
  (items.mergeSort fun a b => compareKeys ascending a.2 b.2 != .gt).map (·.1)

/-! ## Row numbers -/

/-- The number of each row within its partition, where rows are given by partition and sort keys. -/
def rowNumbers (ascending : List Bool) (rows : List (Key × List Value)) : List Nat :=
  let indexed := rows.zipIdx.map fun ((partition, keys), index) => (partition, (index, keys))
  let numbered := (groupByKey indexed).flatMap fun members => (sortByKeys ascending members).zipIdx 1
  (numbered.mergeSort fun a b => a.1 ≤ b.1).map (·.2)

/-! ## Limits -/

/-- The row count that a value stands for; a negative one counts as none. -/
def rowCount (v : Value) : Except Error Nat :=
  match v.int64? with
  | some n => .ok n.toInt.toNat
  | none => .error (.evaluation (.rowCountNotAnInteger v))

/-- The rows after an offset, up to a limit. -/
def cutRows (offset limit : Option Nat) (rows : List Row) : List Row :=
  let rest := rows.drop (offset.getD 0)
  match limit with
  | some n => rest.take n
  | none => rest

/-- The value of a subquery that stands for a scalar. -/
def scalarOf (r : Relation) : Except Error Value :=
  match r.rows with
  | [] => .ok .null
  | [row] => .ok (row.head?.getD .null)
  | _ => .error (.evaluation .manyRowsForAScalar)

end QueryShaping
