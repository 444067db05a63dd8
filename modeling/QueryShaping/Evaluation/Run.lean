import QueryShaping.Evaluation.Aggregate
import QueryShaping.Evaluation.Clauses
import QueryShaping.Evaluation.Operators
import QueryShaping.Query.Build

/-!
# Evaluation of selects

`Select.run` gives the rows of a select and `Expr.eval` the value of an expression in a scope. Both follow the tree:
sources are joined from left to right, then rows are filtered, grouped or numbered, projected, sorted, made distinct
and cut. The first fault met on that way is the one reported.
-/

namespace QueryShaping

mutual

/-- The value of an expression. -/
def Expr.eval (env : Environment) : Expr → Scope → Except Error Value
  | .column c, scope => scope.column c
  | .keyAccess k, scope => scope.key k
  | .constant value mapping, _ => storedValue mapping value
  | .parameter name mapping, _ => env.parameter name mapping
  | .binary op left right, scope => do
    let a ← left.eval env scope
    if op.isLogical then
      let a ← truthOf left a
      if a.isSome && a = op.settling then return a.toValue
      let b ← truthOf right (← right.eval env scope)
      return Truth.toValue (op.connect a b)
    else
      let b ← right.eval env scope
      applyBinary op a b
  | .unary op operand, scope => do
    let v ← operand.eval env scope
    applyUnary op operand v
  | .conditional test ifTrue ifFalse, scope => do
    let v ← test.eval env scope
    if ← holdsWith test v then ifTrue.eval env scope else ifFalse.eval env scope
  | .call name _ receiver arguments _, scope =>
    if isAggregateName name then
      match scope.group with
      | none => .error (.evaluation (.aggregateOutsideGroup name))
      | some group => Expr.evalAggregate env arguments name group scope.outer
    else do
      let receiver ← Expr.evalOption env receiver scope
      let arguments ← Expr.evalAll env arguments scope
      applyFunction name (receiver.toList ++ arguments)
  | .inValues item values negated, scope => do
    let v ← item.eval env scope
    if v.isNull then return .null
    let candidates ← Expr.evalAll env values scope
    return membershipValue v candidates negated
  | .inSubquery item subquery negated, scope => do
    let v ← item.eval env scope
    if v.isNull then return .null
    let found ← subquery.run env scope.frames
    return membershipValue v (found.rows.map fun row => row.head?.getD .null) negated
  | .exists subquery negated, scope => do
    let found ← subquery.run env scope.frames
    return .bool (!found.rows.isEmpty != negated)
  | .like subject pattern escape, scope => do
    let subject ← subject.eval env scope
    let pattern ← pattern.eval env scope
    let escape ← Expr.evalOption env escape scope
    applyLike subject pattern escape
  | .scalarSubquery subquery, scope => do
    let found ← subquery.run env scope.frames
    scalarOf found
  | .rowNumber _ _, _ => .error (.evaluation .misplacedRowNumber)

def Expr.evalOption (env : Environment) : Option Expr → Scope → Except Error (Option Value)
  | none, _ => .ok none
  | some e, scope => do
    let v ← e.eval env scope
    return some v

def Expr.evalAll (env : Environment) : List Expr → Scope → Except Error (List Value)
  | [], _ => .ok []
  | e :: rest, scope => do
    let v ← e.eval env scope
    let vs ← Expr.evalAll env rest scope
    return v :: vs

/-- An aggregate with these arguments, of which the first counts. -/
def Expr.evalAggregate (env : Environment) :
    List Expr → (name : String) → (group outer : List Frame) → Except Error Value
  | [], name, group, _ => countRows name group.length
  | argument :: _, name, group, outer => do
    let values ← group.mapM fun frame => argument.eval env (.ofRow frame outer)
    applyAggregate name values

/-- Whether a condition is fulfilled, if there is one. -/
def Expr.holdsOption (env : Environment) : Option Expr → Scope → Except Error Bool
  | none, _ => .ok true
  | some e, scope => do
    let v ← e.eval env scope
    holdsWith e v

/-- The number of rows that a limit or an offset stands for. -/
def Expr.countOption (env : Environment) : Option Expr → (outer : List Frame) → Except Error (Option Nat)
  | none, _ => .ok none
  | some e, outer => do
    let v ← e.eval env (.ofRow [] outer)
    let n ← rowCount v
    return some n

/-- The number of each frame, where the expression numbers rows. -/
def Expr.windowColumn (env : Environment) :
    Expr → (frames outer : List Frame) → Except Error (List (Option Nat))
  | .rowNumber partitions orderings, frames, outer => do
    let rows ← frames.mapM fun frame => do
      let partition ← Expr.evalAll env partitions (.ofRow frame outer)
      let keys ← SortTerm.evalAll env orderings (.ofRow frame outer)
      return (Key.ofValues partition, keys)
    return (rowNumbers (orderings.map (·.ascending)) rows).map some
  | _, frames, _ => .ok (frames.map fun _ => none)

def SortTerm.eval (env : Environment) : SortTerm → Scope → Except Error Value
  | ⟨expr, _⟩, scope => expr.eval env scope

def SortTerm.evalAll (env : Environment) : List SortTerm → Scope → Except Error (List Value)
  | [], _ => .ok []
  | t :: rest, scope => do
    let v ← t.eval env scope
    let vs ← SortTerm.evalAll env rest scope
    return v :: vs

/-- The sort keys of a row. A term that is projected is taken from the row itself. -/
def SortTerm.keys (env : Environment) :
    List SortTerm → (places : List (Option Nat)) → Row → Scope → Except Error (List Value)
  | t :: rest, place :: places, row, scope => do
    let v ← match place with
      | some index => .ok (row[index]?.getD .null)
      | none => t.eval env scope
    let vs ← SortTerm.keys env rest places row scope
    return v :: vs
  | _, _, _, _ => .ok []

def Projection.eval (env : Environment) : Projection → Scope → Except Error Value
  | ⟨_, expr⟩, scope => expr.eval env scope

/-- The projected row, where some places hold a row number. -/
def Projection.evalAll (env : Environment) :
    List Projection → (numbers : List (Option Nat)) → Scope → Except Error Row
  | [], _, _ => .ok []
  | p :: rest, numbers, scope => do
    let v ← match numbers.head?.join with
      | some n => .ok (.int64 (Int64.ofNat n))
      | none => p.eval env scope
    let vs ← Projection.evalAll env rest numbers.tail scope
    return v :: vs

def Projection.windowColumn (env : Environment) :
    Projection → (frames outer : List Frame) → Except Error (List (Option Nat))
  | ⟨_, expr⟩, frames, outer => expr.windowColumn env frames outer

/-- The row numbers of each frame, by projection. -/
def Projection.windows (env : Environment) :
    List Projection → (frames outer : List Frame) → Except Error (List (List (Option Nat)))
  | [], frames, _ => .ok (frames.map fun _ => [])
  | p :: rest, frames, outer => do
    let column ← p.windowColumn env frames outer
    let columns ← Projection.windows env rest frames outer
    return List.zipWith (· :: ·) column columns

/-- The rows of a select inside the selects that `outer` stands for. -/
def Select.run (env : Environment) : Select → (outer : List Frame) → Except Error Relation
  | ⟨projections, sources, predicate, groupBy, having, orderings, limit, offset, distinct⟩, outer => do
    let frames ← Source.joinAll env sources [[]] outer
    let frames ← frames.filterM fun frame => Expr.holdsOption env predicate (.ofRow frame outer)
    let places := orderings.map fun t => projections.findIdx? (·.expr == t.expr)
    let keyed (numbers : List (Option Nat)) (scope : Scope) : Except Error (Row × List Value) := do
      let row ← Projection.evalAll env projections numbers scope
      let keys ← SortTerm.keys env orderings places row scope
      return (row, keys)
    let rows ←
      if Select.isGrouped projections groupBy having then
        let groups ←
          if groupBy.isEmpty then pure [frames]
          else groupFrames (fun frame => Expr.evalAll env groupBy (.ofRow frame outer)) frames
        groupedRows (Expr.holdsOption env having) (keyed []) outer groups
      else
        let windows ← Projection.windows env projections frames outer
        (frames.zip windows).mapM fun (frame, numbers) => keyed numbers (.ofRow frame outer)
    let sorted := sortByKeys (orderings.map (·.ascending)) rows
    let result := if distinct then distinctRows [] sorted else sorted
    let offset ← Expr.countOption env offset outer
    let limit ← Expr.countOption env limit outer
    return ⟨projections.map (·.aliasName), cutRows offset limit result⟩

/-- The rows of a source that is no join. -/
def Source.rows (env : Environment) : Source → (outer : List Frame) → Except Error Relation
  | .table _ _ name _, _ => env.table name
  | .derived _ _ select, outer => select.run env outer
  | .setOperation _ _ op distinct left right, outer => do
    let left ← left.run env outer
    let right ← right.run env outer
    return combine op distinct left right
  | _, _ => .error (.evaluation .joinAsSource)

/-- Joins the sources to frames, one after the other. -/
def Source.joinAll (env : Environment) :
    List Source → (frames outer : List Frame) → Except Error (List Frame)
  | [], frames, _ => .ok frames
  | .joined .cross source :: rest, frames, outer => do
    let r ← source.rows env outer
    Source.joinAll env rest (crossJoin frames source.id r) outer
  | .joined kind source :: rest, frames, outer => do
    let joined ← frames.mapM fun frame => do
      let r ← source.rows env (frame :: outer)
      return applyRows kind source.id r frame
    Source.joinAll env rest joined.flatten outer
  | .joinedOn kind source predicate :: rest, frames, outer => do
    let r ← source.rows env outer
    let condition (frame : Frame) : Except Error Bool := do
      let v ← predicate.eval env (.ofRow frame outer)
      holdsWith predicate v
    let joined ← frames.mapM (joinWhere kind source.id r condition)
    Source.joinAll env rest joined.flatten outer
  | source :: rest, frames, outer => do
    let r ← source.rows env outer
    Source.joinAll env rest (crossJoin frames source.id r) outer

end

/-- The rows of a select that stands for itself. -/
def evaluate (env : Environment) (select : Select) : Except Error Relation :=
  select.run env []

end QueryShaping
