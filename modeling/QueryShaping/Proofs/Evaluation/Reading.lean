import QueryShaping.Evaluation.Run

/-!
# Evaluation with booleans read as they are meant

The evaluation of selects once more, with one thing left open: how the stored value of a reference is read where it
decides a condition, by itself or through a connective. Read as it is stored, this is the evaluation of selects, which
`Select.runWith_stored` says. Read through the converter of its mapping, a boolean that is stored as something else
counts for what it means.
-/

namespace QueryShaping

/-- The domain value of a stored value. -/
def Converter.read (c : Converter) (v : Value) : Except Error Value :=
  match c.load v with
  | .ok d => .ok d
  | .error e => .error (.conversion e)

/-- What is taken for the stored value of a reference with this mapping. -/
abbrev Reading := Option TypeMapping → Value → Except Error Value

namespace Reading

/-- The stored value itself. -/
def stored : Reading := fun _ v => .ok v

/-- The domain value, where a converter of booleans stands between the two. -/
def decoded : Reading := fun mapping v =>
  match mapping.bind TypeMapping.converter with
  | some converter => if converter.domainType = .bool then converter.read v else .ok v
  | none => .ok v

end Reading

/-- Where an expression stands. -/
structure Position where
  /-- In a condition, with nothing but binary operators and negations in between. -/
  inCondition : Bool
  /-- As a condition by itself, or as an operand of a connective. -/
  decides : Bool
  /-- As an operand of an equality. -/
  inEquality : Bool

namespace Position

def value : Position := ⟨false, false, false⟩

def condition : Position := ⟨true, true, false⟩

def operand (p : Position) (op : BinaryOp) : Position := ⟨p.inCondition, op.isLogical, op.isEquality⟩

def unaryOperand (p : Position) : UnaryOp → Position
  | .not => ⟨p.inCondition, true, false⟩
  | _ => value

/-- What a reference counts for. -/
def read (p : Position) (reading : Reading) (mapping : Option TypeMapping) (v : Value) : Except Error Value :=
  if p.inCondition && p.decides then reading mapping v else .ok v

end Position

mutual

/-- The value of an expression that stands in a position. -/
def Expr.evalWith (reading : Reading) (env : Environment) : Expr → Position → Scope → Except Error Value
  | .column c, position, scope => do
    let v ← scope.column c
    position.read reading c.mapping v
  | .keyAccess k, position, scope => do
    let v ← scope.key k
    position.read reading k.mapping v
  | .constant value mapping, _, _ => storedValue mapping value
  | .parameter name mapping, _, _ => env.parameter name mapping
  | .binary op left right, position, scope => do
    let a ← left.evalWith reading env (position.operand op) scope
    if op.isLogical then
      let a ← truthOf left a
      if a.isSome && a = op.settling then return a.toValue
      let b ← truthOf right (← right.evalWith reading env (position.operand op) scope)
      return Truth.toValue (op.connect a b)
    else
      let b ← right.evalWith reading env (position.operand op) scope
      applyBinary op a b
  | .unary op operand, position, scope => do
    let v ← operand.evalWith reading env (position.unaryOperand op) scope
    applyUnary op operand v
  | .conditional test ifTrue ifFalse, _, scope => do
    let v ← test.evalWith reading env .condition scope
    if ← holdsWith test v then ifTrue.evalWith reading env .value scope
    else ifFalse.evalWith reading env .value scope
  | .call name _ receiver arguments _, _, scope =>
    if isAggregateName name then
      match scope.group with
      | none => .error (.evaluation (.aggregateOutsideGroup name))
      | some group => Expr.evalAggregateWith reading env arguments name group scope.outer
    else do
      let receiver ← Expr.evalOptionWith reading env receiver scope
      let arguments ← Expr.evalAllWith reading env arguments scope
      applyFunction name (receiver.toList ++ arguments)
  | .inValues item values negated, _, scope => do
    let v ← item.evalWith reading env .value scope
    if v.isNull then return .null
    let candidates ← Expr.evalAllWith reading env values scope
    return membershipValue v candidates negated
  | .inSubquery item subquery negated, _, scope => do
    let v ← item.evalWith reading env .value scope
    if v.isNull then return .null
    let found ← subquery.runWith reading env scope.frames
    return membershipValue v (found.rows.map fun row => row.head?.getD .null) negated
  | .exists subquery negated, _, scope => do
    let found ← subquery.runWith reading env scope.frames
    return .bool (!found.rows.isEmpty != negated)
  | .like subject pattern escape, _, scope => do
    let subject ← subject.evalWith reading env .value scope
    let pattern ← pattern.evalWith reading env .value scope
    let escape ← Expr.evalOptionWith reading env escape scope
    applyLike subject pattern escape
  | .scalarSubquery subquery, _, scope => do
    let found ← subquery.runWith reading env scope.frames
    scalarOf found
  | .rowNumber _ _, _, _ => .error (.evaluation .misplacedRowNumber)

def Expr.evalOptionWith (reading : Reading) (env : Environment) :
    Option Expr → Scope → Except Error (Option Value)
  | none, _ => .ok none
  | some e, scope => do
    let v ← e.evalWith reading env .value scope
    return some v

def Expr.evalAllWith (reading : Reading) (env : Environment) : List Expr → Scope → Except Error (List Value)
  | [], _ => .ok []
  | e :: rest, scope => do
    let v ← e.evalWith reading env .value scope
    let vs ← Expr.evalAllWith reading env rest scope
    return v :: vs

def Expr.evalAggregateWith (reading : Reading) (env : Environment) :
    List Expr → (name : String) → (group outer : List Frame) → Except Error Value
  | [], name, group, _ => countRows name group.length
  | argument :: _, name, group, outer => do
    let values ← group.mapM fun frame => argument.evalWith reading env .value (.ofRow frame outer)
    applyAggregate name values

def Expr.holdsOptionWith (reading : Reading) (env : Environment) : Option Expr → Scope → Except Error Bool
  | none, _ => .ok true
  | some e, scope => do
    let v ← e.evalWith reading env .condition scope
    holdsWith e v

def Expr.countOptionWith (reading : Reading) (env : Environment) :
    Option Expr → (outer : List Frame) → Except Error (Option Nat)
  | none, _ => .ok none
  | some e, outer => do
    let v ← e.evalWith reading env .value (.ofRow [] outer)
    let n ← rowCount v
    return some n

def Expr.windowColumnWith (reading : Reading) (env : Environment) :
    Expr → (frames outer : List Frame) → Except Error (List (Option Nat))
  | .rowNumber partitions orderings, frames, outer => do
    let rows ← frames.mapM fun frame => do
      let partition ← Expr.evalAllWith reading env partitions (.ofRow frame outer)
      let keys ← SortTerm.evalAllWith reading env orderings (.ofRow frame outer)
      return (Key.ofValues partition, keys)
    return (rowNumbers (orderings.map (·.ascending)) rows).map some
  | _, frames, _ => .ok (frames.map fun _ => none)

def SortTerm.evalWith (reading : Reading) (env : Environment) : SortTerm → Scope → Except Error Value
  | ⟨expr, _⟩, scope => expr.evalWith reading env .value scope

def SortTerm.evalAllWith (reading : Reading) (env : Environment) :
    List SortTerm → Scope → Except Error (List Value)
  | [], _ => .ok []
  | t :: rest, scope => do
    let v ← t.evalWith reading env scope
    let vs ← SortTerm.evalAllWith reading env rest scope
    return v :: vs

def SortTerm.keysWith (reading : Reading) (env : Environment) :
    List SortTerm → (places : List (Option Nat)) → Row → Scope → Except Error (List Value)
  | t :: rest, place :: places, row, scope => do
    let v ← match place with
      | some index => .ok (row[index]?.getD .null)
      | none => t.evalWith reading env scope
    let vs ← SortTerm.keysWith reading env rest places row scope
    return v :: vs
  | _, _, _, _ => .ok []

def Projection.evalWith (reading : Reading) (env : Environment) : Projection → Scope → Except Error Value
  | ⟨_, expr⟩, scope => expr.evalWith reading env .value scope

def Projection.evalAllWith (reading : Reading) (env : Environment) :
    List Projection → (numbers : List (Option Nat)) → Scope → Except Error Row
  | [], _, _ => .ok []
  | p :: rest, numbers, scope => do
    let v ← match numbers.head?.join with
      | some n => .ok (.int64 (Int64.ofNat n))
      | none => p.evalWith reading env scope
    let vs ← Projection.evalAllWith reading env rest numbers.tail scope
    return v :: vs

def Projection.windowColumnWith (reading : Reading) (env : Environment) :
    Projection → (frames outer : List Frame) → Except Error (List (Option Nat))
  | ⟨_, expr⟩, frames, outer => expr.windowColumnWith reading env frames outer

def Projection.windowsWith (reading : Reading) (env : Environment) :
    List Projection → (frames outer : List Frame) → Except Error (List (List (Option Nat)))
  | [], frames, _ => .ok (frames.map fun _ => [])
  | p :: rest, frames, outer => do
    let column ← p.windowColumnWith reading env frames outer
    let columns ← Projection.windowsWith reading env rest frames outer
    return List.zipWith (· :: ·) column columns

/-- The rows of a select, each condition of which is read in this way. -/
def Select.runWith (reading : Reading) (env : Environment) : Select → (outer : List Frame) → Except Error Relation
  | ⟨projections, sources, predicate, groupBy, having, orderings, limit, offset, distinct⟩, outer => do
    let frames ← Source.joinAllWith reading env sources [[]] outer
    let frames ← frames.filterM fun frame => Expr.holdsOptionWith reading env predicate (.ofRow frame outer)
    let places := orderings.map fun t => projections.findIdx? (·.expr == t.expr)
    let keyed (numbers : List (Option Nat)) (scope : Scope) : Except Error (Row × List Value) := do
      let row ← Projection.evalAllWith reading env projections numbers scope
      let keys ← SortTerm.keysWith reading env orderings places row scope
      return (row, keys)
    let rows ←
      if Select.isGrouped projections groupBy having then
        let groups ←
          if groupBy.isEmpty then pure [frames]
          else groupFrames (fun frame => Expr.evalAllWith reading env groupBy (.ofRow frame outer)) frames
        groupedRows (Expr.holdsOptionWith reading env having) (keyed []) outer groups
      else
        let windows ← Projection.windowsWith reading env projections frames outer
        (frames.zip windows).mapM fun (frame, numbers) => keyed numbers (.ofRow frame outer)
    let sorted := sortByKeys (orderings.map (·.ascending)) rows
    let result := if distinct then distinctRows [] sorted else sorted
    let offset ← Expr.countOptionWith reading env offset outer
    let limit ← Expr.countOptionWith reading env limit outer
    return ⟨projections.map (·.aliasName), cutRows offset limit result⟩

def Source.rowsWith (reading : Reading) (env : Environment) : Source → (outer : List Frame) → Except Error Relation
  | .table _ _ name _, _ => env.table name
  | .derived _ _ select, outer => select.runWith reading env outer
  | .setOperation _ _ op distinct left right, outer => do
    let left ← left.runWith reading env outer
    let right ← right.runWith reading env outer
    return combine op distinct left right
  | _, _ => .error (.evaluation .joinAsSource)

def Source.joinAllWith (reading : Reading) (env : Environment) :
    List Source → (frames outer : List Frame) → Except Error (List Frame)
  | [], frames, _ => .ok frames
  | .joined .cross source :: rest, frames, outer => do
    let r ← source.rowsWith reading env outer
    Source.joinAllWith reading env rest (crossJoin frames source.id r) outer
  | .joined kind source :: rest, frames, outer => do
    let joined ← frames.mapM fun frame => do
      let r ← source.rowsWith reading env (frame :: outer)
      return applyRows kind source.id r frame
    Source.joinAllWith reading env rest joined.flatten outer
  | .joinedOn kind source predicate :: rest, frames, outer => do
    let r ← source.rowsWith reading env outer
    let condition (frame : Frame) : Except Error Bool := do
      let v ← predicate.evalWith reading env .condition (.ofRow frame outer)
      holdsWith predicate v
    let joined ← frames.mapM (joinWhere kind source.id r condition)
    Source.joinAllWith reading env rest joined.flatten outer
  | source :: rest, frames, outer => do
    let r ← source.rowsWith reading env outer
    Source.joinAllWith reading env rest (crossJoin frames source.id r) outer

end

/-! ## Values read as they are stored -/

@[simp] theorem Position.read_stored (p : Position) (mapping : Option TypeMapping) (v : Value) :
    p.read .stored mapping v = pure v := by
  unfold Position.read Reading.stored
  split <;> rfl

end QueryShaping
