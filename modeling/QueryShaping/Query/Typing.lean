import QueryShaping.Query.Basic

/-!
# Types of expressions

What is known about an expression without a row: the mapping it carries, its domain type and whether it may be
null.
-/

namespace QueryShaping

mutual

/-- The mapping that an expression carries. A subquery has that of its first output column and a conditional that
of the first branch that has one. -/
def Expr.mapping? : Expr → Option TypeMapping
  | .column c => c.mapping
  | .keyAccess k => k.mapping
  | .constant _ mapping => mapping
  | .parameter _ mapping => mapping
  | .call _ _ _ _ mapping => mapping
  | .scalarSubquery s => s.headMapping?
  | .conditional _ ifTrue ifFalse => ifTrue.mapping?.or ifFalse.mapping?
  | _ => none

def Select.headMapping? : Select → Option TypeMapping
  | ⟨projections, _, _, _, _, _, _, _, _⟩ => Projection.headMapping? projections

def Projection.headMapping? : List Projection → Option TypeMapping
  | [] => none
  | p :: _ => p.mapping?

def Projection.mapping? : Projection → Option TypeMapping
  | ⟨_, expr⟩ => expr.mapping?

end

namespace Expr

/-- The domain type of an expression, where it is known. -/
def domainType? (e : Expr) : Option DomainType :=
  let mapped := e.mapping?.map TypeMapping.domainType
  match e with
  | .binary op .. => if op.isComparison || op.isLogical then some .bool else mapped
  | .unary op _ => if op = .negate then mapped else some .bool
  | .inValues .. | .inSubquery .. | .exists .. | .like .. => some .bool
  | .rowNumber .. => some .int64
  | .constant value none => DomainType.ofValue? value
  | _ => mapped

/-- Whether an expression may be null, as far as its form tells. -/
def isNullable : Expr → Bool
  | .column c => c.nullable
  | .keyAccess k => k.nullable
  | .constant value _ => value.isNull
  | .rowNumber .. | .exists .. => false
  | .unary .not operand | .unary .negate operand => operand.isNullable
  | .unary .. => false
  | _ => true

/-- Whether the expression is a call of an aggregate function, if it is a call at all. -/
def isAggregateCall? : Expr → Option Bool
  | .call name .. => some (isAggregateName name)
  | _ => none

end Expr

end QueryShaping
