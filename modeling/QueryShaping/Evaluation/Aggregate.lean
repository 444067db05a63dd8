import QueryShaping.Query.Basic

/-!
# Aggregates in expressions
-/

namespace QueryShaping

mutual

/-- Whether an aggregate is called in an expression, outside of its subqueries and lists of candidates. -/
def Expr.containsAggregate : Expr → Bool
  | .call name _ receiver arguments _ =>
    isAggregateName name || Expr.containsAggregateOption receiver || Expr.containsAggregateList arguments
  | .binary _ left right => left.containsAggregate || right.containsAggregate
  | .unary _ operand => operand.containsAggregate
  | .conditional test ifTrue ifFalse =>
    test.containsAggregate || ifTrue.containsAggregate || ifFalse.containsAggregate
  | .like subject pattern _ => subject.containsAggregate || pattern.containsAggregate
  | .inValues item _ _ => item.containsAggregate
  | .inSubquery item _ _ => item.containsAggregate
  | _ => false

def Expr.containsAggregateOption : Option Expr → Bool
  | none => false
  | some e => e.containsAggregate

def Expr.containsAggregateList : List Expr → Bool
  | [] => false
  | e :: rest => e.containsAggregate || Expr.containsAggregateList rest

end

/-- Whether a select is evaluated group by group. -/
def Select.isGrouped (projections : List Projection) (groupBy : List Expr) (having : Option Expr) : Bool :=
  !groupBy.isEmpty || having.isSome || projections.any (·.expr.containsAggregate)

end QueryShaping
