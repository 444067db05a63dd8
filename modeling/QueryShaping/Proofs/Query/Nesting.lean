import QueryShaping.Query.Basic

/-!
# Selects inside a select

Sources and expressions of a select hold further selects. What has to be true of each of them is said of the list of
all of them.
-/

namespace QueryShaping

mutual

/-- The selects inside an expression, at any depth. -/
def Expr.selects : Expr → List Select
  | .binary _ left right => left.selects ++ right.selects
  | .unary _ operand => operand.selects
  | .conditional test ifTrue ifFalse => test.selects ++ ifTrue.selects ++ ifFalse.selects
  | .call _ _ receiver arguments _ => Expr.selectsOption receiver ++ Expr.selectsList arguments
  | .inValues item values _ => item.selects ++ Expr.selectsList values
  | .inSubquery item subquery _ => item.selects ++ subquery.selects
  | .exists subquery _ => subquery.selects
  | .like subject pattern escape => subject.selects ++ pattern.selects ++ Expr.selectsOption escape
  | .scalarSubquery subquery => subquery.selects
  | .rowNumber partitions orderings => Expr.selectsList partitions ++ SortTerm.selectsList orderings
  | _ => []

def Expr.selectsOption : Option Expr → List Select
  | none => []
  | some e => e.selects

def Expr.selectsList : List Expr → List Select
  | [] => []
  | e :: rest => e.selects ++ Expr.selectsList rest

def SortTerm.selects : SortTerm → List Select
  | ⟨expr, _⟩ => expr.selects

def SortTerm.selectsList : List SortTerm → List Select
  | [] => []
  | t :: rest => t.selects ++ SortTerm.selectsList rest

def Projection.selects : Projection → List Select
  | ⟨_, expr⟩ => expr.selects

def Projection.selectsList : List Projection → List Select
  | [] => []
  | p :: rest => p.selects ++ Projection.selectsList rest

/-- The select itself and all selects inside it, at any depth. -/
def Select.selects : Select → List Select
  | ⟨projections, sources, predicate, groupBy, having, orderings, limit, offset, distinct⟩ =>
    ⟨projections, sources, predicate, groupBy, having, orderings, limit, offset, distinct⟩ ::
      (Projection.selectsList projections ++ Source.selectsList sources ++ Expr.selectsOption predicate ++
        Expr.selectsList groupBy ++ Expr.selectsOption having ++ SortTerm.selectsList orderings ++
        Expr.selectsOption limit ++ Expr.selectsOption offset)

def Source.selects : Source → List Select
  | .table _ _ _ _ => []
  | .derived _ _ select => select.selects
  | .setOperation _ _ _ _ left right => left.selects ++ right.selects
  | .joined _ source => source.selects
  | .joinedOn _ source predicate => source.selects ++ predicate.selects

def Source.selectsList : List Source → List Select
  | [] => []
  | s :: rest => s.selects ++ Source.selectsList rest

end

end QueryShaping
