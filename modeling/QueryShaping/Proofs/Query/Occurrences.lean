import QueryShaping.Proofs.Evaluation.Reading

/-!
# Where expressions stand

Every expression of a select, at any depth, with the position that it has there. What a pass does to references, or what
evaluation asks of an expression, depends on nothing else, so it can be said of the list of all of them.
-/

namespace QueryShaping

/-- An expression inside a tree, and where it stands. -/
structure Occurrence where
  expr : Expr
  position : Position

mutual

/-- The expression itself and all expressions inside it. -/
def Expr.occurrences : Expr → Position → List Occurrence
  | .column c, position => [⟨.column c, position⟩]
  | .keyAccess k, position => [⟨.keyAccess k, position⟩]
  | .constant value mapping, position => [⟨.constant value mapping, position⟩]
  | .parameter name mapping, position => [⟨.parameter name mapping, position⟩]
  | .binary op left right, position =>
    ⟨.binary op left right, position⟩ ::
      (left.occurrences (position.operand op) ++ right.occurrences (position.operand op))
  | .unary op operand, position =>
    ⟨.unary op operand, position⟩ :: operand.occurrences (position.unaryOperand op)
  | .conditional test ifTrue ifFalse, position =>
    ⟨.conditional test ifTrue ifFalse, position⟩ ::
      (test.occurrences .condition ++ ifTrue.occurrences .value ++ ifFalse.occurrences .value)
  | .call name niladic receiver arguments mapping, position =>
    ⟨.call name niladic receiver arguments mapping, position⟩ ::
      (Expr.occurrencesOption receiver .value ++ Expr.occurrencesList arguments)
  | .inValues item values negated, position =>
    ⟨.inValues item values negated, position⟩ :: (item.occurrences .value ++ Expr.occurrencesList values)
  | .inSubquery item subquery negated, position =>
    ⟨.inSubquery item subquery negated, position⟩ :: (item.occurrences .value ++ subquery.occurrences)
  | .exists subquery negated, position => ⟨.exists subquery negated, position⟩ :: subquery.occurrences
  | .like subject pattern escape, position =>
    ⟨.like subject pattern escape, position⟩ ::
      (subject.occurrences .value ++ pattern.occurrences .value ++ Expr.occurrencesOption escape .value)
  | .scalarSubquery subquery, position => ⟨.scalarSubquery subquery, position⟩ :: subquery.occurrences
  | .rowNumber partitions orderings, position =>
    ⟨.rowNumber partitions orderings, position⟩ ::
      (Expr.occurrencesList partitions ++ SortTerm.occurrencesList orderings)

def Expr.occurrencesOption : Option Expr → Position → List Occurrence
  | none, _ => []
  | some e, position => e.occurrences position

def Expr.occurrencesList : List Expr → List Occurrence
  | [] => []
  | e :: rest => e.occurrences .value ++ Expr.occurrencesList rest

def SortTerm.occurrences : SortTerm → List Occurrence
  | ⟨expr, _⟩ => expr.occurrences .value

def SortTerm.occurrencesList : List SortTerm → List Occurrence
  | [] => []
  | t :: rest => t.occurrences ++ SortTerm.occurrencesList rest

def Projection.occurrences : Projection → List Occurrence
  | ⟨_, expr⟩ => expr.occurrences .value

def Projection.occurrencesList : List Projection → List Occurrence
  | [] => []
  | p :: rest => p.occurrences ++ Projection.occurrencesList rest

/-- All expressions of a select and of the selects inside it. -/
def Select.occurrences : Select → List Occurrence
  | ⟨projections, sources, predicate, groupBy, having, orderings, limit, offset, _⟩ =>
    Projection.occurrencesList projections ++ Source.occurrencesList sources ++
      Expr.occurrencesOption predicate .condition ++ Expr.occurrencesList groupBy ++
      Expr.occurrencesOption having .condition ++ SortTerm.occurrencesList orderings ++
      Expr.occurrencesOption limit .value ++ Expr.occurrencesOption offset .value

def Source.occurrences : Source → List Occurrence
  | .table _ _ _ _ => []
  | .derived _ _ select => select.occurrences
  | .setOperation _ _ _ _ left right => left.occurrences ++ right.occurrences
  | .joined _ source => source.occurrences
  | .joinedOn _ source predicate => source.occurrences ++ predicate.occurrences .condition

def Source.occurrencesList : List Source → List Occurrence
  | [] => []
  | s :: rest => s.occurrences ++ Source.occurrencesList rest

end

theorem Expr.mem_occurrences (e : Expr) (position : Position) : ⟨e, position⟩ ∈ e.occurrences position := by
  cases e <;> simp [Expr.occurrences]

end QueryShaping
