/-!
# Operators and kinds

The closed vocabularies of query trees, each with the word that stands for it in a command.
-/

namespace QueryShaping

inductive BinaryOp where
  | equal
  | notEqual
  | lessThan
  | lessThanOrEqual
  | greaterThan
  | greaterThanOrEqual
  | andAlso
  | orElse
  | add
  | subtract
  | multiply
  | divide
  | modulo
deriving DecidableEq

namespace BinaryOp

def isEquality : BinaryOp → Bool
  | .equal | .notEqual => true
  | _ => false

def isComparison : BinaryOp → Bool
  | .equal | .notEqual | .lessThan | .lessThanOrEqual | .greaterThan | .greaterThanOrEqual => true
  | _ => false

def isLogical : BinaryOp → Bool
  | .andAlso | .orElse => true
  | _ => false

def symbol : BinaryOp → String
  | .equal => "="
  | .notEqual => "<>"
  | .lessThan => "<"
  | .lessThanOrEqual => "<="
  | .greaterThan => ">"
  | .greaterThanOrEqual => ">="
  | .andAlso => "AND"
  | .orElse => "OR"
  | .add => "+"
  | .subtract => "-"
  | .multiply => "*"
  | .divide => "/"
  | .modulo => "%"

/-- The name of the operator in the JSON form. -/
def name : BinaryOp → String
  | .equal => "Equal"
  | .notEqual => "NotEqual"
  | .lessThan => "LessThan"
  | .lessThanOrEqual => "LessThanOrEqual"
  | .greaterThan => "GreaterThan"
  | .greaterThanOrEqual => "GreaterThanOrEqual"
  | .andAlso => "AndAlso"
  | .orElse => "OrElse"
  | .add => "Add"
  | .subtract => "Subtract"
  | .multiply => "Multiply"
  | .divide => "Divide"
  | .modulo => "Modulo"

def all : List BinaryOp :=
  [.equal, .notEqual, .lessThan, .lessThanOrEqual, .greaterThan, .greaterThanOrEqual, .andAlso, .orElse, .add,
    .subtract, .multiply, .divide, .modulo]

def ofName? (s : String) : Option BinaryOp :=
  all.find? (·.name = s)

end BinaryOp

inductive UnaryOp where
  | not
  | negate
  | isNull
  | isNotNull
deriving DecidableEq

namespace UnaryOp

def name : UnaryOp → String
  | .not => "Not"
  | .negate => "Negate"
  | .isNull => "IsNull"
  | .isNotNull => "IsNotNull"

def all : List UnaryOp :=
  [.not, .negate, .isNull, .isNotNull]

def ofName? (s : String) : Option UnaryOp :=
  all.find? (·.name = s)

end UnaryOp

inductive SetOperator where
  | except
  | intersect
  | union
deriving DecidableEq

namespace SetOperator

def keyword : SetOperator → String
  | .except => "EXCEPT"
  | .intersect => "INTERSECT"
  | .union => "UNION"

def name : SetOperator → String
  | .except => "Except"
  | .intersect => "Intersect"
  | .union => "Union"

def all : List SetOperator :=
  [.except, .intersect, .union]

def ofName? (s : String) : Option SetOperator :=
  all.find? (·.name = s)

end SetOperator

/-- How a source without a condition is joined to the sources before it. The applied kinds see the row they are
joined to. -/
inductive JoinKind where
  | cross
  | crossApply
  | outerApply
deriving DecidableEq

namespace JoinKind

def keyword : JoinKind → String
  | .cross => "CROSS JOIN"
  | .crossApply => "CROSS APPLY"
  | .outerApply => "OUTER APPLY"

def name : JoinKind → String
  | .cross => "Cross"
  | .crossApply => "CrossApply"
  | .outerApply => "OuterApply"

end JoinKind

/-- How a source with a condition is joined to the sources before it. -/
inductive ConditionalJoinKind where
  | inner
  | left
deriving DecidableEq

namespace ConditionalJoinKind

def keyword : ConditionalJoinKind → String
  | .inner => "INNER JOIN"
  | .left => "LEFT JOIN"

def name : ConditionalJoinKind → String
  | .inner => "Inner"
  | .left => "Left"

end ConditionalJoinKind

end QueryShaping
