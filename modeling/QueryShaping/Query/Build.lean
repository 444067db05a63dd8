import QueryShaping.Query.Equality
import QueryShaping.Query.Typing

/-!
# Building queries

Small steps from which expressions and selects are put together. A projection is added at most once, under a name
that no other projection has, and indices of projections never change.
-/

namespace QueryShaping

namespace Expr

def literal (value : Value) : Expr := .constant value none

def equalTo (left right : Expr) : Expr := .binary .equal left right

def notEqualTo (left right : Expr) : Expr := .binary .notEqual left right

def both (left right : Expr) : Expr := .binary .andAlso left right

def either (left right : Expr) : Expr := .binary .orElse left right

def negation (operand : Expr) : Expr := .unary .not operand

def isNullTest (operand : Expr) : Expr := .unary .isNull operand

/-- The conjunction of a list, which an empty list has not. -/
def conjunction? : List Expr → Option Expr
  | [] => none
  | e :: rest => some (rest.foldl both e)

/-- A call of a function without a receiver. -/
def apply (name : String) (arguments : List Expr) : Expr := .call name false none arguments none

end Expr

/-- The same column behind an outer join, where it may always be null. -/
def ColumnRef.madeNullable (c : ColumnRef) : ColumnRef :=
  { c with nullable := true }

/-- The first of `hint`, `hint0`, `hint1`, … whose lowercase form is not in use. Among as many suffixes as there are
names in use one is free. -/
def uniqueName (hint : String) (used : List String) : String :=
  let candidates := hint :: (List.range used.length).map fun n => hint ++ toString n
  (candidates.find? fun name => !used.contains (Text.lowercase name)).getD hint

namespace Source

/-- The column of a source that stands for an output column of the query inside it. A set operation is named by
its left side and may always be null. -/
def columnAt? (source : Source) (index : Nat) : Option ColumnRef :=
  match source with
  | .derived id aliasName select =>
    select.projections[index]?.map fun p => ⟨id, aliasName, p.aliasName, p.expr.mapping?, p.expr.isNullable⟩
  | .setOperation id aliasName _ _ left _ =>
    left.projections[index]?.map fun p => ⟨id, aliasName, p.aliasName, p.expr.mapping?, true⟩
  | _ => none

/-- A column of a base table. -/
def column (source : Source) (name : String) (mapping : Option TypeMapping) (nullable : Bool) : Expr :=
  .column ⟨source.id, source.aliasName, name, mapping, nullable⟩

end Source

namespace Select

/-- A select over one source. -/
def fromSource (source : Source) : Select :=
  { empty with sources := [source] }

def project (s : Select) (aliasName : String) (expr : Expr) : Select :=
  { s with projections := s.projections ++ [⟨aliasName, expr⟩] }

/-- Requires a condition on top of the present one. -/
def filter (s : Select) (condition : Expr) : Select :=
  { s with predicate := some (match s.predicate with
      | some present => present.both condition
      | none => condition) }

def orderBy (s : Select) (expr : Expr) (ascending : Bool) : Select :=
  { s with orderings := s.orderings ++ [⟨expr, ascending⟩] }

/-- Adds a source, most often a joined one. -/
def addSource (s : Select) (source : Source) : Select :=
  { s with sources := s.sources ++ [source] }

/-- The place of the first projection of an expression. -/
def projectionIndex? (s : Select) (expr : Expr) : Option Nat :=
  s.projections.findIdx? (·.expr == expr)

/-- Projects an expression unless it is projected already, and tells where. -/
def addProjection (s : Select) (expr : Expr) (hint : String) : Select × Nat :=
  match s.projectionIndex? expr with
  | some index => (s, index)
  | none =>
    let used := s.projections.map fun p => Text.lowercase p.aliasName
    (s.project (uniqueName hint used) expr, s.projections.length)

/-- Orders by one more expression unless it is ordered by already. -/
def appendOrdering (s : Select) (term : SortTerm) : Select :=
  if s.orderings.any (·.expr == term.expr) then s else { s with orderings := s.orderings ++ [term] }

/-- Whether adding columns to the result would change its rows. -/
def requiresPushdown (s : Select) : Bool :=
  s.distinct || s.limit.isSome || s.offset.isSome || !s.groupBy.isEmpty

end Select

mutual

/-- The number of derived tables inside each other along the first source. -/
def Select.nestingDepth : Select → Nat
  | ⟨_, sources, _, _, _, _, _, _, _⟩ => Source.headDepth sources

def Source.headDepth : List Source → Nat
  | [] => 0
  | source :: _ => source.depth

def Source.depth : Source → Nat
  | .derived _ _ select => 1 + select.nestingDepth
  | _ => 0

end

end QueryShaping
