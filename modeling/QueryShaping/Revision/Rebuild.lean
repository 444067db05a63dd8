import QueryShaping.Query.Basic
import QueryShaping.Revision.Revised

/-!
# Rebuilding nodes

A pass copies on write. Each of these functions is told which parts of a node have changed. If none has, the node is left
as it is; else it is rebuilt from the new parts and from those old ones that have no new one.
-/

namespace QueryShaping

/-- The items of a list after they were visited, if one of them has changed. -/
def changedList (visited : List (Revised α)) : Option (List α) :=
  if visited.all fun x => !x.changed then none else some (visited.map (·.value))

/-- An optional part after it was visited, if it is there and has changed. -/
def changedOption (visited : Option (Revised α)) : Option (Option α) :=
  visited.bind fun x => x.new?.map some

def SortTerm.withExpr (t : SortTerm) (expr : Revised Expr) : Revised SortTerm :=
  .orElseKeep (expr.new?.map fun e => ⟨e, t.ascending⟩) t

def Projection.withExpr (p : Projection) (expr : Revised Expr) : Revised Projection :=
  .orElseKeep (expr.new?.map fun e => ⟨p.aliasName, e⟩) p

namespace Expr

def rebuildBinary (op : BinaryOp) (left right : Expr) (left' right' : Option Expr) : Revised Expr :=
  if left'.isNone && right'.isNone then pure (.binary op left right)
  else .replaced (.binary op (left'.getD left) (right'.getD right))

def rebuildConditional (test ifTrue ifFalse : Expr) (test' ifTrue' ifFalse' : Option Expr) : Revised Expr :=
  if test'.isNone && ifTrue'.isNone && ifFalse'.isNone then pure (.conditional test ifTrue ifFalse)
  else .replaced (.conditional (test'.getD test) (ifTrue'.getD ifTrue) (ifFalse'.getD ifFalse))

def rebuildCall (name : String) (niladic : Bool) (receiver : Option Expr) (arguments : List Expr)
    (mapping : Option TypeMapping) (receiver' : Option Expr) (arguments' : Option (List Expr)) : Revised Expr :=
  if receiver'.isNone && arguments'.isNone then pure (.call name niladic receiver arguments mapping)
  else .replaced (.call name niladic (receiver'.or receiver) (arguments'.getD arguments) mapping)

def rebuildInValues (item : Expr) (values : List Expr) (negated : Bool) (item' : Option Expr)
    (values' : Option (List Expr)) : Revised Expr :=
  if item'.isNone && values'.isNone then pure (.inValues item values negated)
  else .replaced (.inValues (item'.getD item) (values'.getD values) negated)

def rebuildInSubquery (item : Expr) (subquery : Select) (negated : Bool) (item' : Option Expr)
    (subquery' : Option Select) : Revised Expr :=
  if item'.isNone && subquery'.isNone then pure (.inSubquery item subquery negated)
  else .replaced (.inSubquery (item'.getD item) (subquery'.getD subquery) negated)

def rebuildLike (subject pattern : Expr) (escape : Option Expr) (subject' pattern' escape' : Option Expr) :
    Revised Expr :=
  if subject'.isNone && pattern'.isNone && escape'.isNone then pure (.like subject pattern escape)
  else .replaced (.like (subject'.getD subject) (pattern'.getD pattern) (escape'.or escape))

def rebuildRowNumber (partitions : List Expr) (orderings : List SortTerm) (partitions' : Option (List Expr))
    (orderings' : Option (List SortTerm)) : Revised Expr :=
  if partitions'.isNone && orderings'.isNone then pure (.rowNumber partitions orderings)
  else .replaced (.rowNumber (partitions'.getD partitions) (orderings'.getD orderings))

end Expr

def Select.rebuild (s : Select) (projections : Option (List Projection)) (sources : Option (List Source))
    (predicate : Option (Option Expr)) (groupBy : Option (List Expr)) (having : Option (Option Expr))
    (orderings : Option (List SortTerm)) (limit offset : Option (Option Expr)) : Revised Select :=
  if projections.isNone && sources.isNone && predicate.isNone && groupBy.isNone && having.isNone && orderings.isNone &&
      limit.isNone && offset.isNone then pure s
  else .replaced
    { projections := projections.getD s.projections, sources := sources.getD s.sources
      predicate := predicate.getD s.predicate, groupBy := groupBy.getD s.groupBy, having := having.getD s.having
      orderings := orderings.getD s.orderings, limit := limit.getD s.limit, offset := offset.getD s.offset
      distinct := s.distinct }

namespace Source

def rebuildSetOperation (id : TableId) (aliasName : Option String) (op : SetOperator) (distinct : Bool)
    (left right : Select) (left' right' : Option Select) : Option Source :=
  if left'.isNone && right'.isNone then none
  else some (.setOperation id aliasName op distinct (left'.getD left) (right'.getD right))

def rebuildJoin (join : Source) (source : Revised Source) (predicate : Option (Revised Expr)) : Revised Source :=
  if !source.changed && !predicate.any (·.changed) then pure join
  else .replaced (join.rejoin source.value (predicate.map (·.value)))

/-- A source that is no join, with its new alias and its new parts. -/
def rebuild (s : Source) (aliasName : Option (Option String)) (parts : Option Source) : Revised Source :=
  match aliasName, parts with
  | none, none => pure s
  | none, some rebuilt => .replaced rebuilt
  | some new, rebuilt => .replaced ((rebuilt.getD s).withAlias new)

end Source

end QueryShaping
