import QueryShaping.Query.Build
import QueryShaping.Revision.Walk

/-!
# Unique aliases

When queries are composed, several sources may come to have one alias. This pass visits the sources of a tree and
gives each identity a name of its own, whatever the case of letters; then it writes these names to the sources and to
the qualifiers of the columns that belong to them.
-/

namespace QueryShaping

mutual

/-- The sources inside an expression that are no joins, in visiting order. -/
def Expr.tableSources : Expr → List Source
  | .binary _ left right => left.tableSources ++ right.tableSources
  | .unary _ operand => operand.tableSources
  | .conditional test ifTrue ifFalse => test.tableSources ++ ifTrue.tableSources ++ ifFalse.tableSources
  | .call _ _ receiver arguments _ => Expr.tableSourcesOption receiver ++ Expr.tableSourcesList arguments
  | .inValues item values _ => item.tableSources ++ Expr.tableSourcesList values
  | .inSubquery item subquery _ => item.tableSources ++ subquery.tableSources
  | .exists subquery _ => subquery.tableSources
  | .like subject pattern escape =>
    subject.tableSources ++ pattern.tableSources ++ Expr.tableSourcesOption escape
  | .scalarSubquery subquery => subquery.tableSources
  | .rowNumber partitions orderings =>
    Expr.tableSourcesList partitions ++ SortTerm.tableSourcesList orderings
  | _ => []

def Expr.tableSourcesOption : Option Expr → List Source
  | none => []
  | some e => e.tableSources

def Expr.tableSourcesList : List Expr → List Source
  | [] => []
  | e :: rest => e.tableSources ++ Expr.tableSourcesList rest

def SortTerm.tableSources : SortTerm → List Source
  | ⟨expr, _⟩ => expr.tableSources

def SortTerm.tableSourcesList : List SortTerm → List Source
  | [] => []
  | t :: rest => t.tableSources ++ SortTerm.tableSourcesList rest

def Projection.tableSources : Projection → List Source
  | ⟨_, expr⟩ => expr.tableSources

def Projection.tableSourcesList : List Projection → List Source
  | [] => []
  | p :: rest => p.tableSources ++ Projection.tableSourcesList rest

/-- The sources of a select at any depth that are no joins, each before those inside it. -/
def Select.tableSources : Select → List Source
  | ⟨projections, sources, predicate, groupBy, having, orderings, limit, offset, _⟩ =>
    Projection.tableSourcesList projections ++ Source.tableSourcesList sources ++
      Expr.tableSourcesOption predicate ++ Expr.tableSourcesList groupBy ++ Expr.tableSourcesOption having ++
      SortTerm.tableSourcesList orderings ++ Expr.tableSourcesOption limit ++ Expr.tableSourcesOption offset

def Source.tableSources : Source → List Source
  | .table id aliasName name schema => [.table id aliasName name schema]
  | .derived id aliasName select => .derived id aliasName select :: select.tableSources
  | .setOperation id aliasName op distinct left right =>
    .setOperation id aliasName op distinct left right :: (left.tableSources ++ right.tableSources)
  | .joined _ source => source.tableSources
  | .joinedOn _ source predicate => source.tableSources ++ predicate.tableSources

def Source.tableSourcesList : List Source → List Source
  | [] => []
  | s :: rest => s.tableSources ++ Source.tableSourcesList rest

end

/-- The first of several sources with one identity. -/
def firstSources : (seen : List TableId) → List Source → List Source
  | _, [] => []
  | seen, s :: rest =>
    if seen.contains s.id then firstSources seen rest else s :: firstSources (s.id :: seen) rest

/-- The aliases that a select declares, one for each identity. -/
def Select.declaredAliases (s : Select) : List String :=
  (firstSources [] s.tableSources).filterMap Source.aliasName

/-- The names given out so far. -/
structure AliasScope where
  /-- The names in use, in lowercase. -/
  used : List String
  visited : List TableId
  aliases : List (TableId × String)

namespace AliasScope

def empty : AliasScope := ⟨[], [], []⟩

/-- Gives a name to a source that is met for the first time. -/
def reserve (scope : AliasScope) (source : Source) : AliasScope :=
  if scope.visited.contains source.id then scope
  else
    let scope := { scope with visited := source.id :: scope.visited }
    match source.aliasName with
    | none => scope
    | some aliasName =>
      let name := uniqueName aliasName scope.used
      { scope with used := Text.lowercase name :: scope.used, aliases := (source.id, name) :: scope.aliases }

/-- Gives names to all sources of a select. -/
def assign (scope : AliasScope) (select : Select) : AliasScope :=
  select.tableSources.foldl reserve scope

/-- The name given to an identity, where it is not the present one. -/
def renamed (scope : AliasScope) (id : TableId) (current : Option String) : Option String :=
  (scope.aliases.lookup id).filter fun name => some name ≠ current

def reviser (scope : AliasScope) : Reviser where
  column c := (scope.renamed c.table c.qualifier).map fun name => .column { c with qualifier := some name }
  key k := (scope.renamed k.table k.qualifier).map fun name => .keyAccess { k with qualifier := some name }
  aliasName source := (scope.renamed source.id source.aliasName).map some

/-- Writes the given names into a select. -/
def apply (scope : AliasScope) (select : Select) : Revised Select :=
  select.walk scope.reviser

end AliasScope

/-- A select whose sources have names of their own. -/
def Select.uniquifyAliases (s : Select) : Revised Select :=
  (AliasScope.empty.assign s).apply s

end QueryShaping
