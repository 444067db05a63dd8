import QueryShaping.Query.Build

/-!
# Pushing a select down

A select can be put into a derived table, under a select that projects the same columns at the same places. The
ordering moves outside, and stays inside too when a limit or an offset needs it there. An ordering that is not
projected becomes a hidden column, except under `DISTINCT`, where another column would change the rows.
-/

namespace QueryShaping.Select

/-- The place at which an ordering is found in the result, with the select that has it there. -/
def exposeOrdering (s : Select) (expr : Expr) : Select × Option Nat :=
  match s.projectionIndex? expr with
  | some index => (s, some index)
  | none =>
    if s.distinct then (s, none)
    else
      let (wider, index) := s.addProjection expr "c"
      (wider, some index)

/-- Exposes all orderings in turn, and gives the place and direction of those that are found. -/
def exposeOrderings (s : Select) : List SortTerm → Select × List (Nat × Bool)
  | [] => (s, [])
  | ⟨expr, ascending⟩ :: rest =>
    let (s, index) := s.exposeOrdering expr
    let (s, places) := s.exposeOrderings rest
    (s, (index.map fun i => (i, ascending)).toList ++ places)

/-- The select over a derived table `id AS aliasName` that holds this select. -/
def pushDown (s : Select) (id : TableId) (aliasName : String) : Select :=
  let (wider, places) := exposeOrderings { s with orderings := [] } s.orderings
  let limited := s.limit.isSome || s.offset.isSome
  let inner := { wider with orderings := if limited then s.orderings else [] }
  let source := Source.derived id (some aliasName) inner
  { empty with
    projections := (List.range s.projections.length).filterMap fun i =>
      (source.columnAt? i).map fun c => ⟨c.name, .column c⟩
    sources := [source]
    orderings := places.filterMap fun (i, ascending) =>
      (source.columnAt? i).map fun c => ⟨.column c, ascending⟩ }

end QueryShaping.Select
