import QueryShaping.Execution.World
import QueryShaping.Program.Compile
import QueryShaping.Revision.Finalize

/-!
# Compiled queries

A query that has been finalized, with the program for its rows and the places of its command caches: one for the query
and one for every collection that is loaded by a query of its own.
-/

namespace QueryShaping

structure CompiledQuery where
  shaped : ShapedQuery
  options : QueryOptions
  program : Program
  commands : Nat
  splits : List (Nat × Nat)

/-- The queries of a shape's collections that have their own, in the order of the collections. -/
def Shape.splitQueries (s : Shape) : List (Nat × Select) :=
  s.collections.filterMap fun c => c.split.map fun q => (c.id, q.query)

namespace World

/-- Makes an empty command cache for each of these queries. -/
def addSplits (w : World) : List (Nat × Select) → List (Nat × Nat) × World
  | [] => ([], w)
  | (id, query) :: rest =>
    let (place, w) := w.addCommands query
    let (places, w) := w.addSplits rest
    ((id, place) :: places, w)

/-- Gives a finalized query its command caches. -/
def install (w : World) (shaped : ShapedQuery) (options : QueryOptions) (program : Program) : CompiledQuery × World :=
  let (commands, w) := w.addCommands shaped.query
  let (splits, w) := w.addSplits shaped.shape.splitQueries
  (⟨shaped, options, program, commands, splits⟩, w)

/-- Finalizes and compiles a query. -/
def compile (w : World) (shaped : ShapedQuery) (options : QueryOptions) : Except Error CompiledQuery × World :=
  let (finalized, fresh) := (shaped.finalize options).run.run ⟨0, w.nextTable⟩
  let w := { w with nextTable := fresh.nextTable }
  match finalized with
  | .error e => (.error e, w)
  | .ok shaped =>
    match shaped.compile with
    | .error e => (.error e, w)
    | .ok program =>
      let (query, w) := w.install shaped options program
      (.ok query, w)

end World

end QueryShaping
