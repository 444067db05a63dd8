import QueryShaping.Options
import QueryShaping.Revision.Alias
import QueryShaping.Revision.CollectionJoin
import QueryShaping.Revision.ConvertedBool

/-!
# Finalizing a query

Collections are joined first, since that brings in new sources and conditions. Then stored booleans are compensated if
the options ask for it, and aliases become unique last, in each query by itself.
-/

namespace QueryShaping

def Select.finalize (s : Select) (options : QueryOptions) : Select :=
  let compensated := if options.compensateConvertedBools then s.compensate.value else s
  compensated.uniquifyAliases.value

def ShapedQuery.finalize (shaped : ShapedQuery) (options : QueryOptions) : Joining ShapedQuery := do
  let joined ← shaped.joinCollections options.isSplit
  return ⟨joined.query.finalize options, joined.shape.mapSplitQueries fun s => s.finalize options⟩

end QueryShaping
