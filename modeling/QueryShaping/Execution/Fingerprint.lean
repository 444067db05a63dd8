import QueryShaping.Digest.Blake3
import QueryShaping.Execution.Compiled

/-!
# Fingerprints

Two compiled queries with the same text, that of their collections' own queries included, have the same fingerprint.
-/

namespace QueryShaping

/-- The number of digest bytes that a fingerprint shows. -/
def fingerprintSize : Nat := 16

/-- The texts of all queries, one to a line. -/
def CompiledQuery.texts (q : CompiledQuery) : String :=
  "\n".intercalate (q.shaped.query.text :: q.shaped.shape.splitQueries.map fun (_, query) => query.text)

def CompiledQuery.fingerprint (q : CompiledQuery) : String :=
  Text.hexText ((Digest.blake3 q.texts.toUTF8.toList).take fingerprintSize)

end QueryShaping
