import QueryShaping.Entity.Listing
import QueryShaping.Execution.Fingerprint
import QueryShaping.Execution.Session
import QueryShaping.Json.Writer
import QueryShaping.Program.Json
import QueryShaping.Sample.Blogs
import QueryShaping.Value.Plain
import QueryShaping.Proofs.Execution.Inserting
import QueryShaping.Proofs.Query.Readability
import QueryShaping.Proofs.Revision.Pagination
import QueryShaping.Proofs.Revision.AliasStability
import QueryShaping.Proofs.Revision.JoinedCollections
import QueryShaping.Proofs.Revision.CompensationKeeps
import QueryShaping.Proofs.Execution.Cancellation
import QueryShaping.Proofs.Execution.Exclusion
import QueryShaping.Proofs.Shape.RoundTrip
import QueryShaping.Proofs.Execution.Identity
import QueryShaping.Proofs.Entity.Cycles
import QueryShaping.Proofs.Evaluation.PatternLanguage
import QueryShaping.Proofs.Evaluation.RowNumbers
import QueryShaping.Proofs.Query.Repetitions
import QueryShaping.Proofs.Execution.Opening
import QueryShaping.Proofs.Mapping.StoredForms
import QueryShaping.Proofs.Evaluation.Aggregates
