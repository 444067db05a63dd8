import QueryShaping.Query.Text

/-!
# Errors

Everything that can go wrong between a query tree and its results, as causes. The wording of each cause stands in
one place, its `message`.
-/

namespace QueryShaping

/-- Why an expression has no value, or a select no rows. -/
inductive EvaluationFault where
  | unknownTable (name : String)
  | unknownColumn (name : String)
  | columnOutOfScope (column : ColumnRef)
  | keyOutOfScope (key : KeyRef)
  | missingParameter (name : String)
  | joinAsSource
  | notABoolean (expr : Expr) (found : Value)
  | rowCountNotAnInteger (found : Value)
  | cannotNegate (operand : Value)
  | cannotCompare (left right : Value)
  | cannotApply (op : BinaryOp) (left right : Value)
  | outOfRange (op : BinaryOp) (left right : Int)
  | escapeNotAText (found : Value)
  | likeNeedsTexts (subject pattern : Value)
  | manyRowsForAScalar
  | misplacedRowNumber
  | aggregateOutsideGroup (name : String)
  | aggregateWithoutArgument (name : String)
  | aggregateOfNonNumber (name : String) (found : Value)
  | unsupportedFunction (name : String) (arguments : List Value)

def EvaluationFault.message : EvaluationFault → String
  | .unknownTable name => "unknown table " ++ name
  | .unknownColumn name => "unknown column " ++ name
  | .columnOutOfScope c => "column " ++ c.qualifier.getD "?" ++ "." ++ c.name ++ " is not in scope"
  | .keyOutOfScope k => "key " ++ k.key ++ " is not in scope"
  | .missingParameter name => "missing parameter @" ++ name
  | .joinAsSource => "join used as a table source"
  | .notABoolean expr found =>
    "expression " ++ expr.text ++ " evaluated to " ++ found.typeName ++ " where a boolean is required"
  | .rowCountNotAnInteger found => "row count must be an integer, got " ++ found.text
  | .cannotNegate operand => "cannot negate " ++ operand.typeName
  | .cannotCompare left right => "cannot compare " ++ left.typeName ++ " with " ++ right.typeName
  | .cannotApply op left right =>
    "cannot apply " ++ op.symbol ++ " to " ++ left.typeName ++ " and " ++ right.typeName
  | .outOfRange op left right =>
    "arithmetic overflow or division by zero in " ++ toString left ++ " " ++ op.symbol ++ " " ++ toString right
  | .escapeNotAText found => "LIKE escape must be a string, got " ++ found.typeName
  | .likeNeedsTexts subject pattern =>
    "LIKE requires strings, got " ++ subject.typeName ++ " and " ++ pattern.typeName
  | .manyRowsForAScalar => "scalar subquery returned more than one row"
  | .misplacedRowNumber => "ROW_NUMBER() is only supported as a projection"
  | .aggregateOutsideGroup name => "aggregate " ++ name ++ " used outside a grouping"
  | .aggregateWithoutArgument name => name ++ " requires an argument"
  | .aggregateOfNonNumber name found => name ++ " over non-numeric " ++ found.typeName
  | .unsupportedFunction name arguments =>
    "unsupported function " ++ name ++ "(" ++ ", ".intercalate (arguments.map Value.typeName) ++ ")"

/-- Why a shape does not fit its query. -/
inductive ShapeFault where
  | noParentIdentifier (collection : Nat)
  | mismatchedKeys (collection : Nat)
  | projectionOutOfRange (index : Nat)
  | parentIdentifierOutOfRange (index : Nat)
  | elementIdentifierOutOfRange (index : Nat)
  | elementProjectionOutOfRange (index : Nat)
  | unjoinedCollection (elementType : String)
  | unjoinedNavigation (name : String)
  | navigationToNoEntity (name : String)
  | entityWithoutKey (entityType : String)
  | duplicateCollection (id : Nat)
  | unknownCollection (id : Nat)
  | noSplitQuery (id : Nat)
  | noSplitCommand (id : Nat)
  | noReader (id : Nat)
  | unknownSlot
  /-- Stands for a step that does not end. -/
  | endless

def ShapeFault.message : ShapeFault → String
  | .noParentIdentifier id => "collection " ++ toString id ++ " has no parent identifier"
  | .mismatchedKeys id => "collection " ++ toString id ++ " has mismatched correlation keys"
  | .projectionOutOfRange i => "projection index " ++ toString i ++ " out of range"
  | .parentIdentifierOutOfRange i => "parent identifier " ++ toString i ++ " out of range"
  | .elementIdentifierOutOfRange i => "element identifier " ++ toString i ++ " out of range"
  | .elementProjectionOutOfRange i => "element projection " ++ toString i ++ " out of range"
  | .unjoinedCollection elementType => "collection of " ++ elementType ++ " was not joined before compilation"
  | .unjoinedNavigation name => "navigation " ++ name ++ " was not joined before compilation"
  | .navigationToNoEntity name => "navigation " ++ name ++ " must target an entity or a collection"
  | .entityWithoutKey entityType => "entity " ++ entityType ++ " has no key"
  | .duplicateCollection id => "duplicate collection id " ++ toString id
  | .unknownCollection id => "unknown collection " ++ toString id
  | .noSplitQuery id => "collection " ++ toString id ++ " has no split query"
  | .noSplitCommand id => "no split command for collection " ++ toString id
  | .noReader id => "no reader for collection " ++ toString id
  | .unknownSlot => "unknown slot"
  | .endless => "no end"

/-- Why a stored value does not fit the place it is read for. -/
inductive DecodeFault where
  | nullValue
  | typeMismatch (expected : DomainType) (found : Value)
  | conversion (error : ConversionError)

def DecodeFault.message : DecodeFault → String
  | .nullValue => "null value for non-nullable projection"
  | .typeMismatch expected found => "expected " ++ expected.name ++ ", found " ++ found.typeName
  | .conversion error => "conversion failed: " ++ error.message

/-- What a data source reports. -/
inductive ProviderFault where
  | unknownTable (name : String)
  | wrongWidth (table : String) (columns values : Nat)
  | connectionFailed
  | closedReader
  | noCurrentRow
  | ordinalOutOfRange (ordinal fields : Nat)
  | scriptExhausted
  | nullParameter (name : String)
  | reported (message : String) (transient : Bool)

namespace ProviderFault

def message : ProviderFault → String
  | .unknownTable name => "unknown table " ++ name
  | .wrongWidth table columns values =>
    "table " ++ table ++ " has " ++ toString columns ++ " columns, row has " ++ toString values
  | .connectionFailed => "injected connection failure"
  | .closedReader => "read from a closed reader"
  | .noCurrentRow => "no current row"
  | .ordinalOutOfRange ordinal fields =>
    "ordinal " ++ toString ordinal ++ " out of range for " ++ toString fields ++ " fields"
  | .scriptExhausted => "script exhausted"
  | .nullParameter name => "parameter " ++ name ++ " is null"
  | .reported message _ => message

/-- Whether the same command may succeed when it is run again. -/
def isTransient : ProviderFault → Bool
  | .connectionFailed => true
  | .reported _ transient => transient
  | _ => false

end ProviderFault

inductive Error where
  | decode (column : String) (ordinal : Nat) (fault : DecodeFault)
  | provider (fault : ProviderFault)
  | concurrencyViolation
  | unsupported (what : String)
  | shape (fault : ShapeFault)
  | evaluation (fault : EvaluationFault)
  | cancelled
  | faulted
  | disposed
  | conversion (error : ConversionError)
  | indexOutOfRange (index : Nat)

/-- The wording of an index that no projection has, in a tree by itself. -/
def indexOutOfRangeMessage (index : Nat) : String :=
  "invalid expression tree: projection index " ++ toString index ++ " out of range"

namespace Error

def message : Error → String
  | .decode column ordinal fault =>
    "failed to decode column '" ++ column ++ "' at ordinal " ++ toString ordinal ++ ": " ++ fault.message
  | .provider fault => "provider error: " ++ fault.message
  | .concurrencyViolation =>
    "a second operation was started on this query context before a previous operation completed"
  | .unsupported what => "unsupported operation: " ++ what
  | .shape fault => "invalid shaper: " ++ fault.message
  | .evaluation fault => "invalid expression: " ++ fault.message
  | .cancelled => "operation cancelled"
  | .faulted => "enumeration faulted by an earlier error"
  | .disposed => "enumeration has been disposed"
  | .conversion error => "ir error: " ++ error.message
  | .indexOutOfRange index => "ir error: " ++ indexOutOfRangeMessage index

/-- Whether trying again may succeed. -/
def isTransient : Error → Bool
  | .provider fault => fault.isTransient
  | _ => false

end Error

end QueryShaping
