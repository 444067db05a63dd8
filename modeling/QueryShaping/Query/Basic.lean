import QueryShaping.Mapping.Basic
import QueryShaping.Query.Operator
import QueryShaping.Text.LetterCase

/-!
# Query trees

A select reads rows from its sources, and scalar expressions say what is computed from a row. The two refer to
each other, because an expression may hold a subquery and a source may be one.

A table source carries an identity, and a column names the identity of the source it belongs to. Its qualifier is
the alias to print and nothing else, so that renaming a source never leaves a reference dangling.
-/

namespace QueryShaping

/-- The identity of a table source. -/
abbrev TableId := Nat

/-- A column of a table source. -/
structure ColumnRef where
  table : TableId
  qualifier : Option String
  name : String
  mapping : Option TypeMapping
  nullable : Bool
deriving DecidableEq

/-- A named key of a row that is a document. -/
structure KeyRef where
  table : TableId
  qualifier : Option String
  key : String
  mapping : Option TypeMapping
  nullable : Bool
deriving DecidableEq

mutual

/-- A scalar expression. -/
inductive Expr where
  | column (c : ColumnRef)
  | keyAccess (k : KeyRef)
  | constant (value : Value) (mapping : Option TypeMapping)
  | parameter (name : String) (mapping : Option TypeMapping)
  | binary (op : BinaryOp) (left right : Expr)
  | unary (op : UnaryOp) (operand : Expr)
  | conditional (test ifTrue ifFalse : Expr)
  | call (name : String) (niladic : Bool) (receiver : Option Expr) (arguments : List Expr)
      (mapping : Option TypeMapping)
  | inValues (item : Expr) (values : List Expr) (negated : Bool)
  | inSubquery (item : Expr) (subquery : Select) (negated : Bool)
  | exists (subquery : Select) (negated : Bool)
  | like (subject pattern : Expr) (escape : Option Expr)
  | scalarSubquery (subquery : Select)
  | rowNumber (partitions : List Expr) (orderings : List SortTerm)

/-- One term of an ordering. -/
structure SortTerm where
  expr : Expr
  ascending : Bool

/-- An output column of a select. -/
structure Projection where
  aliasName : String
  expr : Expr

structure Select where
  projections : List Projection
  sources : List Source
  predicate : Option Expr
  groupBy : List Expr
  having : Option Expr
  orderings : List SortTerm
  limit : Option Expr
  offset : Option Expr
  distinct : Bool

/-- A source of rows. A joined source is combined with the sources that stand before it. -/
inductive Source where
  | table (id : TableId) (aliasName : Option String) (name : String) (schema : Option String)
  | derived (id : TableId) (aliasName : Option String) (select : Select)
  | setOperation (id : TableId) (aliasName : Option String) (op : SetOperator) (distinct : Bool)
      (left right : Select)
  | joined (kind : JoinKind) (source : Source)
  | joinedOn (kind : ConditionalJoinKind) (source : Source) (predicate : Expr)

end

/-- The select without any clause. -/
def Select.empty : Select :=
  ⟨[], [], none, [], none, [], none, none, false⟩

instance : Inhabited Select := ⟨.empty⟩

instance : Inhabited Expr := ⟨.constant .null none⟩

def Expr.isBinary : Expr → Bool
  | .binary .. => true
  | _ => false

/-- Whether a function of this name, in any case, is evaluated over a group of rows. -/
def isAggregateName (name : String) : Bool :=
  ["COUNT", "SUM", "MIN", "MAX", "AVG"].contains (Text.asciiUppercase name)

namespace Source

/-- The identity of the source, or of the one that a join brings in. -/
def id : Source → TableId
  | .table id .. => id
  | .derived id .. => id
  | .setOperation id .. => id
  | .joined _ source => source.id
  | .joinedOn _ source _ => source.id

def aliasName : Source → Option String
  | .table _ aliasName .. => aliasName
  | .derived _ aliasName _ => aliasName
  | .setOperation _ aliasName .. => aliasName
  | .joined _ source => source.aliasName
  | .joinedOn _ source _ => source.aliasName

/-- The source under another alias, or under none. -/
def withAlias (new : Option String) : Source → Source
  | .table id _ name schema => .table id new name schema
  | .derived id _ select => .derived id new select
  | .setOperation id _ op distinct left right => .setOperation id new op distinct left right
  | .joined kind source => .joined kind (source.withAlias new)
  | .joinedOn kind source predicate => .joinedOn kind (source.withAlias new) predicate

/-- The word that introduces a joined source. -/
def joinKeyword? : Source → Option String
  | .joined kind _ => some kind.keyword
  | .joinedOn kind .. => some kind.keyword
  | _ => none

/-- The source that a join brings in. -/
def joinedSource? : Source → Option Source
  | .joined _ source => some source
  | .joinedOn _ source _ => some source
  | _ => none

def joinPredicate? : Source → Option Expr
  | .joinedOn _ _ predicate => some predicate
  | _ => none

/-- The same kind of join over another source, with another condition if the kind has one and one is given. -/
def rejoin (join new : Source) (condition : Option Expr) : Source :=
  match join with
  | .joined kind _ => .joined kind new
  | .joinedOn kind _ predicate => .joinedOn kind new (condition.getD predicate)
  | _ => new

end Source

end QueryShaping
