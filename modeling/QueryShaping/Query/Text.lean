import QueryShaping.Query.Basic

/-!
# Queries as text

The command that stands for a tree. Binary operators are written in parentheses wherever they are an operand, and
nothing else is.
-/

namespace QueryShaping

/-- A name after the qualifier of its source. -/
def ColumnRef.text (c : ColumnRef) : String :=
  match c.qualifier with
  | some aliasName => aliasName ++ "." ++ c.name
  | none => c.name

def KeyRef.text (k : KeyRef) : String :=
  k.qualifier.getD "" ++ "[\"" ++ k.key ++ "\"]"

/-- The text of an expression at the place of an operand. -/
def Expr.asOperand (e : Expr) (text : String) : String :=
  if e.isBinary then "(" ++ text ++ ")" else text

/-- A clause that stands only when it has a text. -/
def optionalClause (keyword : String) : Option String → String
  | some text => keyword ++ text
  | none => ""

/-- A clause over a list, which is absent when the list is empty. -/
def listClause (keyword : String) : List String → String
  | [] => ""
  | texts => keyword ++ ", ".intercalate texts

def aliasClause (aliasName : Option String) : String :=
  optionalClause " AS " aliasName

/-- The words before an item of the source list. The first item opens the list unless it is joined. -/
def Source.opening (first : Bool) (source : Source) : String :=
  match source.joinKeyword? with
  | some keyword => " " ++ keyword ++ " "
  | none => if first then " FROM " else ", "

mutual

def Expr.text : Expr → String
  | .column c => c.text
  | .keyAccess k => k.text
  | .constant value _ => value.text
  | .parameter name _ => "@" ++ name
  | .binary op left right =>
    left.asOperand left.text ++ " " ++ op.symbol ++ " " ++ right.asOperand right.text
  | .unary .not operand => "NOT " ++ operand.asOperand operand.text
  | .unary .negate operand => "-" ++ operand.asOperand operand.text
  | .unary .isNull operand => operand.asOperand operand.text ++ " IS NULL"
  | .unary .isNotNull operand => operand.asOperand operand.text ++ " IS NOT NULL"
  | .conditional test ifTrue ifFalse =>
    "CASE WHEN " ++ test.text ++ " THEN " ++ ifTrue.text ++ " ELSE " ++ ifFalse.text ++ " END"
  | .call name niladic receiver arguments _ =>
    let receiverText := match Expr.operandText? receiver with
      | some text => text ++ "."
      | none => ""
    receiverText ++ name ++ if niladic then "" else "(" ++ ", ".intercalate (Expr.texts arguments) ++ ")"
  | .inValues item values negated =>
    item.asOperand item.text ++ (if negated then " NOT IN (" else " IN (") ++
      ", ".intercalate (Expr.texts values) ++ ")"
  | .inSubquery item subquery negated =>
    item.asOperand item.text ++ (if negated then " NOT IN (" else " IN (") ++ subquery.text ++ ")"
  | .exists subquery negated => (if negated then "NOT EXISTS (" else "EXISTS (") ++ subquery.text ++ ")"
  | .like subject pattern escape =>
    subject.asOperand subject.text ++ " LIKE " ++ pattern.asOperand pattern.text ++
      optionalClause " ESCAPE " (Expr.operandText? escape)
  | .scalarSubquery subquery => "(" ++ subquery.text ++ ")"
  | .rowNumber partitions orderings =>
    "ROW_NUMBER() OVER(" ++ listClause "PARTITION BY " (Expr.texts partitions) ++
      (if partitions.isEmpty || orderings.isEmpty then "" else " ") ++
      listClause "ORDER BY " (SortTerm.texts orderings) ++ ")"

def Expr.text? : Option Expr → Option String
  | none => none
  | some e => some e.text

def Expr.operandText? : Option Expr → Option String
  | none => none
  | some e => some (e.asOperand e.text)

def Expr.texts : List Expr → List String
  | [] => []
  | e :: rest => e.text :: Expr.texts rest

def SortTerm.text : SortTerm → String
  | ⟨expr, ascending⟩ => expr.text ++ if ascending then " ASC" else " DESC"

def SortTerm.texts : List SortTerm → List String
  | [] => []
  | t :: rest => t.text :: SortTerm.texts rest

def Projection.text : Projection → String
  | ⟨aliasName, expr⟩ => expr.text ++ " AS " ++ aliasName

def Projection.texts : List Projection → List String
  | [] => []
  | p :: rest => p.text :: Projection.texts rest

def Select.text : Select → String
  | ⟨projections, sources, predicate, groupBy, having, orderings, limit, offset, distinct⟩ =>
    "SELECT " ++ (if distinct then "DISTINCT " else "") ++
      (if projections.isEmpty then "1" else ", ".intercalate (Projection.texts projections)) ++
      Source.clauses true sources ++
      optionalClause " WHERE " (Expr.text? predicate) ++
      listClause " GROUP BY " (Expr.texts groupBy) ++
      optionalClause " HAVING " (Expr.text? having) ++
      listClause " ORDER BY " (SortTerm.texts orderings) ++
      optionalClause " LIMIT " (Expr.text? limit) ++
      optionalClause " OFFSET " (Expr.text? offset)

/-- The source by itself, without the words that join it. -/
def Source.text : Source → String
  | .table _ aliasName name schema =>
    (match schema with
      | some s => s ++ "."
      | none => "") ++ name ++ aliasClause aliasName
  | .derived _ aliasName select => "(" ++ select.text ++ ")" ++ aliasClause aliasName
  | .setOperation _ aliasName op distinct left right =>
    "(" ++ left.text ++ " " ++ op.keyword ++ (if distinct then " " else " ALL ") ++ right.text ++ ")" ++
      aliasClause aliasName
  | .joined _ source => source.text
  | .joinedOn _ source _ => source.text

/-- The condition of a join. -/
def Source.condition : Source → String
  | .joinedOn _ _ predicate => " ON " ++ predicate.text
  | _ => ""

def Source.clauses (first : Bool) : List Source → String
  | [] => ""
  | source :: rest => source.opening first ++ source.text ++ source.condition ++ Source.clauses false rest

end

end QueryShaping
