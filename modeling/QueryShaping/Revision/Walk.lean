import QueryShaping.Revision.Rebuild

/-!
# Walking a tree

A walk offers every column, every key and every source with an alias of its own to a visitor, together with how the
references are used, and puts its answers into the tree. What the visitor answers is not walked again.
-/

namespace QueryShaping

/-- How the value of an expression is used. -/
structure Usage where
  /-- As a truth value. -/
  asTruth : Bool
  /-- As an operand of `=` or `<>`. -/
  inEquality : Bool

namespace Usage

def value : Usage := ⟨false, false⟩

def condition : Usage := ⟨true, false⟩

/-- The use of the operands of a binary operator. -/
def operand (u : Usage) (op : BinaryOp) : Usage := ⟨u.asTruth, op.isEquality⟩

/-- The use of the operand of a unary operator. -/
def unaryOperand (u : Usage) : UnaryOp → Usage
  | .not => ⟨u.asTruth, false⟩
  | _ => value

end Usage

/-- What takes the place of a node, where something does. -/
structure Visitor where
  column : ColumnRef → Usage → Option Expr
  key : KeyRef → Usage → Option Expr
  /-- The new alias of a source that is no join. -/
  aliasName : Source → Option (Option String)

mutual

def Expr.visit (v : Visitor) : Expr → Usage → Revised Expr
  | .column c, usage => .orElseKeep (v.column c usage) (.column c)
  | .keyAccess k, usage => .orElseKeep (v.key k usage) (.keyAccess k)
  | .constant value mapping, _ => pure (.constant value mapping)
  | .parameter name mapping, _ => pure (.parameter name mapping)
  | .binary op left right, usage =>
    Expr.rebuildBinary op left right (left.visit v (usage.operand op)).new? (right.visit v (usage.operand op)).new?
  | .unary op operand, usage =>
    .orElseKeep ((operand.visit v (usage.unaryOperand op)).new?.map (.unary op)) (.unary op operand)
  | .conditional test ifTrue ifFalse, _ =>
    Expr.rebuildConditional test ifTrue ifFalse (test.visit v .condition).new? (ifTrue.visit v .value).new?
      (ifFalse.visit v .value).new?
  | .call name niladic receiver arguments mapping, _ =>
    Expr.rebuildCall name niladic receiver arguments mapping ((Expr.visitOption v receiver .value).bind Revised.new?)
      (changedList (Expr.visitList v arguments))
  | .inValues item values negated, _ =>
    Expr.rebuildInValues item values negated (item.visit v .value).new? (changedList (Expr.visitList v values))
  | .inSubquery item subquery negated, _ =>
    Expr.rebuildInSubquery item subquery negated (item.visit v .value).new? (subquery.visit v).new?
  | .exists subquery negated, _ =>
    .orElseKeep ((subquery.visit v).new?.map (.exists · negated)) (.exists subquery negated)
  | .like subject pattern escape, _ =>
    Expr.rebuildLike subject pattern escape (subject.visit v .value).new? (pattern.visit v .value).new?
      ((Expr.visitOption v escape .value).bind Revised.new?)
  | .scalarSubquery subquery, _ => .orElseKeep ((subquery.visit v).new?.map .scalarSubquery) (.scalarSubquery subquery)
  | .rowNumber partitions orderings, _ =>
    Expr.rebuildRowNumber partitions orderings (changedList (Expr.visitList v partitions))
      (changedList (SortTerm.visitList v orderings))

def Expr.visitOption (v : Visitor) : Option Expr → Usage → Option (Revised Expr)
  | none, _ => none
  | some e, usage => some (e.visit v usage)

def Expr.visitList (v : Visitor) : List Expr → List (Revised Expr)
  | [] => []
  | e :: rest => e.visit v .value :: Expr.visitList v rest

def SortTerm.visit (v : Visitor) : SortTerm → Revised SortTerm
  | ⟨expr, ascending⟩ => SortTerm.withExpr ⟨expr, ascending⟩ (expr.visit v .value)

def SortTerm.visitList (v : Visitor) : List SortTerm → List (Revised SortTerm)
  | [] => []
  | t :: rest => t.visit v :: SortTerm.visitList v rest

def Projection.visit (v : Visitor) : Projection → Revised Projection
  | ⟨aliasName, expr⟩ => Projection.withExpr ⟨aliasName, expr⟩ (expr.visit v .value)

def Projection.visitList (v : Visitor) : List Projection → List (Revised Projection)
  | [] => []
  | p :: rest => p.visit v :: Projection.visitList v rest

def Select.visit (v : Visitor) : Select → Revised Select
  | ⟨projections, sources, predicate, groupBy, having, orderings, limit, offset, distinct⟩ =>
    Select.rebuild ⟨projections, sources, predicate, groupBy, having, orderings, limit, offset, distinct⟩
      (changedList (Projection.visitList v projections)) (changedList (Source.visitList v sources))
      (changedOption (Expr.visitOption v predicate .condition)) (changedList (Expr.visitList v groupBy))
      (changedOption (Expr.visitOption v having .condition)) (changedList (SortTerm.visitList v orderings))
      (changedOption (Expr.visitOption v limit .value)) (changedOption (Expr.visitOption v offset .value))

def Source.visit (v : Visitor) : Source → Revised Source
  | .table id aliasName name schema =>
    Source.rebuild (.table id aliasName name schema) (v.aliasName (.table id aliasName name schema)) none
  | .derived id aliasName select =>
    Source.rebuild (.derived id aliasName select) (v.aliasName (.derived id aliasName select))
      ((select.visit v).new?.map (.derived id aliasName))
  | .setOperation id aliasName op distinct left right =>
    Source.rebuild (.setOperation id aliasName op distinct left right)
      (v.aliasName (.setOperation id aliasName op distinct left right))
      (Source.rebuildSetOperation id aliasName op distinct left right (left.visit v).new? (right.visit v).new?)
  | .joined kind source => Source.rebuildJoin (.joined kind source) (source.visit v) none
  | .joinedOn kind source predicate =>
    Source.rebuildJoin (.joinedOn kind source predicate) (source.visit v) (some (predicate.visit v .condition))

def Source.visitList (v : Visitor) : List Source → List (Revised Source)
  | [] => []
  | s :: rest => s.visit v :: Source.visitList v rest

end

/-- A visitor that does not look at how references are used. -/
structure Reviser where
  column : ColumnRef → Option Expr := fun _ => none
  key : KeyRef → Option Expr := fun _ => none
  /-- The new alias of a source that is no join. -/
  aliasName : Source → Option (Option String) := fun _ => none

namespace Reviser

def visitor (r : Reviser) : Visitor where
  column c _ := r.column c
  key k _ := r.key k
  aliasName := r.aliasName

end Reviser

def Expr.walk (r : Reviser) (e : Expr) : Revised Expr := e.visit r.visitor .value

def Select.walk (r : Reviser) (s : Select) : Revised Select := s.visit r.visitor

end QueryShaping
