import QueryShaping.Query.Build
import QueryShaping.Revision.Walk
import QueryShaping.Shape.Basic

/-!
# Booleans stored through a converter

A boolean that is stored as something else is no truth value to the store. Where such a column stands as a condition
by itself, this pass compares it with the constant true, which is stored through the same converter.
-/

namespace QueryShaping

/-- A reference with this mapping, compared with true where its use asks for it. -/
def Usage.compensate (u : Usage) (reference : Expr) (mapping : Option TypeMapping) : Option Expr :=
  match mapping with
  | some m =>
    if u.asTruth && !u.inEquality && m.isConvertedBool then
      some (reference.equalTo (.constant (.bool true) (some m)))
    else none
  | none => none

def compensator : Visitor where
  column c u := u.compensate (.column c) c.mapping
  key k u := u.compensate (.keyAccess k) k.mapping
  aliasName _ := none

def Expr.compensate (e : Expr) (u : Usage) : Revised Expr := e.visit compensator u

/-- A select in which no stored boolean is taken for a truth value. -/
def Select.compensate (s : Select) : Revised Select := s.visit compensator

/-- Compensates the query of a shaped query, not the queries inside its shape. -/
def ShapedQuery.compensate (shaped : ShapedQuery) : ShapedQuery :=
  { shaped with query := shaped.query.compensate.value }

end QueryShaping
