import QueryShaping.Query.Basic

/-!
# Equality of query trees

Two trees are equal when they agree node by node; literals are compared as values, so a tree that holds a number
that is none is not equal to itself.
-/

namespace QueryShaping

mutual

def Expr.beq : Expr → Expr → Bool
  | .column a, other =>
    match other with
    | .column b => a = b
    | _ => false
  | .keyAccess a, other =>
    match other with
    | .keyAccess b => a = b
    | _ => false
  | .constant v m, other =>
    match other with
    | .constant v' m' => v == v' && m = m'
    | _ => false
  | .parameter n m, other =>
    match other with
    | .parameter n' m' => n = n' && m = m'
    | _ => false
  | .binary op l r, other =>
    match other with
    | .binary op' l' r' => op = op' && l.beq l' && r.beq r'
    | _ => false
  | .unary op e, other =>
    match other with
    | .unary op' e' => op = op' && e.beq e'
    | _ => false
  | .conditional t a b, other =>
    match other with
    | .conditional t' a' b' => t.beq t' && a.beq a' && b.beq b'
    | _ => false
  | .call n p r as m, other =>
    match other with
    | .call n' p' r' as' m' =>
      n = n' && p = p' && Expr.beqOption r r' && Expr.beqList as as' && m = m'
    | _ => false
  | .inValues e vs n, other =>
    match other with
    | .inValues e' vs' n' => e.beq e' && Expr.beqList vs vs' && n = n'
    | _ => false
  | .inSubquery e s n, other =>
    match other with
    | .inSubquery e' s' n' => e.beq e' && s.beq s' && n = n'
    | _ => false
  | .exists s n, other =>
    match other with
    | .exists s' n' => s.beq s' && n = n'
    | _ => false
  | .like e p esc, other =>
    match other with
    | .like e' p' esc' => e.beq e' && p.beq p' && Expr.beqOption esc esc'
    | _ => false
  | .scalarSubquery s, other =>
    match other with
    | .scalarSubquery s' => s.beq s'
    | _ => false
  | .rowNumber ps os, other =>
    match other with
    | .rowNumber ps' os' => Expr.beqList ps ps' && SortTerm.beqList os os'
    | _ => false
termination_by structural x => x

def Expr.beqOption : Option Expr → Option Expr → Bool
  | none, none => true
  | some a, some b => a.beq b
  | _, _ => false
termination_by structural x => x

def Expr.beqList : List Expr → List Expr → Bool
  | [], [] => true
  | a :: as, b :: bs => a.beq b && Expr.beqList as bs
  | _, _ => false
termination_by structural x => x

def SortTerm.beq : SortTerm → SortTerm → Bool
  | ⟨e, a⟩, ⟨e', a'⟩ => e.beq e' && a = a'
termination_by structural x => x

def SortTerm.beqList : List SortTerm → List SortTerm → Bool
  | [], [] => true
  | a :: as, b :: bs => a.beq b && SortTerm.beqList as bs
  | _, _ => false
termination_by structural x => x

def Projection.beq : Projection → Projection → Bool
  | ⟨n, e⟩, ⟨n', e'⟩ => n = n' && e.beq e'
termination_by structural x => x

def Projection.beqList : List Projection → List Projection → Bool
  | [], [] => true
  | a :: as, b :: bs => a.beq b && Projection.beqList as bs
  | _, _ => false
termination_by structural x => x

def Select.beq : Select → Select → Bool
  | ⟨ps, ts, w, gs, h, os, l, o, d⟩, ⟨ps', ts', w', gs', h', os', l', o', d'⟩ =>
    Projection.beqList ps ps' && Source.beqList ts ts' && Expr.beqOption w w' && Expr.beqList gs gs' &&
      Expr.beqOption h h' && SortTerm.beqList os os' && Expr.beqOption l l' && Expr.beqOption o o' && d = d'
termination_by structural x => x

def Source.beq : Source → Source → Bool
  | .table i a n s, other =>
    match other with
    | .table i' a' n' s' => i = i' && a = a' && n = n' && s = s'
    | _ => false
  | .derived i a s, other =>
    match other with
    | .derived i' a' s' => i = i' && a = a' && s.beq s'
    | _ => false
  | .setOperation i a op d l r, other =>
    match other with
    | .setOperation i' a' op' d' l' r' =>
      i = i' && a = a' && op = op' && d = d' && l.beq l' && r.beq r'
    | _ => false
  | .joined k s, other =>
    match other with
    | .joined k' s' => k = k' && s.beq s'
    | _ => false
  | .joinedOn k s p, other =>
    match other with
    | .joinedOn k' s' p' => k = k' && s.beq s' && p.beq p'
    | _ => false
termination_by structural x => x

def Source.beqList : List Source → List Source → Bool
  | [], [] => true
  | a :: as, b :: bs => a.beq b && Source.beqList as bs
  | _, _ => false
termination_by structural x => x

end

instance : BEq Expr := ⟨Expr.beq⟩

instance : BEq Select := ⟨Select.beq⟩

end QueryShaping
