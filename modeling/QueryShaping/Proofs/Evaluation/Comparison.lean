import Mathlib.Data.List.Forall2
import QueryShaping.Evaluation.Run
import QueryShaping.Proofs.Fallible

/-!
# Comparing evaluations

An evaluation is a chain of steps each of which gives something or fails. A comparison of two evaluations can be made
step by step: it holds of two chains if it holds of their first steps and, where both give the same, of what comes after
it. Then it holds of everything that evaluation is put together from.

There are two kinds of errors that say more about a tree than which step has failed: they name an expression that has no
truth value, or an aggregate that has no group. A step with any other error is the same in all evaluations.
-/

namespace QueryShaping

open List

variable {α β γ : Type}

/-! ## Plain steps -/

/-- Whether an error is one of evaluation that names neither an expression without truth nor an aggregate without a
group. -/
def Error.isPlain : Error → Bool
  | .evaluation (.notABoolean _ _) | .evaluation (.aggregateOutsideGroup _) => false
  | .evaluation _ | .conversion _ => true
  | _ => false

/-- A step that fails with such errors only. -/
def Plain (x : Except Error α) : Prop :=
  ∀ e, x = .error e → e.isPlain

namespace Plain

theorem ok (a : α) : Plain (.ok a) :=
  fun _ h => nomatch h

theorem error {e : Error} (h : e.isPlain) : Plain (.error e : Except Error α) :=
  fun _ h' => by cases h'; exact h

theorem bind_pure {x : Except Error α} (h : Plain x) (f : α → β) : Plain (do return f (← x)) := by
  cases x with
  | ok a => exact ok (f a)
  | error e => exact error (h e rfl)

theorem scopeColumn (scope : Scope) (c : ColumnRef) : Plain (scope.column c) := by
  intro e h
  unfold Scope.column Bound.get at h
  repeat' split at h
  all_goals cases h <;> rfl

theorem scopeKey (scope : Scope) (k : KeyRef) : Plain (scope.key k) := by
  intro e h
  unfold Scope.key Bound.get at h
  repeat' split at h
  all_goals cases h <;> rfl

theorem storedValue (mapping : Option TypeMapping) (v : Value) : Plain (storedValue mapping v) := by
  intro e h
  unfold QueryShaping.storedValue at h
  split at h <;> cases h
  rfl

theorem parameter (env : Environment) (name : String) (mapping : Option TypeMapping) :
    Plain (env.parameter name mapping) := by
  unfold Environment.parameter
  split
  · exact storedValue _ _
  · exact error rfl

theorem table (env : Environment) (name : String) : Plain (env.table name) := by
  intro e h
  unfold Environment.table at h
  split at h <;> cases h
  rfl

theorem arithmetic (op : BinaryOp) (a b : Value) : Plain (arithmetic op a b) := by
  intro e h
  unfold QueryShaping.arithmetic at h
  repeat' split at h
  all_goals cases h <;> rfl

theorem applyBinary (op : BinaryOp) (a b : Value) : Plain (applyBinary op a b) := by
  unfold QueryShaping.applyBinary
  split
  · exact ok _
  · split
    · split
      · exact ok _
      · exact error rfl
    · exact arithmetic op a b

theorem negate (v : Value) : Plain (negate v) := by
  cases v <;> first | exact ok _ | exact error rfl

theorem applyFunction (name : String) (arguments : List Value) : Plain (applyFunction name arguments) := by
  intro e h
  unfold QueryShaping.applyFunction at h
  split at h <;> cases h
  rfl

theorem applyLike (subject pattern : Value) (escape : Option Value) : Plain (applyLike subject pattern escape) := by
  intro e h
  simp only [QueryShaping.applyLike] at h
  repeat' split at h
  all_goals cases h <;> rfl

theorem countRows (name : String) (rows : Nat) : Plain (countRows name rows) := by
  intro e h
  unfold QueryShaping.countRows at h
  dsimp only at h
  split at h <;> cases h
  rfl

theorem floatSum (name : String) (values : List Value) : Plain (floatSum name values) := by
  unfold QueryShaping.floatSum
  generalize Double.zero = total
  induction values generalizing total with
  | nil => exact ok _
  | cons v values ih =>
    rw [foldlM_cons]
    cases hv : v.double? with
    | none => exact error rfl
    | some x => exact ih _

theorem applyAggregate (name : String) (values : List Value) : Plain (applyAggregate name values) := by
  unfold QueryShaping.applyAggregate aggregateOf
  split
  · exact ok _
  · exact ok _
  · exact ok _
  · split
    · exact ok _
    · split
      · exact ok _
      · exact (floatSum _ _).bind_pure _

theorem rowCount (v : Value) : Plain (rowCount v) := by
  intro e h
  unfold QueryShaping.rowCount at h
  split at h <;> cases h
  rfl

theorem scalarOf (r : Relation) : Plain (scalarOf r) := by
  intro e h
  unfold QueryShaping.scalarOf at h
  split at h <;> cases h
  rfl

end Plain

/-! ## Comparisons -/

/-- A way to compare evaluations step by step. -/
structure Comparison where
  Holds {α : Type} : Except Error α → Except Error α → Prop
  plain {α : Type} {x : Except Error α} : Plain x → Holds x x
  bind {α β : Type} {x y : Except Error α} {f g : α → Except Error β} : Holds x y →
    (∀ a, x = .ok a → y = .ok a → Holds (f a) (g a)) → Holds (x >>= f) (y >>= g)

namespace Comparison

variable (R : Comparison)

theorem ok (a : α) : R.Holds (.ok a) (.ok a) :=
  R.plain (.ok a)

theorem bind_pure {x y : Except Error α} (h : R.Holds x y) (f : α → β) :
    R.Holds (do return f (← x)) (do return f (← y)) :=
  R.bind h fun a _ _ => R.ok (f a)

theorem mapM {f : α → Except Error γ} {g : β → Except Error γ} {l : List α} {l' : List β}
    (h : Forall₂ (fun a b => R.Holds (f a) (g b)) l l') : R.Holds (l.mapM f) (l'.mapM g) := by
  induction h with
  | nil => exact R.ok []
  | cons hhead _ ih =>
    rw [mapM_cons, mapM_cons]
    exact R.bind hhead fun b _ _ => R.bind_pure ih (b :: ·)

theorem mapM_same {f g : α → Except Error β} {l : List α} (h : ∀ a ∈ l, R.Holds (f a) (g a)) :
    R.Holds (l.mapM f) (l.mapM g) :=
  R.mapM (forall₂_same.2 h)

theorem filterAuxM {f g : α → Except Error Bool} {l : List α} (h : ∀ a ∈ l, R.Holds (f a) (g a)) (kept : List α) :
    R.Holds (l.filterAuxM f kept) (l.filterAuxM g kept) := by
  induction l generalizing kept with
  | nil => exact R.ok kept
  | cons a l ih =>
    rw [forall_mem_cons] at h
    exact R.bind h.1 fun b _ _ => ih h.2 _

theorem filterM {f g : α → Except Error Bool} {l : List α} (h : ∀ a ∈ l, R.Holds (f a) (g a)) :
    R.Holds (l.filterM f) (l.filterM g) :=
  R.bind_pure (R.filterAuxM h []) List.reverse

theorem filterMapM {f g : α → Except Error (Option β)} {l : List α} (h : ∀ a ∈ l, R.Holds (f a) (g a)) :
    R.Holds (l.filterMapM f) (l.filterMapM g) := by
  induction l with
  | nil => exact R.ok []
  | cons a l ih =>
    rw [forall_mem_cons] at h
    rw [filterMapM_cons, filterMapM_cons]
    refine R.bind h.1 fun b _ _ => ?_
    cases b with
    | none => exact ih h.2
    | some b => exact R.bind_pure (ih h.2) (b :: ·)

theorem joinWhere {f g : Frame → Except Error Bool} {id : TableId} {r : Relation} {frame : Frame}
    (h : ∀ extended ∈ frame.extendAll id r, R.Holds (f extended) (g extended)) (kind : ConditionalJoinKind) :
    R.Holds (joinWhere kind id r f frame) (joinWhere kind id r g frame) :=
  R.bind_pure (R.filterM h) fun matched => if kind = .left && matched.isEmpty then [frame.extendNull id r] else matched

theorem groupFrames {f g : Frame → Except Error (List Value)} {frames : List Frame}
    (h : ∀ frame ∈ frames, R.Holds (f frame) (g frame)) : R.Holds (groupFrames f frames) (groupFrames g frames) :=
  R.bind_pure (R.mapM_same fun frame hframe => R.bind_pure (h frame hframe) fun values => (Key.ofValues values, frame))
    groupByKey

theorem groupedRows {c d : Scope → Except Error Bool} {f g : Scope → Except Error α} {outer outer' : List Frame}
    {groups : List (List Frame)}
    (hc : ∀ group ∈ groups, R.Holds (c (.ofGroup group outer)) (d (.ofGroup group outer')))
    (hf : ∀ group ∈ groups, R.Holds (f (.ofGroup group outer)) (g (.ofGroup group outer'))) :
    R.Holds (groupedRows c f outer groups) (groupedRows d g outer' groups) := by
  refine R.filterMapM fun group hgroup => R.bind (hc group hgroup) fun b _ _ => ?_
  cases b with
  | false => exact R.ok none
  | true => exact R.bind_pure (hf group hgroup) some

end Comparison

/-! ## Evaluations that keep a result -/

/-- The second evaluation gives what the first one gives, if that gives anything. Nothing is asked where the first one
fails, so errors may name expressions in another spelling, and a step that failed may come to succeed. -/
def Keeps (x y : Except Error α) : Prop :=
  ∀ a, x = .ok a → y = .ok a

namespace Keeps

theorem refl (x : Except Error α) : Keeps x x :=
  fun _ h => h

theorem of_eq {x y : Except Error α} (h : x = y) : Keeps x y :=
  h ▸ refl x

theorem of_error (e : Error) (y : Except Error α) : Keeps (.error e) y :=
  fun _ h => nomatch h

theorem bind_of {x y : Except Error α} {f g : α → Except Error β} (h : Keeps x y)
    (hf : ∀ a, x = .ok a → y = .ok a → Keeps (f a) (g a)) : Keeps (x >>= f) (y >>= g) := by
  intro b hb
  obtain ⟨a, ha, hfa⟩ := Except.bind_eq_ok_iff.1 hb
  exact Except.bind_eq_ok_iff.2 ⟨a, h a ha, hf a ha (h a ha) b hfa⟩

theorem bind {x y : Except Error α} {f g : α → Except Error β} (h : Keeps x y) (hf : ∀ a, Keeps (f a) (g a)) :
    Keeps (x >>= f) (y >>= g) :=
  h.bind_of fun a _ _ => hf a

def comparison : Comparison where
  Holds := Keeps
  plain _ := refl _
  bind := bind_of

theorem truthOf (e e' : Expr) (v : Value) : Keeps (truthOf e v) (truthOf e' v) := by
  cases v <;> first | exact refl _ | exact of_error _ _

theorem holdsWith (e e' : Expr) (v : Value) : Keeps (holdsWith e v) (holdsWith e' v) :=
  (truthOf e e' v).bind fun _ => refl _

end Keeps

theorem Expr.binary_keeps (op : BinaryOp) {env : Environment} {scope : Scope} {left right left' right' : Expr}
    (hleft : Keeps (left.eval env scope) (left'.eval env scope))
    (hright : Keeps (right.eval env scope) (right'.eval env scope)) :
    Keeps ((Expr.binary op left right).eval env scope) ((Expr.binary op left' right').eval env scope) := by
  simp only [Expr.eval]
  refine hleft.bind fun a => ?_
  split
  · refine (Keeps.truthOf _ _ a).bind fun a => ?_
    split
    · exact .refl _
    · exact hright.bind fun b => (Keeps.truthOf _ _ b).bind fun b => .refl _
  · exact hright.bind fun b => .refl _

/-! ## Evaluations that agree -/

/-- Whether an error is that of a stored value which has no domain value. A domain value that cannot be stored is
refused for another reason. -/
def Error.isUnreadable : Error → Bool
  | .conversion e => e.reason ≠ .unexpectedDomainValue
  | _ => false

/-- The first evaluation follows the second one: both give the same, or both fail, for whatever reason each of them does.
The second one may be one that decodes stored values. Where it stops at a value that the converter does not know, nothing
is asked of the first. -/
inductive Agrees : Except Error α → Except Error α → Prop
  | same (a : α) : Agrees (.ok a) (.ok a)
  | failing (e e' : Error) : Agrees (.error e) (.error e')
  | unreadable (x : Except Error α) {e : Error} (h : e.isUnreadable) : Agrees x (.error e)

namespace Agrees

theorem refl (x : Except Error α) : Agrees x x := by
  cases x with
  | error e => exact failing e e
  | ok a => exact same a

theorem toOption_eq {x y : Except Error α} (h : Agrees x y) (hread : ∀ e, y = .error e → ¬ e.isUnreadable) :
    x.toOption = y.toOption := by
  cases h with
  | same a => rfl
  | failing e e' => rfl
  | unreadable x h => exact absurd h (hread _ rfl)

theorem bind {x y : Except Error α} {f g : α → Except Error β} (h : Agrees x y)
    (hf : ∀ a, y = .ok a → x = .ok a → Agrees (f a) (g a)) : Agrees (x >>= f) (y >>= g) := by
  cases h with
  | same a => exact hf a rfl rfl
  | failing e e' => exact failing e e'
  | unreadable x h => exact unreadable _ h

/-- The evaluation that decodes stored values against the one that follows it. -/
def comparison : Comparison where
  Holds x y := Agrees y x
  plain _ := refl _
  bind := bind

/-- The expression is part of the error only. -/
theorem truthOf (e e' : Expr) (v : Value) : Agrees (truthOf e v) (truthOf e' v) := by
  cases v <;> first | exact refl _ | exact failing _ _

end Agrees

end QueryShaping
