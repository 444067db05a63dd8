import QueryShaping.Proofs.Evaluation.Simulation
import QueryShaping.Proofs.Revision.Walk

/-!
# What an evaluation depends on

A column or a key is read from the source with the identity that it names. An evaluation therefore gives the same in two
scopes that bind the identities it names alike, whatever else they bind. It also gives the same where references are read
as they are stored.

An evaluation fails with a fault of its own or with a conversion. One that finds no boolean where it needs one names the
expression. Every expression that it can name stands in a position that decides: as a condition by itself, or as an
operand of a connective or of a negation. Nothing else in an evaluation asks for a truth value.
-/

namespace QueryShaping

open List

variable {α β : Type}

/-! ## Scopes that bind alike -/

/-- The first source with an identity, from the inside out. -/
def boundIn? (frames : List Frame) (id : TableId) : Option Bound :=
  frames.findSome? fun frame => frame.find? (·.id = id)

/-- Whether frames bind the known identities alike. -/
def BindAlike (known : TableId → Prop) (frames frames' : List Frame) : Prop :=
  ∀ id, known id → boundIn? frames id = boundIn? frames' id

section BindAlike

variable {known : TableId → Prop} {outer outer' : List Frame}

theorem BindAlike.refl (frames : List Frame) : BindAlike known frames frames :=
  fun _ _ => rfl

theorem BindAlike.cons (h : BindAlike known outer outer') (frame : Frame) :
    BindAlike known (frame :: outer) (frame :: outer') := by
  intro id hid
  have hid := h id hid
  simp only [boundIn?, findSome?_cons] at hid ⊢
  rw [hid]

theorem Scope.alike_refl (scope : Scope) : scope.Alike (BindAlike known) scope := by
  refine ⟨.refl _, ?_⟩
  cases scope.group with
  | none => exact .none
  | some group => exact .some (forall₂_same.2 fun _ _ => .refl _)

end BindAlike

/-! ## Truths that are missed -/

/-- Whether the truth of an expression is asked for at one of the occurrences. -/
def Decides (os : List Occurrence) (e : Expr) : Prop :=
  ∃ o ∈ os, o.expr = e ∧ o.position.decides

/-- An evaluation that misses the truth of these expressions only. -/
def Asks (os : List Occurrence) (x : Except Error α) : Prop :=
  ∀ e v, x = .error (.evaluation (.notABoolean e v)) → Decides os e

/-- What the errors of an evaluation can name: expressions that have no truth, and aggregates that have no group. -/
structure Culprits where
  truth : Expr → Prop
  aggregate : String → Prop

/-- Any aggregate, and the expressions that are asked for their truth. -/
def Culprits.of (os : List Occurrence) : Culprits := ⟨Decides os, fun _ => True⟩

/-- An error to which an evaluation can come that has these culprits only. -/
def Error.Arises (who : Culprits) : Error → Prop
  | .evaluation (.notABoolean e _) => who.truth e
  | .evaluation (.aggregateOutsideGroup name) => who.aggregate name
  | .evaluation _ => True
  | .conversion _ => True
  | _ => False

/-- An evaluation that fails with no other error than those. -/
def Faults (who : Culprits) (x : Except Error α) : Prop :=
  ∀ e, x = .error e → e.Arises who

theorem Plain.faults {who : Culprits} {x : Except Error α} (h : Plain x) : Faults who x := by
  intro e hx
  have he := h e hx
  unfold Error.Arises
  split <;> simp_all [Error.isPlain]

namespace Faults

variable {who : Culprits}

theorem error {e : Error} (h : e.Arises who) : Faults who (.error e : Except Error α) :=
  fun _ h' => by cases h'; exact h

theorem bind {x : Except Error α} {f : α → Except Error β} (h : Faults who x) (hf : ∀ a, x = .ok a → Faults who (f a)) :
    Faults who (x >>= f) := by
  cases x with
  | ok a => exact hf a rfl
  | error e => exact error (h e rfl)

theorem truthOf {e : Expr} (h : who.truth e) (v : Value) : Faults who (truthOf e v) := by
  cases v <;> first | exact (Plain.ok _).faults | exact error h

end Faults

/-! ## The same evaluation in other scopes -/

/-- Evaluations that give the same, and that fail with no error but those of these culprits. -/
def Comparison.same (who : Culprits) : Comparison where
  Holds x y := x = y ∧ Faults who x
  plain h := ⟨rfl, h.faults⟩
  bind {_ _ x y f g} h hf := by
    obtain ⟨rfl, h⟩ := h
    refine ⟨?_, h.bind fun a ha => (hf a ha ha).2⟩
    cases x with
    | error e => rfl
    | ok a => exact (hf a rfl rfl).1

/-- The identity of the source that an expression by itself is read from. -/
def Expr.reads : Expr → List TableId
  | .column c => [c.table]
  | .keyAccess k => [k.table]
  | _ => []

/-- What an expression asks for at its place is there: the source it reads, and its truth where it decides. -/
def Occurrence.Granted (known : TableId → Prop) (truth : Expr → Prop) (o : Occurrence) : Prop :=
  (∀ id ∈ o.expr.reads, known id) ∧ (o.position.decides → truth o.expr)

section Same

variable {env : Environment} {known : TableId → Prop} {truth : Expr → Prop}

/-- An evaluation in two scopes that bind alike what it reads. -/
def Simulation.same (env : Environment) (known : TableId → Prop) (truth : Expr → Prop) : Simulation env where
  toComparison := .same ⟨truth, fun _ => True⟩
  Alike := BindAlike known
  Known _ := True
  closed := Frame.closed_all
  cons h _ _ := h.cons _
  reading := .stored
  map := {}
  changes _ _ := false
  Allowed := Occurrence.Granted known truth
  Sorted _ := True
  columnLike c _ := Expr.referenceLike_column c
  keyLike k _ := Expr.referenceLike_keyAccess k
  value _ := rfl
  column {c u p} _ hallowed _ a b hab := by
    have hbound : a.bound? c.table = b.bound? c.table := hab.frames c.table (hallowed.1 _ mem_cons_self)
    simp only [Expr.evalWith, Position.read_stored, bind_pure, Expr.mapNodes, Expr.eval]
    exact ⟨by rw [Scope.column, Scope.column, hbound], (Plain.scopeColumn a c).faults⟩
  key {k u p} _ hallowed _ a b hab := by
    have hbound : a.bound? k.table = b.bound? k.table := hab.frames k.table (hallowed.1 _ mem_cons_self)
    simp only [Expr.evalWith, Position.read_stored, bind_pure, Expr.mapNodes, Expr.eval]
    exact ⟨by rw [Scope.key, Scope.key, hbound], (Plain.scopeKey a k).faults⟩
  truthOf {e p} hdecides hallowed u v := by
    rw [Expr.mapNodes_id]
    exact ⟨rfl, .truthOf (hallowed.2 hdecides) v⟩
  ungrouped _ _ := ⟨rfl, .error trivial⟩
  changedTruth _ _ _ h := absurd h Bool.false_ne_true
  changedOperands _ _ _ _ _ h := absurd h Bool.false_ne_true
  sorts {s} _ t _ hvalue _ _ a b hab _ _ := by
    simp only [Select.mapNodes_id, Expr.mapNodes_id] at hvalue ⊢
    have hvalue := hvalue a b hab
    rw [Expr.mapNodes_id] at hvalue
    exact Passage.sortKey hvalue

theorem Simulation.tame_same {inside : List Occurrence} {selects : List Select} {sources : List Source}
    (h : ∀ o ∈ inside, o.Granted known truth) :
    (Simulation.same env known truth).Tame inside selects sources :=
  ⟨h, fun _ _ => trivial, fun _ _ _ _ _ _ _ _ _ _ _ => trivial⟩

theorem Expr.evalWith_same {e : Expr} {p : Position}
    (h : ∀ o ∈ e.occurrences p, o.Granted known truth) {a b : Scope}
    (hab : a.Alike (BindAlike known) b) :
    e.evalWith .stored env p a = e.eval env b ∧ Faults ⟨truth, fun _ => True⟩ (e.evalWith .stored env p a) := by
  have hmarks : Usage.Marks ⟨p.inCondition, false⟩ p := ⟨rfl, fun _ => rfl⟩
  obtain ⟨heq, hfaults⟩ := e.simulated (.same env known truth) hmarks (Simulation.tame_same h) rfl a b hab
  exact ⟨heq.trans (congrArg (·.eval env b) (e.mapNodes_id _)), hfaults⟩

theorem Select.runWith_same {s : Select}
    (h : ∀ o ∈ s.occurrences, o.Granted known truth) {outer outer' : List Frame}
    (houter : BindAlike known outer outer') :
    s.runWith .stored env outer = s.run env outer' ∧ Faults ⟨truth, fun _ => True⟩ (s.runWith .stored env outer) := by
  obtain ⟨heq, hfaults⟩ := s.simulated (.same env known truth) (Simulation.tame_same h) houter
  exact ⟨heq.trans (congrArg (·.run env outer') s.mapNodes_id), hfaults⟩

theorem Occurrence.granted_all (o : Occurrence) : o.Granted (fun _ => True) fun _ => True :=
  ⟨fun _ _ => trivial, fun _ => trivial⟩

/-- Read as it is stored, nothing changes. -/
theorem Expr.evalWith_stored (env : Environment) (e : Expr) (p : Position) (scope : Scope) :
    e.evalWith .stored env p scope = e.eval env scope :=
  (evalWith_same (fun o _ => o.granted_all) scope.alike_refl).1

theorem Expr.sortKeyRead_stored (env : Environment) (e : Expr) (place : Option Nat) (row : Row) (scope : Scope) :
    e.sortKeyRead .stored env place row scope = e.sortKey env place row scope := by
  cases place with
  | none => exact e.evalWith_stored env .value scope
  | some index => rfl

theorem Select.runWith_stored (env : Environment) (s : Select) (outer : List Frame) :
    s.runWith .stored env outer = s.run env outer :=
  (runWith_same (fun o _ => o.granted_all) (.refl outer)).1

theorem Source.rowsWith_stored (env : Environment) (s : Source) (outer : List Frame) :
    s.rowsWith .stored env outer = s.rows env outer := by
  cases s with
  | setOperation => simp only [Source.rowsWith, Source.rows, Select.runWith_stored]
  | derived => exact Select.runWith_stored env _ outer
  | _ => rfl

/-- An evaluation that fails names no expression but one that decides. -/
theorem Select.run_faults (env : Environment) (s : Select) (outer : List Frame) :
    Faults (.of s.occurrences) (s.run env outer) := by
  rw [← runWith_stored]
  exact (runWith_same (fun o ho => ⟨fun _ _ => trivial, fun hdecides => ⟨o, ho, rfl, hdecides⟩⟩) (.refl outer)).2

theorem Select.run_asks (env : Environment) (s : Select) (outer : List Frame) : Asks s.occurrences (s.run env outer) :=
  fun _ _ h => s.run_faults env outer _ h

end Same

end QueryShaping
