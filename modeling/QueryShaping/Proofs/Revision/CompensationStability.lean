import QueryShaping.Proofs.Revision.Walk
import QueryShaping.Revision.ConvertedBool

/-!
# What compensation inserts

A comparison that the pass inserts shields its reference: below the comparison the reference is an operand of an
equality, whatever is around it, so a second pass finds nothing to do. And the pass inserts comparisons and does nothing
else: with the left operand of each inserted comparison in the place of the comparison, the tree is the one before.
-/

namespace QueryShaping

/-! ## References -/

/-- The left one of the operands that are compared. -/
def Expr.leftOperand : Expr → Expr
  | .binary _ left _ => left
  | e => e

namespace Usage

variable (u : Usage) (reference : Expr) (mapping : Option TypeMapping)

/-- A reference is left as it is or compared with true. -/
theorem compensate_cases : u.compensate reference mapping = none ∨
    ∃ m, u.compensate reference mapping = some (reference.equalTo (.constant (.bool true) m)) := by
  unfold Usage.compensate
  split
  · split
    · exact .inr ⟨_, rfl⟩
    · exact .inl rfl
  · exact .inl rfl

/-- An operand of an equality is left as it is. -/
theorem compensate_operand_equal : (u.operand .equal).compensate reference mapping = none := by
  cases mapping <;> simp [Usage.compensate, Usage.operand, BinaryOp.isEquality]

/-- What the pass makes of a reference, where `form` says what stands for an inserted comparison. -/
def inserted (form : Expr → Expr) : Expr :=
  ((u.compensate reference mapping).map form).getD reference

theorem inserted_leftOperand : u.inserted reference mapping Expr.leftOperand = reference := by
  rcases u.compensate_cases reference mapping with heq | ⟨m, heq⟩ <;>
    simp [inserted, heq, Expr.equalTo, Expr.leftOperand]

theorem tableSources_inserted {reference : Expr} (h : reference.tableSources = []) :
    (u.inserted reference mapping fun e => e).tableSources = [] := by
  rcases u.compensate_cases reference mapping with heq | ⟨m, heq⟩ <;>
    simp [inserted, heq, Expr.equalTo, Expr.tableSources, h]

end Usage

/-- The pass over references, where `form` says what stands for an inserted comparison. -/
def inserting (form : Expr → Expr) : NodeMap where
  column c u := u.inserted (.column c) c.mapping form
  key k u := u.inserted (.keyAccess k) k.mapping form

theorem inserting_leftOperand : inserting Expr.leftOperand = {} := by
  simp [inserting, Usage.inserted_leftOperand]

theorem inserting_self : inserting (fun e => e) = compensator.nodeMap := by
  simp only [inserting, Usage.inserted, Option.map_id_fun', id_eq]
  rfl

/-! ## Trees -/

/-- A comparison shields the reference in it. -/
theorem settled_equalTo {reference e : Expr} {u : Usage} {p : Position} {mapping : Option TypeMapping}
    (hsome : u.compensate reference mapping = some e) (hsingle : ∀ q, reference.occurrences q = [⟨reference, q⟩])
    (hanswers : ∀ q, compensator.answers ⟨reference, q⟩ = (q.usage.compensate reference mapping).isSome)
    (hsources : reference.tableSources = []) :
    (e.occurrences p).filter compensator.answers = [] ∧ e.tableSources = [] := by
  obtain hnone | ⟨m, heq⟩ := u.compensate_cases reference mapping
  · rw [hsome] at hnone
    cases hnone
  · obtain rfl := Option.some.inj (hsome.symm.trans heq)
    have hshielded : compensator.answers ⟨reference, p.operand .equal⟩ = false := by
      rw [hanswers]
      exact congrArg Option.isSome (p.usage.compensate_operand_equal reference mapping)
    constructor
    · rw [Expr.equalTo, Expr.occurrences, hsingle, List.filter_eq_nil_iff]
      simp only [Expr.occurrences, List.cons_append, List.nil_append, List.forall_mem_cons, Bool.not_eq_true]
      exact ⟨rfl, hshielded, rfl, nofun⟩
    · rw [Expr.equalTo, Expr.tableSources, hsources]
      rfl

theorem compensator_settles : compensator.Settles where
  column _ _ _ h := settled_equalTo h (fun _ => rfl) (fun _ => rfl) rfl
  key _ _ _ h := settled_equalTo h (fun _ => rfl) (fun _ => rfl) rfl
  aliasName _ := rfl

theorem Expr.mapNodes_inserting (e : Expr) (u : Usage) :
    e.mapNodes (inserting fun e => e) u = (e.compensate u).value := by
  rw [inserting_self]
  exact (e.visit_revises compensator u).value.symm

namespace Select

/-- The tree after the pass, with `form e` in the place of each comparison `e` that the pass inserts. -/
def withInserted (form : Expr → Expr) (s : Select) : Select := s.mapNodes (inserting form)

theorem mapNodes_inserting (s : Select) : s.mapNodes (inserting fun e => e) = s.compensate.value := by
  rw [inserting_self]
  exact (s.visit_revises compensator).value.symm

/-- A second pass changes nothing, the first one tells truly whether it has changed anything, and what it has inserted is
all that it has changed. -/
theorem compensate_stable (s : Select) :
    s.compensate.value.compensate = pure s.compensate.value ∧
      (s.compensate.changed ↔ s.compensate.value ≠ s) ∧
      s.withInserted (fun e => e) = s.compensate.value ∧ s.withInserted Expr.leftOperand = s := by
  obtain ⟨hagain, hchanged⟩ := compensator_settles.visit_stable s
  refine ⟨hagain, hchanged, s.mapNodes_inserting, ?_⟩
  rw [withInserted, inserting_leftOperand]
  exact s.mapNodes_id

end Select

end QueryShaping
