import Mathlib
import QueryShaping.Proofs.Evaluation.MappedNodes
import QueryShaping.Proofs.Revision.CompensationStability

/-!
# Compensation keeps the meaning of conditions

A compensated select, evaluated as it stands, has the rows that the select itself has when the booleans that decide its
conditions are decoded. At a reference this is because a stored value equals the stored form of true exactly when it is
decoded to true. Everything else is the simulation of the one evaluation by the other: both follow the same tree, and the
pass and the domain agree on where a reference decides a condition.

They do not agree on two kinds of references, and `Occurrence.compensable` leaves them out: one that is compared by order
or calculated with inside a condition, and one whose mapping calls itself boolean while its converter is none, or the
other way round. The pass can also make a sort term equal to a projection that it was not equal to. The term is then
taken from the projected row instead of being evaluated, which has to be the same.
-/

namespace QueryShaping

variable {m : TypeMapping}

/-! ## Selects that can be compensated -/

namespace TypeMapping

/-- Whether a converter of booleans stands between the stored value and the domain. -/
def decodesBool (m : TypeMapping) : Bool :=
  m.converter.any (·.domainType = .bool)

/-- Whether the mapping is that of a boolean exactly when its converter is one of booleans. -/
def coherent (m : TypeMapping) : Bool :=
  m.converter.all fun converter => decide (m.domainType = .bool ↔ converter.domainType = .bool)

end TypeMapping

/-- Whether the expression refers to a stored value that is decoded to a boolean. -/
def Expr.isStoredBool : Expr → Bool
  | .column c => c.mapping.any (·.decodesBool)
  | .keyAccess k => k.mapping.any (·.decodesBool)
  | _ => false

/-- Whether an expression by itself means the same to the pass and to the domain where it stands. -/
def Occurrence.compensable : Occurrence → Bool
  | ⟨.column c, p⟩ => !p.inCondition || c.mapping.all (·.coherent)
  | ⟨.keyAccess k, p⟩ => !p.inCondition || k.mapping.all (·.coherent)
  | ⟨.binary op left right, p⟩ =>
    !p.inCondition || op.isLogical || op.isEquality || !(left.isStoredBool || right.isStoredBool)
  | _ => true

namespace Select

/-- Whether every term of the ordering is sorted by the same expression after the pass, but for the compensation. -/
def SortsAlikeCompensated (s : Select) : Prop :=
  ∀ t ∈ s.orderings, (t.expr.compensate .value).value.sortedBy s.compensate.value.projections =
    ((t.expr.sortedBy s.projections).compensate .value).value

/-- Whether every term of the ordering keeps its place among the projections, or numbers no rows and is sorted by the same
expression after the pass. -/
def KeepsKeys (s : Select) : Prop :=
  ∀ t ∈ s.orderings, s.compensate.value.placeOf (t.expr.compensate .value).value = s.placeOf t.expr ∨
    t.expr.isRowNumber = false ∧ (t.expr.compensate .value).value.sortedBy s.compensate.value.projections =
      ((t.expr.sortedBy s.projections).compensate .value).value

/-- Whether every expression of a select means the same to the pass and to the domain, and every select in it keeps what
it is sorted by. -/
structure Compensable (s : Select) : Prop where
  exprs : ∀ o ∈ s.occurrences, o.compensable
  keys : ∀ q ∈ s.selects, q.KeepsKeys

end Select

/-! ## References -/

/-- A text equals the text of true exactly when it is decoded to true. -/
theorem Converter.equal_text_agrees_read (falseText trueText : String) (v : Value) :
    Agrees (applyBinary .equal v (.string trueText)) ((Converter.boolToString falseText trueText).read v) := by
  cases v with
  | null => exact .same Value.null
  | string s =>
    have hequal : applyBinary .equal (.string s) (.string trueText) = .ok (.bool (compare s trueText == .eq)) := rfl
    rw [hequal, Converter.read, Converter.load, Converter.loadText]
    by_cases htrue : s = trueText
    · rw [if_pos htrue, Std.compare_eq_iff_eq.2 htrue]
      exact .same (Value.bool true)
    · have hne : (compare s trueText == .eq) = false := beq_false_of_ne (mt Std.compare_eq_iff_eq.1 htrue)
      rw [if_neg htrue, hne]
      by_cases hfalse : s = falseText
      · rw [if_pos hfalse]
        exact .same (Value.bool false)
      · rw [if_neg hfalse]
        exact .unreadable _ rfl
  | _ => exact .unreadable _ rfl

theorem Converter.equal_one_agrees_read_of_int64 {v : Value} {n : Int64} (hv : v.int64? = some n) :
    Agrees (applyBinary .equal v (.int32 1)) (Converter.boolToZeroOne.read v) := by
  have hequal : applyBinary .equal v (.int32 1) = .ok (.bool (compare n.toInt 1 == .eq)) := by
    cases v <;> cases hv <;> rfl
  have hread : Converter.boolToZeroOne.read v =
      if n = 0 then .ok (.bool false) else if n = 1 then .ok (.bool true)
      else .error (.conversion ⟨.boolToZeroOne, v, .notZeroOrOne⟩) := by
    cases v with
    | int32 _ | int64 _ =>
      cases hv
      simp only [Converter.read, Converter.load, Converter.loadOther, Value.int64?]
      grind
    | _ => cases hv
  rw [hequal, hread]
  by_cases hzero : n = 0
  · subst hzero
    exact .same (Value.bool false)
  · rw [if_neg hzero]
    by_cases hone : n = 1
    · subst hone
      exact .same (Value.bool true)
    · rw [if_neg hone]
      exact .unreadable _ rfl

/-- A number equals one exactly when it is decoded to true. -/
theorem Converter.equal_one_agrees_read (v : Value) :
    Agrees (applyBinary .equal v (.int32 1)) (Converter.boolToZeroOne.read v) := by
  cases v with
  | null => exact .same Value.null
  | int32 n => exact equal_one_agrees_read_of_int64 rfl
  | int64 n => exact equal_one_agrees_read_of_int64 rfl
  | _ => exact .unreadable _ rfl

namespace TypeMapping

theorem isConvertedBool_eq_decodesBool (h : m.coherent) : m.isConvertedBool = m.decodesBool := by
  obtain ⟨storeType, domainType, converter⟩ := m
  cases converter with
  | none => simp [isConvertedBool, decodesBool]
  | some c =>
    have hiff : domainType = .bool ↔ c.domainType = .bool := by simpa [coherent] using h
    simp [isConvertedBool, decodesBool, hiff]

theorem decoded_eq_ok (h : m.decodesBool = false) (v : Value) : Reading.decoded (some m) v = .ok v := by
  obtain ⟨storeType, domainType, converter⟩ := m
  cases converter with
  | none => rfl
  | some c => exact if_neg (by simpa [decodesBool] using h)

/-- A stored boolean equals true in its stored form exactly when it is decoded to true. -/
theorem equal_true_agrees (h : m.decodesBool) : ∃ t, storedValue (some m) (.bool true) = .ok t ∧
      ∀ v, Agrees (applyBinary .equal v t) (Reading.decoded (some m) v) := by
  obtain ⟨storeType, domainType, converter⟩ := m
  cases converter with
  | none => simp [decodesBool] at h
  | some c =>
    cases c with
    | boolToString falseText trueText =>
      exact ⟨.string trueText, rfl, Converter.equal_text_agrees_read falseText trueText⟩
    | boolToZeroOne => exact ⟨.int32 1, rfl, Converter.equal_one_agrees_read⟩
    | numberToString | uuidToString => simp [decodesBool, Converter.domainType] at h

end TypeMapping

/-- Whether the expression refers to a value whose mapping calls it a boolean with a converter. -/
def Expr.isConvertedBool : Expr → Bool
  | .column c => c.mapping.any (·.isConvertedBool)
  | .keyAccess k => k.mapping.any (·.isConvertedBool)
  | _ => false

namespace Usage

theorem eval_equalTo_true {reference : Expr} {t : Value} {env : Environment} {scope : Scope}
    (ht : storedValue (some m) (.bool true) = .ok t) :
    (reference.equalTo (.constant (.bool true) (some m))).eval env scope =
      (do applyBinary .equal (← reference.eval env scope) t) := by
  simp only [Expr.equalTo, Expr.eval, ht]
  rfl

/-- Whether the reference is compared with true when it is used so. -/
def changes (u : Usage) (e : Expr) : Bool :=
  u.asTruth && !u.inEquality && e.isConvertedBool

theorem inserted_of_not_changes {u : Usage} {e : Expr} {mapping : Option TypeMapping}
    (h : (u.asTruth && !u.inEquality && mapping.any (·.isConvertedBool)) = false) :
    u.inserted e mapping (fun e => e) = e := by
  cases mapping with
  | none => rfl
  | some m =>
    rw [Option.any_some] at h
    rw [inserted, Usage.compensate, h]
    rfl

theorem inserted_of_changes {u : Usage} {e : Expr} (h : u.asTruth && !u.inEquality && m.isConvertedBool) :
    u.inserted e (some m) (fun e => e) = e.equalTo (.constant (.bool true) (some m)) := by
  rw [inserted, Usage.compensate, if_pos h]
  rfl

/-- What stands for a reference after the pass. -/
theorem referenceLike_inserted {u : Usage} {e : Expr} (h : e.ReferenceLike) (mapping : Option TypeMapping) :
    (u.inserted e mapping fun e => e).ReferenceLike := by
  rcases u.compensate_cases e mapping with heq | ⟨m, heq⟩
  · rw [inserted, heq]
    exact h
  · rw [inserted, heq]
    refine ⟨?_, rfl, ?_⟩
    · simp [Expr.equalTo, Expr.containsAggregate, h.aggregate]
    · have htrue : (Value.bool true == Value.bool true) = true := rfl
      simp [Expr.equalTo, Expr.beq, h.equal, htrue]

/-- A reference that is allowed is compared with true exactly where its decoded value counts. -/
theorem changes_eq_decodes {u : Usage} {p : Position} (hmarks : u.Marks p)
    (hseen : p.decides ∨ (u.asTruth && !u.inEquality && m.isConvertedBool) = false)
    (hm : !p.inCondition || m.coherent) :
    (u.asTruth && !u.inEquality && m.isConvertedBool) = (p.inCondition && p.decides && m.decodesBool) := by
  rw [hmarks.asTruth] at hseen ⊢
  cases hp : p.inCondition with
  | false => rfl
  | true =>
    have hcoherent := TypeMapping.isConvertedBool_eq_decodesBool (m := m) (by simpa [hp] using hm)
    cases hdecides : p.decides with
    | true => rw [hmarks.inEquality hdecides, hcoherent]; rfl
    | false => simpa [hp, hdecides] using hseen

/-- A compensated reference has the value that the reference has when it is decoded, where its truth is asked for and
where it is left as it is. -/
theorem inserted_agrees {u : Usage} {p : Position} {mapping : Option TypeMapping} (hmarks : u.Marks p)
    (hseen : p.decides ∨ (u.asTruth && !u.inEquality && mapping.any (·.isConvertedBool)) = false)
    (hm : !p.inCondition || mapping.all (·.coherent)) (reference : Expr) (env : Environment) (scope : Scope) :
    Agrees ((u.inserted reference mapping fun e => e).eval env scope)
      (do p.read .decoded mapping (← reference.eval env scope)) := by
  cases mapping with
  | none =>
    have hread : p.read .decoded none = pure := by
      funext v
      unfold Position.read
      split <;> rfl
    rw [hread, bind_pure]
    exact .refl _
  | some m =>
    have hchanges := changes_eq_decodes hmarks hseen hm
    cases hdecodes : p.inCondition && p.decides && m.decodesBool with
    | true =>
      obtain ⟨hp, hbool⟩ := Bool.and_eq_true_iff.1 hdecodes
      obtain ⟨t, ht, hagrees⟩ := TypeMapping.equal_true_agrees hbool
      have hread : p.read .decoded (some m) = Reading.decoded (some m) := funext fun v => if_pos hp
      rw [inserted_of_changes (hchanges.trans hdecodes), eval_equalTo_true ht, hread]
      exact (Agrees.refl _).bind fun v _ _ => hagrees v
    | false =>
      have hread : p.read .decoded (some m) = pure := by
        funext v
        unfold Position.read
        split
        · next hp => exact TypeMapping.decoded_eq_ok (by simpa [hp] using hdecodes) v
        · rfl
      rw [inserted_of_not_changes (hchanges.trans hdecodes), hread, bind_pure]
      exact .refl _

end Usage

/-! ## The pass against the domain -/

/-- An operator that is no connective has no operand that the pass changes. -/
theorem Usage.changes_operand {op : BinaryOp} {left right : Expr} {u : Usage} {p : Position} (hmarks : u.Marks p)
    (hlogical : op.isLogical = false) (hself : Occurrence.compensable ⟨.binary op left right, p⟩) {e : Expr}
    (he : Occurrence.compensable ⟨e, p.operand op⟩) (hstored : e.isStoredBool → left.isStoredBool || right.isStoredBool) :
    (u.operand op).changes e = false := by
  cases hchanges : (u.operand op).changes e with
  | false => rfl
  | true =>
    simp only [changes, operand, Bool.and_eq_true, Bool.not_eq_true'] at hchanges
    obtain ⟨⟨htruth, hequality⟩, hconverted⟩ := hchanges
    have hin : p.inCondition = true := hmarks.asTruth ▸ htruth
    have hmapping {mapping : Option TypeMapping} (hm : mapping.all (·.coherent)) (h : mapping.any (·.isConvertedBool)) :
        mapping.any (·.decodesBool) := by
      cases mapping with
      | none => cases h
      | some m => exact (TypeMapping.isConvertedBool_eq_decodesBool hm).symm.trans h
    have hdecodes : e.isStoredBool := by
      cases e with
      | column c => exact hmapping (by simpa [Occurrence.compensable, Position.operand, hin] using he) hconverted
      | keyAccess k => exact hmapping (by simpa [Occurrence.compensable, Position.operand, hin] using he) hconverted
      | _ => cases hconverted
    have hnone : (left.isStoredBool || right.isStoredBool) = false := by
      simpa [Occurrence.compensable, hin, hlogical, hequality] using hself
    cases hnone.symm.trans (hstored hdecodes)

theorem inserting_column_like (c : ColumnRef) (u : Usage) : ((inserting fun e => e).column c u).ReferenceLike :=
  Usage.referenceLike_inserted (Expr.referenceLike_column c) c.mapping

theorem inserting_key_like (k : KeyRef) (u : Usage) : ((inserting fun e => e).key k u).ReferenceLike :=
  Usage.referenceLike_inserted (Expr.referenceLike_keyAccess k) k.mapping

section Keys

variable {f : NodeMap} (hcolumn : ∀ c u, (f.column c u).ReferenceLike) (hkey : ∀ k u, (f.key k u).ReferenceLike)

include hcolumn hkey

theorem Expr.isRowNumber_mapNodes {e : Expr} (u : Usage) (h : e.isRowNumber = false) :
    (e.mapNodes f u).isRowNumber = false := by
  cases e with
  | column c => exact (hcolumn c u).number
  | keyAccess k => exact (hkey k u).number
  | rowNumber => cases h
  | _ => rfl

/-- A term that numbers no rows and is sorted by the same expression in the mapped tree keeps its key. -/
theorem Select.agrees_sortKey
    (halias : ∀ a b : Source, a.id = b.id → a.aliasName = b.aliasName → f.aliasName a = f.aliasName b) {s : Select}
    {e : Expr} {env : Environment} {numbers : List (Option Nat)} {row : Row} {scope : Scope}
    (hsorted : (e.mapNodes f .value).sortedBy (s.mapNodes f).projections = (e.sortedBy s.projections).mapNodes f .value)
    (hplain : e.isRowNumber = false)
    (heval : Agrees ((e.mapNodes f .value).eval env scope) (e.evalWith .decoded env .value scope))
    (hnumbers : Projection.Numbered (s.mapNodes f).projections numbers)
    (hrow : Projection.evalAll env (s.mapNodes f).projections numbers scope = .ok row) :
    Agrees ((e.mapNodes f .value).sortKey env ((s.mapNodes f).placeOf (e.mapNodes f .value)) row scope)
      (e.sortKeyRead .decoded env (s.placeOf e) row scope) := by
  obtain hsame | ⟨hplace, j, q, hplace', hq, hqe⟩ | ⟨i, j, p, q, hplace, hplace', hp, hq, hpq⟩ :=
    placeOf_cases (fun p _ => Expr.mapNodes_beq halias hcolumn hkey p.expr e .value) hsorted
  · rw [hsame]
    cases s.placeOf e with
    | none => exact heval
    | some i => exact .refl _
  · -- The key is taken from the row now, where it is the value of the mapped term.
    rw [hplace, hplace']
    have hcell := Projection.eval_eq_cell hnumbers hrow hq (hqe ▸ Expr.isRowNumber_mapNodes hcolumn hkey .value hplain)
    rw [hqe] at hcell
    rw [hcell] at heval
    exact heval
  · rw [hplace, hplace']
    show Agrees (.ok (row[j]?.getD .null)) (.ok (row[i]?.getD .null))
    rw [Projection.cells_eq hnumbers hrow hp hq hpq]
    exact .refl _

end Keys

/-- A tree whose booleans are decoded beside the compensated one. -/
def compensation (env : Environment) : Simulation env where
  toComparison := Agrees.comparison
  toSurroundings := .within Frame.closed_all
  reading := .decoded
  map := inserting fun e => e
  changes := Usage.changes
  Allowed o := o.compensable
  Sorted q := q.KeepsKeys
  columnLike := inserting_column_like
  keyLike := inserting_key_like
  value _ := rfl
  column {c _ _} hmarks hallowed hchanges a b hab := by
    obtain ⟨rfl, -⟩ := hab.within
    exact Usage.inserted_agrees hmarks (.inr hchanges) hallowed (.column c) env a
  key {k _ _} hmarks hallowed hchanges a b hab := by
    obtain ⟨rfl, -⟩ := hab.within
    exact Usage.inserted_agrees hmarks (.inr hchanges) hallowed (.keyAccess k) env a
  truthOf _ _ _ v := .truthOf _ _ v
  ungrouped _ _ := .refl _
  changedTruth {e _ _} hmarks hdecides hallowed hchanges a b hab := by
    obtain ⟨rfl, -⟩ := hab.within
    refine Agrees.bind ?_ fun v _ _ => .truthOf _ _ v
    cases e with
    | column c => exact Usage.inserted_agrees hmarks (.inl hdecides) hallowed (.column c) env a
    | keyAccess k => exact Usage.inserted_agrees hmarks (.inl hdecides) hallowed (.keyAccess k) env a
    | _ => simp [Usage.changes, Expr.isConvertedBool] at hchanges
  changedOperands {op left right _ _} hmarks hlogical hleft hright hself hchanged := by
    rw [Usage.changes_operand hmarks hlogical hself hleft fun h => by rw [h, Bool.true_or],
      Usage.changes_operand hmarks hlogical hself hright fun h => by rw [h, Bool.or_true]] at hchanged
    cases hchanged
  sorts hsorted t ht hvalue _ _ a b hab hnumbers hrow := by
    obtain hplace | ⟨hnumber, hsame⟩ := hsorted t ht
    · rw [← Select.mapNodes_inserting, ← Expr.mapNodes_inserting] at hplace
      rw [hplace]
      exact Passage.sortKey (hvalue a b hab)
    · rw [← Select.mapNodes_inserting, ← Expr.mapNodes_inserting, ← Expr.mapNodes_inserting] at hsame
      obtain rfl := hab.within.1
      exact Select.agrees_sortKey inserting_column_like inserting_key_like (fun _ _ _ h => h) hsame hnumber
        (hvalue a a hab) hnumbers hrow

theorem Select.compensate_agrees (env : Environment) (s : Select) (outer : List Frame) (h : s.Compensable) :
    Agrees (s.compensate.value.run env outer) (s.runWith .decoded env outer) := by
  rw [← mapNodes_inserting]
  exact s.simulated (compensation env) ⟨h.exprs, h.keys, fun _ _ _ _ _ _ _ _ _ _ _ => trivial⟩ ⟨rfl, fun _ _ => trivial⟩

/-- A compensated select has the rows that the select has when the booleans which decide its conditions are decoded, or
both fail, as long as no stored value is met that cannot be decoded. -/
theorem Select.run_compensate (s : Select) (env : Environment) (outer : List Frame) (hs : s.Compensable)
    (hread : ∀ e, s.runWith .decoded env outer = .error e → ¬ e.isUnreadable) :
    (s.compensate.value.run env outer).toOption = (s.runWith .decoded env outer).toOption :=
  (compensate_agrees env s outer hs).toOption_eq hread

/-- Rows with a boolean that is stored as a letter. -/
def flagTable : Environment where
  tables := [("Rows", ⟨["Id", "Flag"], [[.int32 1, .string "N"], [.int32 2, .string "Y"], [.int32 3, .null]]⟩)]
  parameters := .empty

def flagOf (id : TableId) : Expr :=
  .column ⟨id, none, "Flag", some (.converted "char(1)" .yesNo), true⟩

def idOf (id : TableId) : Expr :=
  .column ⟨id, none, "Id", none, true⟩

/-- The rows whose flag is set, or is not while that of another row is, those with a set flag first. -/
def sortedByFlag : Select where
  projections := [⟨"Id", idOf 1⟩, ⟨"Other", idOf 2⟩]
  sources := [.table 1 none "Rows" none,
    .joinedOn .left (.derived 2 none { Select.empty with
      projections := [⟨"Id", idOf 3⟩, ⟨"Flag", flagOf 3⟩], sources := [.table 3 none "Rows" none] }) (flagOf 2)]
  predicate := some (.binary .orElse (flagOf 1) (.binary .andAlso (.unary .not (flagOf 1))
    (.exists { Select.empty with sources := [.table 4 none "Rows" none], predicate := some (flagOf 4) } false)))
  groupBy := []
  having := none
  orderings := [⟨.conditional (flagOf 1) (.literal (.int32 1)) (.literal (.int32 2)), true⟩]
  limit := none
  offset := none
  distinct := false

theorem Select.run_compensate_sortedByFlag :
    sortedByFlag.Compensable ∧
      (sortedByFlag.compensate.value.run flagTable []).toOption = (sortedByFlag.runWith .decoded flagTable []).toOption ∧
      sortedByFlag.runWith .decoded flagTable [] =
        .ok ⟨["Id", "Other"], [[.int32 2, .int32 2], [.int32 1, .int32 2]]⟩ := by
  have hrows : sortedByFlag.runWith .decoded flagTable [] =
      .ok ⟨["Id", "Other"], [[.int32 2, .int32 2], [.int32 1, .int32 2]]⟩ := by cbv
  have hs : sortedByFlag.Compensable := by
    refine ⟨List.all_eq_true.1 (by decide), ?_⟩
    rintro q (_ | ⟨_, _ | ⟨_, _ | ⟨_, ⟨⟩⟩⟩⟩) t (_ | ⟨_, ⟨⟩⟩)
    exact .inl rfl
  refine ⟨hs, run_compensate sortedByFlag flagTable [] hs (fun e he => ?_), hrows⟩
  cases hrows.symm.trans he

/-- Rows numbered by their flag, which is compared with true, and sorted by such a number, in which it is not. -/
def numberedByFlag : Select :=
  let numbered (test : Expr) : Expr :=
    .rowNumber [] [⟨.conditional test (.literal (.int32 1)) (.literal (.int32 2)), true⟩]
  { Select.empty with
    projections := [⟨"Id", idOf 1⟩,
      ⟨"N", numbered ((flagOf 1).equalTo (.constant (.bool true) (some (.converted "char(1)" .yesNo))))⟩]
    sources := [.table 1 none "Rows" none]
    orderings := [⟨numbered (flagOf 1), true⟩] }

/-- A sort term that becomes equal to a projection is no longer evaluated, here one that has no value outside of
projections. -/
theorem Select.run_compensate_ne_of_places_changed :
    (∀ o ∈ numberedByFlag.occurrences, o.compensable) ∧ numberedByFlag.SortsAlikeCompensated ∧
      numberedByFlag.runWith .decoded flagTable [] = .error (.evaluation .misplacedRowNumber) ∧
      numberedByFlag.compensate.value.run flagTable [] =
        .ok ⟨["Id", "N"], [[.int32 2, .int64 1], [.int32 1, .int64 2], [.int32 3, .int64 3]]⟩ := by
  refine ⟨List.all_eq_true.1 (by decide), ?_, by cbv, by cbv⟩
  rintro t (_ | ⟨_, ⟨⟩⟩)
  rfl

end QueryShaping
