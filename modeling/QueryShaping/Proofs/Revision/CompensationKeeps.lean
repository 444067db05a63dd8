import QueryShaping.Proofs.Revision.StoredBooleans

/-!
# Compensation keeps the rows of a select that works

A select that gives rows as it stands gives the same rows when it is compensated, if every stored boolean is null or
written by its converter. Where the truth of such a boolean is asked for, the select works only on a null, and a null
stays one when it is compared with true. So nothing changes there, and anywhere else the pass changes nothing either,
with one exception: inside a condition it also compensates the operands of an order comparison or of a calculation, and
these see another value then. Two stored booleans that are compared with each other do no harm if their converters write
them in the order of the booleans.

As for other passes, a sort term has to be sorted by the compensated form of the expression it was sorted by before.
-/

namespace QueryShaping

/-! ## References -/

section References

variable {os : List Occurrence} {env : Environment} {u : Usage} {p : Position} {e : Expr}

/-- A reference that is compensated stands for the boolean that was stored. -/
theorem Usage.decodes_of_changes (hchanges : u.changes e) (ho : ⟨e, p⟩ ∈ os) {c : Converter}
    (hc : e.boolConverter? = some c) {scope : Scope} (hscope : scope.Within (Frame.Stores os)) {v : Value}
    (hv : e.eval env scope = .ok v) :
    ∃ v', (e.mapNodes (inserting fun e => e) u).eval env scope = .ok v' ∧ c.Decodes v v' := by
  have hreference {mapping : Option TypeMapping} (hmapping : e.isConvertedBool = mapping.any (·.isConvertedBool))
      (hconverter : e.boolConverter? = (mapping.bind TypeMapping.converter).filter (·.domainType = .bool))
      (hvalue : e.mapNodes (inserting fun e => e) u = u.inserted e mapping fun e => e) :
      ∃ v', (e.mapNodes (inserting fun e => e) u).eval env scope = .ok v' ∧ c.Decodes v v' := by
    rw [Usage.changes, hmapping] at hchanges
    cases mapping with
    | none => simp at hchanges
    | some m =>
      rw [Option.any_some] at hchanges
      have hconverted : (some m).bind TypeMapping.converter = some c ∧ c.domainType = .bool := by
        rw [hconverter, Option.filter_eq_some_iff, decide_eq_true_eq] at hc
        exact hc
      obtain ⟨t, v', ht, hequal, hdecodes⟩ := (hscope.writes ho hc hv).decodes hconverted.2
      have hstored : storedValue (some m) (.bool true) = .ok t := by
        rw [storedValue, storeWith, hconverted.1]
        simp only [ht]
      refine ⟨v', ?_, hdecodes⟩
      rw [hvalue, Usage.inserted_of_changes hchanges]
      refine (Usage.eval_equalTo_true hstored).trans ?_
      rw [hv]
      exact hequal
  cases e with
  | column c => exact hreference rfl rfl rfl
  | keyAccess k => exact hreference rfl rfl rfl
  | _ => cases hc

/-- A changed expression whose truth is asked for was a null before, or no truth value. -/
theorem Expr.truthKeptAs_inserting (hmarks : u.Marks p) (hdecides : p.decides) (ho : ⟨e, p⟩ ∈ os)
    (hharmless : Occurrence.harmless ⟨e, p⟩) (hchanges : u.changes e) :
    e.TruthKeptAs (Frame.Stores os) env (e.mapNodes (inserting fun e => e) u) := by
  simp only [Usage.changes, Bool.and_eq_true] at hchanges
  obtain ⟨c, hc⟩ : ∃ c, e.boolConverter? = some c := by
    have hin : p.inCondition = true := hmarks.asTruth ▸ hchanges.1.1
    refine Option.isSome_iff_exists.1 ?_
    cases e with
    | column c => simpa [Occurrence.harmless, hin, hdecides, hchanges.2] using hharmless
    | keyAccess k => simpa [Occurrence.harmless, hin, hdecides, hchanges.2] using hharmless
    | _ => cases hchanges.2
  intro scope hscope truth htruth
  obtain ⟨v, hv, htruth⟩ := Except.bind_eq_ok_iff.1 htruth
  obtain ⟨v', hv', hdecodes⟩ := Usage.decodes_of_changes (by simpa [Usage.changes] using hchanges) ho hc hscope hv
  rw [hv']
  exact hdecodes.truthOf_keeps _ _ truth htruth

/-- A binary operator that is no connective keeps its value when an operand is changed. -/
theorem Expr.binary_keptAs_inserting {op : BinaryOp} {left right : Expr} (hmarks : u.Marks p)
    (hlogical : op.isLogical = false) (hleft : ⟨left, p.operand op⟩ ∈ os) (hright : ⟨right, p.operand op⟩ ∈ os)
    (hharmless : Occurrence.harmless ⟨.binary op left right, p⟩)
    (hchanged : (u.operand op).changes left || (u.operand op).changes right) :
    (Expr.binary op left right).KeptAs (Frame.Stores os) env
      ((Expr.binary op left right).mapNodes (inserting fun e => e) u) := by
  -- One of the operands is compensated, so both are, and they are compared by order.
  obtain ⟨htruth, hequality, hconverted⟩ :
      u.asTruth = true ∧ op.isEquality = false ∧ (left.isConvertedBool || right.isConvertedBool) = true := by
    simpa [Usage.changes, Usage.operand, ← and_or_left, and_assoc] using hchanged
  have htolerates : op.toleratesBools left right := by
    simpa [Occurrence.harmless, ← hmarks.asTruth, htruth, hlogical, hequality] using hharmless
  rw [BinaryOp.toleratesBools, hconverted] at htolerates
  simp only [Bool.not_true, Bool.false_or, Bool.and_eq_true] at htolerates
  obtain ⟨⟨⟨hcomparison, hl⟩, hr⟩, horders⟩ := htolerates
  have hchanges {e : Expr} (he : e.isConvertedBool) : (u.operand op).changes e := by
    simp [Usage.changes, Usage.operand, htruth, hequality, he]
  split at horders
  case h_2 => cases horders
  case h_1 c d hc hd =>
    intro scope hscope x hx
    simp only [Expr.mapNodes, Expr.eval, hlogical] at hx ⊢
    obtain ⟨v, hv, hx⟩ := Except.bind_eq_ok_iff.1 hx
    obtain ⟨w, hw, hx⟩ := Except.bind_eq_ok_iff.1 hx
    obtain ⟨v', hv', hdecodes⟩ := Usage.decodes_of_changes (hchanges hl) hleft hc hscope hv
    obtain ⟨w', hw', hdecodes'⟩ := Usage.decodes_of_changes (hchanges hr) hright hd hscope hw
    rw [hv', hw']
    exact hdecodes.applyBinary_keeps hdecodes' hcomparison horders x hx

end References

/-! ## Compensation against evaluation -/

theorem faithful_inserting (os : List Occurrence) (env : Environment) :
    (inserting fun e => e).Faithful Usage.changes (Frame.Stores os) env fun o => o ∈ os ∧ o.harmless where
  closed := Frame.closed_stores
  aliasLike _ _ _ h := h
  columnLike := inserting_column_like
  keyLike := inserting_key_like
  value _ := rfl
  column _ _ h scope _ := .of_eq (congrArg (·.eval env scope) (Usage.inserted_of_not_changes h).symm)
  key _ _ h scope _ := .of_eq (congrArg (·.eval env scope) (Usage.inserted_of_not_changes h).symm)
  changedTruth hmarks hdecides ho hchanges := Expr.truthKeptAs_inserting hmarks hdecides ho.1 ho.2 hchanges
  changedOperands hmarks hlogical hleft hright hself hchanged :=
    Expr.binary_keptAs_inserting hmarks hlogical hleft.1 hright.1 hself.2 hchanged

/-- A select that gives rows as it stands gives them compensated too, if every stored boolean is null or written by its
converter, if inside of conditions none is calculated with or compared with anything but booleans in the same order, and
if every term is sorted by the same expression. -/
theorem Select.run_compensate_of_ok (s : Select) (env : Environment) (outer : List Frame)
    (hharmless : ∀ o ∈ s.occurrences, o.harmless) (hsorts : ∀ q ∈ s.selects, q.SortsAlikeCompensated)
    (hsources : ∀ t ∈ s.tableSources, t.Stores s.occurrences env) (houter : ∀ f ∈ outer, Frame.Stores s.occurrences f)
    {r : Relation} (hr : s.run env outer = .ok r) : s.compensate.value.run env outer = .ok r := by
  have hsorts : ∀ q ∈ s.selects, q.SortsAlikeMapped (inserting fun e => e) := by
    simpa only [SortsAlikeCompensated, SortsAlikeMapped, mapNodes_inserting, Expr.mapNodes_inserting] using hsorts
  rw [← mapNodes_inserting]
  exact mapNodes_keeps (faithful_inserting s.occurrences env) s (fun o ho => ⟨ho, hharmless o ho⟩) hsorts
    (fun t ht => (hsources t ht).extends) houter r hr

/-- The rows that have a flag or none, with those of a smaller flag. -/
def comparesFlags : Select :=
  { Select.empty with
    projections := [⟨"Id", idOf 1⟩, ⟨"Other", idOf 2⟩]
    sources := [.table 1 none "Rows" none, .joinedOn .inner (.derived 2 none { Select.empty with
      projections := [⟨"Id", idOf 3⟩, ⟨"Flag", flagOf 3⟩]
      sources := [.table 3 none "Rows" none] }) (.binary .lessThan (flagOf 2) (flagOf 1))]
    predicate := some (.binary .orElse (.unary .isNotNull (flagOf 1)) (.unary .not (flagOf 1)))
    orderings := [⟨flagOf 1, false⟩] }

theorem Select.run_compensate_of_ok_comparesFlags :
    (∀ o ∈ comparesFlags.occurrences, o.harmless) ∧ (∀ q ∈ comparesFlags.selects, q.SortsAlikeCompensated) ∧
      (∀ t ∈ comparesFlags.tableSources, t.Stores comparesFlags.occurrences flagTable) ∧
      comparesFlags.compensate.changed ∧
      comparesFlags.run flagTable [] = .ok ⟨["Id", "Other"], [[.int32 2, .int32 1]]⟩ ∧
      comparesFlags.compensate.value.run flagTable [] = .ok ⟨["Id", "Other"], [[.int32 2, .int32 1]]⟩ := by
  have hharmless : ∀ o ∈ comparesFlags.occurrences, o.harmless := List.all_eq_true.1 (by cbv)
  have hsorts : ∀ q ∈ comparesFlags.selects, q.SortsAlikeCompensated := by
    rintro q (_ | ⟨_, _ | ⟨_, ⟨⟩⟩⟩) t (_ | ⟨_, ⟨⟩⟩)
    rfl
  have hsources : ∀ t ∈ comparesFlags.tableSources, t.Stores comparesFlags.occurrences flagTable := by
    rintro t (_ | ⟨_, _ | ⟨_, _ | ⟨_, ⟨⟩⟩⟩⟩)
    · exact Source.stores_flagged (by cbv) fun outer => rfl
    · exact Source.stores_flagged (by cbv) fun outer => by cbv
    · exact Source.stores_flagged (by cbv) fun outer => rfl
  have hrun : comparesFlags.run flagTable [] = .ok ⟨["Id", "Other"], [[.int32 2, .int32 1]]⟩ := by cbv
  exact ⟨hharmless, hsorts, hsources, by cbv, hrun,
    run_compensate_of_ok _ _ _ hharmless hsorts hsources (List.forall_mem_nil _) hrun⟩

/-- The rows whose flag comes before a letter. -/
def comparesWithLetter : Select :=
  { Select.empty with
    projections := [⟨"Id", idOf 1⟩]
    sources := [.table 1 none "Rows" none]
    predicate := some (.binary .lessThan (flagOf 1) (.literal (.string "Z"))) }

/-- A stored boolean that is compared with a text cannot be compared with it any more when it is decoded. -/
theorem Select.run_compensate_ne_of_compared_with_text :
    (∀ t ∈ comparesWithLetter.tableSources, t.Stores comparesWithLetter.occurrences flagTable) ∧
      comparesWithLetter.run flagTable [] = .ok ⟨["Id"], [[.int32 1], [.int32 2]]⟩ ∧
      comparesWithLetter.compensate.value.run flagTable [] =
        .error (.evaluation (.cannotCompare (.bool false) (.string "Z"))) := by
  refine ⟨?_, by cbv, by cbv⟩
  rintro t (_ | ⟨_, ⟨⟩⟩)
  exact Source.stores_flagged (by cbv) fun outer => rfl

end QueryShaping
