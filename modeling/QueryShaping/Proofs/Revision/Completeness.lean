import QueryShaping.Proofs.Revision.ConvertedBool

/-!
# Which stored booleans are left as truth values

After the pass no reference to a boolean with a converter decides a condition any more. The pass looks for them where it
knows that it is inside a condition. The operands of a connective in a projection, in an argument or in an ordering are
truth values as well, but there the pass is not, and it leaves them as they are. These are all that is left.
-/

namespace QueryShaping

/-- Whether the truth of a reference to a boolean with a converter is asked for. -/
def Occurrence.isStoredTruth (o : Occurrence) : Bool :=
  o.position.decides && o.expr.isConvertedBool

/-- The references to booleans with a converter whose truth is asked for. -/
def storedTruths (os : List Occurrence) : List Occurrence :=
  os.filter Occurrence.isStoredTruth

/-- Those of them that are in no condition. -/
def storedTruthsOutside (os : List Occurrence) : List Occurrence :=
  (storedTruths os).filter fun o => !o.position.inCondition

theorem storedTruths_eq_flatMap (os : List Occurrence) : os.flatMap (fun o => storedTruths [o]) = storedTruths os :=
  flatMap_filter_singleton _ os

theorem storedTruthsOutside_eq_flatMap (os : List Occurrence) :
    os.flatMap (fun o => storedTruthsOutside [o]) = storedTruthsOutside os := by
  simp only [storedTruthsOutside, storedTruths, List.filter_filter, flatMap_filter_singleton]

theorem storedTruths_of_not {e : Expr} (p : Position) (h : e.isConvertedBool = false) : storedTruths [⟨e, p⟩] = [] := by
  simp [storedTruths, Occurrence.isStoredTruth, h]

/-- A reference is left as a truth value only outside of conditions. -/
theorem Usage.Marks.storedTruths_reference {u : Usage} {p : Position} (h : u.Marks p) {reference : Expr}
    {mapping : Option TypeMapping} (hmapping : reference.isConvertedBool = mapping.any (·.isConvertedBool))
    (hsingle : ∀ q, reference.occurrences q = [⟨reference, q⟩]) :
    storedTruths ((u.inserted reference mapping fun e => e).occurrences p) = storedTruthsOutside [⟨reference, p⟩] := by
  have hin : p.inCondition = u.asTruth := h.asTruth.symm
  cases hchanged : u.asTruth && !u.inEquality && mapping.any (·.isConvertedBool) with
  | false =>
    rw [Usage.inserted_of_not_changes hchanged, hsingle]
    refine (List.filter_eq_self.2 fun o ho => ?_).symm
    obtain ⟨ho, hstored⟩ := List.mem_filter.1 ho
    obtain rfl := List.mem_singleton.1 ho
    rw [Occurrence.isStoredTruth, Bool.and_eq_true, hmapping] at hstored
    simpa [hin, h.inEquality hstored.1, hstored.2] using hchanged
  | true =>
    cases mapping with
    | none => simp at hchanged
    | some m =>
      -- The reference is an operand of an equality now, whose truth nobody asks for.
      rw [Usage.inserted_of_changes hchanged, Expr.equalTo, Expr.occurrences, hsingle]
      simp only [Bool.and_eq_true] at hchanged
      simp [storedTruthsOutside, storedTruths, Occurrence.isStoredTruth, Expr.isConvertedBool, Position.operand,
        BinaryOp.isLogical, Expr.occurrences, hin, hchanged.1.1]

theorem inserting_turns : (inserting fun e => e).Turns (fun o => storedTruths [o]) fun o => storedTruthsOutside [o] where
  column c u _ h _ := by
    refine ⟨(storedTruths_eq_flatMap _).trans ?_, u.tableSources_inserted c.mapping rfl⟩
    rw [List.flatMap_singleton]
    exact h.storedTruths_reference rfl fun _ => rfl
  key k u _ h _ := by
    refine ⟨(storedTruths_eq_flatMap _).trans ?_, u.tableSources_inserted k.mapping rfl⟩
    rw [List.flatMap_singleton]
    exact h.storedTruths_reference rfl fun _ => rfl
  other {e} p he := by
    have hnone : storedTruths [⟨e, p⟩] = [] := storedTruths_of_not p (by cases e <;> first | rfl | cases he)
    exact ⟨hnone, by rw [storedTruthsOutside, hnone]; rfl⟩

/-- After the pass, what is left as a truth value is in no condition and was there before. -/
theorem Select.storedTruths_compensate (s : Select) :
    storedTruths s.compensate.value.occurrences = storedTruthsOutside s.occurrences := by
  have h := (s.mapNodes_carries inserting_turns).inside
  rwa [mapNodes_inserting, storedTruths_eq_flatMap, storedTruthsOutside_eq_flatMap] at h

/-- No boolean with a converter decides a condition after the pass. Those that are left as truth values are in no
condition and stood there before, and no others can make an evaluation miss a boolean. -/
theorem Select.compensate_leaves (s : Select) :
    (∀ o ∈ s.compensate.value.occurrences, o.position.inCondition → o.position.decides → ¬ o.expr.isConvertedBool) ∧
      storedTruths s.compensate.value.occurrences = storedTruthsOutside s.occurrences ∧
      ∀ env outer e v, s.compensate.value.run env outer = .error (.evaluation (.notABoolean e v)) → e.isConvertedBool →
        ∃ o ∈ s.occurrences, o.expr = e ∧ o.position.decides ∧ ¬ o.position.inCondition := by
  have hleft := storedTruths_compensate s
  have houtside : ∀ o ∈ s.compensate.value.occurrences, o.position.decides → o.expr.isConvertedBool →
      o ∈ s.occurrences ∧ ¬ o.position.inCondition := by
    intro o ho hdecides hconverted
    have hmem : o ∈ storedTruths s.compensate.value.occurrences :=
      List.mem_filter.2 ⟨ho, by rw [Occurrence.isStoredTruth, hdecides, hconverted]; rfl⟩
    rw [hleft, storedTruthsOutside, List.mem_filter, storedTruths, List.mem_filter] at hmem
    exact ⟨hmem.1.1, by simpa using hmem.2⟩
  refine ⟨fun o ho hin hdecides hconverted => (houtside o ho hdecides hconverted).2 hin, hleft, ?_⟩
  intro env outer e v hrun hconverted
  obtain ⟨o, ho, rfl, hdecides⟩ := run_asks env s.compensate.value outer e v hrun
  obtain ⟨hmem, hout⟩ := houtside o ho hdecides hconverted
  exact ⟨o, hmem, rfl, hdecides, hout⟩

/-- The rows whose flag is not set, with a conjunction of the flag. -/
def projectsConjunction : Select :=
  { Select.empty with
    projections := [⟨"Both", .binary .andAlso (flagOf 1) (.literal (.bool true))⟩]
    sources := [.table 1 none "Rows" none]
    predicate := some (.unary .not (flagOf 1)) }

theorem Select.compensate_leaves_projectsConjunction :
    (∀ o ∈ projectsConjunction.compensate.value.occurrences, o.position.inCondition → o.position.decides →
        ¬ o.expr.isConvertedBool) ∧
      projectsConjunction.compensate.value.run flagTable [] =
        .error (.evaluation (.notABoolean (flagOf 1) (.string "N"))) ∧
      ∃ o ∈ projectsConjunction.occurrences, o.expr = flagOf 1 ∧ o.position.decides ∧ ¬ o.position.inCondition := by
  have hrun : projectsConjunction.compensate.value.run flagTable [] =
      .error (.evaluation (.notABoolean (flagOf 1) (.string "N"))) := by cbv
  obtain ⟨hcondition, -, hasks⟩ := compensate_leaves projectsConjunction
  exact ⟨hcondition, hrun, hasks _ _ _ _ hrun rfl⟩

/-- An operand of a connective outside of conditions is left as it is, and the select then fails on it. -/
theorem Select.compensate_leaves_operand :
    storedTruths projectsConjunction.compensate.value.occurrences = [⟨flagOf 1, Position.value.operand .andAlso⟩] ∧
      projectsConjunction.compensate.value.run flagTable [] =
        .error (.evaluation (.notABoolean (flagOf 1) (.string "N"))) := by
  constructor <;> cbv

end QueryShaping
