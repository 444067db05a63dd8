import QueryShaping.Proofs.Revision.AliasNames

/-!
# Names that are given again

Names that have been written are found in place when they are written once more. And they are found when names are
given anew: the sources of the renamed select come in the same order, each of them asks for the name that its identity
has, and no identity before it has taken that name. So a second pass gives out the same names and changes nothing.
-/

namespace QueryShaping

namespace AliasScope

variable {scope names : AliasScope}

/-- A source under the name that it gets is given this name again. -/
theorem reserve_renamed (hvalid : scope.Valid) {source : Source}
    (h : source.id ∉ scope.visited →
      names.aliases.lookup source.id = (scope.reserve source).aliases.lookup source.id) :
    scope.reserve (source.mapNodes names.naming) = scope.reserve source := by
  by_cases hvisited : source.id ∈ scope.visited
  · have hknown := List.contains_iff_mem.2 hvisited
    rw [reserve, reserve, Source.id_mapNodes, if_pos hknown, if_pos hknown]
  · have hnew : ¬scope.visited.contains source.id = true := fun h => hvisited (List.contains_iff_mem.1 h)
    specialize h hvisited
    simp only [reserve, Source.id_mapNodes, if_neg hnew, aliasName_naming, nameOf] at h ⊢
    cases halias : source.aliasName with
    | none =>
      simp only [halias, hvalid.lookup_eq_none hvisited] at h
      rw [h, Option.none_or]
    | some aliasName =>
      simp only [halias, List.lookup_cons_self] at h
      simp only [h, Option.some_or, uniqueName_of_notMem (lowercase_uniqueName_notMem aliasName scope.used)]

theorem reserveAll_renamed (hvalid : scope.Valid) (sources : List Source) :
    scope.reserveAll (sources.map (·.mapNodes (scope.reserveAll sources).naming)) = scope.reserveAll sources := by
  induction sources generalizing scope with
  | nil => rfl
  | cons source sources ih =>
    have hlookup (hnew : source.id ∉ scope.visited) :
        (scope.reserveAll (source :: sources)).aliases.lookup source.id =
          (scope.reserve source).aliases.lookup source.id :=
      lookup_reserveAll_of_visited (hvalid.isSome_lookup_reserve hnew).1 sources
    show (scope.reserve (source.mapNodes _)).reserveAll _ = (scope.reserve source).reserveAll sources
    rw [reserve_renamed hvalid hlookup]
    exact ih (hvalid.reserve source)

end AliasScope

/-- A select whose aliases have been made unique is given the same names again, so nothing changes any more. -/
theorem Select.uniquifyAliases_stable (s : Select) :
    AliasScope.empty.assign s.uniquifyAliases.value = AliasScope.empty.assign s ∧
      s.uniquifyAliases.value.uniquifyAliases.changed = false ∧
      s.uniquifyAliases.value.uniquifyAliases.value = s.uniquifyAliases.value := by
  have hnames : AliasScope.empty.assign s.uniquifyAliases.value = AliasScope.empty.assign s := by
    show AliasScope.empty.reserveAll s.uniquifyAliases.value.tableSources = AliasScope.empty.reserveAll s.tableSources
    rw [Select.uniquifyAliases, AliasScope.tableSources_apply]
    exact AliasScope.reserveAll_renamed AliasScope.valid_empty s.tableSources
  have hagain : s.uniquifyAliases.value.uniquifyAliases = pure s.uniquifyAliases.value := by
    rw [Select.uniquifyAliases, hnames]
    exact ((AliasScope.empty.assign s).reviser_settles.visit_stable s).1
  rw [hagain]
  exact ⟨hnames, rfl, rfl⟩

end QueryShaping
