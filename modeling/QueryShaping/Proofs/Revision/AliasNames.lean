import QueryShaping.Proofs.Query.UniqueName
import QueryShaping.Proofs.Revision.Alias

/-!
# Names that are given out

The names of a scope differ, whatever the case of letters, and one that was given stays. Writing them is a map over the
sources and over the expressions of a select, so every source and every reference of an identity that has a name comes
to carry this name. A select declares each identity once, and then under its own name.
-/

namespace QueryShaping

open List

variable {id : TableId} {name : String}

/-! ## Writing names -/

namespace AliasScope

section Writing

variable {names : AliasScope}

theorem aliasName_naming (s : Source) : (s.mapNodes names.naming).aliasName = names.nameOf s.id s.aliasName := by
  cases s with
  | table | derived | setOperation => rfl
  | joined _ source | joinedOn _ source _ => exact aliasName_naming source

theorem renamed_nameOf (id : TableId) (current : Option String) :
    names.renamed id (names.nameOf id current) = none := by
  cases h : names.aliases.lookup id <;> simp [renamed, nameOf, h]

/-- A name that need not be written is there. -/
theorem eq_of_renamed_eq_none (h : names.aliases.lookup id = some name) {current : Option String}
    (hnone : names.renamed id current = none) : current = some name := by
  have hsame : ¬ decide (some name ≠ current) = true :=
    fun hne => by simp [renamed, h, Option.filter, hne] at hnone
  rw [decide_eq_true_eq, not_not] at hsame
  exact hsame.symm

theorem renamed_of_renamed {current : Option String} (h : names.renamed id current = some name) :
    names.renamed id (some name) = none := by
  have hlookup := (Option.filter_eq_some_iff.1 h).1
  simp [renamed, hlookup]

/-- Names that have been written need not be written again. -/
theorem reviser_settles : names.reviser.visitor.Settles where
  column c p e h := by
    obtain ⟨name, hname, rfl⟩ := Option.map_eq_some_iff.1 h
    refine ⟨?_, rfl⟩
    simp [Expr.occurrences, Visitor.answers, Reviser.visitor, reviser, renamed_of_renamed hname]
  key k p e h := by
    obtain ⟨name, hname, rfl⟩ := Option.map_eq_some_iff.1 h
    refine ⟨?_, rfl⟩
    simp [Expr.occurrences, Visitor.answers, Reviser.visitor, reviser, renamed_of_renamed hname]
  aliasName s := by
    show (names.renamed (s.mapNodes names.reviser.nodeMap).id (s.mapNodes names.reviser.nodeMap).aliasName).map some = none
    rw [nodeMap_reviser, Source.id_mapNodes, aliasName_naming, renamed_nameOf, Option.map_none]

theorem tableSources_apply (s : Select) :
    (names.apply s).value.tableSources = s.tableSources.map (·.mapNodes names.naming) := by
  rw [← nodeMap_reviser]
  exact names.reviser_settles.tableSources_visit s

end Writing

/-! ## Giving names -/

/-- Names are given to identities that were met, at most one to each, and they differ in lowercase. -/
structure Valid (scope : AliasScope) : Prop where
  used_eq : scope.used = scope.aliases.map fun a => Text.lowercase a.2
  nodup_used : scope.used.Nodup
  visited_of_mem : ∀ a ∈ scope.aliases, a.1 ∈ scope.visited

theorem valid_empty : Valid empty :=
  ⟨rfl, .nil, nofun⟩

variable {scope : AliasScope}

theorem mem_of_lookup {aliases : List (TableId × String)}
    (h : aliases.lookup id = some name) : (id, name) ∈ aliases := by
  induction aliases with
  | nil => cases h
  | cons a aliases ih =>
    obtain ⟨id', name'⟩ := a
    rw [lookup_cons] at h
    split at h
    case h_1 heq =>
      obtain rfl := Option.some.inj h
      obtain rfl := eq_of_beq heq
      exact mem_cons_self
    case h_2 => exact mem_cons_of_mem _ (ih h)

theorem Valid.lookup_eq_none (hvalid : scope.Valid) (hid : id ∉ scope.visited) :
    scope.aliases.lookup id = none := by
  cases hlookup : scope.aliases.lookup id with
  | none => rfl
  | some name => exact absurd (hvalid.visited_of_mem _ (mem_of_lookup hlookup)) hid

theorem Valid.visited_of_lookup (hvalid : scope.Valid)
    (h : scope.aliases.lookup id = some name) : id ∈ scope.visited :=
  hvalid.visited_of_mem _ (mem_of_lookup h)

theorem Valid.lookup_injective (hvalid : scope.Valid) {id id' : TableId} {name name' : String}
    (h : scope.aliases.lookup id = some name) (h' : scope.aliases.lookup id' = some name')
    (hname : Text.lowercase name = Text.lowercase name') : id = id' := by
  have hnodup := hvalid.nodup_used
  rw [hvalid.used_eq] at hnodup
  have heq := inj_on_of_nodup_map hnodup (mem_of_lookup h) (mem_of_lookup h') hname
  exact (Prod.mk.inj heq).1

/-- What meeting a source can do: nothing for a known identity, else it is known from then on, and named if it had an
alias. -/
theorem reserve_cases (scope : AliasScope) (source : Source) :
    (source.id ∈ scope.visited ∧ scope.reserve source = scope) ∨
      (source.id ∉ scope.visited ∧ source.aliasName = none ∧
        scope.reserve source = { scope with visited := source.id :: scope.visited }) ∨
      ∃ name, source.id ∉ scope.visited ∧ source.aliasName.isSome ∧ Text.lowercase name ∉ scope.used ∧
        scope.reserve source =
          ⟨Text.lowercase name :: scope.used, source.id :: scope.visited, (source.id, name) :: scope.aliases⟩ := by
  by_cases hvisited : source.id ∈ scope.visited
  · exact .inl ⟨hvisited, by rw [reserve, if_pos (List.contains_iff_mem.2 hvisited)]⟩
  · have hnew : ¬ scope.visited.contains source.id = true := fun h => hvisited (List.contains_iff_mem.1 h)
    cases halias : source.aliasName with
    | none => exact .inr (.inl ⟨hvisited, rfl, by simp only [reserve, if_neg hnew, halias]⟩)
    | some aliasName =>
      refine .inr (.inr ⟨uniqueName aliasName scope.used, hvisited, rfl, lowercase_uniqueName_notMem _ _, ?_⟩)
      simp only [reserve, if_neg hnew, halias]

theorem Valid.reserve (hvalid : scope.Valid) (source : Source) : (scope.reserve source).Valid := by
  obtain ⟨-, heq⟩ | ⟨-, -, heq⟩ | ⟨name, -, -, hname, heq⟩ := reserve_cases scope source <;> rw [heq]
  · exact hvalid
  · exact ⟨hvalid.used_eq, hvalid.nodup_used, fun a ha => mem_cons_of_mem _ (hvalid.visited_of_mem a ha)⟩
  · refine ⟨by rw [hvalid.used_eq, map_cons], hvalid.nodup_used.cons hname, fun a ha => ?_⟩
    obtain rfl | ha := mem_cons.1 ha
    · exact mem_cons_self
    · exact mem_cons_of_mem _ (hvalid.visited_of_mem a ha)

theorem lookup_reserve_of_visited (hid : id ∈ scope.visited) (source : Source) :
    (scope.reserve source).aliases.lookup id = scope.aliases.lookup id := by
  obtain ⟨-, heq⟩ | ⟨-, -, heq⟩ | ⟨name, hnew, -, -, heq⟩ := reserve_cases scope source <;> rw [heq]
  have hne : (id == source.id) = false := beq_false_of_ne fun h => hnew (h ▸ hid)
  rw [lookup_cons, hne]

theorem visited_reserve_of_visited (hid : id ∈ scope.visited) (source : Source) :
    id ∈ (scope.reserve source).visited := by
  obtain ⟨-, heq⟩ | ⟨-, -, heq⟩ | ⟨name, -, -, -, heq⟩ := reserve_cases scope source <;> rw [heq]
  · exact hid
  · exact mem_cons_of_mem _ hid
  · exact mem_cons_of_mem _ hid

/-- A source that is met for the first time has a name afterwards if it had an alias, and none otherwise. -/
theorem Valid.isSome_lookup_reserve (hvalid : scope.Valid) {source : Source} (hnew : source.id ∉ scope.visited) :
    source.id ∈ (scope.reserve source).visited ∧
      ((scope.reserve source).aliases.lookup source.id).isSome = source.aliasName.isSome := by
  obtain ⟨hvisited, -⟩ | ⟨-, halias, heq⟩ | ⟨name, -, halias, -, heq⟩ := reserve_cases scope source
  · exact absurd hvisited hnew
  · rw [heq, halias]
    exact ⟨mem_cons_self, by rw [hvalid.lookup_eq_none hnew]⟩
  · rw [heq, halias]
    exact ⟨mem_cons_self, by rw [lookup_cons_self, Option.isSome_some]⟩

/-- Meets sources one after another. -/
def reserveAll (scope : AliasScope) (sources : List Source) : AliasScope :=
  sources.foldl AliasScope.reserve scope

theorem Valid.reserveAll (hvalid : scope.Valid) (sources : List Source) : (scope.reserveAll sources).Valid := by
  induction sources generalizing scope with
  | nil => exact hvalid
  | cons source sources ih => exact ih (hvalid.reserve source)

theorem lookup_reserveAll_of_visited (hid : id ∈ scope.visited) (sources : List Source) :
    (scope.reserveAll sources).aliases.lookup id = scope.aliases.lookup id := by
  induction sources generalizing scope with
  | nil => rfl
  | cons source sources ih =>
    exact (ih (visited_reserve_of_visited hid source)).trans (lookup_reserve_of_visited hid source)

theorem isSome_lookup_reserveAll (hvalid : scope.Valid) {sources : List Source} {source : Source}
    (h : source ∈ firstSources scope.visited sources) :
    ((scope.reserveAll sources).aliases.lookup source.id).isSome = source.aliasName.isSome := by
  induction sources generalizing scope with
  | nil => cases h
  | cons first sources ih =>
    obtain ⟨hvisited, heq⟩ | hnew : (first.id ∈ scope.visited ∧ scope.reserve first = scope) ∨
        (first.id ∉ scope.visited ∧ (scope.reserve first).visited = first.id :: scope.visited) := by
      obtain hold | ⟨hnew, -, heq⟩ | ⟨name, hnew, -, -, heq⟩ := reserve_cases scope first
      · exact .inl hold
      · exact .inr ⟨hnew, by rw [heq]⟩
      · exact .inr ⟨hnew, by rw [heq]⟩
    · rw [firstSources, if_pos (List.contains_iff_mem.2 hvisited)] at h
      rw [reserveAll, foldl_cons, heq]
      exact ih hvalid h
    · rw [firstSources, if_neg fun h => hnew.1 (List.contains_iff_mem.1 h)] at h
      obtain rfl | h := mem_cons.1 h
      · obtain ⟨hvisited, hsome⟩ := hvalid.isSome_lookup_reserve hnew.1
        rw [← hsome]
        exact congrArg Option.isSome (lookup_reserveAll_of_visited hvisited sources)
      · rw [← hnew.2] at h
        exact ih (hvalid.reserve first) h

/-- Gives names to the sources of several selects. -/
def assignAll (scope : AliasScope) (selects : List Select) : AliasScope :=
  selects.foldl assign scope

theorem assignAll_eq_reserveAll (scope : AliasScope) (selects : List Select) :
    scope.assignAll selects = scope.reserveAll (selects.flatMap Select.tableSources) := by
  rw [reserveAll, foldl_flatMap]
  rfl

theorem Valid.assignAll (hvalid : scope.Valid) (selects : List Select) : (scope.assignAll selects).Valid := by
  rw [assignAll_eq_reserveAll]
  exact hvalid.reserveAll _

/-- A name that was given stays, whatever selects follow. -/
theorem Valid.lookup_assignAll (hvalid : scope.Valid)
    (h : scope.aliases.lookup id = some name) (selects : List Select) :
    (scope.assignAll selects).aliases.lookup id = some name := by
  rw [assignAll_eq_reserveAll, lookup_reserveAll_of_visited (hvalid.visited_of_lookup h), h]

end AliasScope

/-! ## Declared aliases -/

theorem firstSources_map {f : Source → Source} (hf : ∀ s, (f s).id = s.id) (seen : List TableId)
    (sources : List Source) : firstSources seen (sources.map f) = (firstSources seen sources).map f := by
  induction sources generalizing seen with
  | nil => rfl
  | cons s sources ih =>
    rw [map_cons, firstSources, firstSources, hf]
    split
    · exact ih seen
    · rw [map_cons, ih]

theorem id_notMem_of_mem_firstSources {seen : List TableId} {sources : List Source} {s : Source}
    (h : s ∈ firstSources seen sources) : s.id ∉ seen := by
  induction sources generalizing seen with
  | nil => cases h
  | cons first sources ih =>
    rw [firstSources] at h
    split at h
    case isTrue => exact ih h
    case isFalse hnew =>
      obtain rfl | h := mem_cons.1 h
      · exact fun hmem => hnew (List.contains_iff_mem.2 hmem)
      · exact fun hmem => ih h (mem_cons_of_mem _ hmem)

theorem pairwise_firstSources (seen : List TableId) (sources : List Source) :
    (firstSources seen sources).Pairwise fun s s' => s.id ≠ s'.id := by
  induction sources generalizing seen with
  | nil => exact .nil
  | cons first sources ih =>
    rw [firstSources]
    split
    · exact ih seen
    · refine .cons (fun s hs heq => ?_) (ih _)
      exact id_notMem_of_mem_firstSources hs (heq ▸ mem_cons_self)

/-- The aliases of a renamed select are the names that were given to its identities. -/
theorem Select.declaredAliases_uniquifyAliases (s : Select) :
    s.uniquifyAliases.value.declaredAliases =
      (firstSources [] s.tableSources).filterMap fun t => (AliasScope.empty.assign s).aliases.lookup t.id := by
  rw [Select.declaredAliases, Select.uniquifyAliases, AliasScope.tableSources_apply,
    firstSources_map (Source.id_mapNodes _), filterMap_map]
  refine filterMap_congr fun t ht => ?_
  have hsome : ((AliasScope.empty.assign s).aliases.lookup t.id).isSome = t.aliasName.isSome :=
    AliasScope.isSome_lookup_reserveAll AliasScope.valid_empty ht
  rw [Function.comp_apply, AliasScope.aliasName_naming, AliasScope.nameOf]
  cases hlookup : (AliasScope.empty.assign s).aliases.lookup t.id with
  | some name => rfl
  | none =>
    rw [hlookup] at hsome
    exact Option.not_isSome_iff_eq_none.1 (by rw [Option.none_or, ← hsome]; decide)

theorem Select.nodup_declaredAliases_uniquifyAliases (s : Select) :
    (s.uniquifyAliases.value.declaredAliases.map Text.lowercase).Nodup := by
  have hvalid : (AliasScope.empty.assign s).Valid := AliasScope.valid_empty.reserveAll s.tableSources
  rw [declaredAliases_uniquifyAliases, map_filterMap]
  refine (pairwise_firstSources [] s.tableSources).filterMap _ fun t t' hne name hname name' hname' heq => ?_
  obtain ⟨given, hgiven, rfl⟩ := Option.map_eq_some_iff.1 hname
  obtain ⟨given', hgiven', rfl⟩ := Option.map_eq_some_iff.1 hname'
  exact hne (hvalid.lookup_injective hgiven hgiven' heq)

/-- Every source and every reference of an identity has its name. -/
structure Select.Carries (s : Select) (id : TableId) (name : String) : Prop where
  source : ∀ source ∈ s.tableSources, source.id = id → source.aliasName = some name
  column : ∀ o ∈ s.occurrences, ∀ c, o.expr = .column c → c.table = id → c.qualifier = some name
  keyAccess : ∀ o ∈ s.occurrences, ∀ k, o.expr = .keyAccess k → k.table = id → k.qualifier = some name

theorem AliasScope.apply_carries {scope : AliasScope}
    (h : scope.aliases.lookup id = some name) (s : Select) : (scope.apply s).value.Carries id name := by
  have hsilent := scope.reviser_settles.silent_visit s
  refine ⟨fun source hsource hid => ?_, fun o ho c hc hid => ?_, fun o ho k hk hid => ?_⟩
  · subst hid
    exact eq_of_renamed_eq_none h (Option.map_eq_none_iff.1 (hsilent.aliases source hsource))
  · have hnone := hsilent.exprs o ho
    obtain ⟨e, p⟩ := o
    obtain rfl : e = .column c := hc
    subst hid
    exact eq_of_renamed_eq_none h (by simpa [Visitor.answers, Reviser.visitor, reviser] using hnone)
  · have hnone := hsilent.exprs o ho
    obtain ⟨e, p⟩ := o
    obtain rfl : e = .keyAccess k := hk
    subst hid
    exact eq_of_renamed_eq_none h (by simpa [Visitor.answers, Reviser.visitor, reviser] using hnone)

/-- Names given to any number of selects differ in lowercase and stay. An identity has one if it had an alias where it
was first met. Where they are written, every source and every reference carries the name of its identity, and a select
whose names are its own declares no alias twice. -/
theorem AliasScope.assignAll_unique (selects : List Select) :
    (∀ id id' name name', (empty.assignAll selects).aliases.lookup id = some name →
        (empty.assignAll selects).aliases.lookup id' = some name' →
        Text.lowercase name = Text.lowercase name' → id = id') ∧
      (∀ source ∈ firstSources [] (selects.flatMap Select.tableSources),
        ((empty.assignAll selects).aliases.lookup source.id).isSome = source.aliasName.isSome) ∧
      (∀ more id name, (empty.assignAll selects).aliases.lookup id = some name →
        ((empty.assignAll selects).assignAll more).aliases.lookup id = some name) ∧
      (∀ s id name, (empty.assignAll selects).aliases.lookup id = some name →
        ((empty.assignAll selects).apply s).value.Carries id name) ∧
      ∀ s : Select, (s.uniquifyAliases.value.declaredAliases.map Text.lowercase).Nodup := by
  have hvalid : (empty.assignAll selects).Valid := valid_empty.assignAll selects
  refine ⟨fun id id' name name' => hvalid.lookup_injective, fun source hsource => ?_,
    fun more id name h => hvalid.lookup_assignAll h more, fun s id name h => apply_carries h s,
    Select.nodup_declaredAliases_uniquifyAliases⟩
  rw [assignAll_eq_reserveAll]
  exact isSome_lookup_reserveAll valid_empty hsource

/-- A table under an alias, those of its rows for which another of its rows comes before. -/
def pairedUnder (aliasName : String) (id other : TableId) : Select :=
  { Select.empty with
    projections := [⟨"Id", .column ⟨id, some aliasName, "Id", none, false⟩⟩]
    sources := [.table id (some aliasName) "Posts" none]
    predicate := some (.exists
      { Select.empty with
        sources := [.table other (some "P") "Posts" none]
        predicate := some (.binary .lessThan (.column ⟨other, some "P", "Id", none, false⟩)
          (.column ⟨id, some aliasName, "Id", none, false⟩)) } false) }

/-- Two selects, the second under an alias that the first came to need for another source. -/
def pairedTwice : List Select :=
  [pairedUnder "p" 1 2, pairedUnder "p0" 3 2]

theorem AliasScope.assignAll_unique_pairedTwice :
    (empty.assignAll pairedTwice).aliases = [(3, "p00"), (2, "P0"), (1, "p")] ∧
      Text.lowercase "P0" ≠ Text.lowercase "p00" ∧
      ((empty.assignAll pairedTwice).assignAll [pairedUnder "P" 2 4]).aliases.lookup 2 = some "P0" ∧
      ((empty.assignAll pairedTwice).apply (pairedUnder "P" 2 3)).value.Carries 3 "p00" ∧
      ((pairedUnder "p" 1 2).uniquifyAliases.value.declaredAliases.map Text.lowercase).Nodup := by
  have haliases : (empty.assignAll pairedTwice).aliases = [(3, "p00"), (2, "P0"), (1, "p")] := by cbv
  obtain ⟨hinjective, -, hstays, hcarries, hnodup⟩ := assignAll_unique pairedTwice
  rw [haliases] at hinjective hstays hcarries
  exact ⟨haliases, fun h => absurd (hinjective 2 3 _ _ rfl rfl h) (by decide), hstays _ 2 _ rfl, hcarries _ 3 _ rfl,
    hnodup _⟩

end QueryShaping
