import QueryShaping.Proofs.Execution.Values

/-!
# Answers from tables

A store without a script, and without failures to come, answers a select with what it evaluates to. It does so every time:
opening a reader counts, and may add a command to a cache, but changes neither the tables nor the selects.
-/

namespace QueryShaping

/-- Whether all commands of a cache are made of this select. -/
structure CommandCache.Of (c : CommandCache) (select : Select) : Prop where
  select_eq : c.select = select
  commands : ∀ entry ∈ c.commands, entry.2.select = select

theorem CommandCache.Of.get {c : CommandCache} {select : Select} (h : c.Of select)
    {refuse : List (String × Bool) → Option Error} {p : Parameters} (hrefuse : refuse p.nullability = none) :
    ∃ c' command, c.get refuse p = (c', .ok command) ∧ command.select = select ∧ c'.Of select := by
  unfold CommandCache.get
  cases hfind : c.commands.lookup p.nullability with
  | some command =>
    obtain ⟨_, _, hsplit, -⟩ := List.lookup_eq_some_iff.1 hfind
    refine ⟨_, _, rfl, ?_, h.select_eq, h.commands⟩
    exact h.commands (p.nullability, command) (by rw [hsplit]; simp)
  | none =>
    simp only [hrefuse]
    refine ⟨_, _, rfl, h.select_eq, h.select_eq, fun entry hentry => ?_⟩
    rcases List.mem_cons.1 hentry with rfl | hentry
    · exact h.select_eq
    · exact h.commands entry hentry

/-- A world that answers from tables, with caches for the commands of some selects. -/
structure World.Answers (w : World) (tables : List (String × Relation)) (selects : List Select) : Prop where
  tables_eq : w.store.tables = tables
  script : w.store.script = none
  failures : w.store.pendingFailures = 0
  caches : ∀ {place : Nat} {select : Select}, selects[place]? = some select →
    ∃ c : CommandCache, w.commands[place]? = some c ∧ c.Of select

namespace World.Answers

variable {w w' : World} {tables : List (String × Relation)} {selects : List Select}

theorem like (h : w.Answers tables selects) (hlike : w.Like w') : w'.Answers tables selects := by
  unfold World.Like at hlike
  rw [hlike]
  exact ⟨h.tables_eq, h.script, h.failures, h.caches⟩

theorem command (h : w.Answers tables selects) {place : Nat} {select : Select} (hselect : selects[place]? = some select)
    (p : Parameters) : ∃ command w', w.command place p = (.ok command, w') ∧ command.select = select ∧
      w'.Answers tables selects ∧ w' = { w with commands := w'.commands } := by
  obtain ⟨c, hc, hof⟩ := h.caches hselect
  have hrefuse : w.store.refusal p.nullability = none := by
    rw [Store.refusal, h.script]
    rfl
  obtain ⟨c', command, hget, hcommand, hof'⟩ := hof.get hrefuse
  refine ⟨command, { w with commands := w.commands.setIfInBounds place c' }, ?_, hcommand,
    ⟨h.tables_eq, h.script, h.failures, fun {place' select'} hselect' => ?_⟩, rfl⟩
  · rw [World.command, hc]
    simp only [hget]
  · simp only [Array.getElem?_setIfInBounds]
    by_cases heq : place = place'
    · subst heq
      rw [hselect] at hselect'
      cases hselect'
      have hplace : place < w.commands.size := (Array.getElem?_eq_some_iff.1 hc).1
      exact ⟨c', by simp [hplace], hof'⟩
    · rw [if_neg heq]
      exact h.caches hselect'

theorem execute (h : w.Answers tables selects) {select : Select} {p : Parameters} {found : Relation}
    (heval : evaluate ⟨tables, p⟩ select = .ok found) :
    ∃ w', w.execute select p = (.ok (.start found.rows found.columns.length), w') ∧ w'.Answers tables selects ∧
      w' = { w with store := w'.store } := by
  have hanswer : w.store.answer select p = .ok (.start found.rows found.columns.length) := by
    rw [Store.answer, h.script, h.failures, h.tables_eq]
    simp only [Nat.lt_irrefl, if_false, heval]
    rfl
  refine ⟨{ w with store := (w.store.execute select p).1 }, ?_, ?_, rfl⟩
  · rw [World.execute, Store.execute, hanswer]
  · rw [Store.execute, hanswer, h.script, h.failures]
    exact ⟨h.tables_eq, h.script, rfl, h.caches⟩

end World.Answers

/-! ## Opening a reader -/

theorem Action.runs_tryPerform {α : Type} {f : World → Except Error α × World} {w w' : World} {a : α}
    (h : f w = (.ok a, w')) : (Action.tryPerform f).Runs w a w' := h

/-- An operation that succeeds is carried out once. -/
theorem Strategy.execute_runs {α : Type} (strategy : Strategy) {operation : Action (Except Error α)}
    {sleep : Duration → Action Unit} {repeatable : Bool} {w w' : World} {a : α} (h : operation.Runs w (.ok a) w') :
    (strategy.execute repeatable operation sleep).Runs w (.ok a) w' := by
  cases strategy with
  | once => exact h
  | retrying p =>
    rw [Strategy.execute]
    cases p.maxRetries with
    | zero => exact h
    | succ left => exact h.bind (Action.runs_pure _ _)

/-- A select is answered with what it evaluates to, and the world goes on to answer. -/
theorem Context.openCached_runs {context : Context} {mode : Mode} {w : World} {tables : List (String × Relation)}
    {selects : List Select} (hw : w.Answers tables selects) (hcalm : context.Calm w) {place : Nat} {select : Select}
    (hselect : selects[place]? = some select) {found : Relation}
    (heval : evaluate ⟨tables, context.parameters⟩ select = .ok found) :
    ∃ w', (context.openCached mode place).Runs w (.start found.rows found.columns.length) w' ∧
      w'.Answers tables selects ∧ w' = { w with store := w'.store, commands := w'.commands } := by
  obtain ⟨command, w₁, hcommand, hmade, hw₁, hw₁eq⟩ := hw.command hselect context.parameters
  obtain ⟨w₂, hexecute, hw₂, hw₂eq⟩ := hw₁.execute heval
  have hcalm₁ : context.Calm w₁ := by
    rw [hw₁eq]
    exact hcalm
  refine ⟨w₂, (Action.runs_tryPerform hcommand).bind ?_, hw₂, ?_⟩
  · have honce : (context.executeOnce mode command.select).Runs w₁ (.ok (.start found.rows found.columns.length)) w₂ := by
      refine (Context.awaitStore_runs hcalm₁ mode).bind ?_
      have hrun := Action.runs_perform (fun w => w.execute command.select context.parameters) w₁
      rw [hmade, hexecute] at hrun
      rw [hmade]
      exact hrun
    exact (Context.beginIn_runs hcalm₁ mode).bind
      ((context.strategy.execute_runs honce).bind (Action.runs_ofExcept rfl w₂))
  · rw [hw₂eq, hw₁eq]

/-! ## Stores that offer tables -/

/-- The select of all rows of a table with these columns. -/
def Select.all (name : String) (columns : List String) : Select :=
  { Select.empty with
    projections := columns.map fun column => ⟨column, .column ⟨1, none, column, none, true⟩⟩
    sources := [.table 1 none name none] }

/-- A world with tables, and with a cache for the commands of each of these selects. -/
def World.offering (tables : List (String × Relation)) (selects : List Select) : World :=
  { World.start { Store.empty with tables := tables } none with
    managers := #[.empty]
    detectors := #[.idle]
    commands := (selects.map CommandCache.empty).toArray }

theorem World.answers_offering (tables : List (String × Relation)) (selects : List Select) :
    (World.offering tables selects).Answers tables selects := by
  refine ⟨rfl, rfl, rfl, fun {place select} h => ⟨.empty select, ?_, rfl, fun entry hentry => nomatch hentry⟩⟩
  simp [World.offering, h]

end QueryShaping
