import Mathlib
import QueryShaping.Execution.Command
import QueryShaping.Execution.Retry

/-!
# What it takes to open a reader

A reader is opened by a command. The command is looked up by which parameters are null, and made where there is none, so
two look-ups share one exactly if their parameters have the same names and the same nulls.

The operation is tried again while it fails and the failure may go away. How often it is executed depends on how many such
failures come first, and on the policy.
-/

namespace QueryShaping

open List

/-! ## Delays -/

/-- A span as a clock counts it: seconds in 64 bits, and fewer nanoseconds than make a second. -/
structure Clock where
  secs : UInt64
  nanos : Nat
  nanos_lt : nanos < Duration.perSecond

namespace Clock

def span (c : Clock) : Duration := ⟨c.secs.toNat * Duration.perSecond + c.nanos⟩

theorem span_le_longest (c : Clock) : c.span.nanos ≤ Duration.longest.nanos := by
  have hsecs := c.secs.toNat_lt
  have hnanos := c.nanos_lt
  simp only [span, Duration.longest, Duration.perSecond, UInt64.size] at *
  omega

end Clock

namespace RetryPolicy

/-- A product that is too long is longer than any bound on the delay, so it makes no difference that it is cut. -/
theorem delayFor_nanos (retries : Nat) (base : Duration) (most : Clock) (attempt : Nat) :
    (delayFor ⟨retries, base, most.span⟩ attempt).nanos = min (base.nanos * 2 ^ min attempt 31) most.span.nanos := by
  show min (min _ _) _ = _
  rw [min_assoc, min_eq_right most.span_le_longest]
  rfl

/-- The delay doubles up to the bound, as long as there are no more than 31 doublings. After that it stays what it is, which
is right only where nothing is doubled or the bound was reached. -/
theorem delayFor_exponential (retries : Nat) (base most : Clock) (attempt : Nat) :
    (delayFor ⟨retries, base.span, most.span⟩ attempt).nanos =
      min (base.span.nanos * 2 ^ min attempt 31) most.span.nanos ∧
    ((delayFor ⟨retries, base.span, most.span⟩ attempt).nanos = min (base.span.nanos * 2 ^ attempt) most.span.nanos ↔
      attempt ≤ 31 ∨ base.span.nanos = 0 ∨ most.span.nanos ≤ base.span.nanos * 2 ^ 31) ∧
    (∀ later ≥ attempt, (delayFor ⟨retries, base.span, most.span⟩ attempt).nanos ≤
      (delayFor ⟨retries, base.span, most.span⟩ later).nanos) ∧
    (delayFor ⟨retries, base.span, most.span⟩ attempt).nanos ≤ most.span.nanos := by
  refine ⟨delayFor_nanos .., ?_, fun later hlater => ?_, ?_⟩ <;> simp only [delayFor_nanos]
  · obtain hle | hlt := le_or_gt attempt 31
    · simp [hle]
    · have hgrowth : 2 ^ 31 < 2 ^ attempt := Nat.pow_lt_pow_right (by decide) hlt
      rw [min_eq_right hlt.le]
      obtain hzero | hpos := Nat.eq_zero_or_pos base.span.nanos
      · simp [hzero]
      · have hmore := Nat.mul_lt_mul_of_pos_left hgrowth hpos
        omega
  · gcongr
    decide
  · exact min_le_right ..

/-- Before the retry of number 32 a nanosecond has been doubled 31 times only. -/
theorem delayFor_nanosecond :
    (delayFor ⟨40, Clock.span ⟨0, 1, by decide⟩, Clock.span ⟨30, 0, by decide⟩⟩ 32).nanos ≠
      min ((Clock.span ⟨0, 1, by decide⟩).nanos * 2 ^ 32) (Clock.span ⟨30, 0, by decide⟩).nanos := by
  decide +kernel

end RetryPolicy

/-! ## Retries -/

/-- How often an operation has been executed, and the delays in between. -/
structure Trial where
  executions : Nat
  delays : List Duration

namespace Trial

/-- Executes an operation that has these outcomes, one after the other. -/
def execution {α : Type} (outcomes : Nat → Except Error α) : StateM Trial (Except Error α) := fun t =>
  (outcomes t.executions, { t with executions := t.executions + 1 })

def delay (d : Duration) : StateM Trial Unit := fun t => ((), { t with delays := t.delays ++ [d] })

end Trial

/-- Whether so many failures that may go away come before an outcome that is none, or nothing else ever comes. -/
structure FailsFirst {α : Type} (outcomes : Nat → Except Error α) (failures : ℕ∞) : Prop where
  failing : ∀ i : Nat, i < failures → ∃ e, outcomes i = .error e ∧ e.isTransient
  settled : ∀ i : Nat, failures = i → ∀ e, outcomes i = .error e → e.isTransient = false

namespace RetryPolicy

section Loop

variable {m : Type → Type} [Monad m] {α : Type} (p : RetryPolicy) (repeatable : Bool) (operation : m (Except Error α))
  (sleep : Duration → m Unit)

/-- The tries as a loop that only its tests end, with a counter of 32 bits. After so many rounds nobody looks any more. -/
def loop : (rounds : Nat) → (counter : UInt32) → m (Option (Except Error α))
  | 0, _ => return none
  | rounds + 1, counter => do
    match ← operation with
    | .ok a => return some (.ok a)
    | .error e =>
      if repeatable && e.isTransient && counter.toNat < p.maxRetries then
        sleep (p.delayFor counter.toNat)
        loop rounds (counter + 1)
      else return some (.error e)

/-- The counter stays below the bound until the last try, so it never wraps around. -/
theorem loop_eq [LawfulMonad m] (hmost : p.maxRetries ≤ mostRetries) {left rounds : Nat} {counter : UInt32}
    (hleft : counter.toNat + left = p.maxRetries) (hrounds : left < rounds) :
    p.loop repeatable operation sleep rounds counter =
      some <$> p.attempts repeatable operation sleep left counter.toNat := by
  induction left generalizing rounds counter with
  | zero =>
    obtain ⟨rounds, rfl⟩ := Nat.exists_eq_succ_of_ne_zero (Nat.ne_of_gt hrounds)
    rw [loop, attempts, map_eq_pure_bind]
    refine congrArg (operation >>= ·) (funext fun r => ?_)
    cases r with
    | ok a => rfl
    | error e =>
      have hend : ¬counter.toNat < p.maxRetries := by omega
      simp only [hend, decide_false, Bool.and_false]
      rfl
  | succ left ih =>
    obtain ⟨rounds, rfl⟩ := Nat.exists_eq_succ_of_ne_zero (Nat.ne_zero_of_lt hrounds)
    have hnext : (counter + 1).toNat = counter.toNat + 1 := by
      have := (show mostRetries = 4294967295 from rfl)
      rw [UInt32.toNat_add]
      exact Nat.mod_eq_of_lt (by simp; omega)
    rw [loop, attempts, map_bind]
    refine congrArg (operation >>= ·) (funext fun r => ?_)
    cases r with
    | ok a => exact (map_pure ..).symm
    | error e =>
      have hlt : counter.toNat < p.maxRetries := by omega
      simp only [hlt, decide_true, Bool.and_true]
      cases repeatable && e.isTransient with
      | false => exact (map_pure ..).symm
      | true =>
        refine (congrArg (sleep _ >>= ·) (funext fun _ => ?_)).trans (map_bind ..).symm
        rw [ih (by omega) (by omega), hnext]

end Loop

variable {α : Type} {outcomes : Nat → Except Error α} (p : RetryPolicy)

/-- After so many more failures comes the outcome that counts, because it is no such failure or no retry is left. -/
theorem attempts_execution (retries left n : Nat) (delays : List Duration)
    (hfail : ∀ i < retries, ∃ e, outcomes (n + i) = .error e ∧ e.isTransient)
    (hlast : left = 0 ∨ ∀ e, outcomes (n + retries) = .error e → e.isTransient = false) :
    p.attempts true (Trial.execution outcomes) Trial.delay (retries + left) n ⟨n, delays⟩ =
      (outcomes (n + retries), ⟨n + retries + 1, delays ++ (List.range' n retries).map p.delayFor⟩) := by
  induction retries generalizing n delays with
  | zero =>
    rw [Nat.zero_add, range'_zero, map_nil, append_nil]
    cases left with
    | zero => rfl
    | succ left =>
      rw [attempts]
      cases houtcome : outcomes n with
      | ok a => simp [Trial.execution, bind, StateT.bind, houtcome]; rfl
      | error e =>
        have hsettled := (hlast.resolve_left (Nat.succ_ne_zero _)) e houtcome
        simp [Trial.execution, bind, StateT.bind, houtcome, hsettled]
        rfl
  | succ retries ih =>
    obtain ⟨e, he, htransient⟩ := hfail 0 (Nat.succ_pos _)
    have hstep : p.attempts true (Trial.execution outcomes) Trial.delay (retries + 1 + left) n ⟨n, delays⟩ =
        p.attempts true (Trial.execution outcomes) Trial.delay (retries + left) (n + 1)
          ⟨n + 1, delays ++ [p.delayFor n]⟩ := by
      rw [Nat.add_right_comm, attempts]
      simp only [Trial.execution, bind, StateT.bind, show outcomes n = .error e from he, htransient]
      rfl
    have hshift (i : Nat) : n + 1 + i = n + (i + 1) := by omega
    rw [hstep, ih, hshift, range'_succ, map_cons, append_assoc]
    · rfl
    · exact fun i hi => hshift i ▸ hfail (i + 1) (by omega)
    · exact hshift retries ▸ hlast

theorem attempts_execution_once (left : Nat) (t : Trial) :
    p.attempts false (Trial.execution outcomes) Trial.delay left 0 t = Trial.execution outcomes t := by
  cases left with
  | zero => rfl
  | succ left =>
    rw [attempts]
    cases houtcome : outcomes t.executions <;> simp [Trial.execution, bind, StateT.bind, houtcome] <;> rfl

end RetryPolicy

/-- An operation that can be repeated is executed once and then once for each failure that may go away, as long as the
policy allows, with the delays of the policy in between. The last outcome is the result. Written as a loop with a counter of
32 bits, this comes to the same. An operation that must not be repeated is executed once. -/
theorem Strategy.execute_retrying {α : Type} (p : RetryPolicy) {outcomes : Nat → Except Error α} {failures : ℕ∞}
    (h : FailsFirst outcomes failures) :
    ∃ retries ≤ p.maxRetries, (retries : ℕ∞) = min failures p.maxRetries ∧
      (retrying p).execute true (Trial.execution outcomes) Trial.delay ⟨0, []⟩ =
        (outcomes retries, ⟨1 + retries, (List.range retries).map p.delayFor⟩) ∧
      (p.maxRetries ≤ RetryPolicy.mostRetries → ∀ rounds, p.maxRetries < rounds →
        p.loop true (Trial.execution outcomes) Trial.delay rounds 0 ⟨0, []⟩ =
          (some (outcomes retries), ⟨1 + retries, (List.range retries).map p.delayFor⟩)) ∧
      (retrying p).execute false (Trial.execution outcomes) Trial.delay ⟨0, []⟩ = (outcomes 0, ⟨1, []⟩) := by
  obtain ⟨retries, hretries⟩ := ENat.ne_top_iff_exists.1 (ne_top_of_le_ne_top (ENat.natCast_ne_top _)
    (min_le_right failures (p.maxRetries : ℕ∞)))
  have hle : retries ≤ p.maxRetries := ENat.natCast_le_natCast.1 (hretries.trans_le (min_le_right ..))
  have hrun : p.attempts true (Trial.execution outcomes) Trial.delay p.maxRetries 0 ⟨0, []⟩ =
      (outcomes retries, ⟨1 + retries, (List.range retries).map p.delayFor⟩) := by
    obtain ⟨left, hleft⟩ := Nat.exists_eq_add_of_le hle
    have hattempts := @p.attempts_execution α outcomes retries left 0 [] (fun i hi => ?_) ?_
    · simpa only [← hleft, Nat.zero_add, nil_append, ← range_eq_range', Nat.add_comm retries 1] using hattempts
    · rw [Nat.zero_add]
      exact h.failing i ((ENat.natCast_lt_natCast.2 hi).trans_le (hretries.trans_le (min_le_left ..)))
    · rcases min_choice failures (p.maxRetries : ℕ∞) with hmin | hmin
      · rw [Nat.zero_add]
        exact .inr (h.settled retries (hmin.symm.trans hretries.symm))
      · have := ENat.natCast_inj.1 (hretries.trans hmin)
        exact .inl (by omega)
  refine ⟨retries, hle, hretries, hrun, fun hmost rounds hrounds => ?_, p.attempts_execution_once p.maxRetries _⟩
  rw [p.loop_eq true _ _ hmost (Nat.zero_add _) hrounds]
  exact congrArg (fun r : Except Error α × Trial => (some r.1, r.2)) hrun

/-- Two failures, with one of another kind after them, are retried twice, and a failure that never ends as often as the policy
says. -/
theorem Strategy.execute_retrying_twice :
    let outcomes (n : Nat) : Except Error Nat :=
      if n < 2 then .error (.provider (.reported "connection reset" true)) else .error (.provider (.reported "syntax error" false))
    FailsFirst outcomes 2 ∧
      (retrying { maxRetries := 3 }).execute true (Trial.execution outcomes) Trial.delay ⟨0, []⟩ =
        (outcomes 2, ⟨3, [.ofMillis 100, .ofMillis 200]⟩) := by
  intro outcomes
  have h : FailsFirst outcomes 2 := by
    refine ⟨fun i hi => ?_, fun i hi e he => ?_⟩
    · have hlt : i < 2 := by exact_mod_cast hi
      exact ⟨_, if_pos hlt, rfl⟩
    · obtain rfl : 2 = i := by exact_mod_cast hi
      cases he
      rfl
  obtain ⟨retries, -, hretries, hrun, -⟩ := execute_retrying { maxRetries := 3 } h
  obtain rfl : retries = 2 := ENat.natCast_inj.1 (hretries.trans (min_eq_left (by exact_mod_cast (by decide : 2 ≤ 3))))
  exact ⟨h, hrun⟩

/-! ## Commands -/

namespace Parameters

variable {name other : String} {value : Value} {entries entries' : List (String × Value)}

theorem mem_insertEntry {entry : String × Value} (h : entry ∈ insertEntry name value entries) :
    entry = (name, value) ∨ entry ∈ entries := by
  fun_induction insertEntry name value entries <;> grind

theorem pairwise_insertEntry (h : entries.Pairwise (·.1 < ·.1)) :
    (insertEntry name value entries).Pairwise (·.1 < ·.1) := by
  fun_induction insertEntry name value entries with
  | case1 => simp
  | case2 other old rest hlt =>
    refine .cons (fun entry hentry => ?_) h
    rcases mem_cons.1 hentry with rfl | hrest
    · exact hlt
    · exact hlt.trans (rel_of_pairwise_cons h hrest)
  | case3 old rest => exact .cons (fun _ hentry => rel_of_pairwise_cons h hentry) h.of_cons
  | case4 other old rest hnlt hne ih =>
    refine .cons (fun entry hentry => ?_) (ih h.of_cons)
    rcases mem_insertEntry hentry with rfl | hrest
    · exact lt_of_le_of_ne (not_lt.1 hnlt) (Ne.symm hne)
    · exact rel_of_pairwise_cons h hrest

theorem lookup_insertEntry : (insertEntry name value entries).lookup other =
    if other = name then some value else entries.lookup other := by
  fun_induction insertEntry name value entries <;> grind

theorem pairwise_ofList (bindings : List (String × Value)) : (ofList bindings).entries.Pairwise (·.1 < ·.1) := by
  induction bindings using List.reverseRecOn with
  | nil => exact .nil
  | append_singleton bindings binding ih =>
    rw [ofList, foldl_append]
    exact pairwise_insertEntry ih

theorem get?_ofList (bindings : List (String × Value)) (name : String) :
    (ofList bindings).get? name = bindings.reverse.lookup name := by
  induction bindings using List.reverseRecOn with
  | nil => rfl
  | append_singleton bindings binding ih =>
    rw [ofList, foldl_append, reverse_append, reverse_singleton, singleton_append, lookup_cons,
      ← ih]
    refine lookup_insertEntry.trans ?_
    grind [get?, ofList]

theorem lookup_nullability (p : Parameters) (name : String) :
    p.nullability.lookup name = (p.get? name).map Value.isNull := by
  obtain ⟨entries⟩ := p
  rw [get?, nullability]
  induction entries with
  | nil => rfl
  | cons entry entries ih => grind

/-- Entries in the order of their names are known by what is looked up in them. -/
theorem eq_of_lookup_eq {β : Type} {l l' : List (String × β)} (h : l.Pairwise (·.1 < ·.1)) (h' : l'.Pairwise (·.1 < ·.1))
    (heq : ∀ name, l.lookup name = l'.lookup name) : l = l' := by
  have hmem {l : List (String × β)} (h : l.Pairwise (·.1 < ·.1)) (entry : String × β) :
      entry ∈ l ↔ l.lookup entry.1 = some entry.2 := by
    induction l with
    | nil => simp
    | cons head l ih =>
      have hlt : entry ∈ l → head.1 < entry.1 := rel_of_pairwise_cons h
      grind
  have hnodup {l : List (String × β)} (h : l.Pairwise (·.1 < ·.1)) : l.Nodup := h.imp fun hlt heq => by
    rw [heq] at hlt
    exact lt_irrefl _ hlt
  refine ((perm_ext_iff_of_nodup (hnodup h) (hnodup h')).2 fun entry => ?_).eq_of_pairwise
    (fun _ _ _ _ hlt hgt => absurd hlt (lt_asymm hgt)) h h'
  rw [hmem h, hmem h', heq]

end Parameters

namespace CommandCache

/-- A look-up of the command for parameters, given in the order in which they are set, and what is refused meanwhile. -/
structure Lookup where
  refuse : List (String × Bool) → Option Error
  bindings : List (String × Value)

namespace Lookup

def key (l : Lookup) : List (String × Bool) := (Parameters.ofList l.bindings).nullability

/-- Whether the last value that a name was set to is null. -/
def isNull? (l : Lookup) (name : String) : Option Bool := (l.bindings.reverse.lookup name).map Value.isNull

theorem key_eq_iff {l l' : Lookup} : l.key = l'.key ↔ ∀ name, l.isNull? name = l'.isNull? name := by
  have hlookup (l : Lookup) (name : String) : l.key.lookup name = l.isNull? name := by
    rw [key, Parameters.lookup_nullability, Parameters.get?_ofList, isNull?]
  refine ⟨fun h name => by rw [← hlookup, ← hlookup, h], fun h => ?_⟩
  refine Parameters.eq_of_lookup_eq ?_ ?_ fun name => by rw [hlookup, hlookup, h]
  all_goals exact pairwise_map.2 (Parameters.pairwise_ofList _)

end Lookup

/-- The answers to look-ups, one after the other, and the cache after them. -/
def getAll (c : CommandCache) : List Lookup → CommandCache × List (Except Error Command)
  | [] => (c, [])
  | l :: rest =>
    let step := c.get l.refuse (.ofList l.bindings)
    let run := step.1.getAll rest
    (run.1, step.2 :: run.2)

/-- The cache after these answers: it counts them, and has exactly the commands that it has given, each under the key that it
was asked for. -/
structure After (c : CommandCache) (past : List (List (String × Bool) × Except Error Command)) : Prop where
  counted : c.hits + c.misses = past.length
  missed : c.misses = c.size + past.countP (·.2.toOption.isNone)
  numbers : c.commands.map (·.2.number) = (List.range c.size).reverse
  keys : (c.commands.map (·.1)).Nodup
  given : ∀ key command, (key, command) ∈ c.commands ↔ (key, .ok command) ∈ past

variable {c : CommandCache} {past : List (List (String × Bool) × Except Error Command)}

theorem mem_of_lookup {l : List (List (String × Bool) × Command)} {key : List (String × Bool)} {command : Command}
    (h : l.lookup key = some command) : (key, command) ∈ l := by
  obtain ⟨before, after, rfl, -⟩ := List.lookup_eq_some_iff.1 h
  simp

theorem After.get (h : c.After past) (refuse : List (String × Bool) → Option Error) (p : Parameters) :
    (c.get refuse p).1.After (past ++ [(p.nullability, (c.get refuse p).2)]) := by
  have hcounted := h.counted
  have hmissed := h.missed
  unfold CommandCache.get
  cases hfind : c.commands.lookup p.nullability with
  | some command =>
    have hmem := (h.given ..).1 (mem_of_lookup hfind)
    refine ⟨?_, ?_, h.numbers, h.keys, fun key command' => ?_⟩
    · simp; omega
    · simpa [size, Except.toOption] using hmissed
    · rw [h.given]
      grind
  | none =>
    cases hrefuse : refuse p.nullability with
    | some e =>
      refine ⟨?_, ?_, h.numbers, h.keys, fun key command => ?_⟩
      · simp; omega
      · simp [size, Except.toOption] at hmissed ⊢; omega
      · simp [h.given]
    | none =>
      have hnew : p.nullability ∉ c.commands.map (·.1) := by
        have := List.lookup_eq_none_iff.1 hfind
        grind
      refine ⟨?_, ?_, ?_, nodup_cons.2 ⟨hnew, h.keys⟩, fun key command => ?_⟩
      · simp; omega
      · simp [size, Except.toOption] at hmissed ⊢; omega
      · simp [size, h.numbers, range_succ]
      · simp [h.given]
        grind

theorem After.getAll (h : c.After past) (lookups : List Lookup) :
    (c.getAll lookups).1.After (past ++ (lookups.map Lookup.key).zip (c.getAll lookups).2) := by
  induction lookups generalizing c past with
  | nil => simpa [CommandCache.getAll] using h
  | cons l rest ih => simpa [CommandCache.getAll, Lookup.key] using ih (h.get l.refuse (.ofList l.bindings))

theorem After.eq_iff (h : c.After past) {key key' : List (String × Bool)} {command command' : Command}
    (hgiven : (key, .ok command) ∈ past) (hgiven' : (key', .ok command') ∈ past) : command = command' ↔ key = key' := by
  rw [← h.given] at hgiven hgiven'
  have hnumbers : (c.commands.map (·.2.number)).Nodup := h.numbers ▸ List.nodup_reverse.2 nodup_range
  constructor
  · rintro rfl
    exact congrArg Prod.fst (inj_on_of_nodup_map hnumbers hgiven hgiven' rfl)
  · rintro rfl
    exact congrArg Prod.snd (inj_on_of_nodup_map h.keys hgiven hgiven' rfl)

theorem length_getAll (c : CommandCache) (lookups : List Lookup) : (c.getAll lookups).2.length = lookups.length := by
  induction lookups generalizing c with
  | nil => rfl
  | cons l rest ih => exact congrArg (· + 1) (ih _)

/-- Commands are shared by exactly the look-ups with the same names and the same nulls among them, and the counters follow. -/
theorem getAll_empty (select : Select) (lookups : List Lookup) :
    let c := ((empty select).getAll lookups).1
    let answered := lookups.zip ((empty select).getAll lookups).2
    answered.map (·.1) = lookups ∧
      (∀ l l' command command', (l, .ok command) ∈ answered → (l', .ok command') ∈ answered →
        (command = command' ↔ ∀ name, l.isNull? name = l'.isNull? name)) ∧
      c.hits + c.misses = lookups.length ∧
      c.size = ((answered.filter (·.2.toOption.isSome)).map (·.1.key)).dedup.length ∧
      c.misses = c.size + (answered.filter (·.2.toOption.isNone)).length ∧
      ∀ refuse p e, (c.get refuse p).2 = .error e → (c.get refuse p).1.commands = c.commands := by
  intro c answered
  have hstart : (empty select).After [] := ⟨rfl, rfl, rfl, .nil, fun _ _ => by simp [empty]⟩
  have hafter := hstart.getAll lookups
  have hzip : [] ++ (lookups.map Lookup.key).zip ((empty select).getAll lookups).2 =
      answered.map fun a => (a.1.key, a.2) := by
    rw [nil_append, zip_map_left]
    rfl
  rw [hzip] at hafter
  have hlength : answered.length = lookups.length := by
    rw [length_zip, length_getAll, min_self]
  refine ⟨map_fst_zip (length_getAll ..).ge, ?_, ?_, ?_, ?_, ?_⟩
  · intro l l' command command' hl hl'
    rw [← Lookup.key_eq_iff]
    exact hafter.eq_iff (mem_map_of_mem hl) (mem_map_of_mem hl')
  · rw [hafter.counted, length_map, hlength]
  · rw [size, ← length_map (·.1)]
    refine ((perm_ext_iff_of_nodup hafter.keys (nodup_dedup _)).2 fun key => ?_).length_eq
    rw [mem_dedup]
    constructor
    · intro hkey
      obtain ⟨⟨key, command⟩, hmem, rfl⟩ := mem_map.1 hkey
      obtain ⟨a, ha, heq⟩ := mem_map.1 ((hafter.given ..).1 hmem)
      grind [Except.toOption]
    · intro hkey
      obtain ⟨⟨l, answer⟩, ha, rfl⟩ := mem_map.1 hkey
      obtain ⟨ha, hok⟩ := mem_filter.1 ha
      cases answer with
      | error e => cases hok
      | ok command => exact mem_map.2 ⟨(l.key, command), (hafter.given ..).2 (mem_map_of_mem ha), rfl⟩
  · rw [hafter.missed, countP_map, countP_eq_length_filter]
    rfl
  · intro refuse p e h
    unfold CommandCache.get at h ⊢
    split at h <;> grind

/-- Two names that are set in either order, a failure in between, and another null. -/
theorem getAll_empty_shared :
    let set (bindings : List (String × Value)) : Lookup := ⟨fun _ => none, bindings⟩
    let lookups : List Lookup := [set [("a", .int32 1), ("b", .null)], ⟨fun _ => some .cancelled, []⟩,
      set [("b", .int32 2), ("b", .null), ("a", .string "x")], set [("a", .null), ("b", .null)]]
    let run := (empty .empty).getAll lookups
    run.2 = [.ok ⟨0, .empty⟩, .error .cancelled, .ok ⟨0, .empty⟩, .ok ⟨1, .empty⟩] ∧
      (run.1.hits, run.1.misses, run.1.size) = (1, 3, 2) ∧ run.1.misses = run.1.size + 1 := by
  intro set lookups run
  have hrun : run.2 = [.ok ⟨0, .empty⟩, .error .cancelled, .ok ⟨0, .empty⟩, .ok ⟨1, .empty⟩] := by cbv
  exact ⟨hrun, by cbv, (getAll_empty .empty lookups).2.2.2.2.1.trans (by cbv)⟩

end CommandCache

end QueryShaping
