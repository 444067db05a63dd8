import Mathlib.Data.List.Basic
import QueryShaping.Proofs.Execution.Keeping
import QueryShaping.Proofs.Execution.ReaderAccounts

/-!
# One pull at a time

Enumerations that share a detector exclude each other: while a pull of one waits, the detector is in use, and a pull of
another one fails at once. However pulls start, wait, go on and end among all that happens to enumerations, the detector
is in use exactly as long as one of them is inside.

A pull enters before it waits for the first time and leaves when it ends, and all that it does in between spares the
detectors. So of the pulls that have started and not ended, those with this detector are the ones inside.
-/

namespace QueryShaping

open Proc

/-! ## Computations that spare a detector -/

/-- The detector after it has been left. -/
def Detector.left (d : Option Detector) : Option Detector := d.map fun _ => .idle

theorem World.getElem?_setDetector_idle (w : World) (place : Nat) :
    (w.setDetector place .idle).detectors[place]? = Detector.left w.detectors[place]? := by
  rw [World.setDetector, Array.getElem?_setIfInBounds_self]
  split
  · next h => rw [Array.getElem?_eq_getElem h]; rfl
  · next h => rw [Array.getElem?_eq_none (Nat.le_of_not_lt h)]; rfl

namespace Progress

variable {α β : Type} {place : Nat} {last : Option Detector → Option Detector} {w : World}

/-- A computation that spares a detector until it ends, and then does this to it. -/
def Spares (place : Nat) (last : Option Detector → Option Detector) (p : Progress World α) (w : World) : Prop :=
  p.Keeps (fun w => w.detectors[place]?) (fun _ d d' => d' = last d) w

/-- What a computation gives is of no importance. -/
theorem Spares.of_map {p : Progress World α} {g : α → β} (h : (p.bind fun a w => .done (g a) w).Spares place last w) :
    p.Spares place last w := by
  induction p generalizing w with
  | done a left => exact h
  | wait _ left resume ih => exact ⟨h.1, fun found => ih found (h.2 found)⟩

end Progress

/-! ## What a pull does to a detector -/

/-- A computation that spares a detector. -/
def Proc.Spares {α : Type} (place : Nat) (x : Proc World α) : Prop :=
  x.Leaves (fun w => w.detectors[place]?) fun _ => True

theorem Proc.Spares.progress {α : Type} {place : Nat} {x : Proc World α} (h : x.Spares place) (w : World) :
    (x w).Spares place id w :=
  (h w).mono fun _ _ _ h => h.1

/-- Every step of loading spares the detectors. -/
theorem Pull.closed_spares (f : Fetch) (place : Nat) :
    f.loader.Closed fun _ x => x.Leaves (fun w => w.detectors[place]?) fun _ => () where
  toReadRelated := Pull.readClosed_leaves f ⟨fun _ _ => rfl, fun _ _ => rfl⟩ fun _ _ _ => rfl
  shaper := Shaper.related_true _
  look _ _ _ := Proc.leaves_pure rfl
  shape _ x _ _ := by
    have hkeep (c : Cursor) (w : World) (known : Option IdentityMap) :
        (c.keepKnown w known).2.detectors = w.detectors := by
      unfold Cursor.keepKnown
      cases known with
      | none => rfl
      | some known => cases c.identity <;> rfl
    exact fun c w => ⟨congrArg (·[place]?) (hkeep _ _ _), rfl⟩
  modify g := Pull.leaves_modify fun _ => rfl
  attach _ _ _ := ⟨rfl, rfl⟩

namespace Enumeration

variable {e : Enumeration} {place : Nat} {w : World}

/-- Whether pulls of an enumeration enter this detector. -/
def guardedBy (e : Enumeration) (place : Nat) : Bool :=
  e.query.options.detectConcurrentAccess && e.context.detector == place

theorem produce_spares : (e.produce .plain).Spares place := by
  have hadvance (e : Enumeration) (c : Cursor) : (e.advance .plain c).Spares place :=
    Leaves.bind ((Pull.closed_spares e.fetch place).next e.query.program c) fun _ _ => leaves_pure trivial
  have hscope (w : World) (tracking : Tracking) (manager : Nat) :
      (w.openScope tracking manager).2.detectors[place]? = w.detectors[place]? := by
    cases tracking <;> rfl
  have hopen : e.openCursor.Leaves fun w => w.detectors[place]? := by
    refine (e.context.openCached_leaves e.mode ⟨fun _ _ => rfl, fun _ _ => rfl⟩ e.query.commands).bind fun reader => ?_
    exact Action.Leaves.bind (Action.leaves_lift (leaves_modifyGet fun w => ⟨hscope w _ _, trivial⟩)) fun _ =>
      Action.leaves_pure _
  unfold produce
  cases e.cursor with
  | some c => exact hadvance e c
  | none =>
    refine Leaves.bind hopen fun r _ => ?_
    cases r with
    | error fault => exact leaves_pure trivial
    | ok c => exact hadvance _ c

theorem guarded_spares (h : e.guardedBy place = false) : (e.guarded .plain).Spares place := by
  unfold guarded
  split
  · next hdetects =>
    have hplace : e.context.detector ≠ place := by simpa [guardedBy, hdetects] using h
    have hset (d : Detector) (w : World) : (w.setDetector e.context.detector d).detectors[place]? = w.detectors[place]? :=
      Array.getElem?_setIfInBounds_ne hplace
    refine leaves_get.bind fun w _ => ?_
    cases (w.detector e.context.detector).enter with
    | error fault => exact leaves_pure trivial
    | ok entered =>
      refine (leaves_modify (hset entered)).bind fun _ _ => produce_spares.bind fun r _ => ?_
      exact (leaves_modify (hset .idle)).bind fun _ _ => leaves_pure trivial
  · exact produce_spares

/-- A pull that finds its detector idle enters it and leaves it in the end. -/
theorem guarded_leaves (h : e.guardedBy place = true) (hidle : (w.detector place).inUse = false) :
    (e.guarded .plain w).Spares place Detector.left (w.setDetector place ⟨true⟩) := by
  obtain ⟨hdetects, hplace⟩ : e.query.options.detectConcurrentAccess = true ∧ e.context.detector = place := by
    simpa [guardedBy] using h
  have hguarded : e.guarded .plain w = (e.produce .plain (w.setDetector place ⟨true⟩)).bind
      fun r w' => .done r (w'.setDetector place .idle) := by
    have henter : (w.detector e.context.detector).enter = .ok ⟨true⟩ := by
      rw [Detector.enter, hplace, hidle]
      rfl
    unfold guarded
    rw [if_pos hdetects]
    refine (bind_of_done (x := get) rfl).trans ?_
    rw [henter, hplace]
    rfl
  rw [hguarded]
  exact (produce_spares _).bind fun r w' _ => w'.getElem?_setDetector_idle place

theorem guarded_of_inUse (h : e.guardedBy place = true) (huse : (w.detector place).inUse = true) :
    e.guarded .plain w = .done (.error .concurrencyViolation, e) w := by
  obtain ⟨hdetects, hplace⟩ : e.query.options.detectConcurrentAccess = true ∧ e.context.detector = place := by
    simpa [guardedBy] using h
  have henter : (w.detector e.context.detector).enter = .error .concurrencyViolation := by
    rw [Detector.enter, hplace, huse]
    rfl
  unfold guarded
  rw [if_pos hdetects]
  refine (bind_of_done (x := get) rfl).trans ?_
  rw [henter]
  rfl

/-- All that is left of a pull after its guarded part does not wait. -/
theorem pull_of_guarded {last : Option Detector → Option Detector} {w₀ : World} (hphase : e.phase.isTerminal = false)
    (h : (e.guarded .plain w).Spares place last w₀) : (e.pull w).Spares place last w₀ := by
  unfold pull pullBy
  cases hp : e.phase with
  | disposed | faulted | exhausted => simp [hp, Phase.isTerminal] at hphase
  | created | active =>
    refine h.andThen fun r w' => ?_
    obtain ⟨fault | _ | v, e'⟩ := r
    · exact ⟨_, _, rfl, fun _ => id⟩
    · exact ⟨_, _, rfl, fun _ => id⟩
    · exact ⟨_, _, rfl, fun _ => id⟩

/-- A pull of an enumeration that has come to its end does not look at the detector. -/
theorem pull_of_terminal (hphase : e.phase.isTerminal = true) :
    ∃ r, (r = .ok none ∨ r = .error .faulted ∨ r = .error .disposed) ∧ e.pull w = .done (r, e) w := by
  unfold pull pullBy
  cases hp : e.phase with
  | exhausted => exact ⟨_, .inl rfl, rfl⟩
  | faulted => exact ⟨_, .inr (.inl rfl), rfl⟩
  | disposed => exact ⟨_, .inr (.inr rfl), rfl⟩
  | created | active => simp [hp, Phase.isTerminal] at hphase

/-- A pull that finds its detector in use fails and changes nothing else. -/
theorem pull_of_inUse (hphase : e.phase.isTerminal = false) (h : e.guardedBy place = true)
    (huse : (w.detector place).inUse = true) : e.pull w =
      .done (.error .concurrencyViolation, { e with phase := .faulted })
        (w.report e.context.contextType .concurrencyViolation) := by
  unfold pull pullBy
  cases hp : e.phase with
  | disposed | faulted | exhausted => simp [hp, Phase.isTerminal] at hphase
  | created | active => exact bind_of_done (guarded_of_inUse h huse)

/-- What the end of a pull does to a detector. -/
def leaving (e : Enumeration) (place : Nat) : Option Detector → Option Detector :=
  if e.guardedBy place then Detector.left else id

theorem leaving_some (e : Enumeration) (place : Nat) {inUse : Bool} :
    e.leaving place (some ⟨inUse⟩) = some ⟨inUse && !e.guardedBy place⟩ := by
  unfold leaving
  cases e.guardedBy place with
  | true => simp [Detector.left, Detector.idle]
  | false => simp

/-- The log that accompanies a pull does not change when it ends. -/
theorem pullLogged_of_done {r : Except Error (Option Result) × Enumeration} {w' : World} (h : e.pull w = .done r w')
    (log : CallLog) : ∃ log', e.pullLogged log w = .done (r, log') w' := by
  rw [← e.fst_pullLogged log] at h
  have hmap : (Prod.fst <$> e.pullLogged log) w = (e.pullLogged log w).bind fun a w => .done a.1 w := rfl
  rw [hmap] at h
  cases hp : e.pullLogged log w with
  | done r' left =>
    rw [hp] at h
    cases h
    exact ⟨_, rfl⟩
  | wait millis left resume =>
    rw [hp] at h
    cases h

theorem pullLogged_spares {log : CallLog} {last : Option Detector → Option Detector} {w₀ : World}
    (h : (e.pull w).Spares place last w₀) : (e.pullLogged log w).Spares place last w₀ := by
  rw [← e.fst_pullLogged log] at h
  exact .of_map h

theorem detectors_dispose (e : Enumeration) (w : World) : (e.dispose w).2.detectors = w.detectors := by
  have hclose (readers : List Reader) (w : World) : (readers.foldl World.closeReader w).detectors = w.detectors := by
    induction readers generalizing w with
    | nil => rfl
    | cons r rest ih => exact ih _
  unfold dispose
  split
  · rfl
  · exact hclose _ w

end Enumeration

/-! ## Many enumerations -/

namespace Participant

/-- Whether a pull that has started and not ended holds this detector. -/
def inside (place : Nat) : Participant → Bool
  | .idle _ _ => false
  | .pulling e _ _ => e.guardedBy place

/-- What is left of a pull spares the detector until it leaves. -/
def Leaves (place : Nat) : Participant → Prop
  | .idle _ _ => True
  | .pulling e _ resume => ∀ found, (resume found).Spares place (e.leaving place) found

/-- After a stretch of a pull its detector is in use if it was before and the pull has not left. -/
theorem ofProgress_leaves {e : Enumeration} {place : Nat} {w : World} {inUse : Bool} {p : PullProgress}
    (h : p.Spares place (e.leaving place) w) (hw : w.detectors[place]? = some ⟨inUse⟩) (opened : Nat) (found : World) :
    (ofProgress e opened found p).1.Leaves place ∧ (ofProgress e opened found p).2.detectors[place]? =
      some ⟨inUse && (!e.guardedBy place || (ofProgress e opened found p).1.inside place)⟩ := by
  cases p with
  | done r left =>
    refine ⟨trivial, (h.trans (congrArg (e.leaving place) hw)).trans ?_⟩
    rw [e.leaving_some]
    simp [ofProgress, inside]
  | wait _ left resume =>
    refine ⟨h.2, (h.1.trans hw).trans ?_⟩
    simp [ofProgress, inside]

end Participant

/-- An operation that is not a pull spares the detector. -/
def Operation.Spares (place : Nat) : Operation → Prop
  | .other change _ => ∀ w, place < w.detectors.size → (change w).detectors[place]? = w.detectors[place]?
  | _ => True

namespace Pool

variable {p : Pool} {place i : Nat} {m : Participant}

/-- The number of pulls that are inside. -/
def inside (p : Pool) (place : Nat) : Nat := p.members.countP (·.inside place)

/-- A pool whose detector is in use as long as a pull is inside. -/
structure Exclusive (p : Pool) (place : Nat) (inUse : Bool) : Prop where
  detector : p.world.detectors[place]? = some ⟨inUse⟩
  count : p.inside place = inUse.toNat
  leaves : ∀ m ∈ p.members, m.Leaves place

theorem inside_set (hm : p.members[i]? = some m) (new : Participant) (w : World) (place : Nat) :
    inside ⟨w, p.members.set i new⟩ place + (m.inside place).toNat = p.inside place + (new.inside place).toNat := by
  obtain ⟨hi, rfl⟩ := List.getElem?_eq_some_iff.1 hm
  have hnew := (List.set_perm_cons_eraseIdx hi new).countP_eq (·.inside place)
  have hold := (List.getElem_cons_eraseIdx_perm hi).countP_eq (·.inside place)
  simp only [inside, hnew, ← hold, List.countP_cons]
  cases p.members[i].inside place <;> cases new.inside place <;> simp

theorem inside_eraseIdx (hm : p.members[i]? = some m) (hout : m.inside place = false) (w : World) :
    inside ⟨w, p.members.eraseIdx i⟩ place = p.inside place := by
  obtain ⟨hi, rfl⟩ := List.getElem?_eq_some_iff.1 hm
  have hold := (List.getElem_cons_eraseIdx_perm hi).countP_eq (·.inside place)
  simp only [inside, ← hold, List.countP_cons, hout]
  simp

namespace Exclusive

variable {inUse : Bool}

/-- An enumeration takes the place of another one. -/
theorem put (h : p.Exclusive place inUse) (hm : p.members[i]? = some m) {new : Participant × World} {inUse' : Bool}
    (hleaves : new.1.Leaves place) (hdetector : new.2.detectors[place]? = some ⟨inUse'⟩)
    (hcount : inUse'.toNat + (m.inside place).toNat = inUse.toNat + (new.1.inside place).toNat) :
    (p.put i new).Exclusive place inUse' := by
  refine ⟨hdetector, ?_, fun m' hm' => ?_⟩
  · have hset := inside_set hm new.1 new.2 place
    have hbefore := h.count
    simp only [Pool.put]
    omega
  · rcases List.mem_or_eq_of_mem_set hm' with hmem | rfl
    · exact h.leaves m' hmem
    · exact hleaves

theorem putIdle (h : p.Exclusive place inUse) (hm : p.members[i]? = some m) (hout : m.inside place = false)
    {e : Enumeration} {log : CallLog} {w : World} (hw : w.detectors = p.world.detectors) :
    (p.put i (.idle e log, w)).Exclusive place inUse := by
  refine h.put hm trivial ?_ ?_
  · exact (congrArg (·[place]?) hw).trans h.detector
  · rw [hout]
    rfl

/-- A stretch of a pull, which has entered if the detector is its own. -/
theorem putProgress (h : p.Exclusive place inUse) (hm : p.members[i]? = some m) {e : Enumeration} {opened : Nat}
    {progress : PullProgress} {w : World} {inUse' : Bool} (hspares : progress.Spares place (e.leaving place) w)
    (hw : w.detectors[place]? = some ⟨inUse'⟩) (hentered : e.guardedBy place → inUse' = true)
    (hcount : inUse'.toNat + (m.inside place).toNat = inUse.toNat + (e.guardedBy place).toNat) :
    ∃ inUse'', (p.put i (Participant.ofProgress e opened p.world progress)).Exclusive place inUse'' := by
  obtain ⟨hleaves, hdetector⟩ := Participant.ofProgress_leaves hspares hw opened p.world
  refine ⟨_, h.put hm hleaves hdetector ?_⟩
  cases hguarded : e.guardedBy place with
  | true =>
    rw [hentered hguarded, hguarded] at hcount
    rw [hentered hguarded, Bool.not_true, Bool.false_or, Bool.true_and]
    simp only [Bool.toNat_true] at hcount
    omega
  | false =>
    have hout : (Participant.ofProgress e opened p.world progress).1.inside place = false := by
      cases progress with
      | done r left => rfl
      | wait _ left resume => exact hguarded
    rw [hguarded] at hcount
    rw [hout, Bool.not_false, Bool.true_or, Bool.and_true]
    exact hcount

theorem pull (h : p.Exclusive place inUse) (i : Nat) : ∃ inUse', (p.step (.pull i)).Exclusive place inUse' := by
  rw [Pool.step]
  split
  · next e log hm =>
    have hinUse : (p.world.detector place).inUse = inUse := by rw [World.detector, h.detector]; rfl
    cases hphase : e.phase.isTerminal with
    | true =>
      obtain ⟨r, -, hpull⟩ := Enumeration.pull_of_terminal hphase
      obtain ⟨log', hlogged⟩ := Enumeration.pullLogged_of_done hpull log
      rw [hlogged]
      exact ⟨inUse, h.putIdle hm rfl rfl⟩
    | false =>
      cases hguarded : e.guardedBy place with
      | false =>
        have hspares := Enumeration.pull_of_guarded hphase ((Enumeration.guarded_spares hguarded).progress p.world)
        refine h.putProgress hm (Enumeration.pullLogged_spares ?_) h.detector (by simp [hguarded])
          (by simp [hguarded, Participant.inside])
        rw [Enumeration.leaving, hguarded]
        exact hspares
      | true =>
        cases inUse with
        | true =>
          obtain ⟨log', hlogged⟩ := Enumeration.pullLogged_of_done (Enumeration.pull_of_inUse hphase hguarded hinUse) log
          rw [hlogged]
          exact ⟨true, h.putIdle hm rfl rfl⟩
        | false =>
          have hspares := Enumeration.pull_of_guarded hphase (Enumeration.guarded_leaves hguarded hinUse)
          have hentered : (p.world.setDetector place ⟨true⟩).detectors[place]? = some ⟨true⟩ := by
            have hsize : place < p.world.detectors.size := (Array.getElem?_eq_some_iff.1 h.detector).1
            rw [World.setDetector, Array.getElem?_setIfInBounds_self, if_pos hsize]
          refine h.putProgress hm (Enumeration.pullLogged_spares ?_) hentered (fun _ => rfl)
            (by simp [hguarded, Participant.inside])
          rw [Enumeration.leaving, if_pos hguarded]
          exact hspares
  · exact ⟨inUse, h⟩

theorem resume (h : p.Exclusive place inUse) (i : Nat) : ∃ inUse', (p.step (.resume i)).Exclusive place inUse' := by
  rw [Pool.step]
  split
  · next e opened resume hm =>
    have hmem := List.mem_of_getElem? hm
    refine h.putProgress hm (h.leaves _ hmem p.world) h.detector (fun hguarded => ?_) rfl
    have hpos : 0 < p.inside place := List.countP_pos_iff.2 ⟨_, hmem, hguarded⟩
    rw [h.count] at hpos
    cases inUse with
    | true => rfl
    | false => cases hpos
  · exact ⟨inUse, h⟩

theorem step (h : p.Exclusive place inUse) {operation : Operation} (hoperation : operation.Spares place) :
    ∃ inUse', (p.step operation).Exclusive place inUse' := by
  cases operation with
  | create query context mode =>
    refine ⟨inUse, h.detector, ?_, fun m hm => ?_⟩
    · exact (List.countP_append ..).trans h.count
    · rcases List.mem_append.1 hm with hm | hm
      · exact h.leaves m hm
      · exact List.mem_singleton.1 hm ▸ trivial
  | pull i => exact h.pull i
  | resume i => exact h.resume i
  | dispose i =>
    rw [Pool.step]
    split
    · next e log hm => exact ⟨inUse, h.putIdle hm rfl (e.detectors_dispose p.world)⟩
    · exact ⟨inUse, h⟩
  | drop i =>
    rw [Pool.step]
    split
    · next e log hm =>
      refine ⟨inUse, ?_, ?_, fun m' hm' => h.leaves m' (List.mem_of_mem_eraseIdx hm')⟩
      · exact (congrArg (·[place]?) (e.detectors_dispose p.world)).trans h.detector
      · exact (inside_eraseIdx hm rfl _).trans h.count
    · exact ⟨inUse, h⟩
  | other change _ =>
    have hsize : place < p.world.detectors.size := (Array.getElem?_eq_some_iff.1 h.detector).1
    exact ⟨inUse, (hoperation p.world hsize).trans h.detector, h.count, h.leaves⟩

theorem run (h : p.Exclusive place inUse) {operations : List Operation}
    (hoperations : ∀ o ∈ operations, o.Spares place) : ∃ inUse', (p.run operations).Exclusive place inUse' := by
  induction operations generalizing p inUse with
  | nil => exact ⟨inUse, h⟩
  | cons operation rest ih =>
    obtain ⟨inUse', hstep⟩ := h.step (hoperations operation (List.mem_cons_self ..))
    exact ih hstep fun o ho => hoperations o (List.mem_cons_of_mem _ ho)

end Exclusive

/-- At most one pull is inside, and the detector is in use while one is. Another pull of an enumeration that has not come
to its end then fails, with no effect but that its own enumeration has failed and the failure has been reported. -/
theorem pulls_exclusive {w : World} {place : Nat} (hw : w.detectors[place]? = some .idle) {operations : List Operation}
    (hoperations : ∀ o ∈ operations, o.Spares place) :
    let p := run ⟨w, []⟩ operations
    p.inside place ≤ 1 ∧ ((p.world.detector place).inUse = true ↔ p.inside place = 1) ∧
      ∀ (i : Nat) (e : Enumeration) (log : CallLog), p.members[i]? = some (.idle e log) → e.guardedBy place →
        p.inside place = 1 →
        if e.phase.isTerminal then
          ∃ r, (r = .ok none ∨ r = .error .faulted ∨ r = .error .disposed) ∧ e.pull p.world = .done (r, e) p.world
        else
          let failed : Enumeration := { e with phase := .faulted }
          let w' := p.world.report e.context.contextType .concurrencyViolation
          e.pull p.world = .done (.error .concurrencyViolation, failed) w' ∧
            ∃ log', p.step (.pull i) = ⟨w', p.members.set i (.idle failed log')⟩ ∧
              ((p.step (.pull i)).world.detector place).inUse = true ∧ (p.step (.pull i)).inside place = 1 := by
  intro p
  have hstart : Exclusive ⟨w, []⟩ place false := ⟨hw, rfl, by simp⟩
  obtain ⟨inUse, hp⟩ : ∃ inUse, p.Exclusive place inUse := hstart.run hoperations
  have hinUse : (p.world.detector place).inUse = inUse := by rw [World.detector, hp.detector]; rfl
  refine ⟨?_, ?_, fun i e log hm hguarded hinside => ?_⟩
  · rw [hp.count]
    exact Bool.toNat_le inUse
  · rw [hp.count, hinUse]
    cases inUse <;> simp
  · split
    · next hphase => exact Enumeration.pull_of_terminal hphase
    · next hphase =>
      rw [hp.count] at hinside
      have htrue : inUse = true := by simpa using hinside
      have hpull := Enumeration.pull_of_inUse (by simpa using hphase) hguarded (hinUse.trans htrue)
      obtain ⟨log', hlogged⟩ := Enumeration.pullLogged_of_done hpull log
      have hstep : p.step (.pull i) = p.put i (.idle { e with phase := .faulted } log',
          p.world.report e.context.contextType .concurrencyViolation) := by
        simp only [Pool.step, hm, hlogged, Participant.ofProgress]
      have hafter : (p.step (.pull i)).Exclusive place inUse := hstep ▸ hp.putIdle hm rfl rfl
      refine ⟨hpull, log', hstep, ?_, ?_⟩
      · rw [World.detector, hafter.detector, htrue]
        rfl
      · rw [hafter.count, htrue]
        rfl

/-- While a pull of the first enumeration waits, the second one has come to its end and the third one has not started. -/
def crossing : List Operation :=
  let query := CompiledQuery.prepared nestedCollections .none [(0, 1), (1, 2)]
  [.create query .plain .asynchronous, .create query .plain .blocking, .create query .plain .blocking, .pull 1, .pull 0]

def crossingWorld : World := .prepared [[], [], []]

/-- Pulling an enumeration that has come to its end is no violation. -/
theorem pull_of_exhausted_crossing :
    let p := run ⟨crossingWorld, []⟩ crossing
    p.inside 0 = 1 ∧ ∃ (e : Enumeration) (log : CallLog), p.members[1]? = some (.idle e log) ∧ e.guardedBy 0 ∧
      e.pull p.world = .done (.ok none, e) p.world := by
  exact ⟨by decide +kernel, _, _, rfl, rfl, rfl⟩

theorem pulls_exclusive_crossing :
    let p := run ⟨crossingWorld, []⟩ crossing
    let third := Enumeration.start (.prepared nestedCollections .none [(0, 1), (1, 2)]) .plain .blocking
    crossingWorld.detectors[0]? = some .idle ∧ (∀ o ∈ crossing, o.Spares 0) ∧ p.inside 0 = 1 ∧
      p.members[2]? = some (.idle third []) ∧ third.guardedBy 0 ∧ third.phase.isTerminal = false ∧
      ∃ log', p.step (.pull 2) = ⟨p.world.report "" .concurrencyViolation,
        p.members.set 2 (.idle { third with phase := .faulted } log')⟩ ∧ (p.step (.pull 2)).inside 0 = 1 := by
  intro p third
  have hw : crossingWorld.detectors[0]? = some .idle := rfl
  have hoperations : ∀ o ∈ crossing, o.Spares 0 := by simp [crossing, Operation.Spares]
  have hinside : p.inside 0 = 1 := by decide +kernel
  have hmember : p.members[2]? = some (.idle third []) := rfl
  obtain ⟨-, -, hother⟩ := pulls_exclusive hw hoperations
  obtain ⟨-, log', hstep, -, hafter⟩ := hother 2 third [] hmember rfl hinside
  exact ⟨hw, hoperations, hinside, hmember, rfl, rfl, log', hstep, hafter⟩

end Pool

end QueryShaping
