import QueryShaping.Proofs.Execution.ReaderUse

/-!
# Open readers

Any number of enumerations over one store are made, pulled, disposed and dropped in any order. A pull that waits lets the
others go on, and so does everything else that happens to the world. The store then counts as many open readers as the
enumerations hold that have not been disposed: none is leaked, and none is closed twice.
-/

namespace QueryShaping

open List

variable {e : Enumeration}

/-! ## The account of one enumeration -/

namespace Enumeration

theorem length_readerNames (e : Enumeration) : e.readerNames.length = e.readers.length := by
  unfold readerNames readers
  cases e.cursor with
  | none => rfl
  | some c => simp [Cursor.readerNames, Cursor.readers]

/-- How the readers that an enumeration holds agree with the calls to them. -/
structure Accounted (e : Enumeration) (log : CallLog) : Prop where
  /-- There is at most one reader of the query, and at most one for each collection with a query of its own. -/
  opened : ∀ name, (log.callsTo name).count .opened ≤ if name ∈ e.query.readerNames then 1 else 0
  /-- The readers that have been opened and not closed are held, each once. -/
  held : ∀ name, (log.callsTo name).count .opened = (log.callsTo name).count .closed + e.readerNames.count name
  /-- No reader is closed before the enumeration is disposed. -/
  undisposed : e.phase ≠ .disposed → ∀ name, (log.callsTo name).count .closed = 0
  disposed : e.phase = .disposed → e.readers = []

theorem Tended.accounted {log : CallLog} (h : e.Tended log) : e.Accounted log := by
  cases hcursor : e.cursor with
  | none =>
    have hnames : e.readerNames = [] := by rw [readerNames, hcursor]; rfl
    refine ⟨fun name => ?_, fun name => ?_, fun hphase name => ?_, fun _ => readers_of_none hcursor⟩
    all_goals rcases h.closed hcursor name with hst | ⟨hdisposed, hname, hst⟩
    all_goals obtain ⟨hopened, hclosed⟩ := count_of_standingAfter? hst
    · simp [hopened]
    · simp [hopened, hname]
    · simp [hopened, hclosed, hnames]
    · simp [hopened, hclosed, hnames]
    · exact hclosed
    · exact (hphase hdisposed).elim
  | some c =>
    obtain ⟨hholds, hids⟩ := h.holds hcursor
    have hnames : e.readerNames = c.readerNames := by rw [readerNames, hcursor]; rfl
    refine ⟨fun name => ?_, fun name => ?_, fun _ name => (hholds.count_callsTo name).2, fun hphase => ?_⟩
    · rw [(hholds.count_callsTo name).1]
      by_cases hname : name ∈ c.readerNames
      · rw [if_pos hname, if_pos (CompiledQuery.readerNames_subset hids hname)]
      · simp [hname]
    · obtain ⟨hopened, hclosed⟩ := hholds.count_callsTo name
      rw [hopened, hclosed, hnames, hholds.nodup_readerNames.count, Nat.zero_add]
    · cases hcursor.symm.trans (h.disposed hphase)

/-- What disposing an enumeration does, now and after any number of disposals before. -/
structure ClosesOnce (e : Enumeration) (log : CallLog) : Prop where
  disposed : ∀ w, e.Disposed w (e.dispose w).1 (e.dispose w).2
  /-- Every reader that was ever opened has then been closed once. -/
  closed : ∀ w name, ((e.disposeLogged log w).2.callsTo name).count .closed = (log.callsTo name).count .opened
  again : ∀ w w', (e.dispose w).1.dispose w' = ((e.dispose w).1, w')

theorem count_opened_disposeLogged (e : Enumeration) (log : CallLog) (w : World) (name : ReaderName) :
    ((e.disposeLogged log w).2.callsTo name).count .opened = (log.callsTo name).count .opened := by
  rw [log_disposeLogged]
  split
  · rfl
  · rw [CallLog.callsTo, filter_append, map_append, count_append]
    refine Nat.add_eq_left.2 (List.count_eq_zero.2 fun hmem => ?_)
    simp at hmem

theorem Tended.closesOnce {log : CallLog} (h : e.Tended log) : e.ClosesOnce log := by
  refine ⟨fun w => (dispose_disposed h w).1, fun w name => ?_, fun w w' => dispose_again w w'⟩
  obtain ⟨hdisposed, htended⟩ := dispose_disposed h w
  have hnames : (e.dispose w).1.readerNames = [] := by
    rw [← length_eq_zero_iff, length_readerNames, hdisposed.readers]
    rfl
  rw [← count_opened_disposeLogged e log w name, htended.accounted.held name, hnames]
  rfl

/-- There is no more than one reader for each name. -/
theorem Tended.length_readers_le {log : CallLog} (h : e.Tended log) :
    e.readers.length ≤ e.query.readerNames.dedup.length := by
  cases hcursor : e.cursor with
  | none => simp [readers_of_none hcursor]
  | some c =>
    obtain ⟨hholds, hids⟩ := h.holds hcursor
    have hnames : e.readerNames = c.readerNames := by rw [readerNames, hcursor]; rfl
    rw [← e.length_readerNames, hnames]
    refine (hholds.nodup_readerNames.subperm fun name hname => ?_).length_le
    exact mem_dedup.2 (CompiledQuery.readerNames_subset hids hname)

end Enumeration

/-! ## Many enumerations -/

/-- A pull that has come so far. -/
abbrev PullProgress := Progress World ((Except Error (Option Result) × Enumeration) × CallLog)

/-- An enumeration among others, with the calls to its readers. While a pull of it waits, this is the enumeration as it
was before the pull, the number of readers that the pull has opened, and what is left of the pull. -/
inductive Participant where
  | idle (e : Enumeration) (log : CallLog)
  | pulling (e : Enumeration) (opened : Nat) (resume : World → PullProgress)

namespace Participant

/-- The number of readers that an enumeration holds. -/
def held : Participant → Nat
  | .idle e _ => e.readers.length
  | .pulling e opened _ => e.readers.length + opened

def query : Participant → CompiledQuery
  | .idle e _ => e.query
  | .pulling e _ _ => e.query

/-- What becomes of an enumeration when its pull has gone on from a world, and that world. The pull had opened so many
readers before. -/
def ofProgress (e : Enumeration) (opened : Nat) (found : World) : PullProgress → Participant × World
  | .done ((_, e), log) left => (.idle e log, left)
  | .wait _ left resume =>
    (.pulling e (opened + (left.store.counters.opened - found.store.counters.opened)) resume, left)

end Participant

/-- What can happen to enumerations over one store. Only the enumerations themselves open and close readers. -/
inductive Operation where
  | create (query : CompiledQuery) (context : Context) (mode : Mode)
  | pull (i : Nat)
  | resume (i : Nat)
  | dispose (i : Nat)
  | drop (i : Nat)
  | other (change : World → World) (h : ∀ w, (change w).store.counters.opened = w.store.counters.opened ∧
      (change w).store.counters.closed = w.store.counters.closed)

/-- Enumerations over one store. -/
structure Pool where
  world : World
  members : List Participant

namespace Pool

def put (p : Pool) (i : Nat) (m : Participant × World) : Pool := ⟨m.2, p.members.set i m.1⟩

/-- Nobody else can use an enumeration while a pull of it waits, so such requests change nothing. -/
def step (p : Pool) : Operation → Pool
  | .create query context mode => { p with members := p.members ++ [.idle (.start query context mode) []] }
  | .pull i =>
    match p.members[i]? with
    | some (.idle e log) => p.put i (Participant.ofProgress e 0 p.world (e.pullLogged log p.world))
    | _ => p
  | .resume i =>
    match p.members[i]? with
    | some (.pulling e opened resume) => p.put i (Participant.ofProgress e opened p.world (resume p.world))
    | _ => p
  | .dispose i =>
    match p.members[i]? with
    | some (.idle e log) => p.put i (.idle (e.dispose p.world).1 (e.disposeLogged log p.world).2, (e.dispose p.world).2)
    | _ => p
  | .drop i =>
    match p.members[i]? with
    | some (.idle e _) => ⟨(e.dispose p.world).2, p.members.eraseIdx i⟩
    | _ => p
  | .other change _ => { p with world := change p.world }

def run (p : Pool) (operations : List Operation) : Pool := operations.foldl step p

/-- The number of readers that all of the enumerations hold. -/
def held (p : Pool) : Nat := (p.members.map Participant.held).sum

end Pool

/-! ## The balance -/

/-- What is left of a pull brings an enumeration from so many readers to those that it then holds. -/
def PullProgress.Keeps (p : PullProgress) (found : World) (query : CompiledQuery) (held : Nat) : Prop :=
  p.Does found fun d r =>
    held + d.opened = r.1.2.readers.length ∧ d.closed = 0 ∧ r.1.2.query = query ∧ r.1.2.Tended r.2

namespace Participant

def Sound : Participant → Prop
  | .idle e log => e.Tended log
  | .pulling e opened resume => ∀ found, (resume found).Keeps found e.query (e.readers.length + opened)

/-- A stretch of a pull opens as many readers as the enumeration then holds more. -/
theorem sound_ofProgress {opened : Nat} {found : World} {p : PullProgress}
    (h : p.Keeps found e.query (e.readers.length + opened)) :
    (ofProgress e opened found p).1.Sound ∧
      (ofProgress e opened found p).2.store.counters.opened + (e.readers.length + opened) =
        found.store.counters.opened + (ofProgress e opened found p).1.held ∧
      (ofProgress e opened found p).2.store.counters.closed = found.store.counters.closed := by
  cases p with
  | done r left =>
    obtain ⟨d, hbetween, hopened, hclosed, -, htended⟩ := h
    refine ⟨htended, ?_, hbetween.closed.trans (by rw [hclosed]; rfl)⟩
    simp only [ofProgress, held]
    rw [hbetween.opened, ← hopened]
    omega
  | wait _ left resume =>
    obtain ⟨d, hbetween, hrest⟩ := h
    obtain ⟨d', r, -, hclosed, -⟩ := (hrest found).exists
    have hfirst : d.closed = 0 := Nat.eq_zero_of_add_eq_zero_right hclosed
    have hopened : left.store.counters.opened - found.store.counters.opened = d.opened := by
      rw [hbetween.opened, Nat.add_sub_cancel_left]
    simp only [ofProgress, held, Sound, hopened]
    refine ⟨fun found' => (hrest found').mono fun d' r hr => ?_, ?_, hbetween.closed.trans (by rw [hfirst]; rfl)⟩
    · obtain ⟨hreaders, hclosed, hquery, htended⟩ := hr
      refine ⟨?_, Nat.eq_zero_of_add_eq_zero_left hclosed, hquery, htended⟩
      have hsum : (d.andThen d').opened = d.opened + d'.opened := rfl
      omega
    · rw [hbetween.opened]
      omega

/-- A pull that waits cannot have opened more readers than it holds in the end. -/
theorem Sound.held_le {m : Participant} (h : m.Sound) : m.held ≤ m.query.readerNames.dedup.length := by
  cases m with
  | idle e log => exact Enumeration.Tended.length_readers_le h
  | pulling e opened resume =>
    obtain ⟨d, r, hopened, -, hquery, htended⟩ := (h (World.start .empty none)).exists
    have hle := htended.length_readers_le
    rw [hquery, ← hopened] at hle
    exact Nat.le_of_add_right_le hle

end Participant

namespace Pool

/-- A pool whose store counts the readers that are held. -/
structure Balanced (p : Pool) : Prop where
  count : p.world.store.counters.opened = p.world.store.counters.closed + p.held
  sound : ∀ m ∈ p.members, m.Sound

variable {p : Pool} {i : Nat} {m : Participant}

theorem held_set (hm : p.members[i]? = some m) (new : Participant) (w : World) :
    held ⟨w, p.members.set i new⟩ + m.held = p.held + new.held := by
  obtain ⟨w₀, members⟩ := p
  unfold held
  induction members generalizing i with
  | nil => simp at hm
  | cons first rest ih =>
    cases i with
    | zero =>
      cases hm
      simp only [set_cons_zero, map_cons, sum_cons]
      omega
    | succ i =>
      have hrest := ih hm
      simp only [set_cons_succ, map_cons, sum_cons] at hrest ⊢
      omega

theorem held_eraseIdx (hm : p.members[i]? = some m) (w : World) :
    held ⟨w, p.members.eraseIdx i⟩ + m.held = p.held := by
  obtain ⟨w₀, members⟩ := p
  unfold held
  induction members generalizing i with
  | nil => simp at hm
  | cons first rest ih =>
    cases i with
    | zero =>
      cases hm
      simp only [eraseIdx_cons_zero, map_cons, sum_cons]
      omega
    | succ i =>
      have hrest := ih hm
      simp only [eraseIdx_cons_succ, map_cons, sum_cons] at hrest ⊢
      omega

namespace Balanced

/-- An enumeration takes the place of another one, and the store has counted the difference. -/
theorem put (h : p.Balanced) (hm : p.members[i]? = some m) {new : Participant × World} (hsound : new.1.Sound)
    (hcount : new.2.store.counters.opened + m.held + p.world.store.counters.closed =
      p.world.store.counters.opened + new.1.held + new.2.store.counters.closed) : (p.put i new).Balanced := by
  refine ⟨?_, fun m' hm' => ?_⟩
  · have hheld := held_set hm new.1 new.2
    have hbefore := h.count
    simp only [Pool.put]
    omega
  · rcases mem_or_eq_of_mem_set hm' with hmem | rfl
    · exact h.sound m' hmem
    · exact hsound

theorem putProgress (h : p.Balanced) {opened : Nat} (hm : p.members[i]? = some m)
    (hheld : m.held = e.readers.length + opened) {progress : PullProgress}
    (hkeeps : progress.Keeps p.world e.query (e.readers.length + opened)) :
    (p.put i (Participant.ofProgress e opened p.world progress)).Balanced := by
  obtain ⟨hsound, hopened, hclosed⟩ := Participant.sound_ofProgress hkeeps
  exact h.put hm hsound (by omega)

theorem create (h : p.Balanced) (query : CompiledQuery) (context : Context) (mode : Mode) :
    (p.step (.create query context mode)).Balanced := by
  refine ⟨?_, fun m hm => ?_⟩
  · simp only [Pool.step, held, map_append, sum_append]
    exact h.count
  · rcases mem_append.1 hm with hm | hm
    · exact h.sound m hm
    · exact mem_singleton.1 hm ▸ Enumeration.tended_start query context mode

theorem pull (h : p.Balanced) (i : Nat) : (p.step (.pull i)).Balanced := by
  rw [Pool.step]
  split
  · next e log hm =>
    have htended : e.Tended log := h.sound _ (mem_of_getElem? hm)
    refine h.putProgress hm rfl ((Enumeration.pullLogged_does htended p.world).mono fun d r hr => ?_)
    exact ⟨hr.1.opened, hr.1.closed, hr.1.query, hr.2⟩
  · exact h

theorem resume (h : p.Balanced) (i : Nat) : (p.step (.resume i)).Balanced := by
  rw [Pool.step]
  split
  · next e opened resume hm => exact h.putProgress hm rfl (h.sound _ (mem_of_getElem? hm) p.world)
  · exact h

theorem dispose (h : p.Balanced) (i : Nat) : (p.step (.dispose i)).Balanced := by
  rw [Pool.step]
  split
  · next e log hm =>
    obtain ⟨hdisposed, htended⟩ := Enumeration.dispose_disposed (h.sound _ (mem_of_getElem? hm)) p.world
    refine h.put hm htended ?_
    simp only [Participant.held, hdisposed.readers, hdisposed.between.opened, hdisposed.between.closed, length_nil]
    omega
  · exact h

theorem drop (h : p.Balanced) (i : Nat) : (p.step (.drop i)).Balanced := by
  rw [Pool.step]
  split
  · next e log hm =>
    obtain ⟨hdisposed, -⟩ := Enumeration.dispose_disposed (h.sound _ (mem_of_getElem? hm)) p.world
    refine ⟨?_, fun m' hm' => h.sound m' (mem_of_mem_eraseIdx hm')⟩
    have hheld := held_eraseIdx hm (e.dispose p.world).2
    have hbefore := h.count
    simp only [Participant.held] at hheld
    simp only [hdisposed.between.opened, hdisposed.between.closed]
    omega
  · exact h

theorem step (h : p.Balanced) (operation : Operation) : (p.step operation).Balanced := by
  cases operation with
  | create query context mode => exact h.create query context mode
  | pull i => exact h.pull i
  | resume i => exact h.resume i
  | dispose i => exact h.dispose i
  | drop i => exact h.drop i
  | other change hchange =>
    refine ⟨?_, h.sound⟩
    obtain ⟨hopened, hclosed⟩ := hchange p.world
    exact hopened.trans (h.count.trans (by rw [← hclosed]; rfl))

theorem run (h : p.Balanced) (operations : List Operation) : (p.run operations).Balanced := by
  induction operations generalizing p with
  | nil => exact h
  | cons operation rest ih => exact ih (h.step operation)

end Balanced

/-- The open readers of the store are those that the enumerations hold, at every point. An enumeration opens each of its
readers once and closes them when it is disposed, once. The log that says so does not change what pulling and disposing
do. -/
theorem openReaders_eq_held {w : World} (hw : w.store.counters.opened = w.store.counters.closed)
    (operations : List Operation) :
    let p := run ⟨w, []⟩ operations
    p.world.store.counters.closed ≤ p.world.store.counters.opened ∧ p.world.store.openReaders = p.held ∧
      (∀ m ∈ p.members, m.held ≤ m.query.readerNames.dedup.length) ∧
      ∀ e log, .idle e log ∈ p.members → e.Accounted log ∧ e.ClosesOnce log ∧
        Prod.fst <$> e.pullLogged log = e.pull ∧ ∀ w, (e.disposeLogged log w).1 = e.dispose w := by
  intro p
  have hstart : Balanced ⟨w, []⟩ := ⟨hw, by simp⟩
  have hp := hstart.run operations
  refine ⟨?_, ?_, fun m hm => (hp.sound m hm).held_le, fun e log hm => ?_⟩
  · rw [hp.count]
    exact Nat.le_add_right _ _
  · rw [Store.openReaders, hp.count, Nat.add_sub_cancel_left]
  · have htended : e.Tended log := hp.sound _ hm
    exact ⟨htended.accounted, htended.closesOnce, e.fst_pullLogged log, e.fst_disposeLogged log⟩

/-- A pull of one enumeration waits with its first reader while another one is pulled and disposed. -/
def overtaking : List Operation :=
  let query := CompiledQuery.prepared nestedCollections .none [(0, 1), (1, 2)]
  [.create query .plain .asynchronous, .create query { Context.plain with detector := 1 } .blocking, .pull 0, .resume 0,
    .pull 1, .dispose 1]

def overtakingWorld : World :=
  .prepared [[[.int32 1]], [[.int32 1]], nestedRows.results 0, nestedRows.results 1]

theorem openReaders_eq_held_overtaking :
    overtakingWorld.store.counters.opened = overtakingWorld.store.counters.closed ∧
      (run ⟨overtakingWorld, []⟩ overtaking).world.store.counters = ⟨4, 4, 3⟩ ∧
      (run ⟨overtakingWorld, []⟩ overtaking).held = 1 ∧
      (run ⟨overtakingWorld, []⟩ overtaking).world.store.openReaders = (run ⟨overtakingWorld, []⟩ overtaking).held := by
  have hw : overtakingWorld.store.counters.opened = overtakingWorld.store.counters.closed := rfl
  have haccounts := openReaders_eq_held hw overtaking
  exact ⟨hw, by decide +kernel, by decide +kernel, haccounts.2.1⟩

end Pool

end QueryShaping
