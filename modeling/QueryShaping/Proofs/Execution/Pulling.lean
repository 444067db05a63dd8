import QueryShaping.Proofs.Execution.ReaderDiscipline

/-!
# What a pull does

A pull of an enumeration, whatever others do to the world while it waits: which readers it opens, what it reports, and how
far the enumeration comes. An enumeration is `Tended` by a log of the calls to its readers when its cursor and its phase
agree with them; pulls and disposals keep it so.
-/

namespace QueryShaping

open List

variable {e : Enumeration} {log : CallLog}

theorem World.report_between (w : World) (contextType : String) (fault : Error) :
    Deeds.Between ⟨0, 0, [(contextType, fault)]⟩ w (w.report contextType fault) :=
  ⟨rfl, rfl, by simp [World.report]⟩

/-- The names that the readers of a query can have. -/
def CompiledQuery.readerNames (q : CompiledQuery) : List ReaderName :=
  .query :: q.splits.map fun (id, _) => .collection id

theorem CompiledQuery.readerNames_subset {q : CompiledQuery} {c : Cursor}
    (h : c.splits.map (·.1) ⊆ q.splits.map (·.1)) : c.readerNames ⊆ q.readerNames := by
  refine cons_subset_cons _ fun name hname => ?_
  obtain ⟨⟨id, r⟩, hmem, rfl⟩ := mem_map.1 hname
  obtain ⟨entry, hentry, hid⟩ := mem_map.1 (h (mem_map_of_mem hmem))
  exact mem_map.2 ⟨entry, hentry, congrArg ReaderName.collection hid⟩

namespace Enumeration

/-- The readers that an enumeration holds. -/
def readers (e : Enumeration) : List Reader := e.cursor.elim [] Cursor.readers

theorem length_readers {c : Cursor} (h : e.cursor = some c) : e.readers.length = c.splits.length + 1 := by
  rw [readers, h]
  simp [Cursor.readers]

theorem readers_of_none (h : e.cursor = none) : e.readers = [] := by
  rw [readers, h]
  rfl

/-- The names of the readers that an enumeration holds. -/
def readerNames (e : Enumeration) : List ReaderName := e.cursor.elim [] Cursor.readerNames

/-- An enumeration whose cursor and phase agree with the calls to its readers. -/
structure Tended (e : Enumeration) (log : CallLog) : Prop where
  created : e.phase = .created → e.cursor = none
  active : e.phase = .active → ∃ c, e.cursor = some c ∧ Noted.Ready ⟨c, log⟩
  disposed : e.phase = .disposed → e.cursor = none
  holds : ∀ {c}, e.cursor = some c → Noted.Holds ⟨c, log⟩ ∧ c.splits.map (·.1) ⊆ e.query.splits.map (·.1)
  closed : e.cursor = none → ∀ name,
    log.standing? name = some .unopened ∨
      e.phase = .disposed ∧ name ∈ e.query.readerNames ∧ log.standing? name = some .closed

theorem tended_start (query : CompiledQuery) (context : Context) (mode : Mode) : (start query context mode).Tended [] :=
  ⟨fun _ => rfl, nofun, nofun, nofun, fun _ _ => .inl rfl⟩

/-- What comes of the next value. -/
structure Produced (e : Enumeration) (d : Deeds) (r : Except Error (Option Result)) (e' : Enumeration)
    (log : CallLog) : Prop where
  query : e'.query = e.query
  context : e'.context = e.context
  opened : e.readers.length + d.opened = e'.readers.length
  closed : d.closed = 0
  reported : d.reported = []
  holds : ∀ {c}, e'.cursor = some c → Noted.Holds ⟨c, log⟩ ∧ c.splits.map (·.1) ⊆ e.query.splits.map (·.1)
  unopened : e'.cursor = none → ∀ name, log.standing? name = some .unopened
  value : ∀ v, r = .ok (some v) → e'.phase = .active ∧ ∃ c, e'.cursor = some c ∧ Noted.Ready ⟨c, log⟩

theorem mem_ids_fetch (e : Enumeration) {id : Nat} : id ∈ e.fetch.splits.map (·.1) ↔ id ∈ e.query.splits.map (·.1) := by
  simp [fetch]

theorem advance_does {c : Cursor} (hphase : e.phase = .active)
    (hready : Noted.Ready ⟨c, log⟩) (hids : c.splits.map (·.1) ⊆ e.query.splits.map (·.1)) :
    ((e.advance .logged c).run log).Does fun d r =>
      Produced { e with cursor := some c } d r.1.1 r.1.2 r.2 := by
  have hnext : ((Puller.logged.next e c).run log).Does fun d r => ∃ s : Noted, r = ((r.1.1, s.cursor), s.log) ∧
      Noted.Grows e.fetch ⟨c, log⟩ d s ∧ s.Holds ∧ ∀ v, r.1.1 = .ok v → v.isSome → s.Ready :=
    Proc.Does.bind (e.query.program.next_triple e.fetch ⟨c, log⟩ hready) fun d r hr =>
      Proc.does_pure ⟨r.2, rfl, (Deeds.andThen_none d).symm ▸ hr.1, hr.2⟩
  refine hnext.bind fun d r hr => Proc.does_pure ?_
  obtain ⟨s, hr, hgrows, hholds, hvalue⟩ := hr
  rw [Deeds.andThen_none, hr]
  refine ⟨rfl, rfl, ?_, hgrows.closed, hgrows.reported, fun hc => ?_, nofun, fun v hv => ⟨hphase, s.cursor, rfl, ?_⟩⟩
  · have hopened : c.splits.length + d.opened = s.cursor.splits.length := hgrows.opened
    rw [length_readers rfl, length_readers rfl, Nat.add_right_comm, hopened]
  · cases hc
    refine ⟨hholds, fun id hid => ?_⟩
    rcases mem_append.1 (hgrows.ids hid) with hid | hid
    · exact hids hid
    · exact e.mem_ids_fetch.1 hid
  · exact hvalue (some v) hv rfl

theorem openCursor_does (e : Enumeration) : e.openCursor.Does fun d r =>
    (∃ reader identity, r = .ok (.start reader identity) ∧ d = ⟨1, 0, []⟩ ∧ reader.closed = false) ∨
      ∃ fault, r = .error fault ∧ d = .none := by
  refine (e.context.openCached_does e.mode e.query.commands).bind (fun d reader hd => ?_) fun d fault hd => ?_
  · obtain ⟨rfl, hclosed⟩ := hd
    refine Action.Does.bind (P := fun d r => d = .none ∧ ∃ identity, r = .ok identity) ?_
      (fun d identity hd => ?_) fun d fault hd => ?_
    · refine Action.does_perform fun w => ⟨.none, ?_, rfl, _, rfl⟩
      cases e.query.options.tracking <;> exact ⟨rfl, rfl, (append_nil _).symm⟩
    · rw [hd.1]
      exact Action.does_pure (.inl ⟨reader, identity, rfl, rfl, hclosed⟩)
    · obtain ⟨-, identity, h⟩ := hd
      cases h
  · exact .inr ⟨fault, rfl, hd⟩

theorem Tended.unopened (h : e.Tended log)
    (hphase : e.phase = .created ∨ e.phase = .active) (hcursor : e.cursor = none) (name : ReaderName) :
    log.standing? name = some .unopened := by
  rcases h.closed hcursor name with hname | ⟨hp, -⟩
  · exact hname
  · rcases hphase with hphase | hphase <;> cases hphase.symm.trans hp

/-- A failure before anything is done. -/
theorem Tended.produced_same (h : e.Tended log)
    (hphase : e.phase = .created ∨ e.phase = .active) (fault : Error) : e.Produced .none (.error fault) e log :=
  ⟨rfl, rfl, rfl, rfl, rfl, h.holds, h.unopened hphase, nofun⟩

theorem produce_does (h : e.Tended log) (hphase : e.phase = .created ∨ e.phase = .active) :
    ((e.produce .logged).run log).Does fun d r => Produced e d r.1.1 r.1.2 r.2 := by
  unfold produce
  cases hcursor : e.cursor with
  | some c =>
    have hactive : e.phase = .active := hphase.resolve_left fun hp => by
      rw [h.created hp] at hcursor
      cases hcursor
    obtain ⟨c', hc', hready⟩ := h.active hactive
    cases hcursor.symm.trans hc'
    have he : { e with cursor := some c } = e := by rw [← hcursor]
    have hadvance := advance_does hactive hready (h.holds hcursor).2
    rw [he] at hadvance
    exact hadvance
  | none =>
    have hunopened := h.unopened hphase hcursor
    have hopen : ((Puller.logged.openCursor e).run log).Does fun d r =>
        (∃ reader identity, r = (.ok (.start reader identity), log ++ [(.query, .opened)]) ∧ d = ⟨1, 0, []⟩ ∧
          reader.closed = false) ∨ ∃ fault, r = (.error fault, log) ∧ d = .none := by
      refine Proc.Does.bind e.openCursor_does fun d r hr => ?_
      rcases hr with ⟨reader, identity, rfl, rfl, hclosed⟩ | ⟨fault, rfl, rfl⟩
      · exact Proc.does_pure (.inl ⟨reader, identity, rfl, rfl, hclosed⟩)
      · exact Proc.does_pure (.inr ⟨fault, rfl, rfl⟩)
    refine hopen.bind fun d r hr => ?_
    rcases hr with ⟨reader, identity, rfl, rfl, hclosed⟩ | ⟨fault, rfl, rfl⟩
    · -- The cursor starts with the reader of the query, and no other.
      have hready := Noted.ready_start hunopened hclosed identity
      refine (advance_does (e := { e with phase := .active }) rfl hready (nil_subset _)).mono fun d r hr => ?_
      refine ⟨hr.query, hr.context, ?_, (Nat.zero_add _).trans hr.closed, hr.reported, hr.holds, hr.unopened, hr.value⟩
      rw [readers_of_none hcursor, ← hr.opened, Deeds.andThen]
      exact Nat.zero_add _
    · exact Proc.does_pure (h.produced_same hphase fault)

theorem guarded_does (h : e.Tended log) (hphase : e.phase = .created ∨ e.phase = .active) :
    ((e.guarded .logged).run log).Does fun d r => Produced e d r.1.1 r.1.2 r.2 := by
  have hdetector (detector : Detector) (w : World) : Deeds.none.Between w (w.setDetector e.context.detector detector) :=
    ⟨rfl, rfl, (append_nil _).symm⟩
  unfold guarded
  split
  · refine Puller.does_logged_step (Proc.does_get fun _ => rfl) fun w => ?_
    simp only [Deeds.none_andThen]
    cases (w.detector e.context.detector).enter with
    | error fault => exact Proc.does_pure (h.produced_same hphase fault)
    | ok entered =>
      refine Puller.does_logged_step (Proc.does_modify (hdetector entered) rfl) fun _ => ?_
      simp only [Deeds.none_andThen]
      refine (produce_does h hphase).bind fun d r hr => ?_
      obtain ⟨r, log'⟩ := r
      refine Puller.does_logged_step (Proc.does_modify (hdetector .idle) rfl) fun _ => Proc.does_pure ?_
      simpa using hr
  · exact produce_does h hphase

/-- How far an enumeration comes with a pull, what it gives and what is reported. -/
inductive Moves (contextType : String) : Phase → Except Error (Option Result) → List (String × Error) → Phase → Prop where
  | disposed : Moves contextType .disposed (.error .disposed) [] .disposed
  | faulted : Moves contextType .faulted (.error .faulted) [] .faulted
  | exhausted : Moves contextType .exhausted (.ok none) [] .exhausted
  | value {p : Phase} (h : p = .created ∨ p = .active) (v : Result) : Moves contextType p (.ok (some v)) [] .active
  | finished {p : Phase} (h : p = .created ∨ p = .active) : Moves contextType p (.ok none) [] .exhausted
  | failed {p : Phase} (h : p = .created ∨ p = .active) (fault : Error) :
    Moves contextType p (.error fault) [(contextType, fault)] .faulted

/-- An enumeration that comes to an end holds its readers until it is disposed. -/
theorem Produced.tended {e e' : Enumeration} {d : Deeds} {r : Except Error (Option Result)}
    (h : e.Produced d r e' log) {p : Phase} (hp : p = .exhausted ∨ p = .faulted) :
    Tended { e' with phase := p } log := by
  refine ⟨?_, ?_, ?_, fun hc => h.query ▸ h.holds hc, fun hc name => .inl (h.unopened hc name)⟩
  all_goals rcases hp with rfl | rfl <;> exact nofun

/-- What comes of a pull. -/
structure Pulled (e : Enumeration) (d : Deeds) (r : Except Error (Option Result)) (e' : Enumeration) : Prop where
  query : e'.query = e.query
  context : e'.context = e.context
  opened : e.readers.length + d.opened = e'.readers.length
  closed : d.closed = 0
  moves : Moves e.context.contextType e.phase r d.reported e'.phase

/-- A pull reports what has come out, after all that was done for it. -/
theorem Produced.pulled {e e' : Enumeration} {d : Deeds} {r : Except Error (Option Result)}
    (h : e.Produced d r e' log) {reported : List (String × Error)} {p : Phase}
    (hmoves : Moves e.context.contextType e.phase r reported p) :
    e.Pulled (d.andThen ⟨0, 0, reported⟩) r { e' with phase := p } := by
  refine ⟨h.query, h.context, h.opened, h.closed, ?_⟩
  rw [Deeds.andThen, h.reported]
  exact hmoves

/-- A pull does as much as one step of the lifecycle, and calls its readers in order. -/
theorem pullLogged_does (h : e.Tended log) :
    (e.pullLogged log).Does fun d r => e.Pulled d r.1.1 r.1.2 ∧ r.1.2.Tended r.2 := by
  have hterminal {r : Except Error (Option Result)} (hmoves : Moves e.context.contextType e.phase r [] e.phase) :
      Proc.Does (pure ((r, e), log)) fun d r => e.Pulled d r.1.1 r.1.2 ∧ r.1.2.Tended r.2 :=
    Proc.does_pure ⟨⟨rfl, rfl, rfl, rfl, hmoves⟩, h⟩
  unfold pullLogged pullBy
  cases hp : e.phase with
  | disposed => exact hterminal (hp ▸ .disposed)
  | faulted => exact hterminal (hp ▸ .faulted)
  | exhausted => exact hterminal (hp ▸ .exhausted)
  | created | active =>
    have hphase : e.phase = .created ∨ e.phase = .active := by simp [hp]
    refine (guarded_does h hphase).bind fun d r hr => ?_
    obtain ⟨⟨fault | _ | v, e'⟩, log'⟩ := r
    · have hreport : Proc.Does (Proc.modify fun w => w.report e'.context.contextType fault) fun d' _ =>
          d' = ⟨0, 0, [(e.context.contextType, fault)]⟩ :=
        Proc.does_modify (fun w => w.report_between _ fault) (by rw [hr.context])
      refine Puller.does_logged_step hreport fun _ => Proc.does_pure ?_
      rw [Deeds.andThen_none]
      exact ⟨hr.pulled (.failed hphase fault), hr.tended (.inr rfl)⟩
    · exact Proc.does_pure ⟨hr.pulled (.finished hphase), hr.tended (.inl rfl)⟩
    · obtain ⟨hactive, hready⟩ := hr.value v rfl
      have hpulled := hr.pulled (.value hphase v)
      rw [show { e' with phase := .active } = e' by rw [← hactive]] at hpulled
      refine Proc.does_pure ⟨hpulled, ?_, fun _ => hready, ?_, ?_, ?_⟩
      · exact fun hp => nomatch hactive.symm.trans hp
      · exact fun hp => nomatch hactive.symm.trans hp
      · exact fun hc => hr.query ▸ hr.holds hc
      · exact fun hc name => .inl (hr.unopened hc name)

theorem pull_does (h : e.Tended log) : e.pull.Does fun d r => e.Pulled d r.1 r.2 ∧ ∃ log', r.2.Tended log' := by
  rw [← e.fst_pullLogged log, map_eq_pure_bind]
  refine (pullLogged_does h).bind fun d r hr => Proc.does_pure ?_
  rw [Deeds.andThen_none]
  exact ⟨hr.1, r.2, hr.2⟩

/-! ## Disposing -/

theorem foldl_closeReader_between {readers : List Reader} (h : ∀ r ∈ readers, r.closed = false) (w : World) :
    Deeds.Between ⟨0, readers.length, []⟩ w (readers.foldl World.closeReader w) := by
  induction readers generalizing w with
  | nil => exact .refl w
  | cons r readers ih =>
    rw [forall_mem_cons] at h
    have hclose : Deeds.Between ⟨0, 1, []⟩ w (w.closeReader r) := by
      refine ⟨?_, ?_, (append_nil _).symm⟩ <;> simp [World.closeReader, Store.closeReader, h.1, Store.countClosed]
    have hall := hclose.trans (ih h.2 (w.closeReader r))
    rw [Deeds.andThen] at hall
    simpa [Nat.add_comm] using hall

/-- What comes of disposing an enumeration. -/
structure Disposed (e : Enumeration) (w : World) (e' : Enumeration) (w' : World) : Prop where
  query : e'.query = e.query
  context : e'.context = e.context
  phase : e'.phase = .disposed
  readers : e'.readers = []
  between : Deeds.Between ⟨0, e.readers.length, []⟩ w w'

/-- Disposing closes each reader once. -/
theorem dispose_disposed (h : e.Tended log) (w : World) :
    e.Disposed w (e.dispose w).1 (e.dispose w).2 ∧ (e.dispose w).1.Tended (e.disposeLogged log w).2 := by
  rw [log_disposeLogged]
  unfold dispose
  by_cases hphase : e.phase = .disposed
  · have hreaders := readers_of_none (h.disposed hphase)
    rw [if_pos hphase, if_pos hphase]
    exact ⟨⟨rfl, rfl, hphase, hreaders, by rw [hreaders]; exact .refl w⟩, h⟩
  · rw [if_neg hphase, if_neg hphase]
    refine ⟨⟨rfl, rfl, rfl, rfl, foldl_closeReader_between (fun r hr => ?_) w⟩, nofun, nofun, fun _ => rfl, nofun, ?_⟩
    · cases hcursor : e.cursor with
      | none =>
        rw [readers_of_none hcursor] at hr
        cases hr
      | some c =>
        rw [readers, hcursor] at hr
        exact (h.holds hcursor).1.closed_readers r hr
    · intro _ name
      cases hcursor : e.cursor with
      | none =>
        rcases h.closed hcursor name with hname | ⟨hp, -⟩
        · exact .inl (by simpa using hname)
        · exact (hphase hp).elim
      | some c =>
        obtain ⟨hholds, hids⟩ := h.holds hcursor
        have hclose := hholds.closeAll name
        split at hclose
        · next hname => exact .inr ⟨rfl, CompiledQuery.readerNames_subset hids hname, hclose⟩
        · exact .inl hclose

/-- Disposing once more changes nothing. -/
theorem dispose_again (w w' : World) : (e.dispose w).1.dispose w' = ((e.dispose w).1, w') := by
  have hphase : (e.dispose w).1.phase = .disposed := by
    unfold dispose
    split
    · assumption
    · rfl
  rw [dispose, if_pos hphase]

end Enumeration

/-- A world in which the executions are answered by a script. -/
def World.scripted (entries : List ScriptEntry) : World :=
  { World.prepared (entries.map (·.rows)) with store := { Store.empty with script := some ⟨entries, none⟩ } }

end QueryShaping
