import QueryShaping.Proofs.Execution.ReaderCalls

/-!
# How readers stand

A reader is opened first, read until its rows end or a read fails, and closed last. Its values are asked for only while
it stands on a row. The calls to a reader say how it stands (`CallLog.standing?`), as long as all of them are in order;
calls in order keep the discipline.

A cursor remembers which row of a reader has been read ahead and which rows have ended. One that is `Ready` remembers
rightly, so it knows which call is in order next. One that merely `Holds` its readers can still close them.
-/

namespace QueryShaping

open List

variable {st : Standing}

/-! ## Calls in order -/

/-- How a reader stands after some calls. -/
inductive Standing where
  | unopened
  | unread
  | onRow
  | finished
  | closed
deriving DecidableEq

namespace ReaderCall

def isRead : ReaderCall → Bool
  | .found | .ended | .failed => true
  | .opened | .looked | .closed => false

/-- How a reader stands after a call, if the call is in order. -/
def after? : ReaderCall → Standing → Option Standing
  | .opened, .unopened => some .unread
  | .found, .unread | .found, .onRow => some .onRow
  | .ended, .unread | .ended, .onRow | .failed, .unread | .failed, .onRow => some .finished
  | .looked, .onRow => some .onRow
  | .closed, .unread | .closed, .onRow | .closed, .finished => some .closed
  | _, _ => none

/-- How a reader stands after a read. -/
def afterRead : ReaderCall → Standing
  | .found => .onRow
  | _ => .finished

theorem after?_of_isRead {call : ReaderCall} (h : call.isRead) (hst : st = .unread ∨ st = .onRow) :
    call.after? st = some call.afterRead := by
  rcases hst with rfl | rfl <;> cases call <;> first | rfl | cases h

/-- The discipline that the calls to one reader keep. -/
structure Disciplined (calls : List ReaderCall) : Prop where
  /-- It is opened by the first call and never again. -/
  opens : ∀ before call after, calls = before ++ call :: after → (call = .opened ↔ before = [])
  /-- Nothing is read after the rows have ended, after a read that failed, or after the reader was closed. -/
  reads : ∀ before call after, calls = before ++ call :: after → call.isRead → .ended ∉ before ∧ .failed ∉ before ∧ .closed ∉ before
  /-- Values are asked for while the last read found a row and the reader has not been closed. -/
  looks : ∀ before after, calls = before ++ .looked :: after →
    (before.filter isRead).getLast? = some .found ∧ .closed ∉ before
  /-- It is closed once. -/
  closes : ∀ before after, calls = before ++ .closed :: after → .closed ∉ before

end ReaderCall

/-- How a reader stands after these calls, if all of them are in order. -/
def standingAfter? (calls : List ReaderCall) : Option Standing :=
  calls.foldlM (fun st call => call.after? st) .unopened

theorem standingAfter?_concat (calls : List ReaderCall) (call : ReaderCall) :
    standingAfter? (calls ++ [call]) = (standingAfter? calls).bind call.after? := by
  rw [standingAfter?, foldlM_append]
  simp only [foldlM_cons, foldlM_nil, bind_pure]
  rfl

/-- What the standing of a reader says about the calls to it. -/
def Standing.Tells : Standing → List ReaderCall → Prop
  | .unopened, calls => calls = []
  | .unread, calls => calls = [.opened]
  | .onRow, calls => calls ≠ [] ∧ .ended ∉ calls ∧ .failed ∉ calls ∧ .closed ∉ calls ∧
      (calls.filter ReaderCall.isRead).getLast? = some .found
  | .finished, calls => calls ≠ [] ∧ .closed ∉ calls
  | .closed, calls => calls ≠ []

theorem Standing.tells_of_standingAfter? {calls : List ReaderCall}
    (h : standingAfter? calls = some st) : st.Tells calls := by
  induction calls using List.reverseRecOn generalizing st with
  | nil =>
    cases h
    rfl
  | append_singleton calls call ih =>
    rw [standingAfter?_concat, Option.bind_eq_some_iff] at h
    obtain ⟨old, hold, hcall⟩ := h
    have htells := ih hold
    cases call <;> cases old <;> simp only [ReaderCall.after?, Option.some.injEq, reduceCtorEq] at hcall <;> subst hcall <;>
      simp_all [Standing.Tells, ReaderCall.isRead, filter_append]

/-- A reader is opened and closed once at most, and its standing says whether that has happened. -/
theorem count_of_standingAfter? {calls : List ReaderCall} (h : standingAfter? calls = some st) :
    calls.count .opened = (if st = .unopened then 0 else 1) ∧ calls.count .closed = if st = .closed then 1 else 0 := by
  induction calls using List.reverseRecOn generalizing st with
  | nil =>
    cases h
    exact ⟨rfl, rfl⟩
  | append_singleton calls call ih =>
    rw [standingAfter?_concat, Option.bind_eq_some_iff] at h
    obtain ⟨old, hold, hcall⟩ := h
    obtain ⟨hopened, hclosed⟩ := ih hold
    rw [count_append, count_append, hopened, hclosed]
    cases call <;> cases old <;> simp only [ReaderCall.after?, Option.some.injEq, reduceCtorEq] at hcall <;>
      subst hcall <;> decide

/-- A call in the middle is in order where the reader stands then. -/
theorem standing_before_call {before after : List ReaderCall} {call : ReaderCall}
    (h : standingAfter? (before ++ call :: after) = some st) :
    ∃ old new, old.Tells before ∧ call.after? old = some new := by
  have hsplit : before ++ call :: after = (before ++ [call]) ++ after := by simp
  rw [hsplit, standingAfter?, foldlM_append] at h
  obtain ⟨new, hnew, -⟩ := Option.bind_eq_some_iff.1 h
  obtain ⟨old, hold, hcall⟩ := Option.bind_eq_some_iff.1 ((standingAfter?_concat before call).symm.trans hnew)
  exact ⟨old, new, Standing.tells_of_standingAfter? hold, hcall⟩

theorem ReaderCall.disciplined_of_standingAfter? {calls : List ReaderCall}
    (h : standingAfter? calls = some st) : Disciplined calls where
  opens before call after heq := by
    subst heq
    obtain ⟨old, new, htells, hcall⟩ := standing_before_call h
    cases call <;> cases old <;> simp_all [ReaderCall.after?, Standing.Tells]
  reads before call after heq hread := by
    subst heq
    obtain ⟨old, new, htells, hcall⟩ := standing_before_call h
    cases call <;> cases old <;> simp_all [ReaderCall.after?, Standing.Tells, ReaderCall.isRead]
  looks before after heq := by
    subst heq
    obtain ⟨old, new, htells, hcall⟩ := standing_before_call h
    cases old <;> simp_all [ReaderCall.after?, Standing.Tells]
  closes before after heq := by
    subst heq
    obtain ⟨old, new, htells, hcall⟩ := standing_before_call h
    cases old <;> simp_all [ReaderCall.after?, Standing.Tells]

namespace CallLog

/-- How a reader stands after the calls of a log. -/
def standing? (log : CallLog) (name : ReaderName) : Option Standing :=
  standingAfter? (log.callsTo name)

theorem standing?_note (log : CallLog) (name : ReaderName) (call : ReaderCall) (other : ReaderName) :
    standing? (log ++ [(name, call)]) other =
      if other = name then (standing? log name).bind call.after? else standing? log other := by
  unfold standing? callsTo
  rw [filter_append]
  by_cases h : other = name
  · subst h
    rw [if_pos rfl, ← standingAfter?_concat]
    simp
  · rw [if_neg h]
    simp [Ne.symm h]

end CallLog

/-- Whether a reader that stands like this has been opened and not closed. -/
def Standing.IsOpen (st : Standing) : Prop := st ≠ .unopened ∧ st ≠ .closed

theorem Standing.IsOpen.close (h : st.IsOpen) : ReaderCall.closed.after? st = some .closed := by
  cases st with
  | unopened => exact (h.1 rfl).elim
  | closed => exact (h.2 rfl).elim
  | unread | onRow | finished => rfl

/-- Readers that are closed one after the other are all closed, and the others stand as before. -/
theorem CallLog.standing?_closeAll {names : List ReaderName} (hnodup : names.Nodup) {log : CallLog}
    (hopen : ∀ name ∈ names, ∃ st, log.standing? name = some st ∧ st.IsOpen) (name : ReaderName) :
    standing? (log ++ names.map fun n => (n, .closed)) name =
      if name ∈ names then some .closed else log.standing? name := by
  induction names generalizing log with
  | nil => simp
  | cons first rest ih =>
    obtain ⟨st, hst, hopened⟩ := hopen first mem_cons_self
    obtain ⟨hfirst, hrest⟩ := nodup_cons.1 hnodup
    have hclosed : standing? (log ++ [(first, .closed)]) first = some .closed := by
      rw [standing?_note, if_pos rfl, hst]
      exact hopened.close
    have hother {n : ReaderName} (hn : n ≠ first) : standing? (log ++ [(first, .closed)]) n = log.standing? n :=
      (standing?_note ..).trans (if_neg hn)
    have hopen' : ∀ n ∈ rest, ∃ st, standing? (log ++ [(first, .closed)]) n = some st ∧ st.IsOpen := fun n hn => by
      rw [hother fun heq => hfirst (heq ▸ hn)]
      exact hopen n (mem_cons_of_mem first hn)
    rw [map_cons, append_cons, ih hrest hopen']
    by_cases heq : name = first
    · subst heq
      rw [if_neg hfirst, if_pos mem_cons_self]
      exact hclosed
    · rw [hother heq]
      simp [heq]

/-! ## Cursors and their logs -/

/-- The names of the readers of a cursor, in their order. -/
def Cursor.readerNames (c : Cursor) : List ReaderName :=
  .query :: c.splits.map fun (id, _) => .collection id

theorem Cursor.map_namedReaders (c : Cursor) (call : ReaderCall) :
    (c.namedReaders.map fun (name, _) => (name, call)) = c.readerNames.map fun name => (name, call) := by
  simp [namedReaders, readerNames]

/-- The reader with this name, with what the cursor remembers about it. -/
def Cursor.holder (c : Cursor) : ReaderName → Option SplitReader
  | .query => some ⟨c.reader, c.ahead, c.exhausted⟩
  | .collection id => c.splits.lookup id

namespace SplitReader

/-- A reader that can be closed. -/
structure Held (r : SplitReader) (st : Option Standing) : Prop where
  reader : r.reader.closed = false
  standing : ∃ st', st = some st' ∧ st'.IsOpen

/-- A reader about which everything is remembered rightly. -/
structure Ready (r : SplitReader) (st : Option Standing) : Prop extends Held r st where
  ahead : r.ahead = true → st = some .onRow
  unfinished : r.exhausted = false → st = some .unread ∨ st = some .onRow

end SplitReader

namespace Noted

/-- The log with one more call. -/
def note (s : Noted) (name : ReaderName) (call : ReaderCall) : Noted :=
  { s with log := s.log ++ [(name, call)] }

/-- A cursor that holds the readers that have been opened and not closed, and no others. -/
structure Holds (s : Noted) : Prop where
  held : ∀ {n r}, s.cursor.holder n = some r → r.Held (s.log.standing? n)
  unopened : ∀ {n}, s.cursor.holder n = none → s.log.standing? n = some .unopened
  nodup : (s.cursor.splits.map (·.1)).Nodup

/-- A cursor that remembers rightly how its readers stand. -/
structure Ready (s : Noted) : Prop extends Holds s where
  ready : ∀ {n r}, s.cursor.holder n = some r → r.Ready (s.log.standing? n)

/-- What is done when a cursor opens readers, and nothing else. Its collections are among those that have commands. -/
structure Grows (f : Fetch) (s : Noted) (d : Deeds) (s' : Noted) : Prop where
  opened : s.cursor.splits.length + d.opened = s'.cursor.splits.length
  closed : d.closed = 0
  reported : d.reported = []
  ids : s'.cursor.splits.map (·.1) ⊆ s.cursor.splits.map (·.1) ++ f.splits.map (·.1)

variable {f : Fetch} {s s' s'' : Noted} {d d' : Deeds}

theorem Grows.refl (f : Fetch) (s : Noted) : s.Grows f .none s :=
  ⟨rfl, rfl, rfl, subset_append_left _ _⟩

theorem Grows.trans (h : s.Grows f d s') (h' : s'.Grows f d' s'') : s.Grows f (d.andThen d') s'' where
  opened := by rw [← h'.opened, ← h.opened, Nat.add_assoc]; rfl
  closed := by rw [Deeds.andThen, h.closed, h'.closed]
  reported := by rw [Deeds.andThen, h.reported, h'.reported]; rfl
  ids := fun id hid => by
    rcases mem_append.1 (h'.ids hid) with hid | hid
    · exact h.ids hid
    · exact mem_append_right _ hid

/-- A cursor that holds the same readers with the same logs. -/
theorem Ready.congr (h : s.Ready) (hholder : ∀ name, s'.cursor.holder name = s.cursor.holder name)
    (hids : s'.cursor.splits.map (·.1) = s.cursor.splits.map (·.1)) (hlog : s'.log = s.log) : s'.Ready where
  held hr := by rw [hlog]; exact h.held (hholder _ ▸ hr)
  unopened hr := by rw [hlog]; exact h.unopened (hholder _ ▸ hr)
  nodup := by rw [hids]; exact h.nodup
  ready hr := by rw [hlog]; exact h.ready (hholder _ ▸ hr)

/-- Whether nothing but this reader and the calls to it have changed. -/
structure OnlyAt (name : ReaderName) (s s' : Noted) : Prop where
  holder : ∀ {other}, other ≠ name → s'.cursor.holder other = s.cursor.holder other
  standing : ∀ {other}, other ≠ name → s'.log.standing? other = s.log.standing? other
  nodup : (s.cursor.splits.map (·.1)).Nodup → (s'.cursor.splits.map (·.1)).Nodup

variable {name : ReaderName} {call : ReaderCall} {r : SplitReader}

theorem OnlyAt.trans (h : OnlyAt name s s') (h' : OnlyAt name s' s'') : OnlyAt name s s'' :=
  ⟨fun hne => (h'.holder hne).trans (h.holder hne), fun hne => (h'.standing hne).trans (h.standing hne),
    fun hnodup => h'.nodup (h.nodup hnodup)⟩

theorem onlyAt_note (s : Noted) (name : ReaderName) (call : ReaderCall) : OnlyAt name s (s.note name call) :=
  ⟨fun _ => rfl, fun hne => (CallLog.standing?_note ..).trans (if_neg hne), id⟩

theorem standing?_note_self (h : s.log.standing? name = some st) :
    (s.note name call).log.standing? name = call.after? st := by
  rw [note, CallLog.standing?_note, if_pos rfl, h]
  rfl

theorem standing?_note_read (hcall : call.isRead)
    (h : s.log.standing? name = some .unread ∨ s.log.standing? name = some .onRow) :
    (s.note name call).log.standing? name = some call.afterRead := by
  rcases h with h | h
  · exact (standing?_note_self h).trans (ReaderCall.after?_of_isRead hcall (.inl rfl))
  · exact (standing?_note_self h).trans (ReaderCall.after?_of_isRead hcall (.inr rfl))

theorem Holds.update (h : s.Holds) (hat : OnlyAt name s s') (hname : s'.cursor.holder name = some r)
    (hr : r.Held (s'.log.standing? name)) : s'.Holds where
  held {other r'} hr' := by
    by_cases heq : other = name
    · subst heq
      cases hname.symm.trans hr'
      exact hr
    · rw [hat.standing heq]
      exact h.held (hat.holder heq ▸ hr')
  unopened {other} hr' := by
    by_cases heq : other = name
    · subst heq
      cases hname.symm.trans hr'
    · rw [hat.standing heq]
      exact h.unopened (hat.holder heq ▸ hr')
  nodup := hat.nodup h.nodup

theorem Ready.update (h : s.Ready) (hat : OnlyAt name s s') (hname : s'.cursor.holder name = some r)
    (hr : r.Ready (s'.log.standing? name)) : s'.Ready where
  toHolds := h.toHolds.update hat hname hr.toHeld
  ready {other r'} hr' := by
    by_cases heq : other = name
    · subst heq
      cases hname.symm.trans hr'
      exact hr
    · rw [hat.standing heq]
      exact h.ready (hat.holder heq ▸ hr')

end Noted

namespace Cursor

variable {c : Cursor} {id : Nat}

theorem splitIds_setSplit (c : Cursor) (id : Nat) (r : SplitReader) :
    (c.setSplit id r).splits.map (·.1) = id :: (c.splits.map (·.1)).filter (· ≠ id) := by
  rw [setSplit, map_cons, filter_map]
  rfl

theorem mem_ids_of_lookup {β : Type} {l : List (Nat × β)} {b : β} (h : l.lookup id = some b) : id ∈ l.map (·.1) := by
  obtain ⟨before, after, rfl, -⟩ := List.lookup_eq_some_iff.1 h
  simp

theorem lookup_of_mem {β : Type} {l : List (Nat × β)} (h : (l.map (·.1)).Nodup) {b : β} (hb : (id, b) ∈ l) :
    l.lookup id = some b := by
  obtain ⟨before, after, rfl⟩ := append_of_mem hb
  refine List.lookup_eq_some_iff.2 ⟨before, after, rfl, fun p hp => bne_iff_ne.2 fun heq => ?_⟩
  rw [map_append, map_cons, nodup_append] at h
  exact h.2.2 p.1 (mem_map_of_mem hp) id mem_cons_self heq.symm

theorem length_setSplit_of_lookup {r : SplitReader} (h : c.splits.lookup id = some r)
    (hnodup : (c.splits.map (·.1)).Nodup) (r' : SplitReader) :
    (c.setSplit id r').splits.length = c.splits.length := by
  have hmem := mem_ids_of_lookup h
  have hlength := congrArg List.length (c.splitIds_setSplit id r')
  have herase := hnodup.erase_eq_filter id
  have hpos := length_pos_of_mem hmem
  rw [length_map, length_cons] at hlength
  have hfilter : ((c.splits.map (·.1)).filter (· ≠ id)).length = (c.splits.map (·.1)).length - 1 := by
    rw [← length_erase_of_mem hmem, herase]
    refine congrArg List.length (filter_congr fun j _ => ?_)
    by_cases h : j = id <;> simp [h]
  rw [length_map] at hfilter hpos
  omega

theorem length_setSplit_of_lookup_none (h : c.splits.lookup id = none) (r : SplitReader) :
    (c.setSplit id r).splits.length = c.splits.length + 1 := by
  have hfilter : c.splits.filter (·.1 ≠ id) = c.splits := by
    refine List.filter_eq_self.2 fun e he => ?_
    have hne : id ≠ e.1 := bne_iff_ne.1 (List.lookup_eq_none_iff.1 h e he)
    exact decide_eq_true hne.symm
  rw [setSplit, hfilter]
  rfl

end Cursor

namespace Noted

theorem onlyAt_setSplit (s : Noted) (id : Nat) (r : SplitReader) :
    OnlyAt (.collection id) s { s with cursor := s.cursor.setSplit id r } where
  holder {other} hne := by
    cases other with
    | query => rfl
    | collection j =>
      have hj : j ≠ id := fun heq => hne (heq ▸ rfl)
      exact (s.cursor.lookup_setSplit id r j).trans (if_neg hj)
  standing _ := rfl
  nodup h := by
    rw [Cursor.splitIds_setSplit, nodup_cons]
    exact ⟨by simp, h.filter _⟩

theorem onlyAt_query {s : Noted} {c : Cursor} (h : c.splits = s.cursor.splits) :
    OnlyAt .query s { s with cursor := c } where
  holder {other} hne := by
    cases other with
    | query => exact (hne rfl).elim
    | collection id => exact congrArg (List.lookup id) h
  standing _ := rfl
  nodup hnodup := by rw [h]; exact hnodup

theorem mem_readerNames {c : Cursor} {name : ReaderName} : name ∈ c.readerNames ↔ ∃ r, c.holder name = some r := by
  cases name with
  | query => simp [Cursor.readerNames, Cursor.holder]
  | collection id =>
    simp only [Cursor.readerNames, Cursor.holder, mem_cons, reduceCtorEq, mem_map, false_or]
    constructor
    · rintro ⟨⟨id', r⟩, hmem, heq⟩
      obtain rfl : id' = id := by cases heq; rfl
      cases hlookup : c.splits.lookup id' with
      | some r' => exact ⟨r', rfl⟩
      | none => exact absurd rfl (bne_iff_ne.1 (List.lookup_eq_none_iff.1 hlookup _ hmem))
    · rintro ⟨r, hr⟩
      obtain ⟨before, after, hsplit, -⟩ := List.lookup_eq_some_iff.1 hr
      exact ⟨(id, r), by rw [hsplit]; simp, rfl⟩

namespace Holds

variable {s : Noted} (h : s.Holds)

include h

theorem count_callsTo (name : ReaderName) :
    (s.log.callsTo name).count .opened = (if name ∈ s.cursor.readerNames then 1 else 0) ∧
      (s.log.callsTo name).count .closed = 0 := by
  cases hholder : s.cursor.holder name with
  | none =>
    have hname : name ∉ s.cursor.readerNames := fun hname => by
      obtain ⟨r, hr⟩ := mem_readerNames.1 hname
      cases hholder.symm.trans hr
    rw [if_neg hname]
    exact count_of_standingAfter? (h.unopened hholder)
  | some r =>
    obtain ⟨st, hst, hopen⟩ := (h.held hholder).standing
    have hcount := count_of_standingAfter? hst
    rw [if_neg hopen.1, if_neg hopen.2] at hcount
    rw [if_pos (mem_readerNames.2 ⟨r, hholder⟩)]
    exact hcount

theorem nodup_readerNames : s.cursor.readerNames.Nodup := by
  refine nodup_cons.2 ⟨by simp, ?_⟩
  have hmap : s.cursor.splits.map (fun (id, _) => ReaderName.collection id) =
      (s.cursor.splits.map (·.1)).map .collection := by
    rw [map_map]
    rfl
  rw [hmap]
  exact h.nodup.map fun _ _ heq => by cases heq; rfl

theorem closed_readers : ∀ r ∈ s.cursor.readers, r.closed = false := by
  refine forall_mem_cons.2 ⟨(h.held (n := .query) rfl).reader, fun r hr => ?_⟩
  obtain ⟨⟨id, r'⟩, hmem, rfl⟩ := mem_map.1 hr
  exact (h.held (n := .collection id) (Cursor.lookup_of_mem h.nodup hmem)).reader

/-- All readers of a cursor are closed by closing each of them once. -/
theorem closeAll (name : ReaderName) :
    CallLog.standing? (s.log ++ s.cursor.namedReaders.map fun (n, _) => (n, .closed)) name =
      if name ∈ s.cursor.readerNames then some .closed else some .unopened := by
  rw [Cursor.map_namedReaders, CallLog.standing?_closeAll h.nodup_readerNames]
  · split
    · rfl
    · next hname =>
      refine h.unopened ?_
      cases hr : s.cursor.holder name with
      | none => rfl
      | some r => exact (hname (mem_readerNames.2 ⟨r, hr⟩)).elim
  · intro n hn
    obtain ⟨r, hr⟩ := mem_readerNames.1 hn
    exact (h.held hr).standing

end Holds

end Noted

end QueryShaping
