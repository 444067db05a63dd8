import QueryShaping.Proofs.Execution.ReaderStanding

/-!
# The discipline of readers

Loading keeps a cursor ready, whatever others do to the world meanwhile: each read and each look at a row is in order, and
a reader is opened only where there is none. After a failure, or when the rows of the query have ended, the cursor still
holds its readers.
-/

namespace QueryShaping

open SplitReader

variable {reader : Reader} {r : SplitReader}

theorem Logged.does_ofPull {α : Type} {x : Pull α} {s : Noted} {post : Deeds → Except Error α → Noted → Prop}
    (h : Steps.Does x s.cursor fun d r c => post d r { s with cursor := c }) : Steps.Does (Logged.ofPull x) s post := by
  refine Proc.Does.bind h fun d r hr => Proc.does_pure ?_
  rw [Deeds.andThen_none]
  exact hr

/-- A step from where `P` holds to where `Q` holds, unless it fails. In any case it does nothing but open readers, which
the cursor holds then. -/
def Logged.Triple {α : Type} (f : Fetch) (P : Noted → Prop) (x : Logged α) (Q : α → Noted → Prop) : Prop :=
  ∀ s, P s → Steps.Does x s fun d r s' => s.Grows f d s' ∧ s'.Holds ∧ ∀ a, r = .ok a → Q a s'

namespace Logged.Triple

variable {f : Fetch} {α β : Type} {P P' : Noted → Prop} {Q : α → Noted → Prop} {R : β → Noted → Prop} {x : Logged α}

theorem imp {Q' : α → Noted → Prop} (h : Triple f P x Q) (hP : ∀ s, P' s → P s) (hQ : ∀ a s, Q a s → Q' a s) :
    Triple f P' x Q' :=
  fun s hs => (h s (hP s hs)).mono fun _ _ _ hd => ⟨hd.1, hd.2.1, fun a ha => hQ a _ (hd.2.2 a ha)⟩

theorem bind {g : α → Logged β} (h : Triple f P x Q) (hg : ∀ a, Triple f (Q a) (g a) R) : Triple f P (x >>= g) R := by
  intro s hs
  refine (h s hs).bind (fun d a s' hd => ?_) fun d e s' hd => ⟨hd.1, hd.2.1, fun _ h => nomatch h⟩
  exact (hg a s' (hd.2.2 a rfl)).mono fun d' r s'' hd' => ⟨hd.1.trans hd'.1, hd'.2⟩

theorem pure {a : α} (h : ∀ s, P s → s.Holds ∧ Q a s) : Triple f P (pure a) Q :=
  fun s hs => Steps.does_pure ⟨.refl f s, (h s hs).1, fun _ ha => by cases ha; exact (h s hs).2⟩

theorem throw {e : Error} (h : ∀ s, P s → s.Holds) : Triple f P (throw e) Q :=
  fun s hs => Steps.does_throw ⟨.refl f s, h s hs, fun _ h => nomatch h⟩

theorem cursor {g : Cursor → Logged β} (h : ∀ c, Triple f (fun s => P s ∧ s.cursor = c) (g c) R) :
    Triple f P (Logged.ofPull get >>= g) R :=
  fun s hs => h s.cursor s ⟨hs, rfl⟩

theorem note {name : ReaderName} {call : ReaderCall} {Q : Unit → Noted → Prop}
    (h : ∀ s, P s → (s.note name call).Holds ∧ Q () (s.note name call)) : Triple f P (Logged.note name call) Q := by
  intro s hs
  refine Steps.does_modify (Steps.does_pure ⟨⟨rfl, rfl, rfl, List.subset_append_left _ _⟩, (h s hs).1, fun _ _ => (h s hs).2⟩)

end Logged.Triple

namespace Noted

/-- A cursor with a reader that stands on a row. -/
structure OnRow (name : ReaderName) (s : Noted) : Prop extends Ready s where
  standing : s.log.standing? name = some .onRow
  opened : ∃ r, s.cursor.holder name = some r

/-- A cursor on the row from which a value is shaped. -/
structure AtValue (s : Noted) : Prop extends Ready s where
  ahead : s.cursor.ahead = false
  standing : s.log.standing? .query = some .onRow

/-- A cursor whose query can be read. -/
structure Unfinished (s : Noted) : Prop extends Ready s where
  ahead : s.cursor.ahead = false
  standing : s.log.standing? .query = some .unread ∨ s.log.standing? .query = some .onRow

end Noted

theorem SplitReader.ready_onRow (h : r.reader.closed = false) : r.Ready (some .onRow) :=
  ⟨⟨h, .onRow, rfl, nofun, nofun⟩, fun _ => rfl, fun _ => .inr rfl⟩

theorem SplitReader.ready_unread (h : reader.closed = false) :
    Ready ⟨reader, false, false⟩ (some .unread) :=
  ⟨⟨h, .unread, rfl, nofun, nofun⟩, nofun, fun _ => .inl rfl⟩

theorem SplitReader.held_finished (h : r.reader.closed = false) : r.Held (some .finished) :=
  ⟨h, .finished, rfl, nofun, nofun⟩

theorem SplitReader.ready_finished (h : r.reader.closed = false) (hahead : r.ahead = false)
    (hexhausted : r.exhausted = true) : r.Ready (some .finished) :=
  ⟨held_finished h, fun h => (nomatch hahead.symm.trans h), fun h => (nomatch hexhausted.symm.trans h)⟩

namespace Logged.Triple

variable {f : Fetch} {α : Type}

theorem noteLook (name : ReaderName) :
    Triple f (Noted.OnRow name) (Logged.note name .looked) fun _ => Noted.OnRow name := by
  refine .note fun s hs => ?_
  obtain ⟨r, hr⟩ := hs.opened
  have hstanding : (s.note name .looked).log.standing? name = some .onRow := Noted.standing?_note_self hs.standing
  have hready : (s.note name .looked).Ready := hs.toReady.update (s.onlyAt_note name .looked) hr
    (hstanding ▸ ready_onRow (hs.held hr).reader)
  exact ⟨hready.toHolds, hready, hstanding, r, hr⟩

/-- A step of shaping leaves the readers alone. -/
theorem ofShaping {P : Noted → Prop} (x : Shaping α) (hholds : ∀ s, P s → s.Holds)
    (hlike : ∀ s c, s.cursor.Like c → P s → P { s with cursor := c }) :
    Triple f P (Logged.ofPull (Pull.shape x)) fun _ => P := by
  refine fun s hs => Logged.does_ofPull (Pull.does_shape fun _ c hc => ?_)
  refine ⟨⟨by rw [hc.splits]; rfl, rfl, rfl, by rw [hc.splits]; exact List.subset_append_left _ _⟩, ?_, fun _ _ => ?_⟩
  · exact hholds _ (hlike s c hc hs)
  · exact hlike s c hc hs

/-- The cursor is changed. -/
theorem keep {P : Noted → Prop} {Q : Unit → Noted → Prop} {g : Cursor → Cursor}
    (h : ∀ s, P s → s.Grows f .none { s with cursor := g s.cursor } ∧ Noted.Holds { s with cursor := g s.cursor } ∧
      Q () { s with cursor := g s.cursor }) : Triple f P (Logged.ofPull (modify g)) Q :=
  fun s hs => Logged.does_ofPull fun w => ⟨.none, .refl w, (h s hs).1, (h s hs).2.1, fun _ _ => (h s hs).2.2⟩

theorem ofExcept {P : Noted → Prop} (x : Except Error α) (hholds : ∀ s, P s → s.Holds) :
    Triple f P (Logged.ofPull (Pull.ofExcept x)) fun _ => P :=
  fun s hs => Logged.does_ofPull (Pull.does_ofExcept ⟨.refl f s, hholds s hs, fun _ _ => hs⟩)

end Logged.Triple

theorem Cursor.Like.holder {c c' : Cursor} (h : c.Like c') (name : ReaderName) : c'.holder name = c.holder name := by
  cases name with
  | query => simp only [Cursor.holder, h.reader, h.ahead, h.exhausted]
  | collection id => simp only [Cursor.holder, h.splits]

namespace Noted

variable {s : Noted} {c : Cursor} {name : ReaderName}

theorem Ready.like (hc : s.cursor.Like c) (h : s.Ready) : Ready { s with cursor := c } :=
  h.congr hc.holder (by rw [hc.splits]) rfl

theorem OnRow.like (hc : s.cursor.Like c) (h : s.OnRow name) : OnRow name { s with cursor := c } :=
  ⟨h.toReady.like hc, h.standing, by rw [hc.holder]; exact h.opened⟩

/-- A cursor starts with the reader of its query. -/
theorem ready_start {log : CallLog} (h : ∀ name, log.standing? name = some .unopened)
    (hclosed : reader.closed = false) (identity : IdentityScope) :
    Ready ⟨.start reader identity, log ++ [(.query, .opened)]⟩ := by
  have hquery : CallLog.standing? (log ++ [(.query, .opened)]) .query = some .unread := by
    rw [CallLog.standing?_note, if_pos rfl, h]
    rfl
  have hready {name : ReaderName} {r : SplitReader} (hr : (Cursor.start reader identity).holder name = some r) :
      r.Ready (CallLog.standing? (log ++ [(.query, .opened)]) name) := by
    cases name with
    | query =>
      cases hr
      exact hquery ▸ ready_unread hclosed
    | collection id => cases hr
  refine ⟨⟨fun hr => (hready hr).toHeld, fun {name} hname => ?_, List.nodup_nil⟩, hready⟩
  cases name with
  | query => cases hname
  | collection id => exact (CallLog.standing?_note ..).trans ((if_neg nofun).trans (h _))

theorem Ready.opened (h : s.Ready) {id : Nat} (hlookup : s.cursor.splits.lookup id = none)
    (hclosed : reader.closed = false) :
    Ready { s.note (.collection id) .opened with cursor := s.cursor.setSplit id ⟨reader, false, false⟩ } := by
  have hat := (s.onlyAt_note (.collection id) .opened).trans (onlyAt_setSplit _ id ⟨reader, false, false⟩)
  have hstanding : (s.note (.collection id) .opened).log.standing? (.collection id) = some .unread :=
    standing?_note_self (h.unopened (n := .collection id) hlookup)
  exact h.update hat (s.cursor.lookup_setSplit_self id _) (hstanding ▸ ready_unread hclosed)

/-- How the reader of a collection stands after a read. -/
theorem Ready.moved (h : s.Ready) {id : Nat} (hlookup : s.cursor.splits.lookup id = some r)
    (hexhausted : r.exhausted = false) (found : Bool) (hclosed : reader.closed = false) :
    Ready { s.note (.collection id) (if found then .found else .ended) with
        cursor := s.cursor.setSplit id ⟨reader, found, !found⟩ } ∧
      (found = true → OnRow (.collection id) { s.note (.collection id) (if found then .found else .ended) with
        cursor := s.cursor.setSplit id ⟨reader, found, !found⟩ }) := by
  have hat (call : ReaderCall) (r' : SplitReader) :=
    (s.onlyAt_note (.collection id) call).trans (onlyAt_setSplit (s.note (.collection id) call) id r')
  have hself (r' : SplitReader) : (s.cursor.setSplit id r').holder (.collection id) = some r' :=
    s.cursor.lookup_setSplit_self id r'
  have hstanding (call : ReaderCall) (hcall : call.isRead) :=
    standing?_note_read hcall ((h.ready (n := .collection id) hlookup).unfinished hexhausted)
  cases found with
  | true =>
    have hrow := hstanding .found rfl
    have hready := h.update (hat .found ⟨reader, true, false⟩) (hself _) (hrow ▸ ready_onRow hclosed)
    exact ⟨hready, fun _ => ⟨hready, hrow, _, hself _⟩⟩
  | false =>
    have hover := hstanding .ended rfl
    exact ⟨h.update (hat .ended ⟨reader, false, true⟩) (hself _) (hover ▸ ready_finished hclosed rfl rfl), nofun⟩

/-- A reader that is replaced is not opened. -/
theorem Grows.setSplit {f : Fetch} {id : Nat} {r r' : SplitReader} (hnodup : (s.cursor.splits.map (·.1)).Nodup)
    (hlookup : s.cursor.splits.lookup id = some r) :
    s.Grows f .none { s with cursor := s.cursor.setSplit id r' } := by
  refine ⟨(s.cursor.length_setSplit_of_lookup hlookup hnodup r').symm, rfl, rfl, ?_⟩
  refine (s.cursor.splitIds_setSplit id r').symm ▸ List.subset_append_of_subset_left _ (List.cons_subset.2 ⟨?_, ?_⟩)
  · exact Cursor.mem_ids_of_lookup hlookup
  · exact List.filter_subset_self _

theorem Unfinished.found (h : s.Unfinished) (hclosed : reader.closed = false) :
    AtValue { s.note .query .found with cursor := { s.cursor with reader := reader } } := by
  have hat := (s.onlyAt_note .query .found).trans
    (onlyAt_query (s := s.note .query .found) (c := { s.cursor with reader := reader }) rfl)
  have hrow := standing?_note_read (show ReaderCall.found.isRead from rfl) h.standing
  have hready := h.toReady.update hat rfl (hrow ▸ ready_onRow hclosed)
  exact ⟨hready, h.ahead, hrow⟩

theorem Unfinished.ended (h : s.Unfinished) (hclosed : reader.closed = false) :
    Holds { s.note .query .ended with cursor := { s.cursor with reader := reader } } ∧
      Ready { s.note .query .ended with cursor := { s.cursor with reader := reader, exhausted := true } } := by
  have hat (c : Cursor) (hc : c.splits = s.cursor.splits) :=
    (s.onlyAt_note .query .ended).trans (onlyAt_query (s := s.note .query .ended) (c := c) hc)
  have hover := standing?_note_read (show ReaderCall.ended.isRead from rfl) h.standing
  exact ⟨h.toHolds.update (hat { s.cursor with reader := reader } rfl) rfl (hover ▸ held_finished hclosed),
    h.toReady.update (hat { s.cursor with reader := reader, exhausted := true } rfl) rfl
      (hover ▸ ready_finished hclosed h.ahead rfl)⟩

theorem AtValue.unfinished (h : s.AtValue) : s.Unfinished := ⟨h.toReady, h.ahead, .inr h.standing⟩

theorem AtValue.like (hc : s.cursor.Like c) (h : s.AtValue) : AtValue { s with cursor := c } :=
  ⟨h.toReady.like hc, hc.ahead.trans h.ahead, h.standing⟩

end Noted

namespace Logged.Triple

variable {f : Fetch} {α : Type}

theorem look (name : ReaderName) (x : Except Error α) :
    Triple f (Noted.OnRow name) ((Logged.loader f).look name x) fun _ => Noted.OnRow name :=
  (noteLook name).bind fun _ => .ofExcept x fun _ hs => hs.toHolds

theorem shape (name : ReaderName) (x : Shaping α) :
    Triple f (Noted.OnRow name) ((Logged.loader f).shape name x) fun _ => Noted.OnRow name :=
  (noteLook name).bind fun _ => .ofShaping x (fun _ hs => hs.toHolds) fun _ _ hc hs => hs.like hc

theorem noteLookAtValue : Triple f Noted.AtValue (Logged.note .query .looked) fun _ => Noted.AtValue := by
  refine .note fun s hs => ?_
  have hstanding : (s.note .query .looked).log.standing? .query = some .onRow := Noted.standing?_note_self hs.standing
  have hready := hs.toReady.update (s.onlyAt_note .query .looked) rfl
    (hstanding ▸ ready_onRow (hs.held (n := .query) rfl).reader)
  exact ⟨hready.toHolds, hready, hs.ahead, hstanding⟩

theorem lookAtValue (x : Except Error α) :
    Triple f Noted.AtValue ((Logged.loader f).look .query x) fun _ => Noted.AtValue :=
  noteLookAtValue.bind fun _ => .ofExcept x fun _ hs => hs.toHolds

theorem shapeAtValue (x : Shaping α) :
    Triple f Noted.AtValue ((Logged.loader f).shape .query x) fun _ => Noted.AtValue :=
  noteLookAtValue.bind fun _ => .ofShaping x (fun _ hs => hs.toHolds) fun _ _ hc hs => hs.like hc

end Logged.Triple

theorem Reader.closed_of_read {r r' : Reader} {found : Bool} (h : r.read = .ok (found, r')) :
    r'.closed = false := by
  unfold Reader.read at h
  cases hclosed : r.closed with
  | true =>
    rw [hclosed] at h
    cases h
  | false =>
    rw [hclosed] at h
    simp only [Bool.false_eq_true, if_false] at h
    split at h <;> cases h <;> rfl

namespace Logged

variable {f : Fetch}

/-- A reader that is neither over nor closed is read once. -/
theorem read_triple {s : Noted} (hs : s.Holds) (name : ReaderName) (hr : s.cursor.holder name = some r)
    (hstanding : s.log.standing? name = some .unread ∨ s.log.standing? name = some .onRow) :
    Logged.Triple f (· = s) ((loader f).read name r.reader) fun p s' =>
      s' = s.note name (if p.1 then .found else .ended) ∧ p.2.closed = false := by
  have hnote {call : ReaderCall} (hcall : call.isRead) : (s.note name call).Holds :=
    hs.update (s.onlyAt_note name call) hr
      ⟨(hs.held hr).reader, call.afterRead, Noted.standing?_note_read hcall hstanding, by cases call <;> exact ⟨nofun, nofun⟩⟩
  have hwait {x : Action Unit} (hx : x.Waits) :
      Logged.Triple f (· = s) (Logged.ofPull (Pull.ofAction x)) fun _ => (· = s) := by
    rintro _ rfl
    refine Logged.does_ofPull (Pull.does_ofAction (hx.mono fun d result hd => ?_))
    rw [hd.1]
    exact ⟨.refl f _, hs, fun _ _ => rfl⟩
  refine (hwait (f.context.beginIn_waits f.mode)).bind fun _ => (hwait (f.context.awaitStore_waits f.mode)).bind fun _ => ?_
  cases hread : r.reader.read with
  | error e =>
    refine Logged.Triple.bind (Q := fun _ => Noted.Holds) (.note ?_) fun _ => .throw fun _ h => h
    rintro _ rfl
    exact ⟨hnote rfl, hnote rfl⟩
  | ok p =>
    obtain ⟨found, r'⟩ := p
    have hholds : (s.note name (if found then .found else .ended)).Holds := hnote (by cases found <;> rfl)
    refine Logged.Triple.bind (Q := fun _ s' => s' = s.note name (if found then .found else .ended)) (.note ?_) fun _ =>
      .pure ?_
    · rintro _ rfl
      exact ⟨hholds, rfl⟩
    · rintro _ rfl
      exact ⟨hholds, rfl, Reader.closed_of_read hread⟩

theorem readRow_triple : Logged.Triple f Noted.Unfinished (loader f).readRow fun found s =>
    if found then s.AtValue
    else s.Holds ∧ Noted.Ready { s with cursor := { s.cursor with exhausted := true } } := by
  refine Logged.Triple.cursor fun c => ?_
  rintro s ⟨hs, rfl⟩
  -- The reader is moved by one call, and then kept by the cursor.
  have hread := read_triple (f := f) hs.toHolds .query rfl hs.standing
  refine Logged.Triple.bind hread (fun p => ?_) s rfl
  obtain ⟨found, reader⟩ := p
  refine Logged.Triple.bind (.keep (Q := fun _ s' => if found then s'.AtValue
    else s'.Holds ∧ Noted.Ready { s' with cursor := { s'.cursor with exhausted := true } }) ?_) fun _ =>
      .pure fun s' hs' => ?_
  · rintro s' ⟨rfl, hclosed⟩
    refine ⟨⟨rfl, rfl, rfl, List.subset_append_left _ _⟩, ?_⟩
    cases found with
    | true => exact ⟨(hs.found hclosed).toHolds, hs.found hclosed⟩
    | false => exact ⟨(hs.ended hclosed).1, hs.ended hclosed⟩
  · cases found with
    | true => exact ⟨hs'.toHolds, hs'⟩
    | false => exact ⟨hs'.1, hs'⟩

/-- A reader that is opened is counted as such at once. -/
theorem openSplit_does (f : Fetch) (id : Nat) (s : Noted) : Steps.Does ((loader f).openSplit id) s fun d r s' =>
    d.Open r ∧ (r.isOk → id ∈ f.splits.map (·.1) ∧ s' = s.note (.collection id) .opened) ∧ (r.isOk = false → s' = s) := by
  have hopen : Steps.Does (Logged.ofPull (f.openSplit id)) s fun d r s' =>
      d.Open r ∧ (r.isOk → id ∈ f.splits.map (·.1)) ∧ s' = s := by
    refine Logged.does_ofPull ?_
    unfold Fetch.openSplit
    cases hcache : f.splits.lookup id with
    | none => exact Steps.does_throw ⟨rfl, nofun, rfl⟩
    | some cache =>
      refine Pull.does_ofAction ((f.context.openCached_does f.mode cache).mono fun _ _ h => ⟨h, fun _ => ?_, rfl⟩)
      exact Cursor.mem_ids_of_lookup hcache
  refine hopen.bind (fun d reader s' hd => ?_) fun d e s' hd => ⟨hd.1, nofun, fun _ => hd.2.2⟩
  obtain ⟨hd, hid, rfl⟩ := hd
  refine Steps.does_modify (Steps.does_pure ?_)
  rw [Deeds.andThen_none]
  exact ⟨hd, fun _ => ⟨hid rfl, rfl⟩, nofun⟩

/-- A reader is counted as opened before the cursor holds it, so the two steps are taken together. -/
theorem splitReader_triple (id : Nat) : Logged.Triple f Noted.Ready ((loader f).splitReader id) fun r s =>
    s.Ready ∧ s.cursor.splits.lookup id = some r := by
  refine Logged.Triple.cursor fun c => ?_
  rintro s ⟨hs, rfl⟩
  cases hlookup : s.cursor.splits.lookup id with
  | some r => exact Steps.does_pure ⟨.refl f s, hs.toHolds, fun _ hr => by cases hr; exact ⟨hs, hlookup⟩⟩
  | none =>
    refine (openSplit_does f id s).bind (fun d reader s' hd => ?_) fun d e s' hd => ?_
    · obtain ⟨⟨rfl, hclosed⟩, hopened, -⟩ := hd
      obtain ⟨hid, rfl⟩ := hopened rfl
      have hready := hs.opened hlookup hclosed
      refine fun w => ⟨.none, .refl w, ⟨?_, rfl, rfl, ?_⟩, hready.toHolds, fun r hr => ?_⟩
      · exact (s.cursor.length_setSplit_of_lookup_none hlookup _).symm
      · refine (s.cursor.splitIds_setSplit id _).symm ▸ List.cons_subset.2 ⟨List.mem_append_right _ hid, ?_⟩
        exact List.subset_append_of_subset_left _ (List.filter_subset_self _)
      · cases hr
        exact ⟨hready, s.cursor.lookup_setSplit_self id _⟩
    · obtain ⟨rfl, -, herror⟩ := hd
      cases herror rfl
      exact ⟨.refl f _, hs.toHolds, fun _ h => nomatch h⟩

theorem nextRow?_triple (id : Nat) : Logged.Triple f Noted.Ready ((loader f).nextRow? id) fun row s =>
    s.Ready ∧ (row.isSome → s.OnRow (.collection id)) := by
  refine (splitReader_triple id).bind fun r => ?_
  cases hexhausted : r.exhausted with
  | true => exact .pure fun s hs => ⟨hs.1.toHolds, hs.1, nofun⟩
  | false =>
    cases hahead : r.ahead with
    | true =>
      refine .pure fun s hs => ⟨hs.1.toHolds, hs.1, fun _ => ⟨hs.1, ?_, r, hs.2⟩⟩
      exact (hs.1.ready (n := .collection id) hs.2).ahead hahead
    | false =>
      rintro s ⟨hs, hlookup⟩
      have hread := read_triple (f := f) hs.toHolds (.collection id) hlookup
        ((hs.ready (n := .collection id) hlookup).unfinished hexhausted)
      refine Logged.Triple.bind hread (fun p => ?_) s rfl
      obtain ⟨found, reader⟩ := p
      refine Logged.Triple.bind (.keep (Q := fun _ s' => s'.Ready ∧ (found = true → s'.OnRow (.collection id))) ?_)
        fun _ => .pure fun s' hs' => ⟨hs'.1.toHolds, hs'.1, fun h => hs'.2 (by cases found <;> trivial)⟩
      rintro s' ⟨rfl, hclosed⟩
      have hmoved := hs.moved hlookup hexhausted found hclosed
      exact ⟨.setSplit hs.nodup hlookup, hmoved.1.toHolds, hmoved⟩

theorem take_triple (id : Nat) : Logged.Triple f (Noted.OnRow (.collection id)) ((loader f).take id) fun _ =>
    Noted.OnRow (.collection id) := by
  refine Logged.Triple.cursor fun c => ?_
  rintro s ⟨hs, rfl⟩
  obtain ⟨r, hr⟩ := hs.opened
  have hlookup : s.cursor.splits.lookup id = some r := hr
  have hself : (s.cursor.setSplit id { r with ahead := false }).holder (.collection id) = some { r with ahead := false } :=
    s.cursor.lookup_setSplit_self id _
  have hready := hs.toReady.update (s.onlyAt_setSplit id { r with ahead := false }) hself
    (hs.standing ▸ ready_onRow (hs.held hr).reader)
  rw [hlookup]
  refine Logged.does_ofPull fun w => ⟨.none, .refl w, .setSplit hs.nodup hlookup, hready.toHolds, fun _ _ => ?_⟩
  exact ⟨hready, hs.standing, _, hself⟩

end Logged

/-- A step that keeps a cursor ready. -/
abbrev Logged.Careful {α : Type} (f : Fetch) (x : Logged α) : Prop :=
  Logged.Triple f Noted.Ready x fun _ => Noted.Ready

namespace Logged.Careful

variable {f : Fetch} {α : Type}

theorem pure (a : α) : Careful f (pure a) :=
  Triple.pure fun _ hs => ⟨hs.toHolds, hs⟩

end Logged.Careful

namespace Logged

variable {f : Fetch}

theorem fillSlot_careful {id : Nat} {parent child : List Binding} {decode : Reader → Shaping Draft}
    {load : Draft → Logged Draft} (hload : ∀ d, Careful f (load d)) (fuel : Nat) (s : Slot) :
    Careful f ((loader f).fillSlot id parent child decode load fuel s) := by
  induction fuel generalizing s with
  | zero => exact .pure s
  | succ fuel ih =>
    refine (nextRow?_triple id).bind fun row => ?_
    cases row with
    | none => exact .pure fun s hs => ⟨hs.1.toHolds, hs.1⟩
    | some reader =>
      refine Triple.imp ?_ (fun s hs => hs.2 rfl) fun _ _ h => h
      refine (Triple.look _ _).bind fun key => ?_
      split
      · refine (take_triple id).bind fun _ => (Triple.shape _ _).bind fun element => ?_
        cases element with
        | none => exact (ih s).imp (fun _ hs => hs.toReady) fun _ _ h => h
        | some found => exact ((hload found.2).bind fun d => ih _).imp (fun _ hs => hs.toReady) fun _ _ h => h
      · exact .pure fun _ hs => ⟨hs.toHolds, hs.toReady⟩

theorem stepRelated_careful (f : Fetch) : (loader f).StepRelated (loader f) fun _ x _ => Careful f x where
  pure a := .pure a
  bind h hg := h.bind hg
  ofExcept x := .ofExcept x fun _ hs => hs.toHolds
  get := by
    rw [← bind_pure ((loader f).step get)]
    exact .cursor fun c => .pure fun _ hs => ⟨hs.1.toHolds, hs.1⟩

/-- Filling a slot keeps a cursor ready if loading its elements does. -/
theorem slotRelated_careful (f : Fetch) : (loader f).SlotRelated (loader f) fun _ x _ => Careful f x :=
  fun id _ _ _ _ _ s hload => (splitReader_triple id).bind fun _ =>
    (fillSlot_careful hload _ s).imp (fun _ hs => hs.1) fun _ _ h => h

end Logged

theorem Node.loadJoined_triple (f : Fetch) (n : Node) (fuel : Nat) (d : Draft) :
    Logged.Triple f Noted.AtValue (n.loadJoined (Logged.loader f) fuel d) fun _ => Noted.Ready := by
  induction fuel generalizing d with
  | zero => exact .pure fun _ hs => ⟨hs.toHolds, hs.toReady⟩
  | succ fuel ih =>
    refine .cursor fun c => Logged.Triple.imp ?_ (fun _ hs => hs.1) fun _ _ h => h
    refine (Logged.Triple.shapeAtValue _).bind fun d => ?_
    refine (Logged.readRow_triple.imp (fun _ hs => hs.unfinished) fun _ _ h => h).bind fun found => ?_
    cases found with
    | false =>
      refine Logged.Triple.bind (.keep (Q := fun _ => Noted.Ready) fun s hs => ?_) fun _ => Logged.Careful.pure _
      exact ⟨⟨rfl, rfl, rfl, List.subset_append_left _ _⟩, hs.2.toHolds, hs.2⟩
    | true =>
      refine .cursor fun c => Logged.Triple.imp ?_ (fun _ hs => hs.1) fun _ _ h => h
      refine (Logged.Triple.lookAtValue _).bind fun same => ?_
      cases same with
      | true => exact ih d
      | false =>
        refine Logged.Triple.bind (.keep (Q := fun _ => Noted.Ready) fun s hs => ?_) fun _ => Logged.Careful.pure _
        have hready : Noted.Ready { s with cursor := { s.cursor with ahead := true } } :=
          hs.toReady.update (Noted.onlyAt_query rfl) rfl
            (hs.standing ▸ ready_onRow (hs.held (n := .query) rfl).reader)
        exact ⟨⟨rfl, rfl, rfl, List.subset_append_left _ _⟩, hready.toHolds, hready⟩

namespace Program

variable (f : Fetch) (p : Program)

theorem load_triple (d : Draft) : Logged.Triple f Noted.AtValue (p.load (Logged.loader f) d) fun _ => Noted.Ready := by
  unfold load
  split
  · exact .pure fun _ hs => ⟨hs.toHolds, hs.toReady⟩
  · split
    · have hsplit := (Logged.stepRelated_careful f).loadRoot (Logged.slotRelated_careful f) p d
      exact hsplit.imp (fun _ hs => hs.toReady) fun _ _ h => h
    · exact .cursor fun c => (p.root.loadJoined_triple f _ d).imp (fun _ hs => hs.1) fun _ _ h => h

theorem shapeValue_triple : Logged.Triple f Noted.AtValue (p.shapeValue (Logged.loader f)) fun _ => Noted.Ready := by
  refine .cursor fun c => Logged.Triple.imp ?_ (fun _ hs => hs.1) fun _ _ h => h
  refine (Logged.Triple.shapeAtValue _).bind fun d => ?_
  refine (p.load_triple f d).bind fun d => Logged.Triple.bind (Q := fun _ => Noted.Ready) ?_ fun _ => Logged.Careful.pure _
  exact fun s hs => Logged.does_ofPull (Pull.does_modifyWorld (fun w => ⟨rfl, rfl, (List.append_nil _).symm⟩)
    ⟨.refl f s, hs.toHolds, fun _ _ => hs⟩)

theorem nextValue_triple :
    Logged.Triple f Noted.Ready (Logged.loader f).nextValue fun found s => s.Holds ∧ (found = true → s.AtValue) := by
  refine .cursor fun c => ?_
  have hset : Logged.Triple f (fun s => s.Ready ∧ s.cursor = c)
      (Logged.ofPull (set { c with ahead := false, nextSlot := 0 })) fun _ s => s.Ready ∧ s.cursor.ahead = false ∧
        (c.ahead = true → s.log.standing? .query = some .onRow) ∧
        (c.exhausted = false → s.log.standing? .query = some .unread ∨ s.log.standing? .query = some .onRow) := by
    rintro s ⟨hs, rfl⟩
    have hquery := hs.ready (n := .query) rfl
    have hready : Noted.Ready { s with cursor := { s.cursor with ahead := false, nextSlot := 0 } } :=
      hs.update (Noted.onlyAt_query rfl) rfl ⟨⟨hquery.reader, hquery.standing⟩, nofun, hquery.unfinished⟩
    refine Logged.does_ofPull fun w => ⟨.none, .refl w, ⟨rfl, rfl, rfl, List.subset_append_left _ _⟩, hready.toHolds, ?_⟩
    exact fun _ _ => ⟨hready, rfl, hquery.ahead, hquery.unfinished⟩
  refine hset.bind fun _ => ?_
  cases c.ahead with
  | true => exact .pure fun s hs => ⟨hs.1.toHolds, hs.1.toHolds, fun _ => ⟨hs.1, hs.2.1, hs.2.2.1 rfl⟩⟩
  | false =>
    cases c.exhausted with
    | true => exact .pure fun s hs => ⟨hs.1.toHolds, hs.1.toHolds, nofun⟩
    | false =>
      refine Logged.readRow_triple.imp (fun s hs => ⟨hs.1, hs.2.1, hs.2.2.2 rfl⟩) fun found s hs => ?_
      cases found with
      | true => exact ⟨hs.toHolds, fun _ => hs⟩
      | false => exact ⟨hs.1, nofun⟩

/-- A cursor stays ready as long as values come. -/
theorem next_triple : Logged.Triple f Noted.Ready (p.next (Logged.loader f)) fun value s => value.isSome → s.Ready := by
  refine (nextValue_triple f).bind fun found => ?_
  cases found with
  | true =>
    refine Logged.Triple.imp (P := Noted.AtValue) ?_ (fun _ hs => hs.2 rfl) fun _ _ h => h
    exact (p.shapeValue_triple f).bind fun _ => .pure fun _ hs => ⟨hs.toHolds, fun _ => hs⟩
  | false => exact .pure fun _ hs => ⟨hs.1, nofun⟩

end Program

end QueryShaping
