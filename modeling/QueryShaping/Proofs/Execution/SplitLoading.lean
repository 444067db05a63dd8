import QueryShaping.Proofs.Execution.SplitReading

/-!
# Loading from queries of their own

Every slot takes from the reader of its collection the rows that repeat the key of its parent. When no two slots have one
parent and the rows come in the order of the slots, these rows are the next ones, and the first row of another parent is
left where it is. So when a draft has been loaded, all readers stand before the rows of the parents that are still to
come. A row whose parent has no slot stays where it is for good, and so do the rows behind it: a `SplitFeed` keeps these
rows apart from those that are taken.

A row can carry an element that is there already, whose slots are then loaded once more. Nothing happens to them, since
their readers have stopped before rows of other parents.
-/

namespace QueryShaping

open List Binding Pull

/-- The rows of collections with queries of their own, and the identifiers under which they repeat their parents. -/
structure SplitRows where
  results : Nat → List Row
  copies : Nat → List Binding

namespace SplitRows

/-- The rows of some parents, in the order of the parents. -/
def rowsOf (q : SplitRows) (id : Nat) (keys : List Key) : List Row :=
  QueryShaping.rowsOf (q.copies id) (q.results id) keys

/-- Whether a cursor can load some collections: their queries give these rows, and the parents can be read. -/
structure Given (q : SplitRows) (f : Fetch) (ids : List Nat) (Served : World → Prop) : Prop where
  supplied : f.Supplied ids q.results Served
  readable : ∀ id ∈ ids, ∀ row ∈ q.results id, ∀ b ∈ q.copies id, b.ReadableOn row

end SplitRows

/-- Rows of collections, and behind them rows that nobody takes. -/
structure SplitFeed extends SplitRows where
  behind : Nat → List Row

/-- Rows that are all taken. -/
def SplitRows.feed (q : SplitRows) : SplitFeed where
  toSplitRows := q
  behind _ := []

namespace SplitFeed

variable {q : SplitFeed} {id : Nat} {keys keys' : List Key}

/-- All rows of a collection. -/
def all (q : SplitFeed) (id : Nat) : List Row :=
  q.results id ++ q.behind id

/-- What is left of the rows of a collection when some parents are still to come. -/
def unread (q : SplitFeed) (id : Nat) (keys : List Key) : List Row :=
  q.rowsOf id keys ++ q.behind id

/-- Whether a cursor can load some collections: the queries of those that are due give these rows, and the parents can be
read as far as the first row that nobody takes. -/
structure Given (q : SplitFeed) (f : Fetch) (ids due : List Nat) (Served : World → Prop) : Prop where
  supplied : f.Supplied due q.all Served
  readable : ∀ id ∈ ids, ∀ row ∈ q.results id ++ (q.behind id).take 1, ∀ b ∈ q.copies id, b.ReadableOn row

/-- Whether no two of some slots have one parent, and none has that of the first row that nobody takes. -/
structure Fits (q : SplitFeed) (id : Nat) (keys : List Key) : Prop where
  nodup : keys.Nodup
  stops : ∀ row ∈ (q.behind id).head?, keyOn (q.copies id) row ∉ keys

theorem Fits.append_right (h : q.Fits id (keys ++ keys')) : q.Fits id keys' :=
  ⟨(nodup_append.1 h.nodup).2.1, fun row hrow hmem => h.stops row hrow (mem_append_right _ hmem)⟩

/-- The first row that is left belongs to a parent that is to come, or to nobody. -/
theorem unread_head {row : Row} (h : row ∈ (q.unread id keys).head?) :
    row ∈ q.results id ++ (q.behind id).take 1 ∧
      (keyOn (q.copies id) row ∈ keys ∨ row ∈ (q.behind id).head?) := by
  unfold unread at h
  cases hrows : q.rowsOf id keys with
  | nil =>
    rw [hrows, nil_append] at h
    obtain ⟨rest, hrest⟩ := List.head?_eq_some_iff.1 h
    refine ⟨mem_append_right _ ?_, .inr h⟩
    rw [hrest]
    exact mem_cons_self
  | cons other rest =>
    rw [hrows] at h
    cases h
    have hmem : row ∈ q.rowsOf id keys := hrows ▸ mem_cons_self
    exact ⟨mem_append_left _ (mem_rowsOf hmem).1, .inl (mem_rowsOf hmem).2⟩

/-- The first row that is left is not one of a slot that comes before the parents that are to come. -/
theorem Fits.head_ne (h : q.Fits id (keys ++ keys')) {row : Row} (hrow : row ∈ (q.unread id keys').head?) :
    keyOn (q.copies id) row ∉ keys := by
  intro hmem
  rcases (unread_head hrow).2 with hother | hstop
  · exact (nodup_append.1 h.nodup).2.2 _ hmem _ hother rfl
  · exact h.stops row hstop (mem_append_left _ hmem)

end SplitFeed

namespace Cursor

variable {c c' c'' : Cursor} {q : SplitFeed} {ids ids' : List Nat} {keys left left' : Nat → List Key} {id : Nat}

/-- Whether the readers of some collections stand before the rows of these parents. -/
def Ready (c : Cursor) (q : SplitRows) (ids : List Nat) (keys : Nat → List Key) : Prop :=
  ∀ id ∈ ids, c.SplitBefore id (q.results id) (q.rowsOf id (keys id))

/-- Whether the readers of some collections stand before the rows of these parents and the rows that nobody takes. -/
def ReadyFor (c : Cursor) (q : SplitFeed) (ids : List Nat) (keys : Nat → List Key) : Prop :=
  ∀ id ∈ ids, c.SplitBefore id (q.all id) (q.unread id (keys id))

theorem readyFor_feed {q : SplitRows} : c.ReadyFor q.feed ids keys ↔ c.Ready q ids keys := by
  simp only [ReadyFor, Ready, SplitFeed.all, SplitFeed.unread, SplitRows.feed, append_nil]

/-- A step that loads some collections up to the parents that are still to come. -/
structure Serves (c : Cursor) (q : SplitFeed) (ids : List Nat) (left : Nat → List Key) (c' : Cursor) : Prop where
  moves : c.Moves ids c'
  ready : c'.ReadyFor q ids left

theorem Serves.refl (h : c.ReadyFor q ids left) : c.Serves q ids left c := ⟨.refl _ _, h⟩

/-- What a step leaves to come, other collections have before them too. -/
theorem Serves.ready_of (h : c.Serves q ids left c') (hready : c.ReadyFor q ids' fun id => keys id ++ left id)
    (hkeys : ∀ id ∉ ids, keys id = []) : c'.ReadyFor q ids' left := by
  intro id hid
  by_cases hmem : id ∈ ids
  · exact h.ready id hmem
  · rw [splitBefore_congr (h.moves.others id hmem)]
    simpa only [hkeys id hmem, nil_append] using hready id hid

theorem Serves.trans (h : c.Serves q ids (fun id => keys id ++ left id) c') (h' : c'.Serves q ids' left c'')
    (hkeys : ∀ id ∉ ids', keys id = []) : c.Serves q (ids ++ ids') left c'' := by
  refine ⟨(h.moves.mono (subset_append_left _ _)).trans (h'.moves.mono (subset_append_right _ _)), ?_⟩
  intro id hid
  by_cases hmem : id ∈ ids'
  · exact h'.ready id hmem
  · have hid : id ∈ ids := (mem_append.1 hid).resolve_right hmem
    rw [splitBefore_congr (h'.moves.others id hmem)]
    simpa only [hkeys id hmem, nil_append] using h.ready id hid

/-- Whether the reader of a collection has stopped and is not on a row of a parent. -/
def Passed (c : Cursor) (copy : List Binding) (id : Nat) (key : Key) : Prop :=
  ∃ r, c.splits.lookup id = some r ∧ (r.exhausted = true ∨ r.exhausted = false ∧ r.ahead = true ∧
    ∃ row, r.reader.current = some row ∧ (∀ b ∈ copy, b.ReadableOn row) ∧ keyOn copy row ≠ key)

theorem Stopped.passed {copy : List Binding} {all rows : List Row} {key : Key} (h : c.Stopped id)
    (hbefore : c.SplitBefore id all rows) (hread : ∀ row ∈ rows.head?, ∀ b ∈ copy, b.ReadableOn row)
    (hkey : ∀ row ∈ rows.head?, keyOn copy row ≠ key) : c.Passed copy id key := by
  obtain ⟨r, hr, hstopped⟩ := h
  refine ⟨r, hr, ?_⟩
  rcases ((splitBefore_some hr).1 hbefore).rows with ⟨hexh, -⟩ | ⟨hexh, hahead, row, hcur, rfl⟩ | ⟨hexh, hahead, -⟩
  · exact .inl hexh
  · exact .inr ⟨hexh, hahead, row, hcur, hread row rfl, hkey row rfl⟩
  · rw [hexh, hahead] at hstopped
    cases hstopped <;> contradiction

end Cursor

/-! ## Loading once more -/

theorem Pull.runs_readKey {bindings : List Binding} {reader : Reader} {row : Row} (hr : reader.current = some row)
    (h : ∀ b ∈ bindings, b.ReadableOn row) (c : Cursor) (w : World) :
    (ofExcept (readKey bindings reader)).Runs c w (keyOn bindings row) c w :=
  runs_ofExcept ((readKey_onRow hr).trans (readKey_of_readable h)) c w

/-- A slot takes nothing from a reader that has passed its parent. -/
theorem Fetch.fillSlot_passed {f : Fetch} {c : Cursor} {copy child : List Binding} {id : Nat} {s : Slot}
    {decode : Reader → Shaping Draft} {load : Draft → Pull Draft} {fuel : Nat} {w : World}
    (h : c.Passed copy id s.parentKey) : (f.loader.fillSlot id copy child decode load (fuel + 1) s).Runs c w s c w := by
  obtain ⟨r, hr, hpassed⟩ := h
  have hreader := f.splitReader_opened hr w
  rw [Loader.fillSlot]
  rcases hpassed with hexh | ⟨hexh, hahead, row, hcur, hread, hkey⟩
  · have hnext : (f.loader.nextRow? id).Runs c w none c w := by
      refine hreader.bind ?_
      rw [if_pos hexh]
      exact runs_pure _ _ _
    exact hnext.bind (runs_pure _ _ _)
  · have hnext : (f.loader.nextRow? id).Runs c w (some r.reader) c w := by
      refine hreader.bind ?_
      rw [if_neg (Bool.eq_false_iff.1 hexh), if_pos hahead]
      exact runs_pure _ _ _
    refine hnext.bind ((runs_readKey hcur hread c w).bind ?_)
    rw [if_neg hkey]
    exact runs_pure _ _ _

section Again

variable {f : Fetch} {again : LoadAgain Pull} {c : Cursor} {w : World} {copies : Nat → List Binding} {choice : RowChoice}
  {unshared : Bool} {g : Graph}

mutual

/-- Loading does nothing to a draft when the readers have passed the parents of its slots. -/
theorem Node.loadSplit_passed : ∀ (n : Node) {first : Row} {rows : List Row} {d : Draft}, n.Each (·.SplitAs copies) →
    d.Shows unshared g (n.tree choice first rows) →
      (∀ b ∈ (n.tree choice first rows).branches, c.Passed (copies b.id) b.id b.parentKey) →
      (n.loadSplit f.loader again d).Runs c w d c w
  | .scalar b, _, _, d, _, _, _ => by
    have hstep : (Node.scalar b).loadSplit f.loader again d = pure d := by
      cases d <;> rfl
    exact hstep ▸ runs_pure _ _ _
  | .entity e, _, _, _, hsplit, hd, h => EntityNode.loadSplit_passed e hsplit hd h
  | .collection place, _, _, _, hsplit, hd, h => by
    obtain ⟨slot, rfl⟩ := hd.collection
    exact (CollectionPlace.loadSplit_passed place hsplit hd.2 (h _ mem_cons_self)).bind (runs_pure _ _ _)
  | .record members, _, _, _, hsplit, hd, h => by
    obtain ⟨ds, rfl⟩ := hd.record
    exact (Node.loadSplitMembers_passed members hsplit hd h).bind (runs_pure _ _ _)

theorem EntityNode.loadSplit_passed : ∀ (e : EntityNode) {first : Row} {rows : List Row} {d : Draft},
    e.Each (·.SplitAs copies) → d.Shows unshared g (e.tree choice first rows) →
      (∀ b ∈ (e.tree choice first rows).branches, c.Passed (copies b.id) b.id b.parentKey) →
      (e.loadSplit f.loader again d).Runs c w d c w
  | ⟨_, key, _, references, collections, _⟩, first, rows, d, hsplit, hd, h => by
    rw [EntityNode.tree] at hd h
    split at hd
    · next hkey =>
      rw [if_pos hkey, Tree.branches, forall_mem_append] at h
      obtain ⟨id, ds, slots, rfl⟩ := hd.entity
      obtain ⟨-, -, -, hrefs, hcols⟩ := hd
      exact (EntityNode.loadSplitReferences_passed references hsplit.1 hrefs h.1).bind
        ((CollectionPlace.loadSplitAll_passed collections hsplit.2 hcols h.2).bind (runs_pure _ _ _))
    · obtain rfl := hd.null
      exact runs_pure _ _ _

theorem CollectionPlace.loadSplit_passed : ∀ (place : CollectionPlace) {first : Row} {rows : List Row} {slot : Slot},
    place.Each (·.SplitAs copies) → slot.Shows unshared g (place.branch choice first rows) →
      c.Passed (copies (place.branch choice first rows).id) (place.branch choice first rows).id
        (place.branch choice first rows).parentKey →
      (place.loadSplit f.loader again slot).Runs c w slot c w
  | .here ⟨_, _, _, _, _, _, _⟩, _, _, slot, hsplit, hd, h => by
    obtain rfl := hsplit.1.splitParent_eq
    rw [← (Slot.shows_iff.1 hd).1] at h
    have hpassed := h
    obtain ⟨r, hr, -⟩ := hpassed
    exact (f.splitReader_opened hr w).bind (Fetch.fillSlot_passed h)
  | .again _ _, _, _, _, hsplit, _, _ => hsplit.elim

theorem Node.loadSplitMembers_passed : ∀ (members : List (String × Node)) {first : Row} {rows : List Row}
    {ds : List (String × Draft)}, Node.EachMember (·.SplitAs copies) members →
      Draft.ShowMembers unshared g ds (Node.memberTrees choice members first rows) →
      (∀ b ∈ Tree.memberBranches (Node.memberTrees choice members first rows),
        c.Passed (copies b.id) b.id b.parentKey) →
      (Node.loadSplitMembers f.loader again members ds).Runs c w ds c w
  | [], _, _, _, _, hd, _ => by
    obtain rfl := hd.nil
    exact runs_pure _ _ _
  | (name, member) :: rest, _, _, _, hsplit, hd, h => by
    obtain ⟨d, ds, rfl⟩ := hd.cons
    have h := forall_mem_append.1 h
    exact (Node.loadSplit_passed member hsplit.1 hd.2.1 h.1).bind
      ((Node.loadSplitMembers_passed rest hsplit.2 hd.2.2 h.2).bind (runs_pure _ _ _))

theorem EntityNode.loadSplitReferences_passed : ∀ (references : List (String × EntityNode)) {first : Row}
    {rows : List Row} {ds : List Draft}, EntityNode.EachReference (·.SplitAs copies) references →
      Draft.ShowReferences unshared g ds (EntityNode.referenceTrees choice references first rows) →
      (∀ b ∈ Tree.memberBranches (EntityNode.referenceTrees choice references first rows),
        c.Passed (copies b.id) b.id b.parentKey) →
      (EntityNode.loadSplitReferences f.loader again references ds).Runs c w ds c w
  | [], _, _, _, _, hd, _ => by
    obtain rfl := hd.nil
    exact runs_pure _ _ _
  | (name, target) :: rest, _, _, _, hsplit, hd, h => by
    obtain ⟨d, ds, rfl⟩ := hd.cons
    have h := forall_mem_append.1 h
    exact (EntityNode.loadSplit_passed target hsplit.1 hd.1 h.1).bind
      ((EntityNode.loadSplitReferences_passed rest hsplit.2 hd.2.2 h.2).bind (runs_pure _ _ _))

theorem CollectionPlace.loadSplitAll_passed : ∀ (collections : List (String × CollectionPlace)) {owner : Nat}
    {first : Row} {rows : List Row} {slots : List Slot}, CollectionPlace.EachOf (·.SplitAs copies) collections →
      Slot.ShowCollections unshared g owner slots (CollectionPlace.branches choice collections first rows) →
      (∀ b ∈ (CollectionPlace.branches choice collections first rows).map (·.2),
        c.Passed (copies b.id) b.id b.parentKey) →
      (CollectionPlace.loadSplitAll f.loader again collections slots).Runs c w slots c w
  | [], _, _, _, _, _, hd, _ => by
    obtain rfl := hd.nil
    exact runs_pure _ _ _
  | (name, place) :: rest, _, _, _, _, hsplit, hd, h => by
    obtain ⟨slot, slots, rfl⟩ := hd.cons
    have h := forall_mem_cons.1 h
    exact (CollectionPlace.loadSplit_passed place hsplit.1 hd.2.1 h.1).bind
      ((CollectionPlace.loadSplitAll_passed rest hsplit.2 hd.2.2 h.2).bind (runs_pure _ _ _))

end

end Again

/-! ## Filling a slot -/

/-- Whether the queries of those collections can be started that have slots but no readers yet. -/
def Cursor.Starts (c : Cursor) (due : List Nat) (keys : Nat → List Key) : Prop :=
  ∀ id, keys id ≠ [] → id ∈ due ∨ c.Opened id

/-- Collections that have readers keep them, and fewer slots need fewer readers. -/
theorem Cursor.Starts.mono {c c' : Cursor} {due : List Nat} {keys keys' : Nat → List Key} (h : c.Starts due keys)
    (hopened : ∀ id, c.Opened id → c'.Opened id) (hkeys : ∀ id, keys' id ⊆ keys id) : c'.Starts due keys' := by
  intro id hid
  have hne : keys id ≠ [] := fun hnil => hid (List.subset_nil.1 (hnil ▸ hkeys id))
  exact (h id hne).imp_right (hopened id)

theorem Cursor.starts_nil {c : Cursor} (due : List Nat) : c.Starts due fun _ => [] :=
  fun _ h => absurd rfl h

theorem Cursor.Starts.append {c : Cursor} {due : List Nat} {keys keys' : Nat → List Key} (h : c.Starts due keys)
    (h' : c.Starts due keys') : c.Starts due fun id => keys id ++ keys' id := by
  intro id hid
  by_cases hnil : keys id = []
  · exact h' id fun hnil' => hid (append_eq_nil_iff.2 ⟨hnil, hnil'⟩)
  · exact h id hnil

/-- What loading slots with these parents finds, where others come later: the readers stand before their rows. -/
structure Cursor.Awaits (c : Cursor) (w : World) (q : SplitFeed) (due : List Nat) (Served : World → Prop) (ids : List Nat)
    (keys left : Nat → List Key) : Prop where
  served : Served w
  sound : (c.shapeState w).Sound
  starts : c.Starts due keys
  fits : ∀ id, q.Fits id (keys id ++ left id)
  ready : c.ReadyFor q ids fun id => keys id ++ left id

/-- What loading slots with these parents leaves behind: the readers have stopped before the rows of later parents. -/
structure Cursor.Leaves (c : Cursor) (q : SplitFeed) (Served : World → Prop) (ids : List Nat) (branches : List Branch)
    (keys left : Nat → List Key) (c' : Cursor) (w' : World) : Prop where
  serves : c.Serves q ids left c'
  served : Served w'
  stopped : ∀ b ∈ branches, c'.Stopped b.id
  starts : c'.Starts [] keys

/-- Whether a part of a draft is loaded with all its rows, and with no rows of the parents that come later. -/
def Pull.Loads {α : Type} (x : Pull α) (q : SplitFeed) (due : List Nat) (Served : World → Prop) (ids : List Nat)
    (branches : List Branch) (keys : Nat → List Key) (old : List Nat) (idsOf : α → List Nat) (P : Bool → Graph → Prop)
    (Q : α → Bool → Graph → Prop) : Prop :=
  ∀ ⦃c w left⦄, c.Awaits w q due Served ids keys left → P (c.shapeState w).unshared w.graph →
    ∃ a c' w', x.Runs c w a c' w' ∧ (c.shapeState w).Gives (c'.shapeState w') old (idsOf a) (Q a) ∧
      c.Leaves q Served ids branches keys left c' w'

namespace Pull.Loads

variable {α β : Type} {x : Pull α} {y : Pull β} {q : SplitFeed} {due ids ids' old old' : List Nat} {Served : World → Prop}
  {branches branches' : List Branch} {keys keys' : Nat → List Key} {idsOf : α → List Nat} {idsOf' : β → List Nat}
  {P P' : Bool → Graph → Prop} {Q : α → Bool → Graph → Prop} {Q' : β → Bool → Graph → Prop}

/-- Where there are no slots, nothing happens. -/
theorem nothing {a : α} (hx : ∀ c w, x.Runs c w a c w) (hq : ∀ {u g}, P u g → Q a u g) :
    x.Loads q due Served ids [] (fun _ => []) (idsOf a) idsOf P Q :=
  fun _ _ _ h hp => ⟨a, _, _, hx _ _, ⟨.refl _ _, hq hp⟩, .refl (by simpa only [nil_append] using h.ready), h.served, nofun,
    Cursor.starts_nil []⟩

/-- The slots of one part come before those of the other. -/
theorem both (hx : x.Loads q due Served ids branches keys old idsOf P Q)
    (hy : y.Loads q due Served ids' branches' keys' old' idsOf' P' Q') (hP' : Graph.Kept P') (hQ : ∀ a, Graph.Kept (Q a))
    (hkeys : ∀ id ∉ ids, keys id = []) (hkeys' : ∀ id ∉ ids', keys' id = []) {c : Cursor} {w : World}
    {left : Nat → List Key} (h : c.Awaits w q due Served (ids ++ ids') (fun id => keys id ++ keys' id) left)
    (hp : P (c.shapeState w).unshared w.graph) (hp' : P' (c.shapeState w).unshared w.graph) :
    ∃ a b c' w', (∀ {γ : Type} (f : α → β → γ), (do
        let a ← x
        let b ← y
        return f a b : Pull γ).Runs c w (f a b) c' w') ∧
      (c.shapeState w).Gives (c'.shapeState w') (old ++ old') (idsOf a ++ idsOf' b) (fun u g => Q a u g ∧ Q' b u g) ∧
      c.Leaves q Served (ids ++ ids') (branches ++ branches') (fun id => keys id ++ keys' id) left c' w' := by
  obtain ⟨hserved, hsound, hstarts, hfits, hready⟩ := h
  simp only [append_assoc] at hfits hready
  obtain ⟨a, c₁, w₁, hrun₁, hgives₁, hleaves₁⟩ := hx ⟨hserved, hsound,
    hstarts.mono (fun _ ho => ho) fun _ => subset_append_left _ _, hfits,
    fun j hj => hready j (mem_append_left _ hj)⟩ hp
  obtain ⟨b, c₂, w₂, hrun₂, hgives₂, hleaves₂⟩ := hy ⟨hleaves₁.served, hgives₁.grows.advances.sound hsound,
    hstarts.mono hleaves₁.serves.moves.opened fun _ => subset_append_right _ _, fun j => (hfits j).append_right,
    hleaves₁.serves.ready_of (fun j hj => hready j (mem_append_right _ hj)) hkeys⟩ (hgives₁.grows.still hP' hp')
  exact ⟨a, b, c₂, w₂, fun f => hrun₁.bind (hrun₂.bind (runs_pure _ _ _)), hgives₁.append (hQ a) hgives₂,
    hleaves₁.serves.trans hleaves₂.serves hkeys', hleaves₂.served,
    forall_mem_append.2 ⟨fun b hb => hleaves₂.serves.moves.stopped b.id (hleaves₁.stopped b hb), hleaves₂.stopped⟩,
    (hleaves₁.starts.mono hleaves₂.serves.moves.opened fun _ _ h => h).append hleaves₂.starts⟩

end Pull.Loads

/-- Whether a draft of a node is loaded with all its rows, and with no rows of the parents that come later. -/
def Node.LoadsSplit (n : Node) (q : SplitFeed) (f : Fetch) (again : LoadAgain Pull) (due : List Nat)
    (Served : World → Prop) : Prop :=
  ∀ {first : Row} {rows : List Row} {d : Draft}, n.Readable (.split q.results) first rows →
    (n.loadSplit f.loader again d).Loads q due Served n.collectionIds (n.tree (.split q.results) first rows).branches
      (fun id => (n.tree (.split q.results) first rows).slotKeys id) d.ids Draft.ids
      (fun u g => d.Shows u g (n.tree .joined first [])) fun d' u g => d'.Shows u g (n.tree (.split q.results) first rows)

theorem Node.id_mem_of_mem_branches {choice : RowChoice} {n : Node} {first : Row} {rows : List Row} {b : Branch}
    (h : b ∈ (n.tree choice first rows).branches) : b.id ∈ n.collectionIds := by
  by_contra hid
  have hmem := Tree.parentKey_mem_slotKeys h
  rw [slotKeys_tree n hid] at hmem
  cases hmem

theorem Tree.slotKeys_subset_elementSlotKeys {keys : List Key} {key : Key} (h : key ∈ keys) (T : Key → Tree) (id : Nat) :
    (T key).slotKeys id ⊆ Tree.elementSlotKeys id (keys.map fun k => (k, T k)) := by
  induction keys with
  | nil => cases h
  | cons k keys ih =>
    rw [map_cons, Tree.elementSlotKeys]
    rcases mem_cons.1 h with rfl | h
    · exact subset_append_left _ _
    · exact subset_append_of_subset_right _ (ih h)

/-- What a slot is filled with: the elements of a collection that belong to one parent. -/
structure Filling where
  rows : SplitFeed
  id : Nat
  child : List Binding
  element : Node
  parentKey : Key
  /-- The parents that come later, for each collection. -/
  left : Nat → List Key

namespace Filling

/-- The rows of the slot. -/
def mine (x : Filling) : List Row :=
  rowsWith (x.rows.copies x.id) x.parentKey (x.rows.results x.id)

/-- The keys of the elements. -/
def keys (x : Filling) : List Key :=
  presentKeys x.child x.mine

def tree (x : Filling) (key : Key) : Tree :=
  x.element.tree (.split x.rows.results) ((rowsWith x.child key x.mine).headD []) (rowsWith x.child key x.mine)

def trees (x : Filling) (keys : List Key) : List (Key × Tree) :=
  keys.map fun key => (key, x.tree key)

/-- The parents that come later when some elements are still to be loaded. -/
def later (x : Filling) (keys : List Key) (id : Nat) : List Key :=
  Tree.elementSlotKeys id (x.trees keys) ++ x.left id

def loop (x : Filling) (f : Fetch) (again : LoadAgain Pull) (fuel : Nat) (s : Slot) : Pull Slot :=
  f.loader.fillSlot x.id (x.rows.copies x.id) x.child (x.element.decode .plain) (fun d => x.element.loadSplit f.loader again d) fuel s

/-- How the loop goes on with the element of a row. -/
def goOn (x : Filling) (f : Fetch) (again : LoadAgain Pull) (fuel : Nat) (s : Slot) : Option (Key × Draft) → Pull Slot
  | none => x.loop f again fuel s
  | some (key, d) => do
    let d ← x.element.loadSplit f.loader again d
    x.loop f again fuel (s.put key d)

/-- Whether a slot can be filled. -/
structure Possible (x : Filling) (f : Fetch) (again : LoadAgain Pull) (ids due : List Nat) (Served : World → Prop) :
    Prop where
  given : x.rows.Given f ids due Served
  id_mem : x.id ∈ ids
  ids_subset : x.element.collectionIds ⊆ ids
  split : x.element.SplitBy x.rows.copies
  not_nested : x.id ∉ x.element.collectionIds
  loads : x.element.LoadsSplit x.rows f again due Served
  readable : ∀ row ∈ x.mine, ∀ b ∈ x.child, b.ReadableOn row
  elements : ∀ key ∈ x.keys, x.element.Readable (.split x.rows.results) ((rowsWith x.child key x.mine).headD [])
    (rowsWith x.child key x.mine)
  own : x.rows.Fits x.id ([x.parentKey] ++ x.left x.id)
  fits : ∀ id, x.rows.Fits id (x.later x.keys id)

/-- Where the loop is when some rows have been taken, others are to be taken, and elements with some keys are still to
come. -/
structure At (x : Filling) (due : List Nat) (Served : World → Prop) (taken todo : List Row) (keys : List Key)
    (c : Cursor) (w : World) (s : Slot) : Prop where
  mine_eq : x.mine = taken ++ todo
  keys_eq : x.keys = presentKeys x.child taken ++ keys
  served : Served w
  sound : (c.shapeState w).Sound
  parent : s.parentKey = x.parentKey
  shows : Draft.ShowElements (c.shapeState w).unshared w.graph s.elements (x.trees (presentKeys x.child taken))
  opened : c.Opened x.id
  starts : c.Starts due fun id => Tree.elementSlotKeys id (x.trees x.keys)
  before : c.SplitBefore x.id (x.rows.all x.id) (todo ++ x.rows.unread x.id (x.left x.id))
  ready : c.ReadyFor x.rows x.element.collectionIds (x.later keys)
  stopped : ∀ key ∈ presentKeys x.child taken, ∀ b ∈ (x.tree key).branches, c.Stopped b.id
  started : c.Starts [] fun id => Tree.elementSlotKeys id (x.trees (presentKeys x.child taken))

/-- What is left behind when the slot has been filled. -/
structure Filled (x : Filling) (Served : World → Prop) (c : Cursor) (w : World) (s s' : Slot) (c' : Cursor)
    (w' : World) : Prop where
  grows : (c.shapeState w).Grows (c'.shapeState w') s.ids s'.ids
  shows : Draft.ShowElements (c.shapeState w).unshared w'.graph s'.elements (x.trees x.keys)
  number : s'.number = s.number
  owner : s'.owner = s.owner
  parent : s'.parentKey = s.parentKey
  serves : c.Serves x.rows (x.id :: x.element.collectionIds) x.left c'
  stopped : c'.Stopped x.id
  started : c'.Starts [] fun id => Tree.elementSlotKeys id (x.trees x.keys)
  served : Served w'

variable {x : Filling} {f : Fetch} {again : LoadAgain Pull} {ids due : List Nat} {Served : World → Prop}
  {taken todo : List Row} {keys : List Key} {row : Row} {c c' : Cursor} {w w' : World} {s s' : Slot} {fuel : Nat}

/-- When all rows have been taken, the reader stops before a row of another parent or behind the last row. -/
theorem Possible.loop_end (hx : x.Possible f again ids due Served) (h : x.At due Served taken [] keys c w s) :
    ∃ c' w', (x.loop f again (fuel + 1) s).Runs c w s c' w' ∧ x.Filled Served c w s s c' w' := by
  have hbefore := h.before
  rw [nil_append] at hbefore
  have hkeys : x.keys = presentKeys x.child taken := by
    rw [Filling.keys, h.mine_eq, append_nil]
  obtain rfl : keys = [] := by simpa [hkeys] using h.keys_eq
  obtain ⟨c', w', hrun, hbefore', hstop, hmoves, hw', hstate⟩ : ∃ c' w',
      (x.loop f again (fuel + 1) s).Runs c w s c' w' ∧
      c'.SplitBefore x.id (x.rows.all x.id) (x.rows.unread x.id (x.left x.id)) ∧ c'.Stopped x.id ∧
      c.Moves [x.id] c' ∧ Served w' ∧ c'.shapeState w' = c.shapeState w := by
    rw [loop, Loader.fillSlot]
    cases hrest : x.rows.unread x.id (x.left x.id) with
    | nil =>
      rw [hrest] at hbefore
      obtain ⟨c', w', hnext, hrest⟩ := Fetch.nextRow?_nil hx.given.supplied (.inr h.opened) h.served hbefore
      exact ⟨c', w', hnext.bind (runs_pure _ _ _), hrest⟩
    | cons row rest =>
      rw [hrest] at hbefore
      obtain ⟨reader, c', w', hnext, hlookup, hcur, hreader, hopen, hmoves, hw', hstate⟩ :=
        Fetch.nextRow?_cons hx.given.supplied (.inr h.opened) h.served hbefore
      have hrow : row ∈ (x.rows.unread x.id (x.left x.id)).head? := by
        rw [hrest]
        rfl
      have hmem := (SplitFeed.unread_head hrow).1
      have hne : keyOn (x.rows.copies x.id) row ≠ s.parentKey := fun heq =>
        hx.own.head_ne hrow (mem_singleton.2 (heq.trans h.parent))
      refine ⟨c', w', hnext.bind ((runs_readKey hcur (hx.given.readable _ hx.id_mem row hmem) c' w').bind ?_), ?_,
        ⟨_, hlookup, .inr rfl⟩, hmoves, hw', hstate⟩
      · rw [if_neg hne]
        exact runs_pure _ _ _
      · exact (Cursor.splitBefore_some hlookup).2 ⟨hopen, .inr (.inl ⟨rfl, rfl, row, hcur, by rw [hreader]⟩)⟩
  have hgraph : w'.graph = w.graph := congrArg ShapeState.graph hstate
  refine ⟨c', w', hrun, hstate ▸ .refl _ _, ?_, rfl, rfl, rfl, ⟨hmoves.mono (by simp), fun j hj => ?_⟩, hstop, ?_, hw'⟩
  · rw [hkeys, hgraph]
    exact h.shows
  · rcases mem_cons.1 hj with rfl | hj
    · exact hbefore'
    · have hne : j ∉ [x.id] := fun heq => hx.not_nested (mem_singleton.1 heq ▸ hj)
      rw [Cursor.splitBefore_congr (hmoves.others j hne)]
      exact h.ready j hj
  · rw [hkeys]
    exact h.started.mono hmoves.opened fun _ _ h => h

theorem At.row_mem (h : x.At due Served taken (row :: todo) keys c w s) : row ∈ x.mine := by
  rw [h.mine_eq]
  exact mem_append_right _ mem_cons_self

/-- The next row is taken before its element is looked at. -/
theorem Possible.take_row (hx : x.Possible f again ids due Served) (h : x.At due Served taken (row :: todo) keys c w s) :
    ∃ reader c₁ w₁, reader.current = some row ∧ Served w₁ ∧ c₁.shapeState w₁ = c.shapeState w ∧
      c₁.SplitBefore x.id (x.rows.all x.id) (todo ++ x.rows.unread x.id (x.left x.id)) ∧ c₁.Opened x.id ∧
      (∀ j, j ≠ x.id → c₁.splits.lookup j = c.splits.lookup j) ∧
      (∀ {ids : List Nat} {c' : Cursor}, x.id ∈ ids → c₁.Moves ids c' → c'.Stopped x.id → c.Moves ids c') ∧
      ∀ {found : Option (Key × Draft)} {fuel : Nat} {s' : Slot} {c₂ c' : Cursor} {w₂ w' : World},
        (shape (s.element? .plain x.child (x.element.decode .plain) reader)).Runs c₁ w₁ found c₂ w₂ →
        (x.goOn f again fuel s found).Runs c₂ w₂ s' c' w' → (x.loop f again (fuel + 1) s).Runs c w s' c' w' := by
  obtain ⟨hresult, hcopy⟩ := mem_filter.1 h.row_mem
  obtain ⟨reader, c₁, w₁, hnext, hlookup, hcur, hreader, hopen, hmoves, hw₁, hstate⟩ :=
    Fetch.nextRow?_cons hx.given.supplied (.inr h.opened) h.served h.before
  refine ⟨reader, c₁.setSplit x.id ⟨reader, false, false⟩, w₁, hcur, hw₁, hstate, ?_,
    ⟨_, c₁.lookup_setSplit_self x.id _⟩, fun j hj => ?_, ?_, ?_⟩
  · exact (Cursor.splitBefore_some (c₁.lookup_setSplit_self x.id _)).2 ⟨hopen, .inr (.inr ⟨rfl, rfl, hreader.symm⟩)⟩
  · rw [Cursor.lookup_setSplit, if_neg hj]
    exact hmoves.others j fun heq => hj (mem_singleton.1 heq)
  · intro ids c' hid hmoves' hstop
    exact (hmoves.mono (List.cons_subset.2 ⟨hid, nil_subset _⟩)).after hmoves' hid hstop
  · intro found fuel s' c₂ c' w₂ w' hfound hgo
    rw [loop, Loader.fillSlot]
    have hkey := hx.given.readable _ hx.id_mem row (mem_append_left _ hresult)
    refine hnext.bind ((runs_readKey hcur hkey c₁ w₁).bind ?_)
    rw [if_pos ((of_decide_eq_true hcopy).trans h.parent.symm)]
    refine (f.take_runs hlookup w₁).bind (hfound.bind ?_)
    cases found <;> exact hgo

/-- The slots of an element that is there already have had their rows. -/
theorem Possible.passed (hx : x.Possible f again ids due Served) (h : x.At due Served taken todo keys c w s) {key : Key}
    (hkey : key ∈ presentKeys x.child taken) {c₁ : Cursor}
    (hother : ∀ j, j ≠ x.id → c₁.splits.lookup j = c.splits.lookup j) :
    ∀ b ∈ (x.tree key).branches, c₁.Passed (x.rows.copies b.id) b.id b.parentKey := by
  intro b hb
  have hid : b.id ∈ x.element.collectionIds := Node.id_mem_of_mem_branches hb
  have hlookup := hother b.id fun heq => hx.not_nested (heq ▸ hid)
  refine Cursor.Stopped.passed ((Cursor.stopped_congr hlookup).2 (h.stopped key hkey b hb))
    ((Cursor.splitBefore_congr hlookup).2 (h.ready b.id hid))
    (fun row hrow => hx.given.readable b.id (hx.ids_subset hid) row (SplitFeed.unread_head hrow).1)
    fun row hrow heq => ?_
  -- The parents that come later are other ones.
  have hfits := hx.fits b.id
  rw [later, h.keys_eq, trees, map_append, Tree.elementSlotKeys_append, append_assoc] at hfits
  exact hfits.head_ne hrow
    (heq ▸ Tree.slotKeys_subset_elementSlotKeys hkey x.tree b.id (Tree.parentKey_mem_slotKeys hb))

/-- When the reader of the slot is open and the others are where they were, no reader has been closed. -/
theorem opened_of_others {c₁ : Cursor} (hopened : c₁.Opened x.id)
    (hother : ∀ j, j ≠ x.id → c₁.splits.lookup j = c.splits.lookup j) (j : Nat) (h : c.Opened j) : c₁.Opened j := by
  by_cases heq : j = x.id
  · exact heq ▸ hopened
  · exact (Cursor.opened_congr (hother j heq)).2 h

/-- What a round of the loop does to the slot comes before what the others do. -/
theorem Filled.prepend {c₁ : Cursor} {w₁ : World} {s₁ : Slot}
    (hgrow : (c.shapeState w).Grows (c₁.shapeState w₁) s.ids s₁.ids) (hnumber : s₁.number = s.number)
    (howner : s₁.owner = s.owner) (hparent : s₁.parentKey = s.parentKey)
    (hmoves : ∀ {c' : Cursor}, c₁.Moves (x.id :: x.element.collectionIds) c' → c'.Stopped x.id →
      c.Moves (x.id :: x.element.collectionIds) c')
    (h : x.Filled Served c₁ w₁ s₁ s' c' w') : x.Filled Served c w s s' c' w' := by
  have hshows := h.shows
  rw [hgrow.advances.unshared] at hshows
  exact ⟨hgrow.trans h.grows, hshows, h.number.trans hnumber, h.owner.trans howner, h.parent.trans hparent,
    ⟨hmoves h.serves.moves h.stopped, h.serves.ready⟩, h.stopped, h.started, h.served⟩

/-- Whether a round takes the loop to where a row has been taken and the others are still to come. -/
def Advances (x : Filling) (f : Fetch) (again : LoadAgain Pull) (due : List Nat) (Served : World → Prop) (taken todo : List Row)
    (c : Cursor) (w : World) (s : Slot) : Prop :=
  ∃ s₁ keys c₁ w₁, x.At due Served taken todo keys c₁ w₁ s₁ ∧
    (∀ {fuel : Nat} {s' : Slot} {c' : Cursor} {w' : World}, (x.loop f again fuel s₁).Runs c₁ w₁ s' c' w' →
      (x.loop f again (fuel + 1) s).Runs c w s' c' w') ∧
    ∀ {s' : Slot} {c' : Cursor} {w' : World}, x.Filled Served c₁ w₁ s₁ s' c' w' → x.Filled Served c w s s' c' w'

/-- A round with a row that has no element, or one that is there already. -/
theorem Possible.step_same (hx : x.Possible f again ids due Served) (h : x.At due Served taken (row :: todo) keys c w s)
    (hsame : (keyOn x.child row).allNull = true ∨
      (keyOn x.child row).allNull = false ∧ ∃ d, s.elements.lookup (keyOn x.child row) = some d) :
    x.Advances f again due Served (taken ++ [row]) todo c w s := by
  obtain ⟨reader, c₁, w₁, hcur, hw₁, hstate, hbefore, hopened, hother, hmoves, hloop⟩ := hx.take_row h
  have hread : readKey x.child reader = .ok (keyOn x.child row) :=
    (readKey_onRow hcur).trans (readKey_of_readable (hx.readable row h.row_mem))
  -- The element is not decoded, so no entity is made.
  have helement : ∃ found, Shaping.Steps (s.element? .plain x.child (x.element.decode .plain) reader) (c₁.shapeState w₁) found
      (c₁.shapeState w₁) ∧ presentKeys x.child (taken ++ [row]) = presentKeys x.child taken ∧
      ∀ {fuel : Nat} {c₂ c' : Cursor} {w₂ w' : World} {s' : Slot},
        (∀ j, j ≠ x.id → c₂.splits.lookup j = c.splits.lookup j) → (x.loop f again fuel s).Runs c₂ w₂ s' c' w' →
        (x.goOn f again fuel s found).Runs c₂ w₂ s' c' w' := by
    rcases hsame with hnull | ⟨hnull, d, hfind⟩
    · exact ⟨none, Shaping.element_none hread hnull, presentKeys_append_same (.inl hnull),
        fun _ h => h⟩
    · obtain ⟨hmem, hd⟩ := h.shows.of_lookup hfind
      refine ⟨some (_, d), Shaping.element_known hread hnull hfind,
        presentKeys_append_same (.inr hmem), fun hlookup hrun => ?_⟩
      refine (Node.loadSplit_passed x.element hx.split hd (hx.passed h hmem hlookup)).bind ?_
      rw [Slot.put_self hfind]
      exact hrun
  obtain ⟨found, hsteps, hkeys, hgo⟩ := helement
  obtain ⟨c₂, w₂, hshape, hlike, hwlike, hgraph, hgrow⟩ := shape_grows hsteps (.refl _ s.ids)
  rw [hstate] at hgrow hgraph
  have hun := hgrow.advances.unshared
  have hlookup : ∀ j, j ≠ x.id → c₂.splits.lookup j = c.splits.lookup j := fun j hj => by
    rw [hlike.splits, hother j hj]
  have hne : ∀ j ∈ x.element.collectionIds, j ≠ x.id := fun j hj heq => hx.not_nested (heq ▸ hj)
  have hopened : c₂.Opened x.id := (Cursor.opened_congr (by rw [hlike.splits])).2 hopened
  refine ⟨s, keys, c₂, w₂, ⟨?_, ?_, hx.given.supplied.like hwlike hw₁, hgrow.advances.sound h.sound, h.parent, ?_, hopened,
    h.starts.mono (opened_of_others hopened hlookup) fun _ _ h => h, ?_, ?_, ?_, ?_⟩,
    fun hrun => hloop hshape (hgo hlookup hrun), ?_⟩
  · rw [h.mine_eq, append_assoc]
    rfl
  · rw [hkeys]
    exact h.keys_eq
  · rw [hkeys, hun, hgraph]
    exact h.shows
  · exact (Cursor.splitBefore_congr (by rw [hlike.splits])).2 hbefore
  · exact fun j hj => (Cursor.splitBefore_congr (hlookup j (hne j hj))).2 (h.ready j hj)
  · intro key hkey b hb
    rw [hkeys] at hkey
    have hid := hne b.id (Node.id_mem_of_mem_branches hb)
    exact (Cursor.stopped_congr (hlookup b.id hid)).2 (h.stopped key hkey b hb)
  · rw [hkeys]
    exact h.started.mono (opened_of_others hopened hlookup) fun _ _ h => h
  · exact Filled.prepend hgrow rfl rfl rfl fun hm hs => hmoves mem_cons_self (hlike.moves.trans hm) hs

/-- A round with a row that carries a new element: it is decoded from the row and loaded. -/
theorem Possible.step_new (hx : x.Possible f again ids due Served) (h : x.At due Served taken (row :: todo) keys c w s)
    (hnull : (keyOn x.child row).allNull = false)
    (hfind : s.elements.lookup (keyOn x.child row) = none) :
    x.Advances f again due Served (taken ++ [row]) todo c w s := by
  obtain ⟨reader, c₁, w₁, hcur, hw₁, hstate, hbefore, hopened, hother, hmoves, hloop⟩ := hx.take_row h
  have hread : readKey x.child reader = .ok (keyOn x.child row) :=
    (readKey_onRow hcur).trans (readKey_of_readable (hx.readable row h.row_mem))
  have hmem : keyOn x.child row ∉ presentKeys x.child taken := h.shows.not_mem_of_lookup hfind
  have hmine : x.mine = (taken ++ [row]) ++ todo := by
    rw [h.mine_eq, append_assoc]
    rfl
  have hkeys := presentKeys_append_new hnull hmem
  obtain ⟨new, hnew⟩ := presentKeys_append x.child (taken ++ [row]) todo
  rw [← hmine] at hnew
  obtain rfl : keys = keyOn x.child row :: new := by
    have hboth : presentKeys x.child taken ++ keys = presentKeys x.child (taken ++ [row]) ++ new :=
      h.keys_eq.symm.trans hnew
    rw [hkeys, append_assoc] at hboth
    exact append_cancel_left hboth
  -- Its first row is this one.
  have hreadable := hx.elements _ (mem_presentKeys.2 ⟨hnull, row, h.row_mem, rfl⟩)
  have hfirst : (rowsWith x.child (keyOn x.child row) x.mine).headD [] = row := by
    rw [h.mine_eq, rowsWith_append, rowsWith_eq_nil hnull hmem, rowsWith_cons_same rfl]
    rfl
  have htree : x.tree (keyOn x.child row) = x.element.tree (.split x.rows.results) row
      (rowsWith x.child (keyOn x.child row) x.mine) := by
    rw [tree, hfirst]
  rw [hfirst] at hreadable
  have hlater : x.later (keyOn x.child row :: new) =
      fun j => (x.tree (keyOn x.child row)).slotKeys j ++ x.later new j := by
    funext j
    rw [later, trees, map_cons, Tree.elementSlotKeys, append_assoc]
    rfl
  have hne : ∀ j ∈ x.element.collectionIds, j ≠ x.id := fun j hj heq => hx.not_nested (heq ▸ hj)
  have hsound : (c₁.shapeState w₁).Sound := hstate ▸ h.sound
  obtain ⟨d, s₁, hdecode, hmade⟩ := @Node.decode_makes _ _ .joined _ [] _ hcur (fun _ => rfl) x.element hreadable _ hsound
  obtain ⟨c₂, w₂, hshape, hlike, hwlike, hgraph, hgrow⟩ := shape_grows
    (Shaping.element_new hread hnull hfind hdecode)
    (⟨hmade.advances, fun hu => ⟨d.ids, List.Perm.refl _, hmade.new hu⟩⟩ : (c₁.shapeState w₁).Grows s₁ [] d.ids)
  have hlookup : ∀ j, j ≠ x.id → c₂.splits.lookup j = c.splits.lookup j := fun j hj => by
    rw [hlike.splits, hother j hj]
  have hopened₂ : c₂.Opened x.id := (Cursor.opened_congr (by rw [hlike.splits])).2 hopened
  have hstarts₂ := h.starts.mono (opened_of_others hopened₂ hlookup) fun _ _ h => h
  have hready : c₂.ReadyFor x.rows x.element.collectionIds
      fun j => (x.tree (keyOn x.child row)).slotKeys j ++ x.later new j := by
    rw [← hlater]
    exact fun j hj => (Cursor.splitBefore_congr (hlookup j (hne j hj))).2 (h.ready j hj)
  have hfits : ∀ j, x.rows.Fits j ((x.tree (keyOn x.child row)).slotKeys j ++ x.later new j) := by
    intro j
    have hfits := hx.fits j
    rw [later, h.keys_eq, trees, map_append, Tree.elementSlotKeys_append, append_assoc] at hfits
    exact congrFun hlater j ▸ hfits.append_right
  have hstarts : c₂.Starts due fun j => (x.tree (keyOn x.child row)).slotKeys j := by
    refine hstarts₂.mono (fun _ ho => ho) fun j => Tree.slotKeys_subset_elementSlotKeys ?_ x.tree j
    rw [h.keys_eq]
    exact mem_append_right _ mem_cons_self
  rw [htree] at hready hfits hstarts
  obtain ⟨d', c₃, w₃, hload, hloaded, hserves, hw₃, hstopped, hstarted⟩ := hx.loads hreadable
    ⟨hx.given.supplied.like hwlike hw₁, hgrow.advances.sound hsound, hstarts, hfits, hready⟩
    (by rw [hgrow.advances.unshared, hgraph]; exact hmade.shows)
  rw [← htree] at hloaded hstopped hstarted
  rw [hstate] at hgrow
  have hgrows : (c.shapeState w).Grows (c₃.shapeState w₃) s.ids (s.put (keyOn x.child row) d').ids := by
    have happend := (ShapeState.Grows.refl (c.shapeState w) s.ids).append (hgrow.trans hloaded.grows)
    rw [append_nil, Slot.ids_eq s, ← Draft.elementIds_put_new hfind] at happend
    rw [Slot.ids_eq, Slot.ids_eq]
    exact happend
  have hun := hgrows.advances.unshared
  refine ⟨s.put (keyOn x.child row) d', new, c₃, w₃, ⟨hmine, hnew, hw₃, hgrows.advances.sound h.sound, h.parent,
    ?_, hserves.moves.opened _ hopened₂, hstarts₂.mono hserves.moves.opened fun _ _ h => h, ?_,
    hserves.ready, ?_, ?_⟩, fun hrun => hloop hshape (hload.bind hrun), ?_⟩
  · rw [hkeys, hun]
    have hshows := Draft.showElements_kept _ _ hgrows.advances.graph h.shows
    refine hshows.put_new hmem (fun _ _ => rfl) ?_
    rw [← hgrow.advances.unshared]
    exact hloaded.shows
  · rw [Cursor.splitBefore_congr (hserves.moves.others x.id hx.not_nested)]
    exact (Cursor.splitBefore_congr (by rw [hlike.splits])).2 hbefore
  · intro key hkey b hb
    rw [hkeys, mem_append, mem_singleton] at hkey
    rcases hkey with hkey | rfl
    · have hid := hne b.id (Node.id_mem_of_mem_branches hb)
      exact hserves.moves.stopped b.id ((Cursor.stopped_congr (hlookup b.id hid)).2 (h.stopped key hkey b hb))
    · exact hstopped b hb
  · have hbefore := (h.started.mono (opened_of_others hopened₂ hlookup) fun _ _ h => h).mono
      hserves.moves.opened fun _ _ h => h
    refine (hbefore.append hstarted).mono (fun _ ho => ho) fun j => ?_
    rw [hkeys, trees, map_append, Tree.elementSlotKeys_append]
    simp [Tree.elementSlotKeys, trees]
  · refine Filled.prepend hgrows rfl rfl rfl fun hm hs => hmoves mem_cons_self ?_ hs
    exact hlike.moves.trans ((hserves.moves.mono (subset_cons_self _ _)).trans hm)

/-- The loop fills the slot. -/
theorem Possible.loop_runs (hx : x.Possible f again ids due Served) :
    ∀ (todo : List Row) {taken : List Row} {keys : List Key} {fuel : Nat} {c : Cursor} {w : World} {s : Slot},
      todo.length < fuel → x.At due Served taken todo keys c w s →
      ∃ s' c' w', (x.loop f again fuel s).Runs c w s' c' w' ∧ x.Filled Served c w s s' c' w' := by
  intro todo
  induction todo with
  | nil =>
    intro taken keys fuel c w s hfuel h
    obtain ⟨fuel, rfl⟩ := Nat.exists_eq_add_of_lt hfuel
    obtain ⟨c', w', hrun, hfilled⟩ := hx.loop_end h
    exact ⟨s, c', w', hrun, hfilled⟩
  | cons row todo ih =>
    intro taken keys fuel c w s hfuel h
    obtain ⟨fuel, rfl⟩ : ∃ k, fuel = k + 1 := ⟨fuel - 1, by omega⟩
    have hstep : x.Advances f again due Served (taken ++ [row]) todo c w s := by
      cases hnull : (keyOn x.child row).allNull with
      | true => exact hx.step_same h (.inl hnull)
      | false =>
        cases hfind : s.elements.lookup (keyOn x.child row) with
        | some d => exact hx.step_same h (.inr ⟨hnull, d, hfind⟩)
        | none => exact hx.step_new h hnull hfind
    obtain ⟨s₁, keys₁, c₁, w₁, hat, hloop, hfill⟩ := hstep
    obtain ⟨s', c', w', hrun, hfilled⟩ := ih (Nat.lt_of_succ_lt_succ hfuel) hat
    exact ⟨s', c', w', hloop hrun, hfill hfilled⟩

end Filling

/-! ## Loading a draft -/

section Loading

variable {q : SplitFeed} {f : Fetch} {again : LoadAgain Pull} {ids due : List Nat} {Served : World → Prop}

mutual

/-- Every slot of a draft gets the rows of its parent. -/
theorem Node.loadSplit_runs (hq : q.Given f ids due Served) : ∀ (n : Node), n.Each (·.SplitAs q.copies) →
    n.collectionIds ⊆ ids → n.LoadsSplit q f again due Served
  | .scalar b, _, _, first, rows, d, _ => by
    have hstep : (Node.scalar b).loadSplit f.loader again d = pure d := by
      cases d <;> rfl
    have hnone : ((Node.scalar b).tree (.split q.results) first rows).branches = [] ∧
        (fun id => ((Node.scalar b).tree (.split q.results) first rows).slotKeys id) = fun _ => [] := by
      rw [Node.tree]
      split <;> exact ⟨rfl, rfl⟩
    rw [hnone.1, hnone.2]
    exact .nothing (fun _ _ => hstep ▸ runs_pure _ _ _) fun hd => hd
  | .entity e, hsplit, hids, _, _, _, hread => fun _ _ _ h hd => by
    obtain ⟨d', c', w', hrun, hgives, hleaves⟩ := EntityNode.loadSplit_runs hq e hsplit hids hread h hd
    exact ⟨d', c', w', hrun, ⟨hgives.grows, hgives.shows.1⟩, hleaves⟩
  | .collection place, hsplit, hids, _, _, _, hread => fun _ _ _ h hd => by
    obtain ⟨slot, rfl⟩ := hd.collection
    obtain ⟨slot', c', w', hrun, hgives, hleaves⟩ := CollectionPlace.loadSplit_runs hq place hsplit hids hread h hd.2
    exact ⟨.collection slot', c', w', hrun.bind (runs_pure _ _ _),
      ⟨hgives.grows, hgives.shows.2.2.trans hd.1, hgives.shows.1⟩, hleaves⟩
  | .record members, hsplit, hids, _, _, _, hread => fun _ _ _ h hd => by
    obtain ⟨ds, rfl⟩ := hd.record
    obtain ⟨ds', c', w', hrun, hgives, hleaves⟩ := Node.loadSplitMembers_runs hq members hsplit hids hread h hd
    exact ⟨.record ds', c', w', hrun.bind (runs_pure _ _ _), ⟨hgives.grows, hgives.shows⟩, hleaves⟩

theorem EntityNode.loadSplit_runs (hq : q.Given f ids due Served) : ∀ (e : EntityNode), e.Each (·.SplitAs q.copies) →
    e.collectionIds ⊆ ids → ∀ {first : Row} {rows : List Row} {d : Draft}, e.Readable (.split q.results) first rows →
      (e.loadSplit f.loader again d).Loads q due Served e.collectionIds (e.tree (.split q.results) first rows).branches
        (fun id => (e.tree (.split q.results) first rows).slotKeys id) d.ids Draft.ids
        (fun u g => d.Shows u g (e.tree .joined first []))
        fun d' u g => d'.Shows u g (e.tree (.split q.results) first rows) ∧ d'.reference = d.reference
  | ⟨_, key, _, references, collections, _⟩, hsplit, hids, first, rows, d, hread => by
    simp only [EntityNode.tree]
    cases hkey : keyOnRow key first with
    | true =>
      intro c w left h hd
      obtain ⟨-, hreadRefs, hreadCols⟩ := hread.2.2 hkey
      obtain ⟨id, ds, slots, rfl⟩ := hd.entity
      have hshown := hd
      obtain ⟨-, -, -, hrefs, hcols⟩ := hshown
      obtain ⟨ds', slots', c', w', hrun, hgives, hleaves⟩ := Loads.both
        (EntityNode.loadSplitReferences_runs hq references hsplit.1 (List.append_subset.1 hids).1 hreadRefs)
        (CollectionPlace.loadSplitAll_runs hq collections hsplit.2 (List.append_subset.1 hids).2 hreadCols)
        (Slot.showCollections_kept id _ _) (fun _ => fun hg h => ⟨Draft.showReferences_kept _ _ hg h.1, h.2⟩)
        (fun j => EntityNode.slotKeys_referenceTrees references)
        (fun j => CollectionPlace.slotKeys_branches collections) h hrefs hcols
      obtain ⟨hgrows, ⟨hrefs', hnav⟩, hcols', hnumbers⟩ := hgives
      obtain ⟨hgrows, hshows⟩ := ShapeState.Gives.entity hd ⟨hgrows, hrefs', hcols'⟩ hnav hnumbers
      exact ⟨.entity id ds' slots', c', w', hrun _, ⟨hgrows, hshows, rfl⟩, hleaves⟩
    | false =>
      intro c w left h hd
      obtain rfl := hd.null
      exact Loads.nothing (fun _ _ => runs_pure _ _ _) (fun h => ⟨h, rfl⟩) h hd

theorem CollectionPlace.loadSplit_runs (hq : q.Given f ids due Served) : ∀ (place : CollectionPlace),
    place.Each (·.SplitAs q.copies) → place.collectionIds ⊆ ids → ∀ {first : Row} {rows : List Row} {slot : Slot},
      place.Readable (.split q.results) first rows → (place.loadSplit f.loader again slot).Loads q due Served place.collectionIds
        [place.branch (.split q.results) first rows]
        (fun id => (place.branch (.split q.results) first rows).slotKeys id) slot.ids Slot.ids
        (fun u g => slot.Shows u g (place.branch .joined first []))
        fun slot' u g => slot'.Shows u g (place.branch (.split q.results) first rows) ∧ slot'.number = slot.number ∧
          slot'.owner = slot.owner
  | .again _ _, hsplit, _, _, _, _, _ => hsplit.elim
  | .here ⟨id, navigation, elementType, parent, child, element, splitParent⟩, hsplit, hids, first, rows, slot, hread => by
    obtain rfl := hsplit.1.splitParent_eq
    obtain ⟨⟨-, hfresh⟩, hsplit⟩ := hsplit
    rintro c w left ⟨hw, hs, hstarts, hfits, hready⟩ hd
    let x : Filling := ⟨q, id, child, element, keyOn parent first, left⟩
    have hbranch : CollectionPlace.branch (.split q.results)
        (.here ⟨id, navigation, elementType, parent, child, element, some (q.copies id)⟩) first rows =
        ⟨id, x.parentKey, x.trees x.keys⟩ := rfl
    rw [hbranch] at hstarts hfits hready ⊢
    simp only [Branch.slotKeys, append_assoc] at hstarts hfits hready
    have hown : Tree.elementSlotKeys id (x.trees x.keys) = [] :=
      @Tree.elementSlotKeys_eq_nil id x.tree (fun key => Node.slotKeys_tree element hfresh) x.keys
    have hsub : element.collectionIds ⊆ ids := fun j hj => hids (mem_cons_of_mem _ hj)
    have hx : x.Possible f again ids due Served := by
      refine ⟨hq, hids mem_cons_self, hsub, hsplit, hfresh, Node.loadSplit_runs hq element hsplit hsub, hread.2.1,
        hread.2.2, ?_, fun j => (hfits j).append_right⟩
      have h := hfits id
      rwa [if_pos rfl, hown, nil_append] at h
    -- The reader of the collection stands before the rows of the slot.
    have hbefore := hready id mem_cons_self
    simp only [if_true, hown, nil_append] at hbefore
    obtain ⟨r, c₁, w₁, hreader, hlookup, hr, hmoves, hw₁, hstate⟩ :=
      Fetch.splitReader_runs hq.supplied (hstarts id (by simp)) hw hbefore
    have hgraph : w₁.graph = w.graph := congrArg ShapeState.graph hstate
    obtain ⟨hkey, hempty⟩ := Slot.shows_iff.1 hd
    have hrows : q.unread id ([x.parentKey] ++ left id) = x.mine ++ q.unread id (left id) := append_assoc _ _ _
    have hfuel : x.mine.length < r.reader.rest.length + 2 := by
      have hlength := hr.length_le
      rw [hrows, length_append] at hlength
      omega
    have hat : x.At due Served [] x.mine x.keys c₁ w₁ slot := by
      refine ⟨rfl, rfl, hw₁, hstate ▸ hs, hkey, ?_, ⟨r, hlookup⟩,
        hstarts.mono hmoves.opened fun _ => subset_append_right _ _,
        hrows ▸ (Cursor.splitBefore_some hlookup).2 hr, fun j hj => ?_, (fun key hkey => nomatch hkey),
        c₁.starts_nil []⟩
      · rw [hstate, hgraph]
        exact hempty
      · have hne : id ≠ j := fun heq => hfresh (heq ▸ hj)
        have h := hready j (mem_cons_of_mem _ hj)
        simp only [if_neg hne, nil_append] at h
        exact (Cursor.splitBefore_congr (hmoves.others j fun heq => hne (mem_singleton.1 heq).symm)).2 h
    obtain ⟨slot', c', w', hrun, hfilled⟩ := hx.loop_runs x.mine hfuel hat
    have hshows := hfilled.shows
    have hgrows := hfilled.grows
    rw [hstate] at hshows hgrows
    refine ⟨slot', c', w', hreader.bind hrun, ⟨hgrows, Slot.shows_iff.2 ⟨hfilled.parent.trans hkey, hshows⟩,
      hfilled.number, hfilled.owner⟩, ⟨(hmoves.mono (subset_append_left [id] _)).trans
        hfilled.serves.moves, hfilled.serves.ready⟩, hfilled.served, forall_mem_singleton.2 hfilled.stopped, ?_⟩
    have hself : c'.Starts [] fun j => if id = j then [x.parentKey] else [] := by
      intro j hj
      obtain rfl : id = j := by
        by_contra hne
        exact hj (if_neg hne)
      obtain ⟨r', hr', -⟩ := hfilled.stopped
      exact .inr ⟨r', hr'⟩
    simpa only [Branch.slotKeys] using hself.append hfilled.started

theorem Node.loadSplitMembers_runs (hq : q.Given f ids due Served) : ∀ (members : List (String × Node)),
    Node.EachMember (·.SplitAs q.copies) members → Node.memberCollectionIds members ⊆ ids →
      ∀ {first : Row} {rows : List Row} {ds : List (String × Draft)},
      Node.ReadableMembers (.split q.results) members first rows →
      (Node.loadSplitMembers f.loader again members ds).Loads q due Served (Node.memberCollectionIds members)
        (Tree.memberBranches (Node.memberTrees (.split q.results) members first rows))
        (fun id => Tree.memberSlotKeys id (Node.memberTrees (.split q.results) members first rows)) (Draft.memberIds ds)
        Draft.memberIds (fun u g => Draft.ShowMembers u g ds (Node.memberTrees .joined members first []))
        fun ds' u g => Draft.ShowMembers u g ds' (Node.memberTrees (.split q.results) members first rows)
  | [], _, _, _, _, _, _ => fun _ _ _ h hd => by
    obtain rfl := hd.nil
    exact Loads.nothing (fun _ _ => runs_pure _ _ _) (fun h => h) h hd
  | (name, member) :: rest, hsplit, hids, first, rows, _, hread => fun _ _ _ h hd => by
    obtain ⟨d, ds, rfl⟩ := hd.cons
    obtain ⟨d', ds', c', w', hrun, hgives, hleaves⟩ := Loads.both
      (Node.loadSplit_runs hq member hsplit.1 (List.append_subset.1 hids).1 hread.1)
      (Node.loadSplitMembers_runs hq rest hsplit.2 (List.append_subset.1 hids).2 hread.2) (Draft.showMembers_kept _ _)
      (fun _ => Draft.shows_kept _ _) (fun j => Node.slotKeys_tree member)
      (fun j => Node.slotKeys_memberTrees rest) h hd.2.1 hd.2.2
    exact ⟨(name, d') :: ds', c', w', hrun _, ⟨hgives.grows, rfl, hgives.shows⟩, hleaves⟩

theorem EntityNode.loadSplitReferences_runs (hq : q.Given f ids due Served) :
    ∀ (references : List (String × EntityNode)), EntityNode.EachReference (·.SplitAs q.copies) references →
      EntityNode.referenceCollectionIds references ⊆ ids → ∀ {first : Row} {rows : List Row} {ds : List Draft},
      EntityNode.ReadableReferences (.split q.results) references first rows →
      (EntityNode.loadSplitReferences f.loader again references ds).Loads q due Served
        (EntityNode.referenceCollectionIds references)
        (Tree.memberBranches (EntityNode.referenceTrees (.split q.results) references first rows))
        (fun id => Tree.memberSlotKeys id (EntityNode.referenceTrees (.split q.results) references first rows))
        (Draft.listIds ds) Draft.listIds
        (fun u g => Draft.ShowReferences u g ds (EntityNode.referenceTrees .joined references first []))
        fun ds' u g =>
          Draft.ShowReferences u g ds' (EntityNode.referenceTrees (.split q.results) references first rows) ∧
            Draft.navigations (EntityNode.referenceTrees (.split q.results) references first rows) ds' =
              Draft.navigations (EntityNode.referenceTrees .joined references first []) ds
  | [], _, _, _, _, _, _ => fun _ _ _ h hd => by
    obtain rfl := hd.nil
    exact Loads.nothing (fun _ _ => runs_pure _ _ _) (fun h => ⟨h, rfl⟩) h hd
  | (name, target) :: rest, hsplit, hids, first, rows, _, hread => fun _ _ _ h hd => by
    obtain ⟨d, ds, rfl⟩ := hd.cons
    obtain ⟨d', ds', c', w', hrun, hgives, hleaves⟩ := Loads.both
      (EntityNode.loadSplit_runs hq target hsplit.1 (List.append_subset.1 hids).1 hread.1)
      (EntityNode.loadSplitReferences_runs hq rest hsplit.2 (List.append_subset.1 hids).2 hread.2)
      (Draft.showReferences_kept _ _) (fun _ => fun hg h => ⟨Draft.shows_kept _ _ hg h.1, h.2⟩)
      (fun j => EntityNode.slotKeys_tree target)
      (fun j => EntityNode.slotKeys_referenceTrees rest) h hd.1 hd.2.2
    obtain ⟨hgrows, ⟨hshow, href⟩, hshows, hnav⟩ := hgives
    refine ⟨d' :: ds', c', w', hrun _, ⟨hgrows, ⟨hshow, EntityNode.reference_eq_result hshow, hshows⟩, ?_⟩, hleaves⟩
    simp only [EntityNode.referenceTrees, Draft.navigations, href, hnav]

theorem CollectionPlace.loadSplitAll_runs (hq : q.Given f ids due Served) :
    ∀ (collections : List (String × CollectionPlace)), CollectionPlace.EachOf (·.SplitAs q.copies) collections →
      CollectionPlace.allCollectionIds collections ⊆ ids → ∀ {owner : Nat} {first : Row} {rows : List Row}
      {slots : List Slot}, CollectionPlace.ReadableAll (.split q.results) collections first rows →
      (CollectionPlace.loadSplitAll f.loader again collections slots).Loads q due Served
        (CollectionPlace.allCollectionIds collections)
        ((CollectionPlace.branches (.split q.results) collections first rows).map (·.2))
        (fun id => Branch.memberSlotKeys id (CollectionPlace.branches (.split q.results) collections first rows))
        (Slot.listIds slots) Slot.listIds
        (fun u g => Slot.ShowCollections u g owner slots (CollectionPlace.branches .joined collections first []))
        fun slots' u g =>
          Slot.ShowCollections u g owner slots' (CollectionPlace.branches (.split q.results) collections first rows) ∧
            slots'.map (·.number) = slots.map (·.number)
  | [], _, _, _, _, _, _, _ => fun _ _ _ h hd => by
    obtain rfl := hd.nil
    exact Loads.nothing (fun _ _ => runs_pure _ _ _) (fun h => ⟨h, rfl⟩) h hd
  | (name, place) :: rest, hsplit, hids, owner, first, rows, _, hread => fun _ _ _ h hd => by
    obtain ⟨slot, slots, rfl⟩ := hd.cons
    obtain ⟨slot', slots', c', w', hrun, hgives, hleaves⟩ := Loads.both
      (CollectionPlace.loadSplit_runs hq place hsplit.1 (List.append_subset.1 hids).1 hread.1)
      (CollectionPlace.loadSplitAll_runs hq rest hsplit.2 (List.append_subset.1 hids).2 hread.2)
      (Slot.showCollections_kept owner _ _) (fun _ => fun hg h => ⟨Slot.shows_kept _ _ hg h.1, h.2⟩)
      (fun j => CollectionPlace.slotKeys_branch place)
      (fun j => CollectionPlace.slotKeys_branches rest) h hd.2.1 hd.2.2
    obtain ⟨hgrows, ⟨hshow, hnumber, howner⟩, hshows, hnumbers⟩ := hgives
    refine ⟨slot' :: slots', c', w', hrun _, ⟨hgrows, ⟨howner.trans hd.1, hshow, hshows⟩, ?_⟩, hleaves⟩
    rw [map_cons, map_cons, hnumber, hnumbers]

end

end Loading

end QueryShaping
