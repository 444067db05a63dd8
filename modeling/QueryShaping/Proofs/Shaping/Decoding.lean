import QueryShaping.Proofs.Fallible
import QueryShaping.Proofs.Shaping.Showing

/-!
# Decoding a row

The draft that is decoded from a row shows the tree of that row, with all collections still empty, and it is decoded
whenever every field it needs can be read. Where nothing is shared, the entities of the draft are new.
-/

namespace QueryShaping

open List

/-! ## Reading -/

namespace Binding

variable {b : Binding} {bindings : List Binding} {reader : Reader} {row : Row}

theorem read_onRow (h : reader.current = some row) : b.read reader = b.read (.onRow row) := by
  unfold Binding.read Reader.value
  rw [h]
  rfl

theorem readAll_onRow (h : reader.current = some row) : readAll bindings reader = readAll bindings (.onRow row) := by
  unfold readAll
  congr 1
  funext b
  exact read_onRow h

theorem readKey_onRow (h : reader.current = some row) : readKey bindings reader = readKey bindings (.onRow row) := by
  unfold readKey
  rw [readAll_onRow h]

theorem cell_eq {v : Value} (h : b.read (.onRow row) = .ok v) : b.cell row = v := by
  unfold cell
  rw [h]
  rfl

theorem cells_eq {values : List Value} (h : readAll bindings (.onRow row) = .ok values) :
    cells bindings row = values := by
  have h := Except.mapM_eq_ok_iff.1 h
  have h := congrArg (List.map fun x : Except Error Value => x.toOption.getD .null) h
  rw [map_map, map_map] at h
  refine Eq.trans h ?_
  rw [show ((fun x : Except Error Value => x.toOption.getD .null) ∘ Except.ok) = id from rfl, map_id]

theorem readAll_of_readable (h : ∀ b ∈ bindings, b.ReadableOn row) :
    readAll bindings (.onRow row) = .ok (cells bindings row) := by
  obtain ⟨values, hv⟩ := Except.mapM_ok_of_forall h
  have hv : readAll bindings (.onRow row) = .ok values := hv
  rw [hv, cells_eq hv]

theorem readKey_of_readable (h : ∀ b ∈ bindings, b.ReadableOn row) :
    readKey bindings (.onRow row) = .ok (keyOn bindings row) := by
  unfold readKey
  rw [readAll_of_readable h]
  rfl

end Binding

theorem find_null_eq_none {key : List Binding} {row : Row} :
    ((key.zip (Binding.cells key row)).find? fun (_, v) => v.isNull) = none ↔ keyOnRow key row = true := by
  unfold keyOnRow Binding.cells
  induction key with
  | nil => simp
  | cons b key ih =>
    rw [map_cons, zip_cons_cons, find?_cons, all_cons]
    cases hb : (b.cell row).isNull <;> simp only [hb]
    · simpa using ih
    · simp

/-- An entity that is read is there exactly when no part of its key is null. -/
theorem keyPresent_eq_ok {key : List Binding} {row : Row} {nullable present : Bool}
    (h : keyPresent key (Binding.cells key row) nullable = .ok present) : keyOnRow key row = present := by
  unfold keyPresent at h
  split at h
  · next hnone =>
    rw [find_null_eq_none.1 hnone]
    exact Except.ok.inj h
  · next b v hsome =>
    have hnot : keyOnRow key row = false := by
      rw [Bool.eq_false_iff]
      intro hall
      rw [find_null_eq_none.2 hall] at hsome
      cases hsome
    rw [hnot]
    split at h
    · exact Except.ok.inj h
    · cases h

/-! ## Steps of shaping -/

namespace Shaping

variable {α β : Type} {s s' : ShapeState}

/-- A step of shaping that gives a value and leaves a state behind. -/
def Steps (x : Shaping α) (s : ShapeState) (a : α) (s' : ShapeState) : Prop :=
  Id.run (x.run.run s) = (.ok a, s')

theorem steps_pure {a b : α} : Steps (pure a) s b s' ↔ a = b ∧ s = s' := by
  show ((Except.ok a, s) : Except Error α × ShapeState) = (.ok b, s') ↔ _
  simp

theorem steps_get {t : ShapeState} : Steps get s t s' ↔ s = t ∧ s = s' := by
  show ((Except.ok s, s) : Except Error ShapeState × ShapeState) = (.ok t, s') ↔ _
  simp

theorem steps_bind {x : Shaping α} {f : α → Shaping β} {b : β} :
    Steps (x >>= f) s b s' ↔ ∃ a t, Steps x s a t ∧ Steps (f a) t b s' :=
  Faulting.bind_eq_ok_iff

/-- A step of shaping that gives a value for sure, with what is known of the value and of the state left behind. -/
def Makes (x : Shaping α) (s : ShapeState) (Q : α → ShapeState → Prop) : Prop :=
  ∃ a s', Steps x s a s' ∧ Q a s'

theorem makes_pure {a : α} {Q : α → ShapeState → Prop} (h : Q a s) : Makes (pure a) s Q :=
  ⟨a, s, rfl, h⟩

theorem Makes.bind {x : Shaping α} {f : α → Shaping β} {Q : α → ShapeState → Prop} {R : β → ShapeState → Prop}
    (h : Makes x s Q) (hf : ∀ a s', Q a s' → Makes (f a) s' R) : Makes (x >>= f) s R := by
  obtain ⟨a, t, hx, hq⟩ := h
  obtain ⟨b, s', hb, hr⟩ := hf a t hq
  exact ⟨b, s', steps_bind.2 ⟨a, t, hx, hb⟩, hr⟩

theorem makes_ofExcept_bind {x : Except Error α} {f : α → Shaping β} {R : β → ShapeState → Prop} {a : α} (hx : x = .ok a)
    (h : Makes (f a) s R) : Makes (ofExcept x >>= f) s R := by
  subst hx
  exact h

theorem makes_newSlot {parent : List Binding} {reader : Reader} {row : Row} (hr : reader.current = some row)
    (h : ∀ b ∈ parent, b.ReadableOn row) (owner : Option (EntityId × String)) (s : ShapeState) :
    Makes (newSlot parent owner reader) s fun slot s' =>
      slot = ⟨s.nextSlot, owner, Binding.keyOn parent row, []⟩ ∧ s' = { s with nextSlot := s.nextSlot + 1 } := by
  unfold newSlot
  rw [Binding.readKey_onRow hr, Binding.readKey_of_readable h]
  exact ⟨_, _, rfl, rfl, rfl⟩

end Shaping

/-! ## The state of shaping -/

/-- Whether known entities are in a graph under their type and key. -/
def IdentityMap.Sound (m : IdentityMap) (g : Graph) : Prop :=
  ∀ entityType key id, m.find? entityType key = some id →
    ∃ e, g.get? id = some e ∧ e.entityType = entityType ∧ e.identity = key

namespace ShapeState

variable {s s' s'' : ShapeState}

/-- Whether every occurrence is an entity of its own. -/
def unshared (s : ShapeState) : Bool := s.known.isNone

/-- Known entities are in the graph. -/
def Sound (s : ShapeState) : Prop :=
  ∀ m, s.known = some m → m.Sound s.graph

/-- What every step of shaping does to the state, with the entities that it leaves alone. -/
structure Advances (keep : Nat → Prop) (s s' : ShapeState) : Prop where
  graph : s.graph.Extends keep s'.graph
  sound : s.Sound → s'.Sound
  unshared : s'.unshared = s.unshared
  numbers : s.nextSlot ≤ s'.nextSlot

theorem Advances.refl (keep : Nat → Prop) (s : ShapeState) : s.Advances keep s :=
  ⟨.refl keep _, id, rfl, Nat.le_refl _⟩

theorem Advances.trans {keep : Nat → Prop} (h : s.Advances keep s') (h' : s'.Advances keep s'') :
    s.Advances keep s'' :=
  ⟨h.graph.trans h'.graph, fun hs => h'.sound (h.sound hs), h'.unshared.trans h.unshared,
    Nat.le_trans h.numbers h'.numbers⟩

theorem Advances.mono {keep keep' : Nat → Prop} (h : s.Advances keep s')
    (hk : ∀ j, j < s.graph.size → keep' j → keep j) : s.Advances keep' s' :=
  ⟨h.graph.mono hk, h.sound, h.unshared, h.numbers⟩

/-- Different entities, all of which a step made. -/
structure New (s s' : ShapeState) (ids : List Nat) : Prop where
  nodup : ids.Nodup
  range : ∀ j ∈ ids, s.graph.size ≤ j ∧ j < s'.graph.size

theorem New.nil (s s' : ShapeState) : s.New s' [] :=
  ⟨nodup_nil, fun _ h => nomatch h⟩

/-- Entities that are made after others are different from them. -/
theorem New.append {l l' : List Nat} (h : s.New s' l) (h' : s'.New s'' l') (hle : s.graph.size ≤ s'.graph.size)
    (hle' : s'.graph.size ≤ s''.graph.size) : s.New s'' (l ++ l') := by
  refine ⟨?_, fun j hj => ?_⟩
  · rw [nodup_append]
    refine ⟨h.nodup, h'.nodup, fun j hj k hk => ?_⟩
    have := h.range j hj
    have := h'.range k hk
    omega
  · rcases mem_append.1 hj with hj | hj
    · have := h.range j hj
      omega
    · have := h'.range j hj
      omega

/-- Known entities stay in a graph that extends the present one. -/
theorem Sound.extend {keep : Nat → Prop} {g : Graph} (h : s.Sound) (hg : s.graph.Extends keep g)
    (hk : s'.known = s.known) (hg' : s'.graph = g) : s'.Sound := by
  intro m hm entityType key id hid
  obtain ⟨e, he, ht, hi⟩ := h m (hk ▸ hm) entityType key id hid
  obtain ⟨e', he', ht', hkey', -, -⟩ := hg.entity id e he
  refine ⟨e', hg' ▸ he', ht'.trans ht, ?_⟩
  rw [Entity.identity, hkey']
  exact hi

end ShapeState

theorem IdentityMap.find?_add {m : IdentityMap} {entityType : String} {key : Key} {id : Nat}
    (h : m.find? entityType key = none) (entityType' : String) (key' : Key) :
    (m.add entityType key id).find? entityType' key' =
      if (entityType', key') = (entityType, key) then some id else m.find? entityType' key' := by
  unfold add
  rw [h]
  simp only [find?, lookup_cons]
  by_cases heq : (entityType', key') = (entityType, key)
  · rw [if_pos heq, heq]
    simp
  · rw [if_neg heq, beq_eq_false_iff_ne.2 heq]

/-- The entity of a type and a key is in the graph; where nothing is shared, it is new. -/
theorem Shaping.makes_resolveEntity {properties : List (String × Binding)} {reader : Reader} {row : Row}
    (hr : reader.current = some row) (hread : ∀ p ∈ properties, p.2.ReadableOn row) (entityType : String)
    (key : List Value) {s : ShapeState} (hs : s.Sound) :
    Makes (resolveEntity entityType key properties reader) s fun (id : Nat) s' => s.Advances (fun _ => True) s' ∧
      (∃ e, s'.graph.get? id = some e ∧ e.entityType = entityType ∧ e.identity = Key.ofValues key) ∧
      (s.unshared = true → id = s.graph.size ∧
        s'.graph.get? id = some ⟨entityType, key, properties.map (fun (name, b) => (name, b.cell row)), []⟩) := by
  have hfields : properties.mapM (fun p => do return (p.1, ← p.2.read reader)) =
      Except.ok (properties.map fun p => (p.1, p.2.cell row)) := by
    rw [Except.mapM_eq_ok_iff, map_map]
    refine map_congr_left fun p hp => ?_
    obtain ⟨v, hv⟩ := hread p hp
    exact Except.bind_eq_ok_iff.2 ⟨v, (Binding.read_onRow hr).trans hv, by simp [Binding.cell_eq hv, pure, Except.pure]⟩
  let fields := properties.map fun p => (p.1, p.2.cell row)
  cases hknown : s.known.bind fun m => m.find? entityType (Key.ofValues key) with
  | some id =>
    obtain ⟨m, hm, hfind⟩ := Option.bind_eq_some_iff.1 hknown
    refine ⟨id, s, ?_, .refl _ _, hs m hm _ _ _ hfind, fun hu => ?_⟩
    · simp only [resolveEntity, steps_bind, steps_get]
      exact ⟨s, s, ⟨rfl, rfl⟩, by rw [hknown]; exact steps_pure.2 ⟨rfl, rfl⟩⟩
    · rw [ShapeState.unshared, hm] at hu
      cases hu
  | none =>
    have hget : (s.graph.add entityType key fields).2.get? s.graph.size = some ⟨entityType, key, fields, []⟩ := by
      rw [Graph.get?_add, if_pos rfl]
    refine ⟨s.graph.size, { s with
      graph := (s.graph.add entityType key fields).2
      known := s.known.map fun (m : IdentityMap) => m.add entityType (Key.ofValues key) s.graph.size }, ?_,
      ⟨Graph.extends_add _ _ _ _, fun _ => ?_, ?_, Nat.le_refl _⟩, ⟨_, hget, rfl, rfl⟩, fun _ => ⟨rfl, hget⟩⟩
    · simp only [resolveEntity, steps_bind, steps_get]
      refine ⟨s, s, ⟨rfl, rfl⟩, ?_⟩
      rw [hknown]
      simp only [hfields]
      rfl
    · intro m hm entityType' key' id' hid
      obtain ⟨m₀, hm₀, rfl⟩ := Option.map_eq_some_iff.1 hm
      rw [hm₀] at hknown
      rw [IdentityMap.find?_add hknown] at hid
      split at hid
      · next heq =>
        cases heq
        cases hid
        exact ⟨_, hget, rfl, rfl⟩
      · obtain ⟨e, he, ht, hi⟩ := hs m₀ hm₀ _ _ _ hid
        refine ⟨e, ?_, ht, hi⟩
        rw [Graph.get?_add, if_neg (Nat.ne_of_lt (Graph.lt_size_of_get? he)), he]
    · simp [ShapeState.unshared]

/-! ## Drafts of a row -/

/-- A draft that a step of shaping made: what it shows, and that its entities are new where nothing is shared. -/
structure Draft.Made (s s' : ShapeState) (d : Draft) (t : Tree) : Prop where
  advances : s.Advances (fun _ => s.unshared = true) s'
  shows : d.Shows s.unshared s'.graph t
  new : s.unshared = true → s.New s' d.ids

/-- What stands for an entity is an entity or nothing, so a navigation shows all of it. -/
theorem EntityNode.reference_eq_result {e : EntityNode} {choice : RowChoice} {first : Row} {rows : List Row}
    {unshared : Bool} {g : Graph} {d : Draft} (h : d.Shows unshared g (e.tree choice first rows)) :
    d.reference = d.result := by
  obtain ⟨entityType, key, properties, references, collections, nullable⟩ := e
  rw [EntityNode.tree] at h
  split at h
  all_goals
    cases d with
    | null | entity => rfl
    | scalar | record | collection => exact h.elim

/-- The identifier of a slot's parent can be read. -/
theorem CollectionPlace.Readable.parent {choice : RowChoice} {first : Row} {rows : List Row} {c : CollectionPlace}
    (h : c.Readable choice first rows) : ∀ b ∈ c.parent, b.ReadableOn first := by
  obtain ⟨_, _, _, _, _, _, _⟩ | _ := c
  · exact h.1
  · exact h

section Row

variable {reader : Reader} {row : Row} {choice readChoice : RowChoice} {rows readRows : List Row}

/-- A new slot shows a collection without elements. -/
theorem Slot.shows_new (hc : ∀ c, choice c row rows = []) (c : CollectionPlace) (unshared : Bool) (g : Graph)
    (number : Nat) (owner : Option (EntityId × String)) :
    Slot.Shows unshared g ⟨number, owner, Binding.keyOn c.parent row, []⟩ (c.branch choice row rows) := by
  obtain ⟨id, navigation, elementType, parent, child, element, splitParent⟩ | ⟨id, parent⟩ := c
  · simp only [Slot.Shows, CollectionPlace.branch, CollectionNode.branch, hc]
    exact ⟨rfl, by simp [presentKeys, Draft.ShowElements]⟩
  · exact ⟨rfl, trivial⟩

/-- New slots have rising numbers and no elements, and leave the graph alone. -/
theorem Shaping.makes_newSlots (hr : reader.current = some row) (hc : ∀ c, choice c row rows = []) (unshared : Bool)
    (g : Graph) (id : Nat) : ∀ (collections : List (String × CollectionPlace)),
    CollectionPlace.ReadableAll readChoice collections row readRows → ∀ s : ShapeState,
      Makes (collections.mapM fun (name, c) => newSlot c.parent (some (id, name)) reader) s fun slots s' =>
        (∃ n, s.nextSlot ≤ n ∧ s' = { s with nextSlot := n }) ∧ Slot.listIds slots = [] ∧
          (slots.map (·.number)).Pairwise (· < ·) ∧ (∀ slot ∈ slots, s.nextSlot ≤ slot.number) ∧
          Slot.ShowCollections unshared g id slots (CollectionPlace.branches choice collections row rows)
  | [], _, s => makes_pure ⟨⟨_, Nat.le_refl _, rfl⟩, rfl, .nil, nofun, trivial⟩
  | (name, c) :: collections, hread, s => by
    rw [mapM_cons]
    refine (makes_newSlot hr hread.1.parent _ s).bind fun slot s₁ h => ?_
    obtain ⟨rfl, rfl⟩ := h
    refine (Shaping.makes_newSlots hr hc unshared g id collections hread.2 _).bind fun slots s₂ h => makes_pure ?_
    obtain ⟨⟨n, hn, rfl⟩, hids, hnum, hge, hshow⟩ := h
    refine ⟨⟨n, Nat.le_of_succ_le hn, rfl⟩, hids, ?_, ?_, rfl, Slot.shows_new hc c _ _ _ _, hshow⟩
    · exact pairwise_cons.2 ⟨forall_mem_map.2 hge, hnum⟩
    · exact forall_mem_cons.2 ⟨Nat.le_refl _, fun slot hslot => Nat.le_of_succ_le (hge slot hslot)⟩

mutual

/-- An entity is decoded from a row that can be read. -/
theorem EntityNode.decode_makes (hr : reader.current = some row) (hc : ∀ c, choice c row rows = []) :
    ∀ (e : EntityNode), e.Readable readChoice row readRows → ∀ {s : ShapeState}, s.Sound →
    (e.decode .plain reader).Makes s fun d s' => Draft.Made s s' d (e.tree choice row rows)
  | ⟨entityType, key, properties, references, collections, nullable⟩, ⟨hkey, ⟨present, hpresent⟩, hread⟩, s, hs => by
    have hthere := keyPresent_eq_ok hpresent
    rw [EntityNode.decode, EntityNode.tree, hthere]
    refine Shaping.makes_ofExcept_bind ((Binding.readAll_onRow hr).trans (Binding.readAll_of_readable hkey)) ?_
    refine Shaping.makes_ofExcept_bind hpresent ?_
    cases present with
    | false => exact Shaping.makes_pure ⟨.refl _ _, trivial, fun _ => .nil _ _⟩
    | true =>
      obtain ⟨hprops, hrefs, hcols⟩ := hread hthere
      refine (Shaping.makes_resolveEntity hr hprops entityType _ hs).bind fun (id : Nat) s₁ hid => ?_
      obtain ⟨hadv₁, ⟨e, he, het, hei⟩, hnew⟩ := hid
      have hlt : id < s₁.graph.size := Graph.lt_size_of_get? he
      refine (EntityNode.decodeReferences_makes hr hc references hrefs id hlt (hadv₁.sound hs)).bind fun ds s₂ hds => ?_
      obtain ⟨hadv₂, hrefs, hnewRefs, hnav⟩ := hds
      refine (Shaping.makes_newSlots hr hc s.unshared s₂.graph id collections hcols s₂).bind fun slots s₃ hslots =>
        Shaping.makes_pure ?_
      obtain ⟨⟨n, hn, rfl⟩, hids, hnum, -, hcols⟩ := hslots
      rw [hadv₁.unshared] at hadv₂ hrefs hnewRefs hnav
      have hle₁ := hadv₁.graph.size_le
      have hle₂ := hadv₂.graph.size_le
      -- A new entity is none of those that were there, so all of them are kept.
      have hadv : s.Advances (fun _ => s.unshared = true) s₂ :=
        ((hadv₁.mono fun _ _ _ => trivial).trans hadv₂).mono fun j hj hu => ⟨hu, by
          have := (hnew hu).1
          omega⟩
      refine ⟨⟨hadv.graph, fun hs => (hadv.sound hs).extend (.refl (fun _ => True) _) rfl rfl, hadv.unshared,
        Nat.le_trans hadv.numbers hn⟩, ⟨?_, ?_, hnum, hrefs, hcols⟩, fun hu => ?_⟩
      · obtain ⟨e', he', ht', hk', -, -⟩ := hadv₂.graph.entity id e he
        refine ⟨e', he', ht'.trans het, by rw [Entity.identity, hk']; exact hei, fun hu => ?_⟩
        exact Option.some.inj (he'.symm.trans (hnav hu _ (hnew hu).2))
      · intro hu j hj
        rw [hids, append_nil] at hj
        exact Nat.lt_of_lt_of_le hlt ((hnewRefs hu).range j hj).1
      · rw [Draft.ids, hids, append_nil]
        have hid := (hnew hu).1
        refine ⟨nodup_cons.2 ⟨fun hmem => ?_, (hnewRefs hu).nodup⟩, forall_mem_cons.2 ⟨?_, fun j hj => ?_⟩⟩
        · have := (hnewRefs hu).range id hmem
          omega
        · exact ⟨by omega, Nat.lt_of_lt_of_le hlt hle₂⟩
        · have := (hnewRefs hu).range j hj
          exact ⟨by omega, this.2⟩

theorem EntityNode.decodeReferences_makes (hr : reader.current = some row) (hc : ∀ c, choice c row rows = []) :
    ∀ (references : List (String × EntityNode)),
    EntityNode.ReadableReferences readChoice references row readRows → ∀ (id : Nat) {s : ShapeState},
      id < s.graph.size → s.Sound → (EntityNode.decodeReferences .plain references id reader).Makes s fun ds s' =>
        s.Advances (fun j => s.unshared = true ∧ j ≠ id) s' ∧
          Draft.ShowReferences s.unshared s'.graph ds (EntityNode.referenceTrees choice references row rows) ∧
          (s.unshared = true → s.New s' (Draft.listIds ds)) ∧
          (s.unshared = true → ∀ e, s.graph.get? id = some e → s'.graph.get? id = some { e with
            navigations := Entity.putAll e.navigations
              (Draft.navigations (EntityNode.referenceTrees choice references row rows) ds) })
  | [], _, id, s, _, _ => Shaping.makes_pure ⟨.refl _ _, trivial, fun _ => .nil _ _, fun _ _ he => he⟩
  | (name, target) :: rest, hread, id, s, hlt, hs => by
    refine (EntityNode.decode_makes hr hc target hread.1 hs).bind fun d s₁ hmade => ?_
    have hle := hmade.advances.graph.size_le
    -- Setting the navigation touches the entity `id` alone, which is older than everything in `d`.
    let s₂ : ShapeState := { s₁ with graph := s₁.graph.setNavigation id name d.reference }
    have hset : s₁.graph.Extends (fun j => s.unshared = true ∧ j ≠ id) s₂.graph :=
      Graph.extends_setNavigation _ _ fun h => h.2 rfl
    have hadv₁ : s₁.Advances (fun j => s.unshared = true ∧ j ≠ id) s₂ :=
      ⟨hset, fun hs₁ => hs₁.extend hset rfl rfl, rfl, Nat.le_refl _⟩
    have hsize : s₂.graph.size = s₁.graph.size := Graph.size_setNavigation _ _
    refine Shaping.Makes.bind ⟨(), s₂, rfl, rfl⟩ fun _ s' (hs' : s' = s₂) => ?_
    subst hs'
    refine (EntityNode.decodeReferences_makes hr hc rest hread.2 id (by omega)
      (hadv₁.sound (hmade.advances.sound hs))).bind fun ds s₃ hds => Shaping.makes_pure ?_
    obtain ⟨hadv, hrefs, hnew, hnav⟩ := hds
    rw [hadv₁.unshared.trans hmade.advances.unshared] at hadv hrefs hnew hnav
    refine ⟨(hmade.advances.mono fun j _ h => h.1).trans (hadv₁.trans hadv), ⟨?_,
      EntityNode.reference_eq_result hmade.shows, hrefs⟩, fun hu => ?_, fun hu e he => ?_⟩
    · refine Draft.Shows.extend (hset.trans hadv.graph) d _ (fun hu j hj => ⟨hu, ?_⟩) hmade.shows
      have := (hmade.new hu).range j hj
      omega
    · have hd : s.New s₂ d.ids := ⟨(hmade.new hu).nodup, fun j hj => hsize ▸ (hmade.new hu).range j hj⟩
      exact hd.append (hnew hu) (by omega) hadv.graph.size_le
    · obtain ⟨e₁, he₁, -, -, -, hsame⟩ := hmade.advances.graph.entity id e he
      rw [hsame hu] at he₁
      refine hnav hu (e.setNavigation name d.reference) ?_
      rw [Graph.get?_setNavigation, if_pos rfl, he₁]
      rfl

end

mutual

/-- A draft is decoded from a row that can be read. -/
theorem Node.decode_makes (hr : reader.current = some row) (hc : ∀ c, choice c row rows = []) :
    ∀ (n : Node), n.Readable readChoice row readRows → ∀ {s : ShapeState}, s.Sound →
    (n.decode .plain reader).Makes s fun d s' => Draft.Made s s' d (n.tree choice row rows)
  | .scalar b, ⟨v, hv⟩, s, _ => by
    rw [Node.decode, Node.tree, Binding.cell_eq hv]
    refine Shaping.makes_ofExcept_bind ((Binding.read_onRow hr).trans hv) ?_
    cases v <;> exact Shaping.makes_pure ⟨.refl _ _, by simp [Draft.Shows], fun _ => .nil _ _⟩
  | .entity e, hread, s, hs => EntityNode.decode_makes hr hc e hread hs
  | .collection c, hread, s, _ => by
    refine (Shaping.makes_newSlot hr (CollectionPlace.Readable.parent hread) none s).bind fun slot s' h =>
      Shaping.makes_pure ?_
    obtain ⟨rfl, rfl⟩ := h
    exact ⟨⟨.refl _ _, fun hs => hs.extend (.refl (fun _ => True) _) rfl rfl, rfl, Nat.le_succ _⟩,
      ⟨rfl, Slot.shows_new hc c _ _ _ _⟩, fun _ => .nil _ _⟩
  | .record members, hread, s, hs =>
    (Node.decodeMembers_makes hr hc members hread hs).bind fun _ _ h => Shaping.makes_pure ⟨h.1, h.2.1, h.2.2⟩

theorem Node.decodeMembers_makes (hr : reader.current = some row) (hc : ∀ c, choice c row rows = []) :
    ∀ (members : List (String × Node)),
    Node.ReadableMembers readChoice members row readRows → ∀ {s : ShapeState}, s.Sound →
      (Node.decodeMembers .plain members reader).Makes s fun ds s' => s.Advances (fun _ => s.unshared = true) s' ∧
        Draft.ShowMembers s.unshared s'.graph ds (Node.memberTrees choice members row rows) ∧
        (s.unshared = true → s.New s' (Draft.memberIds ds))
  | [], _, s, _ => Shaping.makes_pure ⟨.refl _ _, trivial, fun _ => .nil _ _⟩
  | (name, member) :: rest, hread, s, hs => by
    refine (Node.decode_makes hr hc member hread.1 hs).bind fun d s₁ hmade => ?_
    refine (Node.decodeMembers_makes hr hc rest hread.2 (hmade.advances.sound hs)).bind fun ds s₂ hds =>
      Shaping.makes_pure ?_
    obtain ⟨hadv, hshow, hnew⟩ := hds
    rw [hmade.advances.unshared] at hadv hshow hnew
    exact ⟨hmade.advances.trans hadv,
      ⟨rfl, Draft.shows_kept d _ hadv.graph hmade.shows, hshow⟩,
      fun hu => (hmade.new hu).append (hnew hu) hmade.advances.graph.size_le hadv.graph.size_le⟩

end

end Row

end QueryShaping
