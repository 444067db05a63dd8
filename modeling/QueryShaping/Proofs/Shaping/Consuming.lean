import QueryShaping.Proofs.Shaping.Elements

/-!
# Consuming a row

A draft that shows the tree of some rows shows, after one more row has been consumed, the tree of these rows and that
one. So the slots undo the product that several joined collections make of each other: a row adds to each of them the
element that it carries, and only that.
-/

namespace QueryShaping

open List

namespace ShapeState

variable {s s' s'' : ShapeState}

/-- A step that keeps the entities of a draft and may give it new ones. -/
structure Grows (s s' : ShapeState) (old ids : List Nat) : Prop where
  advances : s.Advances (fun _ => s.unshared = true) s'
  adds : s.unshared = true → ∃ new, ids.Perm (old ++ new) ∧ s.New s' new

theorem Grows.refl (s : ShapeState) (ids : List Nat) : s.Grows s ids ids :=
  ⟨.refl _ _, fun _ => ⟨[], by simp, .nil _ _⟩⟩

theorem Grows.append {a a' b b' : List Nat} (h : s.Grows s' a a') (h' : s'.Grows s'' b b') :
    s.Grows s'' (a ++ b) (a' ++ b') := by
  have hun := h.advances.unshared
  have hadv := h'.advances
  rw [hun] at hadv
  refine ⟨h.advances.trans hadv, fun hu => ?_⟩
  obtain ⟨new, hperm, hnew⟩ := h.adds hu
  obtain ⟨new', hperm', hnew'⟩ := h'.adds (hun.trans hu)
  refine ⟨new ++ new', ?_, hnew.append hnew' h.advances.graph.size_le hadv.graph.size_le⟩
  refine (hperm.append hperm').trans ?_
  rw [append_assoc, append_assoc]
  refine List.Perm.append_left a ?_
  rw [← append_assoc, ← append_assoc]
  exact List.perm_append_comm.append_right new'

theorem Grows.trans {a b c : List Nat} (h : s.Grows s' a b) (h' : s'.Grows s'' b c) : s.Grows s'' a c := by
  have hun := h.advances.unshared
  have hadv := h'.advances
  rw [hun] at hadv
  refine ⟨h.advances.trans hadv, fun hu => ?_⟩
  obtain ⟨new, hperm, hnew⟩ := h.adds hu
  obtain ⟨new', hperm', hnew'⟩ := h'.adds (hun.trans hu)
  refine ⟨new ++ new', ?_, hnew.append hnew' h.advances.graph.size_le hadv.graph.size_le⟩
  refine hperm'.trans ?_
  rw [← append_assoc]
  exact hperm.append_right new'

/-- What is known of the graph is known after a step too. -/
theorem Grows.still {old ids : List Nat} {R : Bool → Graph → Prop} (h : s.Grows s' old ids) (hR : Graph.Kept R)
    (hr : R s.unshared s.graph) : R s'.unshared s'.graph := by
  rw [h.advances.unshared]
  exact hR h.advances.graph hr

/-- All that an entity is given was made after it. -/
theorem Grows.rising {id : Nat} {old ids : List Nat} (h : s.Grows s' old ids) (hid : id < s.graph.size)
    (hold : s.unshared = true → ∀ j ∈ old, id < j) : s.unshared = true → ∀ j ∈ ids, id < j := by
  intro hu j hj
  obtain ⟨new, hperm, hnew⟩ := h.adds hu
  rcases mem_append.1 (hperm.mem_iff.1 hj) with hj | hj
  · exact hold hu j hj
  · exact Nat.lt_of_lt_of_le hid (hnew.range j hj).1

/-- A draft that is made and then grows has new entities only. -/
theorem Grows.new {ids ids' : List Nat} (h : s'.Grows s'' ids ids') (hs : s.Advances (fun _ => s.unshared = true) s')
    (hnew : s.unshared = true → s.New s' ids) : s.Grows s'' [] ids' := by
  have hun := hs.unshared
  have hadv := h.advances
  rw [hun] at hadv
  refine ⟨hs.trans hadv, fun hu => ?_⟩
  obtain ⟨new, hperm, hnew'⟩ := h.adds (hun.trans hu)
  exact ⟨ids ++ new, hperm, (hnew hu).append hnew' hs.graph.size_le hadv.graph.size_le⟩

/-- A step that keeps the entities of a draft, may give it new ones, and leaves a graph with what is stated. -/
structure Gives (s s' : ShapeState) (old ids : List Nat) (R : Bool → Graph → Prop) : Prop where
  grows : s.Grows s' old ids
  shows : R s.unshared s'.graph

theorem Gives.append {a a' b b' : List Nat} {R R' : Bool → Graph → Prop} (h : s.Gives s' a a' R) (hR : Graph.Kept R)
    (h' : s'.Gives s'' b b' R') : s.Gives s'' (a ++ b) (a' ++ b') fun u g => R u g ∧ R' u g := by
  obtain ⟨hgrows', hshows'⟩ := h'
  have hgraph := hgrows'.advances.graph
  rw [h.grows.advances.unshared] at hgraph hshows'
  exact ⟨h.grows.append hgrows', hR hgraph h.shows, hshows'⟩

/-- An entity shows what its references and its slots show. -/
theorem Gives.entity {id : Nat} {ds ds' : List Draft} {slots slots' : List Slot} {entityType : String} {key : List Value}
    {fields : List (String × Value)} {references references' : List (String × Tree)}
    {collections collections' : List (String × Branch)}
    (hd : (Draft.entity id ds slots).Shows s.unshared s.graph (.entity entityType key fields references collections))
    (h : s.Gives s' (Draft.listIds ds ++ Slot.listIds slots) (Draft.listIds ds' ++ Slot.listIds slots') fun u g =>
      Draft.ShowReferences u g ds' references' ∧ Slot.ShowCollections u g id slots' collections')
    (hnavigations : Draft.navigations references' ds' = Draft.navigations references ds)
    (hnumbers : slots'.map (·.number) = slots.map (·.number)) :
    s.Gives s' (Draft.entity id ds slots).ids (Draft.entity id ds' slots').ids fun u g =>
      (Draft.entity id ds' slots').Shows u g (.entity entityType key fields references' collections') := by
  obtain ⟨hholds, hrise, hnum, -, -⟩ := hd
  have hid : id < s.graph.size := by
    obtain ⟨e, he, -⟩ := hholds
    exact Graph.lt_size_of_get? he
  refine ⟨⟨h.grows.advances, fun hu => ?_⟩, ?_⟩
  · obtain ⟨new, hperm, hnew⟩ := h.grows.adds hu
    exact ⟨new, hperm.cons id, hnew⟩
  · rw [Draft.Shows, hnavigations, hnumbers]
    exact ⟨hholds.extend h.grows.advances.graph fun hu => hu, h.grows.rising hid hrise, hnum, h.shows⟩

end ShapeState

section Row

variable {reader : Reader} {row : Row}

open Shaping

mutual

/-- A row among readable ones is consumed by all slots of a draft that has consumed those before it. -/
theorem Node.consume_makes (hr : reader.current = some row) : ∀ (n : Node) {first : Row} {before after : List Row},
    n.Each CollectionNode.Acyclic → n.Readable .joined first (before ++ row :: after) →
      ∀ {s : ShapeState} {d : Draft}, s.Sound → d.Shows s.unshared s.graph (n.tree .joined first before) →
      Makes (n.consume .plain d reader) s fun d' s' =>
        s.Gives s' d.ids d'.ids fun u g => d'.Shows u g (n.tree .joined first (before ++ [row]))
  | .scalar b, _, _, _, _, _, s, d, _, hd => ⟨d, s, by cases d <;> rfl, .refl _ _, hd⟩
  | .entity e, _, _, _, heach, h, s, d, hs, hd => by
    obtain ⟨d', s', hsteps, hgives, -⟩ := EntityNode.consume_makes hr e heach h hs hd
    exact ⟨d', s', hsteps, hgives⟩
  | .collection c, _, _, _, heach, h, s, d, hs, hd => by
    obtain ⟨slot, rfl⟩ := hd.collection
    refine (CollectionPlace.consume_makes hr c heach h hs hd.2).bind fun slot' s' hslot => makes_pure ?_
    exact ⟨hslot.1.grows, hslot.2.2.trans hd.1, hslot.1.shows⟩
  | .record members, _, _, _, heach, h, s, d, hs, hd => by
    obtain ⟨ds, rfl⟩ := hd.record
    exact (Node.consumeMembers_makes hr members heach h hs hd).bind fun ds' s' hds => makes_pure ⟨hds.grows, hds.shows⟩

theorem EntityNode.consume_makes (hr : reader.current = some row) :
    ∀ (e : EntityNode) {first : Row} {before after : List Row},
    e.Each CollectionNode.Acyclic → e.Readable .joined first (before ++ row :: after) →
      ∀ {s : ShapeState} {d : Draft}, s.Sound → d.Shows s.unshared s.graph (e.tree .joined first before) →
      Makes (e.consume .plain d reader) s fun d' s' =>
        s.Gives s' d.ids d'.ids (fun u g => d'.Shows u g (e.tree .joined first (before ++ [row]))) ∧
          d'.reference = d.reference
  | ⟨_, key, _, references, collections, _⟩, first, _, _, heach, h, s, d, hs, hd => by
    simp only [EntityNode.tree] at hd ⊢
    cases hkey : keyOnRow key first with
    | true =>
      rw [hkey] at hd
      obtain ⟨-, hrefs, hcols⟩ := h.2.2 hkey
      obtain ⟨id, ds, slots, rfl⟩ := hd.entity
      have hshown := hd
      obtain ⟨-, -, -, hds, hslots⟩ := hshown
      refine (EntityNode.consumeReferences_makes hr references heach.1 hrefs hs hds).bind fun ds' s₁ hds' => ?_
      refine (CollectionPlace.consumeAll_makes hr collections heach.2 hcols (hds'.1.grows.advances.sound hs)
        (hds'.1.grows.still (Slot.showCollections_kept id _ _) hslots)).bind fun slots' s₂ hslots' => makes_pure ?_
      exact ⟨.entity hd (hds'.1.append (Draft.showReferences_kept _ _) hslots'.1) hds'.2 hslots'.2, rfl⟩
    | false =>
      rw [hkey] at hd
      obtain rfl := hd.null
      exact makes_pure ⟨⟨.refl _ _, trivial⟩, rfl⟩

theorem CollectionPlace.consume_makes (hr : reader.current = some row) :
    ∀ (c : CollectionPlace) {first : Row} {before after : List Row},
    c.Each CollectionNode.Acyclic → c.Readable .joined first (before ++ row :: after) →
      ∀ {s : ShapeState} {slot : Slot}, s.Sound → slot.Shows s.unshared s.graph (c.branch .joined first before) →
      Makes (c.consume .plain slot reader) s fun slot' s' =>
        s.Gives s' slot.ids slot'.ids (fun u g => slot'.Shows u g (c.branch .joined first (before ++ [row]))) ∧
          slot'.number = slot.number ∧ slot'.owner = slot.owner
  | .again _ _, _, _, _, heach, _, _, _, _, _ => heach.elim
  | .here ⟨_, _, _, _, child, element, _⟩, first, before, after, heach, ⟨_, hchild, helement⟩, s,
      ⟨number, owner, _, elements⟩, hs, ⟨hkey, hd⟩ => by
    simp only [CollectionPlace.branch, CollectionNode.branch, RowChoice.joined] at hd hchild helement ⊢
    have hread : Binding.readKey child reader = .ok (Binding.keyOn child row) :=
      (Binding.readKey_onRow hr).trans (Binding.readKey_of_readable (hchild row (by simp)))
    cases hnull : (Binding.keyOn child row).allNull with
    | true =>
      -- The row carries no element.
      refine ⟨_, s, steps_bind.2 ⟨_, s, element_none hread hnull, rfl⟩, ⟨.refl _ _, hkey, ?_⟩, rfl, rfl⟩
      rw [presentKeys_append_same (.inl hnull)]
      have hother : ∀ k ∈ presentKeys child before, rowsWith child k (before ++ [row]) = rowsWith child k before := by
        intro k hk
        refine rowsWith_append_other fun heq => ?_
        have hpresent := (mem_presentKeys.1 hk).1
        rw [← heq, hnull] at hpresent
        cases hpresent
      rw [map_congr_left fun k hk => by rw [hother k hk]]
      exact hd
    | false =>
      have helement := helement _ (mem_presentKeys.2 ⟨hnull, row, by simp, rfl⟩)
      rw [rowsWith_append, rowsWith_cons_same rfl] at helement
      cases hfind : elements.lookup (Binding.keyOn child row) with
      | some d =>
        -- The element is there already and takes the row.
        obtain ⟨hmem, hshow⟩ := hd.of_lookup hfind
        have hhead : ∀ own : List Row, (rowsWith child (Binding.keyOn child row) before ++ own).headD [] =
            (rowsWith child (Binding.keyOn child row) before).headD [] := by
          intro own
          cases hrows : rowsWith child (Binding.keyOn child row) before with
          | nil => exact absurd hrows (rowsWith_ne_nil hmem)
          | cons r rs => rfl
        rw [hhead] at helement
        obtain ⟨d', s', hsteps, hgrows, hshow'⟩ := Node.consume_makes hr element heach.2 helement hs hshow
        refine ⟨_, s', steps_bind.2 ⟨_, s, element_known hread hnull hfind, steps_bind.2 ⟨d', s', hsteps, rfl⟩⟩,
          ⟨⟨hgrows.advances, fun hu => ?_⟩, hkey, ?_⟩, rfl, rfl⟩
        · obtain ⟨new, hperm, hnew⟩ := hgrows.adds hu
          exact ⟨new, Draft.elementIds_put_known hfind hperm, hnew⟩
        · rw [presentKeys_append_same (.inr hmem)]
          refine (Draft.showElements_kept _ _ hgrows.advances.graph hd).put_known (nodup_presentKeys child before) hmem
            (fun k _ hne => ?_) ?_
          · rw [rowsWith_append_other hne.symm]
          · rw [rowsWith_append_same rfl, hhead]
            exact hshow'
      | none =>
        -- The element is new, and the row is the first of its rows.
        have hmem := hd.not_mem_of_lookup hfind
        rw [rowsWith_eq_nil hnull hmem] at helement
        obtain ⟨d, s₁, hdecode, hmade⟩ := @Node.decode_makes _ _ .joined .joined [] _ hr (fun _ => rfl) element helement s hs
        obtain ⟨d', s', hsteps, hgrows, hshow⟩ := Node.consume_makes hr element heach.2 helement (hmade.advances.sound hs)
          (by rw [hmade.advances.unshared]; exact hmade.shows)
        rw [hmade.advances.unshared] at hshow
        have hgrow := hgrows.new hmade.advances hmade.new
        refine ⟨_, s', steps_bind.2 ⟨_, s₁, element_new hread hnull hfind hdecode,
          steps_bind.2 ⟨d', s', hsteps, rfl⟩⟩, ⟨⟨hgrow.advances, fun hu => ?_⟩, hkey, ?_⟩, rfl, rfl⟩
        · obtain ⟨new, hperm, hnew⟩ := hgrow.adds hu
          refine ⟨new, ?_, hnew⟩
          simp only [Slot.put, Slot.ids]
          rw [Draft.elementIds_put_new hfind]
          exact hperm.append_left _
        · rw [presentKeys_append_new hnull hmem]
          refine (Draft.showElements_kept _ _ hgrow.advances.graph hd).put_new hmem (fun k hk => ?_) ?_
          · rw [rowsWith_append_other fun heq => hmem (heq ▸ hk)]
          · rw [rowsWith_append_same rfl, rowsWith_eq_nil hnull hmem]
            exact hshow

theorem Node.consumeMembers_makes (hr : reader.current = some row) :
    ∀ (members : List (String × Node)) {first : Row} {before after : List Row},
    Node.EachMember CollectionNode.Acyclic members →
      Node.ReadableMembers .joined members first (before ++ row :: after) →
      ∀ {s : ShapeState} {ds : List (String × Draft)}, s.Sound →
      Draft.ShowMembers s.unshared s.graph ds (Node.memberTrees .joined members first before) →
      Makes (Node.consumeMembers .plain members ds reader) s fun ds' s' =>
        s.Gives s' (Draft.memberIds ds) (Draft.memberIds ds') fun u g =>
          Draft.ShowMembers u g ds' (Node.memberTrees .joined members first (before ++ [row]))
  | [], _, _, _, _, _, s, ds, _, hd => by
    obtain rfl := hd.nil
    exact makes_pure ⟨.refl _ _, trivial⟩
  | (name, member) :: rest, _, _, _, heach, h, s, ds, hs, hd => by
    obtain ⟨d, ds, rfl⟩ := hd.cons
    refine (Node.consume_makes hr member heach.1 h.1 hs hd.2.1).bind fun d' s₁ hd' => ?_
    refine (Node.consumeMembers_makes hr rest heach.2 h.2 (hd'.grows.advances.sound hs)
      (hd'.grows.still (Draft.showMembers_kept _ _) hd.2.2)).bind fun ds' s₂ hds' => makes_pure ?_
    obtain ⟨hgrows, hshows⟩ := hd'.append (Draft.shows_kept _ _) hds'
    exact ⟨hgrows, rfl, hshows⟩

theorem EntityNode.consumeReferences_makes (hr : reader.current = some row) :
    ∀ (references : List (String × EntityNode)) {first : Row}
    {before after : List Row}, EntityNode.EachReference CollectionNode.Acyclic references →
      EntityNode.ReadableReferences .joined references first (before ++ row :: after) →
      ∀ {s : ShapeState} {ds : List Draft}, s.Sound →
      Draft.ShowReferences s.unshared s.graph ds (EntityNode.referenceTrees .joined references first before) →
      Makes (EntityNode.consumeReferences .plain references ds reader) s fun ds' s' =>
        s.Gives s' (Draft.listIds ds) (Draft.listIds ds') (fun u g =>
          Draft.ShowReferences u g ds' (EntityNode.referenceTrees .joined references first (before ++ [row]))) ∧
        Draft.navigations (EntityNode.referenceTrees .joined references first (before ++ [row])) ds' =
          Draft.navigations (EntityNode.referenceTrees .joined references first before) ds
  | [], _, _, _, _, _, s, ds, _, hd => by
    obtain rfl := hd.nil
    exact makes_pure ⟨⟨.refl _ _, trivial⟩, rfl⟩
  | (name, target) :: rest, _, _, _, heach, h, s, ds, hs, hd => by
    obtain ⟨d, ds, rfl⟩ := hd.cons
    refine (EntityNode.consume_makes hr target heach.1 h.1 hs hd.1).bind fun d' s₁ hd' => ?_
    refine (EntityNode.consumeReferences_makes hr rest heach.2 h.2 (hd'.1.grows.advances.sound hs)
      (hd'.1.grows.still (Draft.showReferences_kept _ _) hd.2.2)).bind fun ds' s₂ hds' => makes_pure ?_
    obtain ⟨hgrows, hshow, hshows⟩ := hd'.1.append (Draft.shows_kept _ _) hds'.1
    refine ⟨⟨hgrows, hshow, EntityNode.reference_eq_result hshow, hshows⟩, ?_⟩
    simp only [EntityNode.referenceTrees, Draft.navigations, hd'.2, hds'.2]

theorem CollectionPlace.consumeAll_makes (hr : reader.current = some row) :
    ∀ (collections : List (String × CollectionPlace)) {id : Nat} {first : Row}
    {before after : List Row}, CollectionPlace.EachOf CollectionNode.Acyclic collections →
      CollectionPlace.ReadableAll .joined collections first (before ++ row :: after) →
      ∀ {s : ShapeState} {slots : List Slot}, s.Sound →
      Slot.ShowCollections s.unshared s.graph id slots (CollectionPlace.branches .joined collections first before) →
      Makes (CollectionPlace.consumeAll .plain collections slots reader) s fun slots' s' =>
        s.Gives s' (Slot.listIds slots) (Slot.listIds slots') (fun u g => Slot.ShowCollections u g id slots'
          (CollectionPlace.branches .joined collections first (before ++ [row]))) ∧
        slots'.map (·.number) = slots.map (·.number)
  | [], _, _, _, _, _, _, s, slots, _, hd => by
    obtain rfl := hd.nil
    exact makes_pure ⟨⟨.refl _ _, trivial⟩, rfl⟩
  | (name, c) :: rest, _, _, _, _, heach, h, s, slots, hs, hd => by
    obtain ⟨slot, slots, rfl⟩ := hd.cons
    refine (CollectionPlace.consume_makes hr c heach.1 h.1 hs hd.2.1).bind fun slot' s₁ hslot => ?_
    refine (CollectionPlace.consumeAll_makes hr rest heach.2 h.2 (hslot.1.grows.advances.sound hs)
      (hslot.1.grows.still (Slot.showCollections_kept _ _ _) hd.2.2)).bind fun slots' s₂ hslots => makes_pure ?_
    obtain ⟨hgrows, hshows⟩ := hslot.1.append (Slot.shows_kept _ _) hslots.1
    refine ⟨⟨hgrows, hslot.2.2.trans hd.1, hshows⟩, ?_⟩
    rw [map_cons, map_cons, hslot.2.1, hslots.2]

end

end Row

end QueryShaping
