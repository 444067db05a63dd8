import QueryShaping.Proofs.Program.Compile
import QueryShaping.Proofs.Revision.ColumnNames

/-!
# Joined collections

What is known of a shape after its collections have been joined, whatever the query is. Joining goes through the shape
and through the shapes inside its element queries, and it stops at a collection that has been joined before. So each
collection that it meets gets the next number, in the order in which the collections stand afterwards; and what is still
to be joined afterwards stands inside collections that had been joined before.
-/

namespace QueryShaping

open List Joining

mutual

/-- The collections that are joined already, also those in the shapes of element queries. Those inside another one are
left out. -/
def Shape.joinedAlready : Shape → List CollectionShape
  | .scalar .. => []
  | .entity e => e.joinedAlready
  | .collection c => [c]
  | .pending p => p.joinedAlready
  | .record members => Member.joinedAlready members

def EntityShape.joinedAlready : EntityShape → List CollectionShape
  | ⟨_, _, _, navigations, _⟩ => Navigation.joinedAlready navigations

def PendingCollection.joinedAlready : PendingCollection → List CollectionShape
  | ⟨_, _, _, _, ⟨_, shape⟩, _, _⟩ => shape.joinedAlready

def Navigation.targetJoined : Navigation → List CollectionShape
  | ⟨_, target⟩ => target.joinedAlready

def Navigation.joinedAlready : List Navigation → List CollectionShape
  | [] => []
  | n :: rest => n.targetJoined ++ Navigation.joinedAlready rest

def Member.shapeJoined : Member → List CollectionShape
  | ⟨_, shape⟩ => shape.joinedAlready

def Member.joinedAlready : List Member → List CollectionShape
  | [] => []
  | m :: rest => m.shapeJoined ++ Member.joinedAlready rest

end

/-- The queries of their own that some collections have. -/
def splitQueries (collections : List CollectionShape) : List Select :=
  collections.filterMap fun c => c.split.map (·.query)

/-- The queries of their own of a collection and of those inside its elements. -/
def CollectionShape.ownQueries (c : CollectionShape) : List Select :=
  splitQueries (c :: c.inner)

/-! ## What joining does -/

/-- What joining does to a shape with these collections in it, some joined already and some not: afterwards it has to be
joined still or not, and it has collections. If none was joined before, the collections are numbered in turn and have
queries of their own in split mode only. Columns that were named apart still are. -/
structure Applied (split : Bool) (already : List CollectionShape) (pendings : List PendingCollection) (target : Select)
    (fresh : Fresh) (pending : Bool) (collections : List CollectionShape) (target' : Select) (fresh' : Fresh) : Prop where
  pending_eq : pending = already.any CollectionShape.hasPending
  numbered : already = [] → collections.map (·.id) = List.range' fresh.nextCollection pendings.length
  counted : already = [] → fresh'.nextCollection = fresh.nextCollection + pendings.length
  split_eq : already = [] → ∀ c ∈ collections, c.split.isSome = split
  named : target.Named → (∀ p ∈ pendings, p.inner.query.Named) → (∀ c ∈ already, ∀ q ∈ c.ownQueries, q.Named) →
    target'.Named ∧ ∀ q ∈ splitQueries collections, q.Named

namespace Applied

variable {split : Bool} {already already' : List CollectionShape} {pendings pendings' : List PendingCollection}
  {target mid target' : Select} {fresh fresh₁ fresh' : Fresh} {pending pending' : Bool}
  {collections collections' : List CollectionShape}

theorem nil : Applied split [] [] target fresh false [] target fresh :=
  ⟨rfl, fun _ => rfl, fun _ => rfl, nofun, fun h _ _ => ⟨h, nofun⟩⟩

theorem append (h : Applied split already pendings target fresh pending collections mid fresh₁)
    (h' : Applied split already' pendings' mid fresh₁ pending' collections' target' fresh') :
    Applied split (already ++ already') (pendings ++ pendings') target fresh (pending || pending')
      (collections ++ collections') target' fresh' where
  pending_eq := by rw [h.pending_eq, h'.pending_eq, any_append]
  numbered hnone := by
    obtain ⟨hnone, hnone'⟩ := append_eq_nil_iff.1 hnone
    rw [map_append, h.numbered hnone, h'.numbered hnone', h.counted hnone, length_append, range'_append_1]
  counted hnone := by
    obtain ⟨hnone, hnone'⟩ := append_eq_nil_iff.1 hnone
    rw [h'.counted hnone', h.counted hnone, length_append, Nat.add_assoc]
  split_eq hnone := by
    obtain ⟨hnone, hnone'⟩ := append_eq_nil_iff.1 hnone
    exact forall_mem_append.2 ⟨h.split_eq hnone, h'.split_eq hnone'⟩
  named htarget hpendings halready := by
    rw [forall_mem_append] at hpendings halready
    obtain ⟨hmid, hcollections⟩ := h.named htarget hpendings.1 halready.1
    obtain ⟨htarget', hcollections'⟩ := h'.named hmid hpendings.2 halready.2
    refine ⟨htarget', ?_⟩
    rw [splitQueries, filterMap_append]
    exact forall_mem_append.2 ⟨hcollections, hcollections'⟩

/-- A collection that is joined already stays what it is, its indices apart. -/
theorem single {c c' : CollectionShape} (hpending : c'.hasPending = c.hasPending) (hown : c'.ownQueries = c.ownQueries) :
    Applied split [c] c.pendings target fresh c'.hasPending (c' :: c'.inner) target fresh where
  pending_eq := by simp [hpending]
  numbered := nofun
  counted := nofun
  split_eq := nofun
  named htarget _ halready := ⟨htarget, fun q hq => halready c mem_cons_self q (hown ▸ (show q ∈ c'.ownQueries from hq))⟩

theorem of_target (h : Applied split already pendings mid fresh₁ pending collections target' fresh')
    (hmid : target.Named → mid.Named) (hcount : fresh₁.nextCollection = fresh.nextCollection) :
    Applied split already pendings target fresh pending collections target' fresh' :=
  ⟨h.pending_eq, hcount ▸ h.numbered, hcount ▸ h.counted, h.split_eq, fun htarget => h.named (hmid htarget)⟩

/-- A collection that has been joined comes before those inside its elements. -/
theorem complete {a : Attached} {p : PendingCollection} {element : Shape} (hid : a.id = fresh.nextCollection)
    (hcount : fresh₁.nextCollection = fresh.nextCollection + 1) (hsplit : a.joined.splitParent.isSome = split)
    (hnamed : target.Named → p.inner.query.Named → a.target.Named ∧ a.joined.query.Named)
    (h : Applied split already pendings a.joined.query fresh₁ element.hasPending element.collections mid fresh')
    (navigation : Option String) {c : CollectionShape}
    (hc : a.complete navigation p.elementType element mid = (c, target')) :
    Applied split already (p :: pendings) target fresh c.hasPending (c :: c.inner) target' fresh' := by
  have hcomplete : c.id = a.id ∧ c.element = element ∧ c.split.isSome = split ∧
      (a.target.Named → mid.Named → target'.Named ∧ ∀ q ∈ splitQueries [c], q.Named) := by
    unfold Attached.complete at hc
    cases hparent : a.joined.splitParent with
    | some splitParent =>
      rw [hparent] at hc hsplit
      cases hc
      exact ⟨rfl, rfl, hsplit, fun htarget hmid => ⟨htarget, forall_mem_singleton.2 hmid⟩⟩
    | none =>
      rw [hparent] at hc hsplit
      cases hc
      exact ⟨rfl, rfl, hsplit, fun _ hmid => ⟨hmid, nofun⟩⟩
  obtain ⟨hcid, rfl, hcsplit, hcnamed⟩ := hcomplete
  obtain ⟨id, _, _, _, _, element, own⟩ := c
  refine ⟨h.pending_eq, fun hnone => ?_, fun hnone => ?_, fun hnone => ?_, fun htarget hpendings halready => ?_⟩
  · rw [map_cons, hcid, hid, length_cons, range'_succ, ← hcount]
    exact congrArg _ (h.numbered hnone)
  · rw [h.counted hnone, hcount, length_cons, Nat.add_assoc, Nat.add_comm 1]
  · exact forall_mem_cons.2 ⟨hcsplit, h.split_eq hnone⟩
  · rw [forall_mem_cons] at hpendings
    obtain ⟨htarget, hjoined⟩ := hnamed htarget hpendings.1
    obtain ⟨hmid, hinner⟩ := h.named hjoined hpendings.2 halready
    obtain ⟨htarget', hown⟩ := hcnamed htarget hmid
    refine ⟨htarget', ?_⟩
    rw [splitQueries, ← singleton_append, filterMap_append]
    exact forall_mem_append.2 ⟨hown, hinner⟩

end Applied

/-! ## Collections that are joined already -/

/-- Moving a shape leaves its collections as they are, their indices apart. -/
theorem CollectionShape.remap_keeps (move : IndexMove) : ∀ c c' : CollectionShape, c.remap move = .ok c' →
    c'.hasPending = c.hasPending ∧ c'.ownQueries = c.ownQueries := by
  apply CollectionShape.remap.induct
    (fun s => ∀ s', s.remap move = .ok s' →
      s'.hasPending = s.hasPending ∧ splitQueries s'.collections = splitQueries s.collections)
    (fun ms => ∀ ms', Member.remapAll move ms = .ok ms' → Member.anyPending ms' = Member.anyPending ms ∧
      splitQueries (Member.collections ms') = splitQueries (Member.collections ms))
    (fun m => ∀ m', m.remap move = .ok m' →
      m'.hasPending = m.hasPending ∧ splitQueries m'.shapeCollections = splitQueries m.shapeCollections)
    (fun c => ∀ c', c.remap move = .ok c' → c'.hasPending = c.hasPending ∧ c'.ownQueries = c.ownQueries)
    (fun e => ∀ e', e.remap move = .ok e' →
      e'.hasPending = e.hasPending ∧ splitQueries e'.collections = splitQueries e.collections)
    (fun ns => ∀ ns', Navigation.remapAll move ns = .ok ns' → Navigation.anyPending ns' = Navigation.anyPending ns ∧
      splitQueries (Navigation.collections ns') = splitQueries (Navigation.collections ns))
    (fun n => ∀ n', n.remap move = .ok n' →
      n'.hasPending = n.hasPending ∧ splitQueries n'.targetCollections = splitQueries n.targetCollections)
  all_goals intros
  all_goals rename_i h
  all_goals simp only [Shape.remap, EntityShape.remap, CollectionShape.remap, Navigation.remap, Navigation.remapAll,
    Member.remap, Member.remapAll, PendingCollection.remap, Except.bind_eq_ok_iff, Except.pure_eq_ok_iff, Except.ok.injEq] at h
  all_goals grind [Shape.hasPending, EntityShape.hasPending, CollectionShape.hasPending, Navigation.hasPending,
    Navigation.anyPending, Member.hasPending, Member.anyPending, Shape.collections, EntityShape.collections,
    CollectionShape.inner, Navigation.targetCollections, Navigation.collections, Member.shapeCollections,
    Member.collections, splitQueries, CollectionShape.ownQueries]

/-- A shape without collections that have to be joined has nothing that joining would change. -/
theorem Shape.applied_of_not_hasPending (split : Bool) (target : Select) (fresh : Fresh) : ∀ s : Shape, s.hasPending = false →
    Applied split s.joinedAlready s.pendings target fresh s.hasPending s.collections target fresh := by
  apply Shape.hasPending.induct
    (fun s => s.hasPending = false →
      Applied split s.joinedAlready s.pendings target fresh s.hasPending s.collections target fresh)
    (fun ms => Member.anyPending ms = false → Applied split (Member.joinedAlready ms) (Member.pendings ms) target fresh
      (Member.anyPending ms) (Member.collections ms) target fresh)
    (fun m => m.hasPending = false →
      Applied split m.shapeJoined m.shapePendings target fresh m.hasPending m.shapeCollections target fresh)
    (fun c => True)
    (fun e => e.hasPending = false →
      Applied split e.joinedAlready e.pendings target fresh e.hasPending e.collections target fresh)
    (fun ns => Navigation.anyPending ns = false → Applied split (Navigation.joinedAlready ns) (Navigation.pendings ns)
      target fresh (Navigation.anyPending ns) (Navigation.collections ns) target fresh)
    (fun n => n.hasPending = false →
      Applied split n.targetJoined n.targetPendings target fresh n.hasPending n.targetCollections target fresh)
  case case1 => exact fun _ _ _ => .nil
  case case2 => nofun
  case case3 => exact fun _ h => h
  case case4 => exact fun c _ _ => .single rfl rfl
  case case5 => exact fun _ h => h
  case case6 => exact fun _ _ _ _ _ h => h
  case case7 => exact fun _ _ h => h
  case case8 => exact fun _ _ h => h
  case case9 => exact fun _ _ _ _ _ _ _ _ => trivial
  case case10 => exact fun _ => .nil
  case case11 =>
    intro m rest hm hrest h
    obtain ⟨h, h'⟩ := Bool.or_eq_false_iff.1 h
    exact (hm h).append (hrest h')
  case case12 => exact fun _ => .nil
  case case13 =>
    intro n rest hn hrest h
    obtain ⟨h, h'⟩ := Bool.or_eq_false_iff.1 h
    exact (hn h).append (hrest h')

/-! ## Joining a shape -/

/-- What is known of a step that joins collections to a query. -/
def Joining.Applies {α : Type} (x : Joining (α × Select)) (split : Bool) (target : Select) (already : List CollectionShape)
    (pendings : List PendingCollection) (pending : α → Bool) (collections : α → List CollectionShape) : Prop :=
  ∀ fresh r fresh', Steps x fresh r fresh' →
    Applied split already pendings target fresh (pending r.1) (collections r.1) r.2 fresh'

namespace Joining.Applies

variable {α β γ : Type} {x : Joining (α × Select)} {split : Bool} {target : Select} {already already' : List CollectionShape}
  {pendings pendings' : List PendingCollection} {pending : α → Bool} {collections : α → List CollectionShape}
  {pending' : β → Bool} {collections' : β → List CollectionShape}

theorem map (hx : x.Applies split target already pendings pending collections) {f : α → β}
    {k : α × Select → Joining (β × Select)} (hk : ∀ a t, k (a, t) = pure (f a, t)) (hpending : ∀ a, pending' (f a) = pending a)
    (hcollections : ∀ a, collections' (f a) = collections a) :
    (x >>= k).Applies split target already pendings pending' collections' := by
  intro fresh r fresh' hsteps
  obtain ⟨⟨a, t⟩, mid, ha, hr⟩ := steps_bind.1 hsteps
  rw [hk] at hr
  obtain ⟨rfl, rfl⟩ := steps_pure.1 hr
  rw [hpending, hcollections]
  exact hx _ _ _ ha

theorem append {y : Select → Joining (β × Select)} {pending'' : γ → Bool} {collections'' : γ → List CollectionShape}
    (hx : x.Applies split target already pendings pending collections)
    (hy : ∀ mid, (y mid).Applies split mid already' pendings' pending' collections') {f : α → β → γ}
    {k : α × Select → Joining (γ × Select)} (hk : ∀ a t, k (a, t) = y t >>= fun r => pure (f a r.1, r.2))
    (hpending : ∀ a b, pending'' (f a b) = (pending a || pending' b))
    (hcollections : ∀ a b, collections'' (f a b) = collections a ++ collections' b) :
    (x >>= k).Applies split target (already ++ already') (pendings ++ pendings') pending'' collections'' := by
  intro fresh r fresh' hsteps
  obtain ⟨⟨a, t⟩, mid, ha, hr⟩ := steps_bind.1 hsteps
  rw [hk] at hr
  obtain ⟨⟨b, t'⟩, mid', hb, hr⟩ := steps_bind.1 hr
  obtain ⟨rfl, rfl⟩ := steps_pure.1 hr
  rw [hpending, hcollections]
  exact (hx _ _ _ ha).append (hy t _ _ _ hb)

theorem after {y : Except Error γ} {k : γ → Joining (α × Select)}
    (h : ∀ c, y = .ok c → (k c).Applies split target already pendings pending collections) :
    (ofExcept y >>= k).Applies split target already pendings pending collections := by
  intro fresh r fresh' hsteps
  obtain ⟨c, mid, hc, hr⟩ := steps_bind.1 hsteps
  obtain ⟨hy, rfl⟩ := steps_ofExcept.1 hc
  exact h c hy _ _ _ hr

theorem done {a : α} (h : ∀ fresh, Applied split already pendings target fresh (pending a) (collections a) target fresh) :
    (pure (a, target) : Joining (α × Select)).Applies split target already pendings pending collections := by
  intro fresh r fresh' hsteps
  obtain ⟨rfl, rfl⟩ := steps_pure.1 hsteps
  exact h fresh

end Joining.Applies

theorem attachElement_adds {split : Bool} {p : PendingCollection} {move : IndexMove} {outer : List Nat} {target : Select}
    {fresh fresh' : Fresh} {a : Attached} (h : Steps (attachElement split p move outer target) fresh a fresh') :
    a.id = fresh.nextCollection ∧ fresh'.nextCollection = fresh.nextCollection + 1 ∧
      a.joined.splitParent.isSome = split ∧
      (target.Named → p.inner.query.Named → a.target.Named ∧ a.joined.query.Named) := by
  obtain ⟨id, mid, hid, h⟩ := steps_bind.1 h
  obtain ⟨rfl, rfl⟩ := steps_freshCollection.1 hid
  obtain ⟨⟨hid, hsplit, hnamed⟩, hcount⟩ := h.ensured (P := fun a => a.id = fresh.nextCollection ∧
      a.joined.splitParent.isSome = split ∧
      (target.Named → p.inner.query.Named → a.target.Named ∧ a.joined.query.Named)) <| by
    refine (ensures_ofExcept_true _).bind fun own _ => ?_
    refine (ensures_ofExcept_true _).bind fun outerKey _ => ?_
    refine (ensures_ofExcept_true _).bind fun _ _ => ?_
    refine (ensures_ofExcept fun q hq => fun h : target.Named => h.orderByProjections hq).bind
      fun ordered hordered => ?_
    refine (ensures_ofExcept_true _).bind fun outerExprs _ => ?_
    refine (p.inner.query.prepareElement_named p.innerKey p.innerIdentifier).bind fun element helement => ?_
    refine (joinPrepared_named split ordered _ outerExprs element p.innerIdentifier).bind fun joined hjoined => ?_
    exact ensures_pure ⟨rfl, hjoined.1, fun h hinner => ⟨hordered h, hjoined.2 (hordered h) (helement hinner)⟩⟩
  exact ⟨hid, hcount, hsplit, hnamed⟩

/-- Joining goes through a shape and numbers its collections. -/
theorem Shape.join_applies (split : Bool) : ∀ (s : Shape) (name : Option String) (move : IndexMove) (outer : List Nat)
    (target : Select), (s.join split name move outer target).Applies split target s.joinedAlready s.pendings
      Shape.hasPending Shape.collections := by
  apply Shape.join.induct
    (fun s name move outer target => (s.join split name move outer target).Applies split target s.joinedAlready
      s.pendings Shape.hasPending Shape.collections)
    (fun ms move outer target => (Member.joinAll split ms move outer target).Applies split target
      (Member.joinedAlready ms) (Member.pendings ms) Member.anyPending Member.collections)
    (fun m move outer target => (m.join split move outer target).Applies split target m.shapeJoined m.shapePendings
      Member.hasPending Member.shapeCollections)
    (fun p name move outer target => (p.join split name move outer target).Applies split target p.joinedAlready
      p.pendings CollectionShape.hasPending fun c => c :: c.inner)
    (fun e move outer target => (e.join split move outer target).Applies split target e.joinedAlready e.pendings
      EntityShape.hasPending EntityShape.collections)
    (fun ns move outer target => (Navigation.joinAll split ns move outer target).Applies split target
      (Navigation.joinedAlready ns) (Navigation.pendings ns) Navigation.anyPending Navigation.collections)
    (fun n move outer target => (n.join split move outer target).Applies split target n.targetJoined n.targetPendings
      Navigation.hasPending Navigation.targetCollections)
  case case1 =>
    intro name outer index nullable move target
    exact .after fun _ _ => .done fun _ => .nil
  case case2 =>
    intro name outer c move target
    refine .after fun c' hc => .done fun _ => ?_
    obtain ⟨hpending, hown⟩ := CollectionShape.remap_keeps move c c' hc
    exact .single hpending hown
  case case3 | case4 | case5 | case7 | case8 =>
    intros
    rename_i ih
    exact ih.map (fun _ _ => rfl) (fun _ => rfl) (fun _ => rfl)
  case case6 =>
    intro entityType key properties navigations nullable move outer target ih
    exact .after fun _ _ => .after fun _ _ => ih.map (fun _ _ => rfl) (fun _ => rfl) (fun _ => rfl)
  case case9 =>
    intro navigation elementType parentIdentifier outerKey query shape innerKey identifier name move outer target ih
      fresh r fresh' hsteps
    obtain ⟨a, mid, ha, hsteps⟩ := steps_bind.1 hsteps
    obtain ⟨_, mid', hremapped, hsteps⟩ := steps_bind.1 hsteps
    obtain ⟨-, rfl⟩ := steps_ofExcept.1 hremapped
    obtain ⟨⟨element, q⟩, mid'', helement, hsteps⟩ := steps_bind.1 hsteps
    obtain ⟨hr, rfl⟩ := steps_pure.1 hsteps
    obtain ⟨hid, hcount, hsplit, hnamed⟩ := attachElement_adds ha
    exact (ih a _ _ _ helement).complete hid hcount hsplit hnamed (navigation.or name) hr
  case case10 | case12 =>
    intro move outer target
    exact .done fun _ => .nil
  case case11 | case13 =>
    intros
    rename_i ih ih'
    exact ih.append ih' (fun _ _ => rfl) (fun _ _ => rfl) fun _ _ => rfl

theorem ShapedQuery.joinCollections_applied {shaped joined : ShapedQuery} {split : Bool} {fresh fresh' : Fresh}
    (h : Steps (shaped.joinCollections split) fresh joined fresh') :
    Applied split shaped.shape.joinedAlready shaped.shape.pendings shaped.query fresh joined.shape.hasPending
      joined.shape.collections joined.query fresh' := by
  unfold joinCollections at h
  cases hpending : shaped.shape.hasPending with
  | false =>
    rw [hpending] at h
    obtain ⟨rfl, rfl⟩ := steps_pure.1 h
    exact Shape.applied_of_not_hasPending split _ _ _ hpending
  | true =>
    rw [hpending] at h
    obtain ⟨target, mid, htarget, h⟩ := steps_bind.1 h
    obtain ⟨⟨shape, query⟩, mid', hshape, h⟩ := steps_bind.1 h
    obtain ⟨rfl, rfl⟩ := steps_pure.1 h
    obtain ⟨hnamed, hcount⟩ := htarget.ensured (shaped.query.pushDownWhen_named _)
    exact (Shape.join_applies split _ _ _ _ _ _ _ _ hshape).of_target hnamed hcount

/-! ## Main results -/

/-- A collection has still to be joined after joining exactly if it stands inside one that was joined before. -/
theorem ShapedQuery.hasPending_joinCollections {shaped joined : ShapedQuery} {split : Bool} {fresh fresh' : Fresh}
    (h : Joining.Steps (shaped.joinCollections split) fresh joined fresh') :
    joined.shape.hasPending = true ↔ ∃ c ∈ shaped.shape.joinedAlready, c.hasPending = true := by
  rw [(joinCollections_applied h).pending_eq, any_eq_true]

theorem ShapedQuery.hasPending_joinCollections_taggedPosts : ∃ joined fresh',
    Joining.Steps (taggedPosts.joinCollections true) ⟨0, 5⟩ joined fresh' ∧ joined.shape.hasPending = false := by
  obtain ⟨joined, fresh', h, -⟩ := @ShapedQuery.joinCollections_steps taggedPosts (by decide) true ⟨0, 5⟩
  refine ⟨joined, fresh', h, Bool.eq_false_iff.2 fun hpending => ?_⟩
  obtain ⟨c, ⟨⟩, -⟩ := (hasPending_joinCollections h).1 hpending

/-- Blogs to which their posts have been joined, while the tags of the posts have not. -/
def joinedPosts : ShapedQuery :=
  let column (id : TableId) (name : String) : Expr := .column ⟨id, none, name, none, true⟩
  let tags : PendingCollection := ⟨some "Tags", "Tag", [1], [1],
    ⟨{ Select.empty with projections := [⟨"Tag", column 3 "Tag"⟩], sources := [.table 3 none "Tags" none] }, .scalar 0 true⟩,
    [column 3 "PostId"], [0]⟩
  ⟨{ Select.empty with
      projections := [⟨"Id", column 1 "Id"⟩, ⟨"PostId", column 2 "Id"⟩]
      sources := [.table 1 none "Blogs" none,
        .joinedOn .left (.table 2 none "Posts" none) (.equalTo (column 1 "Id") (column 2 "BlogId"))] },
    .entity ⟨"Blog", [0], [], [⟨"Posts", .collection ⟨7, some "Posts", "Post", [0], [1],
      .entity ⟨"Post", [1], [], [⟨"Tags", .pending tags⟩], false⟩, none⟩⟩], false⟩⟩

/-- The tags are not reached: their posts are in a collection that was joined before. -/
theorem ShapedQuery.hasPending_joinedPosts : ∃ joined fresh',
    Joining.Steps (joinedPosts.joinCollections false) ⟨0, 4⟩ joined fresh' ∧ joined.shape.hasPending = true :=
  ⟨_, _, rfl, rfl⟩

/-- The collections of a shape none of which was joined before are numbered from zero, in the order in which they stand in the
joined shape. There is one for each that had to be joined, and it has a query of its own in split mode only. -/
theorem ShapedQuery.ids_joinCollections {shaped joined : ShapedQuery} (hnone : shaped.shape.joinedAlready = []) {split : Bool}
    {firstTable : TableId} {fresh' : Fresh}
    (h : Joining.Steps (shaped.joinCollections split) ⟨0, firstTable⟩ joined fresh') :
    joined.shape.collections.map (·.id) = List.range fresh'.nextCollection ∧
      fresh'.nextCollection = shaped.shape.pendings.length ∧
      ∀ c ∈ joined.shape.collections, (c.split.isSome = true ↔ split = true) := by
  have happlied := joinCollections_applied h
  have hcount : fresh'.nextCollection = shaped.shape.pendings.length := by
    rw [happlied.counted hnone, Nat.zero_add]
  refine ⟨?_, hcount, fun c hc => ?_⟩
  · rw [happlied.numbered hnone, hcount, range_eq_range']
  · rw [happlied.split_eq hnone c hc]

theorem ShapedQuery.ids_joinCollections_taggedPosts : taggedPosts.shape.joinedAlready = [] ∧ ∃ joined fresh',
    Joining.Steps (taggedPosts.joinCollections true) ⟨0, 5⟩ joined fresh' ∧ fresh'.nextCollection = 3 ∧
      joined.shape.collections.map (·.id) = [0, 1, 2] ∧ ∀ c ∈ joined.shape.collections, c.split.isSome = true := by
  obtain ⟨joined, fresh', h, -⟩ := @ShapedQuery.joinCollections_steps taggedPosts (by decide) true ⟨0, 5⟩
  obtain ⟨hids, hcount, hsplit⟩ := ids_joinCollections rfl h
  have hthree : fresh'.nextCollection = 3 := hcount
  rw [hthree] at hids
  exact ⟨rfl, joined, fresh', h, hthree, hids, fun c hc => (hsplit c hc).2 rfl⟩

/-- Where every select names its columns apart, whatever the case of letters, every select of the joined query and of the queries
of its collections does so too, at any depth; and then a column of a derived table is found by its name. -/
theorem ShapedQuery.named_joinCollections {shaped joined : ShapedQuery} (hroot : shaped.query.Named)
    (hpendings : ∀ p ∈ shaped.shape.pendings, p.inner.query.Named)
    (halready : ∀ c ∈ shaped.shape.joinedAlready, ∀ q ∈ c.ownQueries, q.Named) {split : Bool} {fresh fresh' : Fresh}
    (h : Joining.Steps (shaped.joinCollections split) fresh joined fresh') :
    ∀ q ∈ joined.query :: splitQueries joined.shape.collections, ∀ layer ∈ q.layers,
      (layer.projections.map fun p => Text.lowercase p.aliasName).Nodup ∧
        ∀ (i : Nat) (p : Projection), layer.projections[i]? = some p → ∀ (id : TableId) (row : Row),
          (⟨id, layer.columns, some row⟩ : Bound).get p.aliasName = .ok (row[i]?.getD .null) := by
  intro q hq layer hlayer
  have hnamed : q.Named := by
    obtain ⟨hquery, hsplit⟩ := (joinCollections_applied h).named hroot hpendings halready
    exact forall_mem_cons.2 ⟨hquery, hsplit⟩ q hq
  have hapart : layer.NamesApart := hnamed layer hlayer
  refine ⟨hapart, fun i p hp id row => Select.Bound.get_of_nodup hapart.columns_nodup ?_ id row⟩
  rw [Select.columns, getElem?_map, hp, Option.map_some]

theorem ShapedQuery.named_joinCollections_taggedPosts :
    taggedPosts.query.Named ∧ (∀ p ∈ taggedPosts.shape.pendings, p.inner.query.Named) ∧ ∃ joined fresh',
      Joining.Steps (taggedPosts.joinCollections true) ⟨0, 5⟩ joined fresh' ∧
        ∀ q ∈ joined.query :: splitQueries joined.shape.collections, q.Named := by
  have hroot : taggedPosts.query.Named := by decide +kernel
  have hpendings : ∀ p ∈ taggedPosts.shape.pendings, p.inner.query.Named := by decide +kernel
  obtain ⟨joined, fresh', h, -⟩ := @ShapedQuery.joinCollections_steps taggedPosts (by decide) true ⟨0, 5⟩
  have hnamed := named_joinCollections hroot hpendings nofun h
  exact ⟨hroot, hpendings, joined, fresh', h, fun q hq layer hlayer => (hnamed q hq layer hlayer).1⟩

end QueryShaping
