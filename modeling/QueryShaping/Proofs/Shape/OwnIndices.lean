import QueryShaping.Proofs.Fallible
import QueryShaping.Shape.Remap

/-!
# The indices that a shape owns

A shape owns the indices that are places in the query around it. Those inside a collection with a query of its own, and
those inside the element query of a collection that is not joined yet, belong to another query. A move takes a shape to
the same shape with its own indices moved, and it fails where one of these has no place to go to. So moves act on shapes
as they act on indices.
-/

namespace QueryShaping

open List

mutual

/-- The indices of a shape that are places in the query around it, in the order in which they are moved. -/
def Shape.owned : Shape → List Nat
  | .scalar index _ => [index]
  | .entity e => e.owned
  | .collection c => c.owned
  | .pending p => p.parentIdentifier ++ p.outerKey
  | .record members => Member.owned members

def EntityShape.owned : EntityShape → List Nat
  | ⟨_, key, properties, navigations, _⟩ => key ++ properties.map (·.index) ++ Navigation.owned navigations

def CollectionShape.owned : CollectionShape → List Nat
  | ⟨_, _, _, parent, _, _, some _⟩ => parent
  | ⟨_, _, _, parent, child, element, none⟩ => parent ++ child ++ element.owned

def Navigation.owned : List Navigation → List Nat
  | [] => []
  | ⟨_, target⟩ :: rest => target.owned ++ Navigation.owned rest

def Member.owned : List Member → List Nat
  | [] => []
  | ⟨_, shape⟩ :: rest => shape.owned ++ Member.owned rest

end

mutual

/-- The shape with other indices in the place of those it owns. -/
def Shape.mapOwned (f : Nat → Nat) : Shape → Shape
  | .scalar index nullable => .scalar (f index) nullable
  | .entity e => .entity (e.mapOwned f)
  | .collection c => .collection (c.mapOwned f)
  | .pending p => .pending { p with parentIdentifier := p.parentIdentifier.map f, outerKey := p.outerKey.map f }
  | .record members => .record (Member.mapOwned f members)

def EntityShape.mapOwned (f : Nat → Nat) : EntityShape → EntityShape
  | ⟨entityType, key, properties, navigations, nullable⟩ =>
    ⟨entityType, key.map f, properties.map fun p => { p with index := f p.index }, Navigation.mapOwned f navigations,
      nullable⟩

def CollectionShape.mapOwned (f : Nat → Nat) : CollectionShape → CollectionShape
  | ⟨id, navigation, elementType, parent, child, element, some split⟩ =>
    ⟨id, navigation, elementType, parent.map f, child, element, some split⟩
  | ⟨id, navigation, elementType, parent, child, element, none⟩ =>
    ⟨id, navigation, elementType, parent.map f, child.map f, element.mapOwned f, none⟩

def Navigation.mapOwned (f : Nat → Nat) : List Navigation → List Navigation
  | [] => []
  | ⟨name, target⟩ :: rest => ⟨name, target.mapOwned f⟩ :: Navigation.mapOwned f rest

def Member.mapOwned (f : Nat → Nat) : List Member → List Member
  | [] => []
  | ⟨name, shape⟩ :: rest => ⟨name, shape.mapOwned f⟩ :: Member.mapOwned f rest

end

/-! ## Other indices -/

theorem Shape.owned_mapOwned (f : Nat → Nat) : ∀ s : Shape, (s.mapOwned f).owned = s.owned.map f := by
  apply Shape.owned.induct
    (fun s => (s.mapOwned f).owned = s.owned.map f)
    (fun ms => Member.owned (Member.mapOwned f ms) = (Member.owned ms).map f)
    (fun c => (c.mapOwned f).owned = c.owned.map f)
    (fun e => (e.mapOwned f).owned = e.owned.map f)
    (fun ns => Navigation.owned (Navigation.mapOwned f ns) = (Navigation.owned ns).map f)
  all_goals intros
  all_goals simp_all [Shape.owned, EntityShape.owned, CollectionShape.owned, Navigation.owned, Member.owned,
    Shape.mapOwned, EntityShape.mapOwned, CollectionShape.mapOwned, Navigation.mapOwned, Member.mapOwned]

/-- Only what is done to the indices that a shape owns counts. -/
theorem Shape.mapOwned_mapOwned {f g h : Nat → Nat} : ∀ s : Shape, (∀ i ∈ s.owned, g (f i) = h i) →
    (s.mapOwned f).mapOwned g = s.mapOwned h := by
  apply Shape.owned.induct
    (fun s => (∀ i ∈ s.owned, g (f i) = h i) → (s.mapOwned f).mapOwned g = s.mapOwned h)
    (fun ms => (∀ i ∈ Member.owned ms, g (f i) = h i) →
      Member.mapOwned g (Member.mapOwned f ms) = Member.mapOwned h ms)
    (fun c => (∀ i ∈ c.owned, g (f i) = h i) → (c.mapOwned f).mapOwned g = c.mapOwned h)
    (fun e => (∀ i ∈ e.owned, g (f i) = h i) → (e.mapOwned f).mapOwned g = e.mapOwned h)
    (fun ns => (∀ i ∈ Navigation.owned ns, g (f i) = h i) →
      Navigation.mapOwned g (Navigation.mapOwned f ns) = Navigation.mapOwned h ns)
  all_goals intros
  all_goals simp_all [Shape.owned, EntityShape.owned, CollectionShape.owned, Navigation.owned, Member.owned,
    Shape.mapOwned, EntityShape.mapOwned, CollectionShape.mapOwned, Navigation.mapOwned, Member.mapOwned,
    forall_mem_append, -mem_append]

@[simp] theorem Shape.mapOwned_id : ∀ s : Shape, s.mapOwned id = s := by
  apply Shape.owned.induct (fun s => s.mapOwned id = s) (fun ms => Member.mapOwned id ms = ms)
    (fun c => c.mapOwned id = c) (fun e => e.mapOwned id = e) (fun ns => Navigation.mapOwned id ns = ns)
  case case4 =>
    intro p
    cases p
    simp only [Shape.mapOwned, map_id]
  all_goals intros
  all_goals simp_all [Shape.mapOwned, EntityShape.mapOwned, CollectionShape.mapOwned, Navigation.mapOwned,
    Member.mapOwned]

theorem Shape.mapOwned_congr {f g : Nat → Nat} (s : Shape) (h : ∀ i ∈ s.owned, f i = g i) :
    s.mapOwned f = s.mapOwned g := by
  simpa using s.mapOwned_mapOwned (f := id) h

/-! ## Moves -/

/-- Where a move takes an index, if it takes it anywhere. -/
def IndexMove.target (move : IndexMove) (index : Nat) : Nat :=
  (move index).toOption.getD 0

variable {move : IndexMove}

theorem IndexMove.eq_ok_iff (i j : Nat) : move i = .ok j ↔ (move i).isOk ∧ move.target i = j := by
  unfold IndexMove.target
  cases move i <;> simp [Except.toOption, Except.isOk, Except.toBool]

theorem PropertyShape.remap_eq_ok_iff (p q : PropertyShape) :
    p.remap move = .ok q ↔ (move p.index).isOk ∧ { p with index := move.target p.index } = q := by
  simp only [PropertyShape.remap, Except.bind_eq_ok_iff, IndexMove.eq_ok_iff, and_assoc, exists_and_left,
    Except.pure_eq_ok_iff, exists_eq_left']

/-- A step over a list succeeds where it does on every item. -/
theorem Except.mapM_eq_ok_iff_forall {ε α β : Type} {f : α → Except ε β} {P : α → Prop} {g : α → β}
    (h : ∀ a b, f a = .ok b ↔ P a ∧ g a = b) {l : List α} {bs : List β} :
    l.mapM f = .ok bs ↔ (∀ a ∈ l, P a) ∧ l.map g = bs := by
  induction l generalizing bs with
  | nil => simp [Except.pure_eq_ok_iff]
  | cons a l ih => simp [Except.bind_eq_ok_iff, Except.map_eq_ok_iff, h, ih, and_assoc]

/-- A move that every index of a shape can follow takes the shape along, and no other move does. -/
theorem Shape.remap_eq_ok_iff : ∀ s s' : Shape, s.remap move = .ok s' ↔
    (∀ i ∈ s.owned, (move i).isOk) ∧ s.mapOwned move.target = s' := by
  have hindices := @Except.mapM_eq_ok_iff_forall _ _ _ _ _ _ (@IndexMove.eq_ok_iff move)
  have hproperties := @Except.mapM_eq_ok_iff_forall _ _ _ _ _ _ (@PropertyShape.remap_eq_ok_iff move)
  apply Shape.owned.induct
    (fun s => ∀ s', s.remap move = .ok s' ↔ (∀ i ∈ s.owned, (move i).isOk) ∧ s.mapOwned move.target = s')
    (fun ms => ∀ ms', Member.remapAll move ms = .ok ms' ↔
      (∀ i ∈ Member.owned ms, (move i).isOk) ∧ Member.mapOwned move.target ms = ms')
    (fun c => ∀ c', c.remap move = .ok c' ↔ (∀ i ∈ c.owned, (move i).isOk) ∧ c.mapOwned move.target = c')
    (fun e => ∀ e', e.remap move = .ok e' ↔ (∀ i ∈ e.owned, (move i).isOk) ∧ e.mapOwned move.target = e')
    (fun ns => ∀ ns', Navigation.remapAll move ns = .ok ns' ↔
      (∀ i ∈ Navigation.owned ns, (move i).isOk) ∧ Navigation.mapOwned move.target ns = ns')
  all_goals intros
  all_goals simp_all [Shape.owned, EntityShape.owned, CollectionShape.owned, Navigation.owned, Member.owned,
    Shape.mapOwned, EntityShape.mapOwned, CollectionShape.mapOwned, Navigation.mapOwned, Member.mapOwned,
    forall_mem_append, -mem_append, Shape.remap, EntityShape.remap, CollectionShape.remap, Navigation.remapAll,
    Navigation.remap, Member.remapAll, Member.remap, PendingCollection.remap, Except.bind_eq_ok_iff,
    Except.map_eq_ok_iff, IndexMove.eq_ok_iff, and_assoc]

/-! ## Tables of new indices -/

theorem IndexMove.isOk_ofList {table : List Nat} {i : Nat} : (IndexMove.ofList table i).isOk ↔ i < table.length := by
  by_cases h : i < table.length <;> simp [IndexMove.ofList, h, Except.isOk, Except.toBool]

theorem IndexMove.target_ofList {table : List Nat} {i j : Nat} (h : table[i]? = some j) :
    (IndexMove.ofList table).target i = j := by
  rw [IndexMove.target, IndexMove.ofList, h]
  rfl

/-- The shape without the indices that it owns. -/
def Shape.blank (s : Shape) : Shape :=
  s.mapOwned fun _ => 0

/-- A table moves a shape exactly when it has a place for each index that the shape owns. The table of all indices in
their places moves nothing, any table leaves all but these indices as it is, and two tables move a shape as the one does
that leads from place to place through both. -/
theorem Shape.remap_acts (s : Shape) (f : List Nat) :
    ((∃ s', s.remap (.ofList f) = .ok s') ↔ ∀ i ∈ s.owned, i < f.length) ∧
      (∀ n s', s.remap (.ofList (range n)) = .ok s' → s' = s) ∧
      ∀ s', s.remap (.ofList f) = .ok s' → s'.blank = s.blank ∧
        ∀ g s'', s'.remap (.ofList g) = .ok s'' → ∀ h : List Nat, h.length = f.length →
          (∀ i j k : Nat, f[i]? = some j → g[j]? = some k → h[i]? = some k) → s.remap (.ofList h) = .ok s'' := by
  simp only [remap_eq_ok_iff, IndexMove.isOk_ofList]
  refine ⟨by simp, ?_, ?_⟩
  · rintro n s' ⟨howned, rfl⟩
    rw [mapOwned_congr s (g := id), mapOwned_id]
    exact fun i hi => IndexMove.target_ofList (getElem?_range (by simpa using howned i hi))
  · rintro s' ⟨howned, rfl⟩
    refine ⟨mapOwned_mapOwned s fun _ _ => rfl, ?_⟩
    rintro g s'' ⟨howned', rfl⟩ h hlength hcomposed
    rw [owned_mapOwned, forall_mem_map] at howned'
    refine ⟨fun i hi => hlength ▸ howned i hi, (mapOwned_mapOwned s fun i hi => ?_).symm⟩
    have hf := getElem?_eq_getElem (howned i hi)
    have hj := howned' i hi
    rw [IndexMove.target_ofList hf] at hj ⊢
    have hg := getElem?_eq_getElem hj
    rw [IndexMove.target_ofList hg, IndexMove.target_ofList (hcomposed i _ _ hf hg)]

end QueryShaping
