import QueryShaping.Proofs.Query.Widening
import QueryShaping.Proofs.Shape.OwnIndices

/-!
# Well-formed shapes

What a shape has to satisfy so that its collections can be joined and a program can be made for its rows. A joined shape
is in reach of its select when all its indices are places of columns. Both notions are about the number of columns only,
so they stay true when a select gets wider, and moves of indices keep them.
-/

namespace QueryShaping

open List

/-! ## Moves -/

/-- A move that takes the places of so many columns to places of so many others. -/
def IndexMove.Into (move : IndexMove) (count count' : Nat) : Prop :=
  ∀ i < count, ∃ j < count', move i = .ok j

namespace IndexMove.Into

variable {move : IndexMove} {count count' : Nat}

theorem mono {count'' : Nat} (h : move.Into count count') (hle : count' ≤ count'') : move.Into count count'' :=
  fun i hi => (h i hi).imp fun _ hj => ⟨Nat.lt_of_lt_of_le hj.1 hle, hj.2⟩

theorem mapM (h : move.Into count count') {indices : List Nat} (hi : Below count indices) :
    ∃ moved, indices.mapM move = .ok moved ∧ moved.length = indices.length ∧ Below count' moved :=
  Except.mapM_ok_of_forall_and fun i hmem => (h i (hi i hmem)).imp fun _ hj => hj.symm

end IndexMove.Into

theorem IndexMove.ofList_into {places : List Nat} {count : Nat} (h : Below count places) :
    (IndexMove.ofList places).Into places.length count := by
  intro i hi
  refine ⟨places[i], h _ (getElem_mem hi), ?_⟩
  unfold IndexMove.ofList
  rw [getElem?_eq_getElem hi]

/-! ## Shapes -/

mutual

/-- Whether a shape can be joined and compiled over so many columns. Its indices are places of columns, its entities
have keys, its navigations lead to entities and collections, and its collections have keys to be compared by and
parents that can be told apart: by an identifier of their own, or by that of a collection around them. -/
def Shape.wellFormed (nested : Bool) (count : Nat) : Shape → Bool
  | .scalar index _ => index < count
  | .entity e => e.wellFormed nested count
  | .collection _ => false
  | .pending p => p.wellFormed nested count
  | .record members => Member.allWellFormed nested count members

def EntityShape.wellFormed (nested : Bool) (count : Nat) : EntityShape → Bool
  | ⟨_, key, properties, navigations, _⟩ =>
    !key.isEmpty && key.all (· < count) && properties.all (·.index < count) &&
      Navigation.allWellFormed nested count navigations

def PendingCollection.wellFormed (nested : Bool) (count : Nat) : PendingCollection → Bool
  | ⟨_, _, parentIdentifier, outerKey, inner, innerKey, identifier⟩ =>
    (nested || !parentIdentifier.isEmpty) && parentIdentifier.all (· < count) && outerKey.all (· < count) &&
      outerKey.length == innerKey.length && !outerKey.isEmpty && identifier.all (· < inner.query.width) &&
      inner.wellFormed true

def ShapedQuery.wellFormed (nested : Bool) : ShapedQuery → Bool
  | ⟨query, shape⟩ => shape.wellFormed nested query.width

def Navigation.wellFormed (nested : Bool) (count : Nat) : Navigation → Bool
  | ⟨_, .entity e⟩ => e.wellFormed nested count
  | ⟨_, .pending p⟩ => p.wellFormed nested count
  | ⟨_, _⟩ => false

def Navigation.allWellFormed (nested : Bool) (count : Nat) : List Navigation → Bool
  | [] => true
  | n :: rest => n.wellFormed nested count && Navigation.allWellFormed nested count rest

def Member.wellFormed (nested : Bool) (count : Nat) : Member → Bool
  | ⟨_, shape⟩ => shape.wellFormed nested count

def Member.allWellFormed (nested : Bool) (count : Nat) : List Member → Bool
  | [] => true
  | m :: rest => m.wellFormed nested count && Member.allWellFormed nested count rest

end

mutual

/-- The collections of a shape that are not joined yet, at any depth, each before those inside its elements. -/
def Shape.pendings : Shape → List PendingCollection
  | .scalar .. => []
  | .entity e => e.pendings
  | .collection c => c.pendings
  | .pending p => p.pendings
  | .record members => Member.pendings members

def EntityShape.pendings : EntityShape → List PendingCollection
  | ⟨_, _, _, navigations, _⟩ => Navigation.pendings navigations

def CollectionShape.pendings : CollectionShape → List PendingCollection
  | ⟨_, _, _, _, _, element, _⟩ => element.pendings

def PendingCollection.pendings : PendingCollection → List PendingCollection
  | ⟨navigation, elementType, parentIdentifier, outerKey, inner, innerKey, identifier⟩ =>
    ⟨navigation, elementType, parentIdentifier, outerKey, inner, innerKey, identifier⟩ :: inner.pendings

def ShapedQuery.pendings : ShapedQuery → List PendingCollection
  | ⟨_, shape⟩ => shape.pendings

def Navigation.targetPendings : Navigation → List PendingCollection
  | ⟨_, target⟩ => target.pendings

def Navigation.pendings : List Navigation → List PendingCollection
  | [] => []
  | n :: rest => n.targetPendings ++ Navigation.pendings rest

def Member.shapePendings : Member → List PendingCollection
  | ⟨_, shape⟩ => shape.pendings

def Member.pendings : List Member → List PendingCollection
  | [] => []
  | m :: rest => m.shapePendings ++ Member.pendings rest

end

mutual

/-- Whether every index of a joined shape is the place of a column, in a select of so many columns or in the query of
its own that a collection has. -/
def Shape.InReach (count : Nat) : Shape → Prop
  | .scalar index _ => index < count
  | .entity e => e.InReach count
  | .collection c => c.InReach count
  | .pending _ => False
  | .record members => Member.AllInReach count members

def EntityShape.InReach (count : Nat) : EntityShape → Prop
  | ⟨_, key, properties, navigations, _⟩ =>
    key ≠ [] ∧ Below count key ∧ Below count (properties.map (·.index)) ∧ Navigation.AllInReach count navigations

def CollectionShape.InReach (count : Nat) : CollectionShape → Prop
  | ⟨_, _, _, parent, child, element, none⟩ => Below count parent ∧ Below count child ∧ element.InReach count
  | ⟨_, _, _, parent, child, element, some ⟨query, splitParent⟩⟩ =>
    Below count parent ∧ Below query.width splitParent ∧ Below query.width child ∧ element.InReach query.width

def Navigation.InReach (count : Nat) : Navigation → Prop
  | ⟨_, .entity e⟩ => e.InReach count
  | ⟨_, .collection c⟩ => c.InReach count
  | ⟨_, _⟩ => False

def Navigation.AllInReach (count : Nat) : List Navigation → Prop
  | [] => True
  | n :: rest => n.InReach count ∧ Navigation.AllInReach count rest

def Member.InReach (count : Nat) : Member → Prop
  | ⟨_, shape⟩ => shape.InReach count

def Member.AllInReach (count : Nat) : List Member → Prop
  | [] => True
  | m :: rest => m.InReach count ∧ Member.AllInReach count rest

end

theorem ne_nil_of_length_eq {α β : Type} {xs : List α} {ys : List β} (h : (!xs.isEmpty) = true)
    (hlength : ys.length = xs.length) : ys ≠ [] := by
  rintro rfl
  rw [length_eq_zero_iff.1 hlength.symm] at h
  contradiction

theorem below_of_all {count : Nat} {indices : List Nat} (h : indices.all (· < count) = true) : Below count indices :=
  fun i hi => by simpa using List.all_eq_true.1 h i hi

section

variable {move : IndexMove} {nested : Bool} {count count' : Nat}

mutual

theorem Shape.InReach.mono (hle : count ≤ count') : ∀ {s : Shape}, s.InReach count → s.InReach count'
  | .scalar .., h => Nat.lt_of_lt_of_le h hle
  | .entity e, h => EntityShape.InReach.mono hle (e := e) h
  | .collection c, h => CollectionShape.InReach.mono hle (c := c) h
  | .record members, h => Member.AllInReach.mono hle (l := members) h

theorem EntityShape.InReach.mono (hle : count ≤ count') : ∀ {e : EntityShape}, e.InReach count → e.InReach count'
  | ⟨_, _, _, navigations, _⟩, ⟨hne, hkey, hproperties, hnavigations⟩ =>
    ⟨hne, hkey.mono hle, hproperties.mono hle, Navigation.AllInReach.mono hle (l := navigations) hnavigations⟩

theorem CollectionShape.InReach.mono (hle : count ≤ count') :
    ∀ {c : CollectionShape}, c.InReach count → c.InReach count'
  | ⟨_, _, _, _, _, element, none⟩, ⟨hparent, hchild, helement⟩ =>
    ⟨hparent.mono hle, hchild.mono hle, Shape.InReach.mono hle (s := element) helement⟩
  | ⟨_, _, _, _, _, _, some ⟨_, _⟩⟩, ⟨hparent, hsplit⟩ => ⟨hparent.mono hle, hsplit⟩

theorem Navigation.InReach.mono (hle : count ≤ count') : ∀ {n : Navigation}, n.InReach count → n.InReach count'
  | ⟨_, .entity e⟩, h => EntityShape.InReach.mono hle (e := e) h
  | ⟨_, .collection c⟩, h => CollectionShape.InReach.mono hle (c := c) h

theorem Navigation.AllInReach.mono (hle : count ≤ count') :
    ∀ {l : List Navigation}, Navigation.AllInReach count l → Navigation.AllInReach count' l
  | [], _ => trivial
  | n :: rest, ⟨hn, hrest⟩ =>
    ⟨Navigation.InReach.mono hle (n := n) hn, Navigation.AllInReach.mono hle (l := rest) hrest⟩

theorem Member.InReach.mono (hle : count ≤ count') : ∀ {m : Member}, m.InReach count → m.InReach count'
  | ⟨_, shape⟩, h => Shape.InReach.mono hle (s := shape) h

theorem Member.AllInReach.mono (hle : count ≤ count') :
    ∀ {l : List Member}, Member.AllInReach count l → Member.AllInReach count' l
  | [], _ => trivial
  | m :: rest, ⟨hm, hrest⟩ =>
    ⟨Member.InReach.mono hle (m := m) hm, Member.AllInReach.mono hle (l := rest) hrest⟩

end

/-! ## Shapes without collections -/

mutual

theorem Shape.inReach_of_not_hasPending : ∀ {s : Shape}, s.wellFormed nested count = true →
    s.hasPending = false → s.InReach count ∧ s.collections = [] ∧ s.pendings = []
  | .scalar index _, h, _ => ⟨of_decide_eq_true (p := index < count) h, rfl, rfl⟩
  | .entity e, h, hp => EntityShape.inReach_of_not_hasPending (e := e) h hp
  | .record members, h, hp => Member.inReach_of_not_anyPending (l := members) h hp

theorem EntityShape.inReach_of_not_hasPending : ∀ {e : EntityShape}, e.wellFormed nested count = true →
      e.hasPending = false → e.InReach count ∧ e.collections = [] ∧ e.pendings = []
  | ⟨_, key, properties, navigations, _⟩, h, hp => by
    simp only [EntityShape.wellFormed, Bool.and_eq_true] at h
    obtain ⟨⟨⟨hne, hkey⟩, hproperties⟩, hnavigations⟩ := h
    obtain ⟨hreach, hrest⟩ := Navigation.inReach_of_not_anyPending (l := navigations) hnavigations hp
    refine ⟨⟨ne_nil_of_length_eq hne rfl, below_of_all hkey, below_of_all ?_, hreach⟩, hrest⟩
    rwa [all_map]

theorem Navigation.inReach_of_not_hasPending : ∀ {n : Navigation}, n.wellFormed nested count = true →
      n.hasPending = false → n.InReach count ∧ n.targetCollections = [] ∧ n.targetPendings = []
  | ⟨_, .entity e⟩, h, hp => EntityShape.inReach_of_not_hasPending (e := e) h hp

theorem Navigation.inReach_of_not_anyPending :
    ∀ {l : List Navigation}, Navigation.allWellFormed nested count l = true → Navigation.anyPending l = false →
      Navigation.AllInReach count l ∧ Navigation.collections l = [] ∧ Navigation.pendings l = []
  | [], _, _ => ⟨trivial, rfl, rfl⟩
  | n :: rest, h, hp => by
    simp only [Navigation.allWellFormed, Bool.and_eq_true] at h
    simp only [Navigation.anyPending, Bool.or_eq_false_iff] at hp
    obtain ⟨hn, hcollections, hpendings⟩ := Navigation.inReach_of_not_hasPending (n := n) h.1 hp.1
    obtain ⟨hrest, hcollections', hpendings'⟩ := Navigation.inReach_of_not_anyPending (l := rest) h.2 hp.2
    refine ⟨⟨hn, hrest⟩, ?_, ?_⟩
    · rw [Navigation.collections, hcollections, hcollections', append_nil]
    · rw [Navigation.pendings, hpendings, hpendings', append_nil]

theorem Member.inReach_of_not_hasPending : ∀ {m : Member}, m.wellFormed nested count = true →
      m.hasPending = false → m.InReach count ∧ m.shapeCollections = [] ∧ m.shapePendings = []
  | ⟨_, shape⟩, h, hp => Shape.inReach_of_not_hasPending (s := shape) h hp

theorem Member.inReach_of_not_anyPending :
    ∀ {l : List Member}, Member.allWellFormed nested count l = true → Member.anyPending l = false →
      Member.AllInReach count l ∧ Member.collections l = [] ∧ Member.pendings l = []
  | [], _, _ => ⟨trivial, rfl, rfl⟩
  | m :: rest, h, hp => by
    simp only [Member.allWellFormed, Bool.and_eq_true] at h
    simp only [Member.anyPending, Bool.or_eq_false_iff] at hp
    obtain ⟨hm, hcollections, hpendings⟩ := Member.inReach_of_not_hasPending (m := m) h.1 hp.1
    obtain ⟨hrest, hcollections', hpendings'⟩ := Member.inReach_of_not_anyPending (l := rest) h.2 hp.2
    refine ⟨⟨hm, hrest⟩, ?_, ?_⟩
    · rw [Member.collections, hcollections, hcollections', append_nil]
    · rw [Member.pendings, hpendings, hpendings', append_nil]

end

/-! ## Remapping -/

theorem PropertyShape.remapAll_ok (hmove : move.Into count count')
    {properties : List PropertyShape} (h : properties.all (·.index < count) = true) :
    ∃ moved, properties.mapM (PropertyShape.remap move) = .ok moved ∧ Below count' (moved.map (·.index)) := by
  have hone : ∀ p ∈ properties, ∃ q, p.remap move = .ok q ∧ q.index < count' := by
    intro p hp
    obtain ⟨j, hj, hmoved⟩ := hmove p.index (by simpa using List.all_eq_true.1 h p hp)
    exact ⟨_, Except.bind_eq_ok_iff.2 ⟨j, hmoved, rfl⟩, hj⟩
  obtain ⟨moved, hmoved, -, hbelow⟩ := Except.mapM_ok_of_forall_and hone
  exact ⟨moved, hmoved, forall_mem_map.2 hbelow⟩

theorem Shape.below_owned : ∀ s : Shape, s.wellFormed nested count = true → Below count s.owned := by
  apply Shape.owned.induct
    (fun s => s.wellFormed nested count = true → Below count s.owned)
    (fun ms => Member.allWellFormed nested count ms = true → Below count (Member.owned ms))
    (fun _ => True)
    (fun e => e.wellFormed nested count = true → Below count e.owned)
    (fun ns => Navigation.allWellFormed nested count ns = true → Below count (Navigation.owned ns))
  case case4 =>
    rintro ⟨_, _, parent, outerKey, _, _, _⟩ h
    simp_all [Shape.wellFormed, PendingCollection.wellFormed, Shape.owned, forall_mem_append, -mem_append]
  case case12 =>
    intro name target rest htarget hrest h
    obtain ⟨hn, h⟩ := Bool.and_eq_true_iff.1 h
    exact forall_mem_append.2 ⟨htarget (by cases target <;> first | exact hn | cases hn), hrest h⟩
  all_goals intros
  all_goals simp_all [Below, Shape.wellFormed, EntityShape.wellFormed, Member.allWellFormed, Member.wellFormed,
    Shape.owned, EntityShape.owned, Navigation.owned, Member.owned, forall_mem_append, -mem_append]

theorem Shape.remap_ok (hmove : move.Into count count') {s : Shape} (h : s.wellFormed nested count = true) :
    ∃ s', s.remap move = .ok s' := by
  refine ⟨_, (s.remap_eq_ok_iff _).2 ⟨fun i hi => ?_, rfl⟩⟩
  obtain ⟨j, -, hj⟩ := hmove i (s.below_owned h i hi)
  rw [hj]
  rfl

end

end QueryShaping
