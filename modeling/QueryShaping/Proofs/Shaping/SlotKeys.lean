import Mathlib.Data.List.Destutter
import Mathlib.Data.List.TakeWhile
import QueryShaping.Proofs.Shaping.Elements

/-!
# Rows in the order of their parents

A collection with a query of its own is loaded slot after slot. The rows of the query repeat the keys of the parents, and
they can be handed out without going back when the keys come in the order of the slots. Here is the order of the slots
of a tree, and that the rows are then those of the first slot, those of the second one and so on.
-/

namespace QueryShaping

open List

/-! ## The order of slots -/

mutual

/-- The parent keys of the slots of one collection in a tree, in the order in which they are loaded. -/
def Tree.slotKeys (id : Nat) : Tree → List Key
  | .null => []
  | .scalar _ => []
  | .entity _ _ _ references collections =>
    Tree.memberSlotKeys id references ++ Branch.memberSlotKeys id collections
  | .record members => Tree.memberSlotKeys id members
  | .collection b => b.slotKeys id

def Branch.slotKeys (id : Nat) : Branch → List Key
  | ⟨id', parentKey, elements⟩ => (if id' = id then [parentKey] else []) ++ Tree.elementSlotKeys id elements

def Tree.memberSlotKeys (id : Nat) : List (String × Tree) → List Key
  | [] => []
  | (_, t) :: rest => t.slotKeys id ++ Tree.memberSlotKeys id rest

def Branch.memberSlotKeys (id : Nat) : List (String × Branch) → List Key
  | [] => []
  | (_, b) :: rest => b.slotKeys id ++ Branch.memberSlotKeys id rest

def Tree.elementSlotKeys (id : Nat) : List (Key × Tree) → List Key
  | [] => []
  | (_, t) :: rest => t.slotKeys id ++ Tree.elementSlotKeys id rest

end

theorem Tree.elementSlotKeys_append (id : Nat) (a b : List (Key × Tree)) :
    Tree.elementSlotKeys id (a ++ b) = Tree.elementSlotKeys id a ++ Tree.elementSlotKeys id b := by
  induction a with
  | nil => rw [Tree.elementSlotKeys, nil_append, nil_append]
  | cons e a ih =>
    obtain ⟨key, t⟩ := e
    rw [cons_append, Tree.elementSlotKeys, Tree.elementSlotKeys, ih, append_assoc]

theorem Tree.elementSlotKeys_eq_nil {id : Nat} {T : Key → Tree} (h : ∀ key, (T key).slotKeys id = []) (keys : List Key) :
    Tree.elementSlotKeys id (keys.map fun key => (key, T key)) = [] := by
  induction keys with
  | nil => rw [map_nil, Tree.elementSlotKeys]
  | cons key keys ih => rw [map_cons, Tree.elementSlotKeys, ih, h, append_nil]

mutual

/-- The branches of a tree outside of its collections. -/
def Tree.branches : Tree → List Branch
  | .null => []
  | .scalar _ => []
  | .entity _ _ _ references collections => Tree.memberBranches references ++ collections.map (·.2)
  | .record members => Tree.memberBranches members
  | .collection b => [b]

def Tree.memberBranches : List (String × Tree) → List Branch
  | [] => []
  | (_, t) :: rest => t.branches ++ Tree.memberBranches rest

end

theorem Branch.parentKey_mem_slotKeys (b : Branch) : b.parentKey ∈ b.slotKeys b.id := by
  obtain ⟨id, parentKey, elements⟩ := b
  rw [Branch.slotKeys, if_pos rfl]
  exact mem_append_left _ mem_cons_self

theorem Branch.slotKeys_subset_memberSlotKeys {b : Branch} {bs : List (String × Branch)} (h : b ∈ bs.map (·.2))
    (id : Nat) : b.slotKeys id ⊆ Branch.memberSlotKeys id bs := by
  induction bs with
  | nil => cases h
  | cons e bs ih =>
    rw [Branch.memberSlotKeys]
    rcases mem_cons.1 h with rfl | h
    · exact subset_append_left _ _
    · exact subset_append_of_subset_right _ (ih h)

mutual

/-- The slots outside of collections are slots of the tree. -/
theorem Tree.parentKey_mem_slotKeys {b : Branch} : ∀ {t : Tree}, b ∈ t.branches → b.parentKey ∈ t.slotKeys b.id
  | .null, h | .scalar _, h => by
    rw [Tree.branches] at h
    cases h
  | .entity _ _ _ references collections, h => by
    rw [Tree.branches, mem_append] at h
    rw [Tree.slotKeys, mem_append]
    exact h.imp Tree.parentKey_mem_memberSlotKeys fun h =>
      Branch.slotKeys_subset_memberSlotKeys h b.id b.parentKey_mem_slotKeys
  | .record members, h => by
    rw [Tree.branches] at h
    rw [Tree.slotKeys]
    exact Tree.parentKey_mem_memberSlotKeys h
  | .collection b', h => by
    rw [Tree.branches, mem_singleton] at h
    rw [Tree.slotKeys, h]
    exact b'.parentKey_mem_slotKeys

theorem Tree.parentKey_mem_memberSlotKeys {b : Branch} : ∀ {ts : List (String × Tree)}, b ∈ Tree.memberBranches ts →
    b.parentKey ∈ Tree.memberSlotKeys b.id ts
  | [], h => by
    rw [Tree.memberBranches] at h
    cases h
  | (_, t) :: rest, h => by
    rw [Tree.memberBranches, mem_append] at h
    rw [Tree.memberSlotKeys, mem_append]
    exact h.imp Tree.parentKey_mem_slotKeys Tree.parentKey_mem_memberSlotKeys

end

/-- Whether a collection has a query of its own, whose rows repeat the parents under this identifier, and is not part of
its own elements. -/
def CollectionNode.SplitAs (copies : Nat → List Binding) (c : CollectionNode) : Prop :=
  c.splitParent = some (copies c.id) ∧ c.Acyclic

theorem CollectionNode.SplitAs.splitParent_eq {copies : Nat → List Binding} {id : Nat} {navigation : Option String}
    {elementType : String} {parent child : List Binding} {element : Node} {splitParent : Option (List Binding)}
    (h : CollectionNode.SplitAs copies ⟨id, navigation, elementType, parent, child, element, splitParent⟩) :
    splitParent = some (copies id) :=
  h.1

/-- Whether all collections of a node have queries of their own, whose rows repeat the parents under these identifiers,
and none is part of its own elements. -/
abbrev Node.SplitBy (copies : Nat → List Binding) (n : Node) : Prop :=
  n.Each (CollectionNode.SplitAs copies)

/-! ## Trees from queries of their own -/

variable {choice : RowChoice} {first : Row} {rows : List Row}

section Absent

variable {id : Nat}

mutual

/-- A tree has no slots of a collection that is not part of its node. -/
theorem Node.slotKeys_tree : ∀ (n : Node) {first : Row} {rows : List Row}, id ∉ n.collectionIds →
    (n.tree choice first rows).slotKeys id = []
  | .scalar b, _, _, _ => by
    rw [Node.tree]
    split <;> rfl
  | .entity e, _, _, h => EntityNode.slotKeys_tree e h
  | .collection c, _, _, h => CollectionPlace.slotKeys_branch c h
  | .record members, _, _, h => Node.slotKeys_memberTrees members h

theorem EntityNode.slotKeys_tree : ∀ (e : EntityNode) {first : Row} {rows : List Row},
    id ∉ e.collectionIds → (e.tree choice first rows).slotKeys id = []
  | ⟨_, _, _, references, collections, _⟩, _, _, h => by
    rw [EntityNode.collectionIds, mem_append, not_or] at h
    rw [EntityNode.tree]
    split
    · rw [Tree.slotKeys, EntityNode.slotKeys_referenceTrees references h.1,
        CollectionPlace.slotKeys_branches collections h.2, append_nil]
    · rfl

theorem CollectionPlace.slotKeys_branch : ∀ (c : CollectionPlace) {first : Row} {rows : List Row},
    id ∉ c.collectionIds → (c.branch choice first rows).slotKeys id = []
  | .here c, _, _, h => CollectionNode.slotKeys_branch c h
  | .again _ _, _, _, h => by
    rw [CollectionPlace.collectionIds, mem_singleton] at h
    rw [CollectionPlace.branch, Branch.slotKeys, if_neg fun heq => h heq.symm]
    rfl

theorem CollectionNode.slotKeys_branch : ∀ (c : CollectionNode) {first : Row} {rows : List Row},
    id ∉ c.collectionIds → (c.branch choice first rows).slotKeys id = []
  | ⟨_, _, _, _, _, element, _⟩, _, _, h => by
    rw [CollectionNode.collectionIds, mem_cons, not_or] at h
    simp only [CollectionNode.branch, Branch.slotKeys]
    rw [if_neg fun heq => h.1 heq.symm, nil_append]
    exact Tree.elementSlotKeys_eq_nil (fun key => Node.slotKeys_tree element h.2) _

theorem Node.slotKeys_memberTrees : ∀ (members : List (String × Node)) {first : Row} {rows : List Row},
    id ∉ Node.memberCollectionIds members → Tree.memberSlotKeys id (Node.memberTrees choice members first rows) = []
  | [], _, _, _ => rfl
  | (_, member) :: rest, _, _, h => by
    rw [Node.memberCollectionIds, mem_append, not_or] at h
    rw [Node.memberTrees, Tree.memberSlotKeys, Node.slotKeys_tree member h.1, Node.slotKeys_memberTrees rest h.2,
      append_nil]

theorem EntityNode.slotKeys_referenceTrees : ∀ (references : List (String × EntityNode)) {first : Row} {rows : List Row},
    id ∉ EntityNode.referenceCollectionIds references →
      Tree.memberSlotKeys id (EntityNode.referenceTrees choice references first rows) = []
  | [], _, _, _ => rfl
  | (_, target) :: rest, _, _, h => by
    rw [EntityNode.referenceCollectionIds, mem_append, not_or] at h
    rw [EntityNode.referenceTrees, Tree.memberSlotKeys, EntityNode.slotKeys_tree target h.1,
      EntityNode.slotKeys_referenceTrees rest h.2, append_nil]

theorem CollectionPlace.slotKeys_branches : ∀ (collections : List (String × CollectionPlace)) {first : Row}
    {rows : List Row}, id ∉ CollectionPlace.allCollectionIds collections →
      Branch.memberSlotKeys id (CollectionPlace.branches choice collections first rows) = []
  | [], _, _, _ => rfl
  | (_, c) :: rest, _, _, h => by
    rw [CollectionPlace.allCollectionIds, mem_append, not_or] at h
    rw [CollectionPlace.branches, Branch.memberSlotKeys, CollectionPlace.slotKeys_branch c h.1,
      CollectionPlace.slotKeys_branches rest h.2, append_nil]

end

end Absent

/-! ## Rows by their parents -/

section Rows

variable {copy : List Binding} {results : List Row} {key : Key} {keys : List Key}

theorem destutter_cons_eq (key : Key) (l : List Key) :
    (key :: l).destutter (· ≠ ·) = key :: (l.dropWhile (· = key)).destutter (· ≠ ·) := by
  induction l with
  | nil => rfl
  | cons other l ih =>
    rw [destutter_cons'] at ih ⊢
    by_cases heq : other = key
    · subst heq
      rw [destutter'_cons_neg _ (by simp), ih]
      simp
    · rw [destutter'_cons_pos _ (fun h => heq h.symm)]
      simp [heq, destutter_cons']

theorem mem_destutter {l : List Key} (h : key ∈ l) : key ∈ l.destutter (· ≠ ·) := by
  have hmem : ∀ (l : List Key) (a : Key), key ∈ a :: l → key ∈ l.destutter' (· ≠ ·) a := by
    intro l
    induction l with
    | nil => exact fun a h => h
    | cons b l ih =>
      intro a h
      by_cases heq : a = b
      · subst heq
        rw [destutter'_cons_neg _ (by simp)]
        exact ih a (by simpa using h)
      · rw [destutter'_cons_pos _ heq, mem_cons]
        exact (mem_cons.1 h).imp_right (ih b)
  cases l with
  | nil => cases h
  | cons a l => exact hmem l a h

/-- Behind the rows of the first parent come those of the others. -/
theorem destutter_dropWhile_sublist {l : List Key} (h : (l.destutter (· ≠ ·)).Sublist (key :: keys)) :
    ((l.dropWhile (· = key)).destutter (· ≠ ·)).Sublist keys := by
  cases l with
  | nil => exact nil_sublist _
  | cons a l =>
    by_cases heq : a = key
    · subst heq
      rw [destutter_cons_eq, cons_sublist_cons] at h
      simpa using h
    · rw [dropWhile_cons_of_neg (by simpa using heq)]
      rw [destutter_cons_eq] at h ⊢
      cases h with
      | cons _ h => exact h
      | cons_cons _ h => exact absurd rfl heq

/-- The rows of the first of some parents, those of the second one and so on. -/
def rowsOf (copy : List Binding) (results : List Row) (keys : List Key) : List Row :=
  keys.flatMap fun key => rowsWith copy key results

theorem rowsOf_cons : rowsOf copy results (key :: keys) = rowsWith copy key results ++ rowsOf copy results keys := rfl

/-- Every row of some parents has the key of one of them. -/
theorem mem_rowsOf {row : Row} (h : row ∈ rowsOf copy results keys) : row ∈ results ∧ Binding.keyOn copy row ∈ keys := by
  obtain ⟨key, hkey, hrow⟩ := mem_flatMap.1 h
  obtain ⟨hrow, heq⟩ := mem_filter.1 hrow
  exact ⟨hrow, of_decide_eq_true heq ▸ hkey⟩

/-- Rows whose parents come in the order of some keys are the rows of these parents, in this order. -/
theorem rowsOf_eq (hnodup : keys.Nodup)
    (hsub : ((results.map (Binding.keyOn copy)).destutter (· ≠ ·)).Sublist keys) :
    rowsOf copy results keys = results := by
  induction keys generalizing results with
  | nil =>
    cases results with
    | nil => rfl
    | cons row results =>
      rw [map_cons, destutter_cons_eq] at hsub
      cases hsub
  | cons key keys ih =>
    obtain ⟨hkey, hnodup⟩ := nodup_cons.1 hnodup
    let mine := results.takeWhile fun row => Binding.keyOn copy row = key
    let others := results.dropWhile fun row => Binding.keyOn copy row = key
    have hsplit : results = mine ++ others := takeWhile_append_dropWhile.symm
    have hothers : ((others.map (Binding.keyOn copy)).destutter (· ≠ ·)).Sublist keys := by
      have h := destutter_dropWhile_sublist hsub
      rwa [dropWhile_map] at h
    have hmine : ∀ row ∈ mine, Binding.keyOn copy row = key := by
      intro row hrow
      have h := mem_takeWhile_imp hrow
      exact of_decide_eq_true h
    have hothersKey : ∀ row ∈ others, Binding.keyOn copy row ∈ keys := fun row hrow =>
      hothers.subset (mem_destutter (mem_map_of_mem hrow))
    have hfirst : rowsWith copy key results = mine := by
      rw [hsplit, rowsWith_append, rowsWith, rowsWith, List.filter_eq_self.2, filter_eq_nil_iff.2,
        append_nil]
      · intro row hrow hsame
        exact hkey (of_decide_eq_true hsame ▸ hothersKey row hrow)
      · intro row hrow
        simpa using hmine row hrow
    have hrest : ∀ other ∈ keys, rowsWith copy other results = rowsWith copy other others := by
      intro other hother
      rw [hsplit, rowsWith_append, rowsWith, filter_eq_nil_iff.2, nil_append]
      intro row hrow hsame
      exact hkey ((hmine row hrow).symm.trans (of_decide_eq_true hsame) ▸ hother)
    have hagain : rowsOf copy results keys = rowsOf copy others keys := flatMap_congr hrest
    rw [rowsOf_cons, hfirst, hagain, ih hnodup hothers]
    exact hsplit.symm

end Rows

end QueryShaping
