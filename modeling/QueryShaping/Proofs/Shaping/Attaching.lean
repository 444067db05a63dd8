import Mathlib.Data.List.Nodup
import QueryShaping.Proofs.Shaping.Showing

/-!
# Attaching collections

When all rows of a value have been taken, its collections are attached to the entities that own them, in the order in
which the slots were made. Where nothing is shared an entity owns the slots of one draft alone. So each of its
collections gets its own elements, and the tree that the draft showed describes the result: one finds it by reading along
the navigations.
-/

namespace QueryShaping

open List

mutual

/-- Whether a tree is what a result shows in a graph. The entities of the result have places from `low` on, and what
belongs to an entity comes after it. -/
def Tree.Describes (g : Graph) : Tree → (low : Nat) → Result → Prop
  | .null, _, r => r = .null
  | .scalar v, _, r => r = .scalar v
  | .entity entityType key fields references collections, low, r =>
    ∃ (id : Nat) (navigations lists : List (String × Result)), r = .entity id ∧ low ≤ id ∧
      g.get? id = some ⟨entityType, key, fields, Entity.putAll (Entity.putAll [] navigations) lists⟩ ∧
      Tree.DescribeMembers g references (id + 1) navigations ∧ Branch.DescribeMembers g collections (id + 1) lists
  | .record members, low, r => ∃ rs, r = .record rs ∧ Tree.DescribeMembers g members low rs
  | .collection b, low, r => b.Describes g low r

def Branch.Describes (g : Graph) : Branch → (low : Nat) → Result → Prop
  | ⟨_, _, elements⟩, low, r => ∃ items, r = .collection items ∧ Tree.DescribeElements g elements low items

def Tree.DescribeMembers (g : Graph) : List (String × Tree) → (low : Nat) → List (String × Result) → Prop
  | [], _, rs => rs = []
  | (name, t) :: rest, low, rs =>
    ∃ r rs', rs = (name, r) :: rs' ∧ t.Describes g low r ∧ Tree.DescribeMembers g rest low rs'

def Branch.DescribeMembers (g : Graph) : List (String × Branch) → (low : Nat) → List (String × Result) → Prop
  | [], _, rs => rs = []
  | (name, b) :: rest, low, rs =>
    ∃ r rs', rs = (name, r) :: rs' ∧ b.Describes g low r ∧ Branch.DescribeMembers g rest low rs'

def Tree.DescribeElements (g : Graph) : List (Key × Tree) → (low : Nat) → List Result → Prop
  | [], _, rs => rs = []
  | (_, t) :: rest, low, rs =>
    ∃ r rs', rs = r :: rs' ∧ t.Describes g low r ∧ Tree.DescribeElements g rest low rs'

end

/-- Whether each entity has got the attachments that it owns, one after the other. -/
def Graph.Attached (as : List Attachment) (g g' : Graph) : Prop :=
  ∀ id, g'.get? id = (g.get? id).map fun e => { e with
    navigations := Entity.putAll e.navigations
      ((as.filter fun a => a.owner = id).map fun a => (a.navigation, a.value)) }

theorem Graph.attached_foldl (as : List Attachment) (g : Graph) :
    Graph.Attached as g (as.foldl (fun g a => g.setNavigation a.owner a.navigation a.value) g) := by
  intro id
  induction as generalizing g with
  | nil => cases h : g.get? id <;> simp [h, Entity.putAll]
  | cons a as ih =>
    rw [foldl_cons, ih, Graph.get?_setNavigation]
    by_cases hid : id = a.owner
    · subst hid
      cases h : g.get? a.owner with
      | none => simp
      | some e => simp [Entity.setNavigation, Entity.putAll]
    · have hid' : ¬ a.owner = id := fun heq => hid heq.symm
      simp [hid, hid']

/-- Attachments leave entities alone that own none of them. -/
theorem Graph.extends_attachAll {keep : Nat → Prop} {as : List Attachment} (h : ∀ a ∈ as, ¬ keep a.owner) (g : Graph) :
    g.Extends keep (as.foldl (fun g a => g.setNavigation a.owner a.navigation a.value) g) := by
  induction as generalizing g with
  | nil => exact .refl _ _
  | cons a as ih =>
    exact (Graph.extends_setNavigation _ _ (h a mem_cons_self)).trans
      (ih (fun a' ha' => h a' (mem_cons_of_mem _ ha')) _)

/-! ## Owners -/

section Owners

variable {unshared : Bool} {g : Graph}

mutual

/-- Whoever owns a collection of a draft is in the draft. -/
theorem Draft.Shows.owner_mem : ∀ (d : Draft) {t : Tree}, d.Shows unshared g t → ∀ a ∈ d.attachments, a.owner ∈ d.ids
  | .null, _, _, _, ha | .scalar _, _, _, _, ha => (not_mem_nil ha).elim
  | .entity _ ds slots, .entity .., ⟨_, _, _, hrefs, hcols⟩, a, _ => by
    have hds := Draft.ShowReferences.owner_mem ds hrefs a
    have hslots := Slot.ShowCollections.owner_mem slots hcols a
    grind [Draft.attachments, Draft.ids]
  | .record ds, .record _, h, a, ha => Draft.ShowMembers.owner_mem ds h a ha
  | .collection s, .collection _, h, a, ha => by
    have hs := Slot.Shows.owner_mem s h.2 a ha
    grind [h.1, Draft.ids]

theorem Slot.Shows.owner_mem : ∀ (s : Slot) {b : Branch}, s.Shows unshared g b →
    ∀ a ∈ s.attachments, (∃ name, s.owner = some (a.owner, name)) ∨ a.owner ∈ s.ids
  | ⟨_, owner, _, elements⟩, _, h, a, _ => by
    have helements := Draft.ShowElements.owner_mem elements h.2 a
    cases owner <;> grind [Slot.attachments, Slot.ids]

theorem Draft.ShowReferences.owner_mem : ∀ (ds : List Draft) {ts : List (String × Tree)},
    Draft.ShowReferences unshared g ds ts → ∀ a ∈ Draft.listAttachments ds, a.owner ∈ Draft.listIds ds
  | [], _, _, _, ha => (not_mem_nil ha).elim
  | d :: ds, _ :: _, h, a, _ => by
    have hd := Draft.Shows.owner_mem d h.1 a
    have hds := Draft.ShowReferences.owner_mem ds h.2.2 a
    grind [Draft.listAttachments, Draft.listIds]

theorem Slot.ShowCollections.owner_mem : ∀ {id : Nat} (slots : List Slot) {bs : List (String × Branch)},
    Slot.ShowCollections unshared g id slots bs →
      ∀ a ∈ Slot.listAttachments slots, a.owner = id ∨ a.owner ∈ Slot.listIds slots
  | _, [], _, _, _, ha => (not_mem_nil ha).elim
  | _, s :: slots, _ :: _, h, a, _ => by
    have hs := Slot.Shows.owner_mem s h.2.1 a
    have hslots := Slot.ShowCollections.owner_mem slots h.2.2 a
    grind [h.1, Slot.listAttachments, Slot.listIds]

theorem Draft.ShowMembers.owner_mem : ∀ (ds : List (String × Draft)) {ts : List (String × Tree)},
    Draft.ShowMembers unshared g ds ts → ∀ a ∈ Draft.memberAttachments ds, a.owner ∈ Draft.memberIds ds
  | [], _, _, _, ha => (not_mem_nil ha).elim
  | (_, d) :: ds, _ :: _, h, a, _ => by
    have hd := Draft.Shows.owner_mem d h.2.1 a
    have hds := Draft.ShowMembers.owner_mem ds h.2.2 a
    grind [Draft.memberAttachments, Draft.memberIds]

theorem Draft.ShowElements.owner_mem : ∀ (ds : List (Key × Draft)) {ts : List (Key × Tree)},
    Draft.ShowElements unshared g ds ts → ∀ a ∈ Draft.elementAttachments ds, a.owner ∈ Draft.elementIds ds
  | [], _, _, _, ha => (not_mem_nil ha).elim
  | (_, d) :: ds, _ :: _, h, a, _ => by
    have hd := Draft.Shows.owner_mem d h.2.1 a
    have hds := Draft.ShowElements.owner_mem ds h.2.2 a
    grind [Draft.elementAttachments, Draft.elementIds]

end

end Owners

/-! ## Each entity gets its own collections -/

namespace Attachment

variable {as a b : List Attachment} {is js : List Nat}

/-- Whether what these entities own among all attachments is what they own among `own`. -/
def Owned (as : List Attachment) (ids : List Nat) (own : List Attachment) : Prop :=
  ∀ id ∈ ids, (as.filter fun a => a.owner = id).Perm (own.filter fun a => a.owner = id)

theorem filter_owner_eq_nil {id : Nat} (h : ∀ x ∈ a, x.owner ≠ id) : (a.filter fun x => x.owner = id) = [] := by
  rw [filter_eq_nil_iff]
  intro x hx
  simpa using h x hx

theorem Owned.left (h : Owned as (is ++ js) (a ++ b)) (hb : ∀ x ∈ b, x.owner ∉ is) : Owned as is a := by
  intro id hid
  have h := h id (mem_append_left _ hid)
  rw [filter_append, filter_owner_eq_nil fun x hx heq => hb x hx (heq ▸ hid), append_nil] at h
  exact h

theorem Owned.right (h : Owned as (is ++ js) (a ++ b)) (ha : ∀ x ∈ a, x.owner ∉ js) : Owned as js b := by
  intro id hid
  have h := h id (mem_append_right _ hid)
  rw [filter_append, filter_owner_eq_nil fun x hx heq => ha x hx (heq ▸ hid), nil_append] at h
  exact h

/-- Whether the entities of a part are different ones, from `low` on, and own nothing outside of the part. -/
structure Apart (as : List Attachment) (low : Nat) (ids : List Nat) (own : List Attachment) : Prop where
  nodup : ids.Nodup
  low_le : ∀ j ∈ ids, low ≤ j
  owned : Owned as ids own

variable {low : Nat}

theorem Apart.left (h : Apart as low (is ++ js) (a ++ b)) (hb : ∀ x ∈ b, x.owner ∉ is) : Apart as low is a :=
  ⟨(nodup_append.1 h.nodup).1, fun j hj => h.low_le j (mem_append_left _ hj), h.owned.left hb⟩

theorem Apart.right (h : Apart as low (is ++ js) (a ++ b)) (ha : ∀ x ∈ a, x.owner ∉ js) : Apart as low js b :=
  ⟨(nodup_append.1 h.nodup).2.1, fun j hj => h.low_le j (mem_append_right _ hj), h.owned.right ha⟩

/-- Two parts that own what is theirs are apart on their own. -/
theorem Apart.split (h : Apart as low (is ++ js) (a ++ b)) (ha : ∀ x ∈ a, x.owner ∈ is) (hb : ∀ x ∈ b, x.owner ∈ js) :
    Apart as low is a ∧ Apart as low js b := by
  have hdisj := (nodup_append.1 h.nodup).2.2
  exact ⟨h.left fun x hx hmem => hdisj _ hmem _ (hb x hx) rfl, h.right fun x hx hmem => hdisj _ (ha x hx) _ hmem rfl⟩

end Attachment

/-- The collection of a slot that an entity owns. -/
def Slot.attachment? (s : Slot) : Option Attachment :=
  s.owner.map fun (id, navigation) => ⟨s.number, id, navigation, s.result⟩

theorem Slot.attachments_eq (s : Slot) :
    s.attachments = s.attachment?.toList ++ Draft.elementAttachments s.elements := by
  obtain ⟨number, owner, key, elements⟩ := s
  rw [Slot.attachments]
  cases owner with
  | none => rfl
  | some o => simp [Slot.attachment?, Slot.result]

variable {unshared : Bool} {g : Graph}

/-- Among the collections in and below the slots of an entity, it owns those of the slots themselves. -/
theorem Slot.ShowCollections.filter_owner {id : Nat} : ∀ {slots : List Slot} {bs : List (String × Branch)},
    Slot.ShowCollections unshared g id slots bs → id ∉ Slot.listIds slots →
      ((Slot.listAttachments slots).filter fun a => a.owner = id) = slots.filterMap Slot.attachment?
  | [], _, _, _ => rfl
  | s :: slots, b :: bs, h, hid => by
    rw [Slot.listIds, mem_append, not_or] at hid
    have hinner : (Draft.elementAttachments s.elements).filter (fun a => a.owner = id) = [] := by
      refine Attachment.filter_owner_eq_nil fun a ha heq => hid.1 ?_
      rw [Slot.ids_eq, ← heq]
      exact Draft.ShowElements.owner_mem s.elements (Slot.shows_iff.1 h.2.1).2 a ha
    have hown : s.attachment? = some ⟨s.number, id, b.1, s.result⟩ := by
      rw [Slot.attachment?, h.1]
      rfl
    rw [Slot.listAttachments, filter_append, Slot.attachments_eq, filter_append, hinner,
      Slot.ShowCollections.filter_owner h.2.2 hid.2, filterMap_cons, hown]
    simp

theorem Slot.ShowCollections.numbers {id : Nat} : ∀ {slots : List Slot} {bs : List (String × Branch)},
    Slot.ShowCollections unshared g id slots bs →
      (slots.filterMap Slot.attachment?).map (·.number) = slots.map (·.number)
  | [], _, _ => rfl
  | s :: slots, b :: bs, h => by
    have hown : s.attachment? = some ⟨s.number, id, b.1, s.result⟩ := by
      rw [Slot.attachment?, h.1]
      rfl
    rw [filterMap_cons, hown, map_cons, map_cons, Slot.ShowCollections.numbers h.2.2]

/-- Attachments of one owner, sorted by their numbers, stand as the slots do. -/
theorem Attachment.eq_of_sorted {as own : List Attachment} (has : as.Pairwise fun a b => a.number ≤ b.number)
    (hown : (own.map (·.number)).Pairwise (· < ·)) (hperm : as.Perm own) : as = own := by
  have hnodup : (own.map (·.number)).Nodup := hown.imp Nat.ne_of_lt
  rw [pairwise_map] at hown
  refine hperm.eq_of_pairwise ?_ has (hown.imp Nat.le_of_lt)
  intro a b ha hb hab hba
  exact inj_on_of_nodup_map hnodup (hperm.mem_iff.1 ha) hb (Nat.le_antisymm hab hba)

section Describe

variable {g' : Graph} {as : List Attachment}

mutual

/-- Where nothing is shared, the tree that a draft shows describes its result once all is attached. -/
theorem Draft.Shows.describes (has : as.Pairwise fun a b => a.number ≤ b.number)
    (hg' : Graph.Attached as g g') : ∀ (d : Draft) {t : Tree} {low : Nat}, d.Shows true g t →
    Attachment.Apart as low d.ids d.attachments → t.Describes g' low d.result
  | .null, .null, _, _, _ => rfl
  | .scalar _, .scalar _, _, h, _ => congrArg Result.scalar h
  | .entity id ds slots, .entity _ _ _ references _, low, ⟨⟨e, he, _, _, hsame⟩, hrise, hnum, hrefs, hcols⟩,
      ⟨hnodup, hlow, howned⟩ => by
    rw [Draft.ids, nodup_cons, mem_append, not_or] at hnodup
    obtain ⟨⟨hid, hid'⟩, hnodup⟩ := hnodup
    have hrefOwners := Draft.ShowReferences.owner_mem ds hrefs
    have hcolOwners := Slot.ShowCollections.owner_mem slots hcols
    -- What the entity owns are its own slots.
    have hfilter : (as.filter fun a => a.owner = id) = slots.filterMap Slot.attachment? := by
      refine Attachment.eq_of_sorted (has.filter _) (by rw [hcols.numbers]; exact hnum) ?_
      have hnone : ∀ a ∈ Draft.listAttachments ds, a.owner ≠ id := fun a ha heq => hid (heq ▸ hrefOwners a ha)
      have hperm := howned id mem_cons_self
      rwa [Draft.attachments, filter_append, Attachment.filter_owner_eq_nil hnone, nil_append,
        hcols.filter_owner hid'] at hperm
    have hparts : Attachment.Apart as (id + 1) (Draft.listIds ds ++ Slot.listIds slots)
        (Draft.listAttachments ds ++ Slot.listAttachments slots) :=
      ⟨hnodup, hrise rfl, fun j hj => howned j (mem_cons_of_mem _ hj)⟩
    have hdisj := (nodup_append.1 hnodup).2.2
    refine ⟨id, Draft.navigations references ds, (slots.filterMap Slot.attachment?).map fun a => (a.navigation, a.value),
      rfl, hlow id mem_cons_self, ?_, ?_, ?_⟩
    · rw [hg' id, he, hsame rfl, hfilter]
      rfl
    · exact Draft.ShowReferences.describes has hg' ds hrefs (hparts.left fun a ha hmem => by grind)
    · exact Slot.ShowCollections.describes has hg' slots hcols hid'
        (hparts.right fun a ha hmem => hdisj _ (hrefOwners a ha) _ hmem rfl)
  | .record ds, .record _, _, h, hapart => ⟨_, rfl, Draft.ShowMembers.describes has hg' ds h hapart⟩
  | .collection s, .collection _, _, h, hapart => by
    rw [Draft.attachments, Slot.attachments_eq, Slot.attachment?, h.1] at hapart
    exact Slot.Shows.describes has hg' s h.2 hapart

theorem Slot.Shows.describes (has : as.Pairwise fun a b => a.number ≤ b.number)
    (hg' : Graph.Attached as g g') : ∀ (s : Slot) {b : Branch} {low : Nat}, s.Shows true g b →
    Attachment.Apart as low s.ids (Draft.elementAttachments s.elements) → b.Describes g' low s.result
  | ⟨_, _, _, elements⟩, ⟨_, _, _⟩, _, h, hapart => ⟨_, rfl, Draft.ShowElements.describes has hg' elements h.2 hapart⟩

theorem Draft.ShowReferences.describes (has : as.Pairwise fun a b => a.number ≤ b.number)
    (hg' : Graph.Attached as g g') : ∀ (ds : List Draft) {ts : List (String × Tree)} {low : Nat},
    Draft.ShowReferences true g ds ts → Attachment.Apart as low (Draft.listIds ds) (Draft.listAttachments ds) →
      Tree.DescribeMembers g' ts low (Draft.navigations ts ds)
  | [], [], _, _, _ => rfl
  | d :: ds, (_, _) :: _, _, h, hapart => by
    obtain ⟨hfirst, hrest⟩ := hapart.split (Draft.Shows.owner_mem d h.1) (Draft.ShowReferences.owner_mem ds h.2.2)
    rw [Draft.navigations, h.2.1]
    exact ⟨_, _, rfl, Draft.Shows.describes has hg' d h.1 hfirst, Draft.ShowReferences.describes has hg' ds h.2.2 hrest⟩

theorem Slot.ShowCollections.describes (has : as.Pairwise fun a b => a.number ≤ b.number)
    (hg' : Graph.Attached as g g') {id : Nat} : ∀ (slots : List Slot) {bs : List (String × Branch)} {low : Nat},
    Slot.ShowCollections true g id slots bs → id ∉ Slot.listIds slots →
    Attachment.Apart as low (Slot.listIds slots) (Slot.listAttachments slots) →
      Branch.DescribeMembers g' bs low ((slots.filterMap Slot.attachment?).map fun a => (a.navigation, a.value))
  | [], [], _, _, _, _ => rfl
  | s :: slots, (name, b) :: _, low, h, hid, hapart => by
    rw [Slot.listIds, mem_append, not_or] at hid
    have hdisj := (nodup_append.1 hapart.nodup).2.2
    have hown : ∀ a ∈ s.attachments, a.owner = id ∨ a.owner ∈ s.ids := fun a ha => by
      have := Slot.Shows.owner_mem s h.2.1 a ha
      grind [h.1]
    have hrest := Slot.ShowCollections.owner_mem slots h.2.2
    have hfirst : s.attachment? = some ⟨s.number, id, name, s.result⟩ := by
      rw [Slot.attachment?, h.1]
      rfl
    have hslot : Attachment.Apart as low s.ids s.attachments := hapart.left fun a ha hmem => by grind
    rw [filterMap_cons, hfirst]
    refine ⟨_, _, rfl, Slot.Shows.describes has hg' s h.2.1 ?_, Slot.ShowCollections.describes has hg' slots h.2.2 hid.2 ?_⟩
    · rw [Slot.attachments_eq, hfirst] at hslot
      exact Attachment.Apart.right (show Attachment.Apart as low ([] ++ s.ids) _ from hslot) fun a ha hmem => by grind
    · exact hapart.right fun a ha hmem => by grind

theorem Draft.ShowMembers.describes (has : as.Pairwise fun a b => a.number ≤ b.number)
    (hg' : Graph.Attached as g g') : ∀ (ds : List (String × Draft)) {ts : List (String × Tree)} {low : Nat},
    Draft.ShowMembers true g ds ts → Attachment.Apart as low (Draft.memberIds ds) (Draft.memberAttachments ds) →
      Tree.DescribeMembers g' ts low (Draft.memberResults ds)
  | [], [], _, _, _ => rfl
  | (_, d) :: ds, (_, _) :: _, _, h, hapart => by
    obtain ⟨hfirst, hrest⟩ := hapart.split (Draft.Shows.owner_mem d h.2.1) (Draft.ShowMembers.owner_mem ds h.2.2)
    rw [Draft.memberResults, h.1]
    exact ⟨_, _, rfl, Draft.Shows.describes has hg' d h.2.1 hfirst, Draft.ShowMembers.describes has hg' ds h.2.2 hrest⟩

theorem Draft.ShowElements.describes (has : as.Pairwise fun a b => a.number ≤ b.number)
    (hg' : Graph.Attached as g g') : ∀ (ds : List (Key × Draft)) {ts : List (Key × Tree)} {low : Nat},
    Draft.ShowElements true g ds ts → Attachment.Apart as low (Draft.elementIds ds) (Draft.elementAttachments ds) →
      Tree.DescribeElements g' ts low (Draft.elementResults ds)
  | [], [], _, _, _ => rfl
  | (_, d) :: ds, (_, _) :: _, _, h, hapart => by
    obtain ⟨hfirst, hrest⟩ := hapart.split (Draft.Shows.owner_mem d h.2.1) (Draft.ShowElements.owner_mem ds h.2.2)
    exact ⟨_, _, rfl, Draft.Shows.describes has hg' d h.2.1 hfirst, Draft.ShowElements.describes has hg' ds h.2.2 hrest⟩

end

end Describe

/-- Attaching the collections of a draft that shares nothing makes its result the tree that it shows. -/
theorem Draft.Shows.describes_attach {d : Draft} {t : Tree} (h : d.Shows true g t) (hnodup : d.ids.Nodup) :
    t.Describes (g.attach d) 0 d.result := by
  have has : (d.attachments.mergeSort fun a b => a.number ≤ b.number).Pairwise fun a b => a.number ≤ b.number := by
    exact (List.pairwise_mergeSort (by simp; omega) (by simp; omega) d.attachments).imp of_decide_eq_true
  exact Draft.Shows.describes has (Graph.attached_foldl _ g) d h
    ⟨hnodup, fun j _ => Nat.zero_le j, fun id _ => (mergeSort_perm _ _).filter _⟩

end QueryShaping
