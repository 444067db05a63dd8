import QueryShaping.Proofs.Shaping.Tree

/-!
# What a draft shows

A draft shows a tree when it has the tree's form, its slots hold the elements of the tree's collections under the same
keys, and the graph has an entity of the right type and key wherever the tree has one.

Shaping adds entities to the graph and sets navigations, so type, key and fields of an entity stay what they were.
Without identity resolution nothing is shared: an entity belongs to one draft alone, it has the fields of the tree and
its references are its navigations, and all that belongs to it was made later. The last fact is what makes a walk along
navigations end.
-/

namespace QueryShaping

open List

variable {ts : List (String × Tree)}

/-! ## The graph -/

namespace Graph

variable {g g' g'' : Graph} {id : Nat}

theorem get?_add (entityType : String) (key : List Value) (fields : List (String × Value)) (j : Nat) :
    (g.add entityType key fields).2.get? j =
      if j = g.size then some ⟨entityType, key, fields, []⟩ else g.get? j := by
  simp only [get?, add, size]
  rw [Array.getElem?_push]
  rfl

theorem size_add (entityType : String) (key : List Value) (fields : List (String × Value)) :
    (g.add entityType key fields).2.size = g.size + 1 := by
  simp [add, size]

theorem get?_setNavigation (name : String) (value : Result) (j : Nat) :
    (g.setNavigation id name value).get? j =
      if j = id then (g.get? j).map (·.setNavigation name value) else g.get? j := by
  simp only [get?, setNavigation, Array.getElem?_modify]
  by_cases h : j = id
  · simp [h]
  · have h' : ¬ id = j := fun e => h e.symm
    simp [h, h']

theorem size_setNavigation (name : String) (value : Result) : (g.setNavigation id name value).size = g.size := by
  simp [setNavigation, size]

theorem lt_size_of_get? {e : Entity} (h : g.get? id = some e) : id < g.size :=
  (Array.getElem?_eq_some_iff.1 h).1

/-- A graph in which every entity is still there with its type, key and fields, and those to keep are unchanged. -/
structure Extends (keep : Nat → Prop) (g g' : Graph) : Prop where
  size_le : g.size ≤ g'.size
  entity : ∀ id e, g.get? id = some e → ∃ e', g'.get? id = some e' ∧ e'.entityType = e.entityType ∧
    e'.key = e.key ∧ e'.fields = e.fields ∧ (keep id → e' = e)

theorem Extends.refl (keep : Nat → Prop) (g : Graph) : g.Extends keep g :=
  ⟨Nat.le_refl _, fun _ e h => ⟨e, h, rfl, rfl, rfl, fun _ => rfl⟩⟩

theorem Extends.trans {keep : Nat → Prop} (h : g.Extends keep g') (h' : g'.Extends keep g'') :
    g.Extends keep g'' := by
  refine ⟨Nat.le_trans h.size_le h'.size_le, fun id e he => ?_⟩
  obtain ⟨e₁, he₁, ht₁, hk₁, hf₁, hs₁⟩ := h.entity id e he
  obtain ⟨e₂, he₂, ht₂, hk₂, hf₂, hs₂⟩ := h'.entity id e₁ he₁
  exact ⟨e₂, he₂, ht₂.trans ht₁, hk₂.trans hk₁, hf₂.trans hf₁, fun hk => (hs₂ hk).trans (hs₁ hk)⟩

/-- Only what was there before can be kept. -/
theorem Extends.mono {keep keep' : Nat → Prop} (h : g.Extends keep g')
    (hk : ∀ j, j < g.size → keep' j → keep j) : g.Extends keep' g' := by
  refine ⟨h.size_le, fun id e he => ?_⟩
  obtain ⟨e', he', ht, hkey, hf, hs⟩ := h.entity id e he
  exact ⟨e', he', ht, hkey, hf, fun hk' => hs (hk id (lt_size_of_get? he) hk')⟩

theorem extends_add (keep : Nat → Prop) (entityType : String) (key : List Value)
    (fields : List (String × Value)) : g.Extends keep (g.add entityType key fields).2 := by
  refine ⟨by rw [size_add]; omega, fun id e he => ⟨e, ?_, rfl, rfl, rfl, fun _ => rfl⟩⟩
  have hlt := lt_size_of_get? he
  rw [get?_add, if_neg (Nat.ne_of_lt hlt), he]

theorem extends_setNavigation {keep : Nat → Prop} (name : String) (value : Result) (hk : ¬ keep id) :
    g.Extends keep (g.setNavigation id name value) := by
  refine ⟨Nat.le_of_eq (size_setNavigation name value).symm, fun j e he => ?_⟩
  rw [get?_setNavigation]
  by_cases h : j = id
  · rw [if_pos h, he]
    exact ⟨_, rfl, rfl, rfl, rfl, fun hj => absurd (h ▸ hj) hk⟩
  · rw [if_neg h]
    exact ⟨e, he, rfl, rfl, rfl, fun _ => rfl⟩

end Graph

/-! ## Drafts -/

mutual

/-- The entities of a draft, those inside elements included. -/
def Draft.ids : Draft → List Nat
  | .null => []
  | .scalar _ => []
  | .entity id references slots => id :: (Draft.listIds references ++ Slot.listIds slots)
  | .record members => Draft.memberIds members
  | .collection s => s.ids

def Slot.ids : Slot → List Nat
  | ⟨_, _, _, elements⟩ => Draft.elementIds elements

def Draft.listIds : List Draft → List Nat
  | [] => []
  | d :: rest => d.ids ++ Draft.listIds rest

def Slot.listIds : List Slot → List Nat
  | [] => []
  | s :: rest => s.ids ++ Slot.listIds rest

def Draft.memberIds : List (String × Draft) → List Nat
  | [] => []
  | (_, d) :: rest => d.ids ++ Draft.memberIds rest

def Draft.elementIds : List (Key × Draft) → List Nat
  | [] => []
  | (_, d) :: rest => d.ids ++ Draft.elementIds rest

end

/-- The navigations that an entity's references make. -/
def Draft.navigations : List (String × Tree) → List Draft → List (String × Result)
  | (name, _) :: ts, d :: ds => (name, d.reference) :: Draft.navigations ts ds
  | _, _ => []

/-- A list of navigations after others have been set one after the other. -/
def Entity.putAll (base new : List (String × Result)) : List (String × Result) :=
  new.foldl (fun acc (name, value) => putNavigation name value acc) base

/-- Whether the graph has an entity of this type and key at a place. Where nothing is shared, its fields and navigations
are known too. -/
def Graph.Holds (unshared : Bool) (g : Graph) (id : Nat) (entityType : String) (key : List Value)
    (fields : List (String × Value)) (navigations : List (String × Result)) : Prop :=
  ∃ e, g.get? id = some e ∧ e.entityType = entityType ∧ e.identity = Key.ofValues key ∧
    (unshared = true → e = ⟨entityType, key, fields, navigations⟩)

mutual

/-- Whether a draft shows a tree. -/
def Draft.Shows (unshared : Bool) (g : Graph) : Draft → Tree → Prop
  | .null, .null => True
  | .scalar v, .scalar w => v = w
  | .entity id ds slots, .entity entityType key fields references collections =>
    g.Holds unshared id entityType key fields (Entity.putAll [] (Draft.navigations references ds)) ∧
      (unshared = true → ∀ j ∈ Draft.listIds ds ++ Slot.listIds slots, id < j) ∧
      (slots.map (·.number)).Pairwise (· < ·) ∧
      Draft.ShowReferences unshared g ds references ∧ Slot.ShowCollections unshared g id slots collections
  | .record ds, .record ts => Draft.ShowMembers unshared g ds ts
  | .collection s, .collection b => s.owner = none ∧ s.Shows unshared g b
  | _, _ => False

def Slot.Shows (unshared : Bool) (g : Graph) : Slot → Branch → Prop
  | ⟨_, _, key, elements⟩, b => key = b.parentKey ∧ Draft.ShowElements unshared g elements b.elements

def Draft.ShowReferences (unshared : Bool) (g : Graph) : List Draft → List (String × Tree) → Prop
  | [], [] => True
  | d :: ds, (_, t) :: ts =>
    d.Shows unshared g t ∧ d.reference = d.result ∧ Draft.ShowReferences unshared g ds ts
  | _, _ => False

def Slot.ShowCollections (unshared : Bool) (g : Graph) (id : Nat) : List Slot → List (String × Branch) → Prop
  | [], [] => True
  | s :: ss, (name, b) :: bs =>
    s.owner = some (id, name) ∧ s.Shows unshared g b ∧ Slot.ShowCollections unshared g id ss bs
  | _, _ => False

def Draft.ShowMembers (unshared : Bool) (g : Graph) : List (String × Draft) → List (String × Tree) → Prop
  | [], [] => True
  | (name, d) :: ds, (name', t) :: ts => name = name' ∧ d.Shows unshared g t ∧ Draft.ShowMembers unshared g ds ts
  | _, _ => False

def Draft.ShowElements (unshared : Bool) (g : Graph) : List (Key × Draft) → List (Key × Tree) → Prop
  | [], [] => True
  | (key, d) :: ds, (key', t) :: ts => key = key' ∧ d.Shows unshared g t ∧ Draft.ShowElements unshared g ds ts
  | _, _ => False

end

theorem Slot.ids_eq (s : Slot) : s.ids = Draft.elementIds s.elements := by
  obtain ⟨number, owner, key, elements⟩ := s
  rw [Slot.ids]

theorem Slot.shows_iff {unshared : Bool} {g : Graph} {s : Slot} {b : Branch} :
    s.Shows unshared g b ↔ s.parentKey = b.parentKey ∧ Draft.ShowElements unshared g s.elements b.elements := by
  obtain ⟨number, owner, key, elements⟩ := s
  rw [Slot.Shows]

/-! ## The form of a draft -/

section Form

variable {unshared : Bool} {g : Graph} {d : Draft}

theorem Draft.Shows.null (h : d.Shows unshared g .null) : d = .null := by
  cases d <;> first | rfl | exact h.elim

theorem Draft.Shows.entity {entityType : String} {key : List Value} {fields : List (String × Value)}
    {references : List (String × Tree)} {collections : List (String × Branch)}
    (h : d.Shows unshared g (.entity entityType key fields references collections)) :
    ∃ id ds slots, d = .entity id ds slots := by
  cases d <;> first | exact ⟨_, _, _, rfl⟩ | exact h.elim

theorem Draft.Shows.record (h : d.Shows unshared g (.record ts)) : ∃ ds, d = .record ds := by
  cases d <;> first | exact ⟨_, rfl⟩ | exact h.elim

theorem Draft.Shows.collection {b : Branch} (h : d.Shows unshared g (.collection b)) : ∃ s, d = .collection s := by
  cases d <;> first | exact ⟨_, rfl⟩ | exact h.elim

theorem Draft.ShowMembers.nil {ds : List (String × Draft)} (h : Draft.ShowMembers unshared g ds []) : ds = [] := by
  cases ds <;> first | rfl | exact h.elim

theorem Draft.ShowMembers.cons {ds : List (String × Draft)} {t : String × Tree}
    (h : Draft.ShowMembers unshared g ds (t :: ts)) : ∃ d rest, ds = (t.1, d) :: rest := by
  cases ds <;> first | exact h.elim | exact ⟨_, _, congrArg (· :: _) (Prod.ext h.1 rfl)⟩

theorem Draft.ShowReferences.nil {ds : List Draft} (h : Draft.ShowReferences unshared g ds []) : ds = [] := by
  cases ds <;> first | rfl | exact h.elim

theorem Draft.ShowReferences.cons {ds : List Draft} {t : String × Tree}
    (h : Draft.ShowReferences unshared g ds (t :: ts)) : ∃ d rest, ds = d :: rest := by
  cases ds <;> first | exact h.elim | exact ⟨_, _, rfl⟩

theorem Slot.ShowCollections.nil {id : Nat} {ss : List Slot} (h : Slot.ShowCollections unshared g id ss []) : ss = [] := by
  cases ss <;> first | rfl | exact h.elim

theorem Slot.ShowCollections.cons {id : Nat} {ss : List Slot} {b : String × Branch} {bs : List (String × Branch)}
    (h : Slot.ShowCollections unshared g id ss (b :: bs)) : ∃ s rest, ss = s :: rest := by
  cases ss <;> first | exact h.elim | exact ⟨_, _, rfl⟩

end Form

/-! ## Extending the graph -/

theorem Graph.Holds.extend {unshared : Bool} {keep : Nat → Prop} {g g' : Graph} {id : Nat}
    {entityType : String} {key : List Value} {fields : List (String × Value)} {navigations : List (String × Result)}
    (h : g.Holds unshared id entityType key fields navigations) (hg : g.Extends keep g')
    (hk : unshared = true → keep id) : g'.Holds unshared id entityType key fields navigations := by
  obtain ⟨e, he, ht, hi, hu⟩ := h
  obtain ⟨e', he', ht', hkey', -, hs⟩ := hg.entity id e he
  refine ⟨e', he', ht'.trans ht, ?_, fun hun => (hs (hk hun)).trans (hu hun)⟩
  rw [Entity.identity, hkey']
  exact hi

section Extension

variable {unshared : Bool} {keep : Nat → Prop} {g g' : Graph}

mutual

/-- What a draft shows it shows in every graph that keeps its entities. -/
theorem Draft.Shows.extend (hg : g.Extends keep g') :
    ∀ (d : Draft) (t : Tree), (unshared = true → ∀ j ∈ d.ids, keep j) → d.Shows unshared g t →
    d.Shows unshared g' t
  | .null, .null, _, _ => trivial
  | .scalar _, .scalar _, _, h => h
  | .entity _ ds slots, .entity _ _ _ references collections, hk, ⟨hholds, hrise, hnumbers, hrefs, hcols⟩ => by
    simp only [Draft.ids, forall_mem_cons, forall_mem_append] at hk
    exact ⟨hholds.extend hg fun hu => (hk hu).1, hrise, hnumbers,
      Draft.ShowReferences.extend hg ds references (fun hu => (hk hu).2.1) hrefs,
      Slot.ShowCollections.extend hg _ slots collections (fun hu => (hk hu).2.2) hcols⟩
  | .record ds, .record ts, hk, h => Draft.ShowMembers.extend hg ds ts hk h
  | .collection s, .collection b, hk, h => ⟨h.1, Slot.Shows.extend hg s b hk h.2⟩

theorem Slot.Shows.extend (hg : g.Extends keep g') :
    ∀ (s : Slot) (b : Branch), (unshared = true → ∀ j ∈ s.ids, keep j) → s.Shows unshared g b →
    s.Shows unshared g' b
  | ⟨_, _, _, elements⟩, b, hk, h => ⟨h.1, Draft.ShowElements.extend hg elements b.elements hk h.2⟩

theorem Draft.ShowReferences.extend (hg : g.Extends keep g') : ∀ (ds : List Draft) (ts : List (String × Tree)),
    (unshared = true → ∀ j ∈ Draft.listIds ds, keep j) → Draft.ShowReferences unshared g ds ts →
      Draft.ShowReferences unshared g' ds ts
  | [], [], _, _ => trivial
  | d :: ds, t :: ts, hk, h => by
    simp only [Draft.listIds, forall_mem_append] at hk
    exact ⟨Draft.Shows.extend hg d t.2 (fun hu => (hk hu).1) h.1, h.2.1,
      Draft.ShowReferences.extend hg ds ts (fun hu => (hk hu).2) h.2.2⟩

theorem Slot.ShowCollections.extend (hg : g.Extends keep g') (id : Nat) :
    ∀ (ss : List Slot) (bs : List (String × Branch)),
    (unshared = true → ∀ j ∈ Slot.listIds ss, keep j) → Slot.ShowCollections unshared g id ss bs →
      Slot.ShowCollections unshared g' id ss bs
  | [], [], _, _ => trivial
  | s :: ss, b :: bs, hk, h => by
    simp only [Slot.listIds, forall_mem_append] at hk
    exact ⟨h.1, Slot.Shows.extend hg s b.2 (fun hu => (hk hu).1) h.2.1,
      Slot.ShowCollections.extend hg id ss bs (fun hu => (hk hu).2) h.2.2⟩

theorem Draft.ShowMembers.extend (hg : g.Extends keep g') : ∀ (ds : List (String × Draft)) (ts : List (String × Tree)),
    (unshared = true → ∀ j ∈ Draft.memberIds ds, keep j) → Draft.ShowMembers unshared g ds ts →
      Draft.ShowMembers unshared g' ds ts
  | [], [], _, _ => trivial
  | (_, d) :: ds, t :: ts, hk, h => by
    simp only [Draft.memberIds, forall_mem_append] at hk
    exact ⟨h.1, Draft.Shows.extend hg d t.2 (fun hu => (hk hu).1) h.2.1,
      Draft.ShowMembers.extend hg ds ts (fun hu => (hk hu).2) h.2.2⟩

theorem Draft.ShowElements.extend (hg : g.Extends keep g') : ∀ (ds : List (Key × Draft)) (ts : List (Key × Tree)),
    (unshared = true → ∀ j ∈ Draft.elementIds ds, keep j) → Draft.ShowElements unshared g ds ts →
      Draft.ShowElements unshared g' ds ts
  | [], [], _, _ => trivial
  | (_, d) :: ds, t :: ts, hk, h => by
    simp only [Draft.elementIds, forall_mem_append] at hk
    exact ⟨h.1, Draft.Shows.extend hg d t.2 (fun hu => (hk hu).1) h.2.1,
      Draft.ShowElements.extend hg ds ts (fun hu => (hk hu).2) h.2.2⟩

end

end Extension

/-- What stays true of a graph when it is extended, if all entities are kept where nothing is shared. -/
def Graph.Kept (R : Bool → Graph → Prop) : Prop :=
  ∀ {unshared g g'}, g.Extends (fun _ => unshared = true) g' → R unshared g → R unshared g'

theorem Draft.shows_kept (d : Draft) (t : Tree) : Graph.Kept fun u g => d.Shows u g t :=
  fun hg => Draft.Shows.extend hg d t fun hu _ _ => hu

theorem Slot.shows_kept (s : Slot) (b : Branch) : Graph.Kept fun u g => s.Shows u g b :=
  fun hg => Slot.Shows.extend hg s b fun hu _ _ => hu

theorem Draft.showElements_kept (ds : List (Key × Draft)) (ts : List (Key × Tree)) :
    Graph.Kept fun u g => Draft.ShowElements u g ds ts :=
  fun hg => Draft.ShowElements.extend hg ds ts fun hu _ _ => hu

theorem Draft.showMembers_kept (ds : List (String × Draft)) (ts : List (String × Tree)) :
    Graph.Kept fun u g => Draft.ShowMembers u g ds ts :=
  fun hg => Draft.ShowMembers.extend hg ds ts fun hu _ _ => hu

theorem Slot.showCollections_kept (id : Nat) (ss : List Slot) (bs : List (String × Branch)) :
    Graph.Kept fun u g => Slot.ShowCollections u g id ss bs :=
  fun hg => Slot.ShowCollections.extend hg id ss bs fun hu _ _ => hu

theorem Draft.showReferences_kept (ds : List Draft) (ts : List (String × Tree)) :
    Graph.Kept fun u g => Draft.ShowReferences u g ds ts :=
  fun hg => Draft.ShowReferences.extend hg ds ts fun hu _ _ => hu

end QueryShaping
