import QueryShaping.Proofs.Shaping.Decoding

/-!
# Elements by their keys

The elements of a slot are kept under their keys in the order in which the keys appeared. Here is what happens to them
when one more row is taken: the row carries no element, an element that is there already, or a new one at the end.
-/

namespace QueryShaping

open List

/-! ## The keys among rows -/

theorem nodup_eraseDups {α : Type} [BEq α] [LawfulBEq α] (l : List α) : l.eraseDups.Nodup := by
  induction h : l.length using Nat.strongRecOn generalizing l with
  | ind n ih =>
    cases l with
    | nil => exact nodup_nil
    | cons a l =>
      rw [eraseDups_cons, nodup_cons]
      refine ⟨fun hmem => ?_, ih _ ?_ _ rfl⟩
      · rw [mem_eraseDups, mem_filter] at hmem
        simp at hmem
      · have := length_filter_le (fun b => !b == a) l
        simp only [length_cons] at h
        omega

variable {child : List Binding} {rows : List Row} {row : Row} {key : Key}

theorem nodup_presentKeys (child : List Binding) (rows : List Row) : (presentKeys child rows).Nodup :=
  nodup_eraseDups _

theorem mem_presentKeys :
    key ∈ presentKeys child rows ↔ key.allNull = false ∧ ∃ row ∈ rows, Binding.keyOn child row = key := by
  rw [presentKeys, mem_eraseDups, mem_filter, mem_map]
  constructor
  · rintro ⟨hrow, hnull⟩
    exact ⟨by simpa using hnull, hrow⟩
  · rintro ⟨hnull, hrow⟩
    exact ⟨hrow, by simpa using hnull⟩

theorem presentKeys_append_same
    (h : (Binding.keyOn child row).allNull = true ∨ Binding.keyOn child row ∈ presentKeys child rows) :
    presentKeys child (rows ++ [row]) = presentKeys child rows := by
  unfold presentKeys at h ⊢
  rw [map_append, filter_append, eraseDups_append]
  rcases h with h | h
  · simp [h]
  · rw [mem_eraseDups] at h
    have hfilter := (mem_filter.1 h).2
    simp only [map_cons, map_nil, filter_cons, filter_nil, hfilter, if_true]
    rw [List.removeAll, filter_cons, filter_nil, elem_eq_true_of_mem h]
    simp

theorem presentKeys_append_new (hnull : (Binding.keyOn child row).allNull = false)
    (h : Binding.keyOn child row ∉ presentKeys child rows) :
    presentKeys child (rows ++ [row]) = presentKeys child rows ++ [Binding.keyOn child row] := by
  unfold presentKeys at h ⊢
  rw [mem_eraseDups] at h
  rw [map_append, filter_append, eraseDups_append]
  simp only [map_cons, map_nil, filter_cons, filter_nil, hnull, Bool.not_false, if_true]
  have helem : List.elem (Binding.keyOn child row)
      ((rows.map (Binding.keyOn child)).filter fun key => !key.allNull) = false := by
    rw [Bool.eq_false_iff]
    exact fun hmem => h (mem_of_elem_eq_true hmem)
  rw [List.removeAll, filter_cons, filter_nil, helem]
  simp [eraseDups_cons]

theorem presentKeys_append (child : List Binding) (rows rows' : List Row) :
    ∃ new, presentKeys child (rows ++ rows') = presentKeys child rows ++ new := by
  unfold presentKeys
  rw [map_append, filter_append, eraseDups_append]
  exact ⟨_, rfl⟩

theorem rowsWith_append (rows' : List Row) :
    rowsWith child key (rows ++ rows') = rowsWith child key rows ++ rowsWith child key rows' := by
  simp [rowsWith]

theorem rowsWith_cons_same (h : Binding.keyOn child row = key) :
    rowsWith child key (row :: rows) = row :: rowsWith child key rows := by
  simp [rowsWith, h]

theorem rowsWith_append_same (h : Binding.keyOn child row = key) :
    rowsWith child key (rows ++ [row]) = rowsWith child key rows ++ [row] := by
  rw [rowsWith_append, rowsWith_cons_same h]
  rfl

theorem rowsWith_append_other (h : Binding.keyOn child row ≠ key) :
    rowsWith child key (rows ++ [row]) = rowsWith child key rows := by
  simp [rowsWith, filter_append, h]

theorem rowsWith_ne_nil (h : key ∈ presentKeys child rows) : rowsWith child key rows ≠ [] := by
  obtain ⟨-, row, hrow, hkey⟩ := mem_presentKeys.1 h
  intro hnil
  have hmem : row ∈ rowsWith child key rows := by
    rw [rowsWith, mem_filter]
    exact ⟨hrow, by simpa using hkey⟩
  rw [hnil] at hmem
  cases hmem

theorem rowsWith_eq_nil (hnull : key.allNull = false) (h : key ∉ presentKeys child rows) :
    rowsWith child key rows = [] := by
  rw [rowsWith, filter_eq_nil_iff]
  intro row hrow hkey
  exact h (mem_presentKeys.2 ⟨hnull, row, hrow, by simpa using hkey⟩)

/-! ## Putting an element -/

variable {unshared : Bool} {g : Graph} {d d' : Draft} {elements : List (Key × Draft)} {keys : List Key}
  {f f' : Key → Tree}

theorem Draft.ShowElements.of_lookup (h : Draft.ShowElements unshared g elements (keys.map fun k => (k, f k)))
    (hd : elements.lookup key = some d) : key ∈ keys ∧ d.Shows unshared g (f key) := by
  induction elements generalizing keys with
  | nil => cases hd
  | cons e elements ih =>
    cases keys with
    | nil => exact False.elim h
    | cons k keys =>
      have hrest := ih h.2.2
      have hkey := h.1
      have hshow := h.2.1
      grind

theorem Draft.ShowElements.not_mem_of_lookup
    (h : Draft.ShowElements unshared g elements (keys.map fun k => (k, f k))) (hd : elements.lookup key = none) :
    key ∉ keys := by
  induction elements generalizing keys with
  | nil =>
    cases keys with
    | nil => simp
    | cons k keys => exact False.elim h
  | cons e elements ih =>
    cases keys with
    | nil => simp
    | cons k keys =>
      have hrest := ih h.2.2
      have hkey := h.1
      grind

theorem Slot.putElement_self (h : elements.lookup key = some d) : Slot.putElement key d elements = elements := by
  induction elements with
  | nil => cases h
  | cons e elements ih => grind [Slot.putElement]

/-- Putting an element back changes nothing. -/
theorem Slot.put_self {s : Slot} (h : s.elements.lookup key = some d) : s.put key d = s := by
  obtain ⟨number, owner, parentKey, elements⟩ := s
  rw [Slot.put, putElement_self h]

/-- Changing an element that is there. -/
theorem Draft.ShowElements.put_known (h : Draft.ShowElements unshared g elements (keys.map fun k => (k, f k)))
    (hnodup : keys.Nodup) (hmem : key ∈ keys) (hf : ∀ k ∈ keys, k ≠ key → f' k = f k)
    (hd : d.Shows unshared g (f' key)) :
    Draft.ShowElements unshared g (Slot.putElement key d elements) (keys.map fun k => (k, f' k)) := by
  induction elements generalizing keys with
  | nil =>
    cases keys with
    | nil => cases hmem
    | cons k keys => exact False.elim h
  | cons e elements ih =>
    cases keys with
    | nil => cases hmem
    | cons k keys =>
      obtain ⟨hkey, hx, hrest⟩ := h
      rw [nodup_cons] at hnodup
      rw [Slot.putElement]
      split
      · have hcongr : (keys.map fun k => (k, f' k)) = keys.map fun k => (k, f k) :=
          map_congr_left fun k' hk' => by rw [hf k' (mem_cons_of_mem _ hk') (by grind)]
        exact ⟨by grind, by grind, hcongr ▸ hrest⟩
      · exact ⟨hkey, by grind, ih hrest hnodup.2 (by grind) fun k' hk' => hf k' (mem_cons_of_mem _ hk')⟩

/-- Adding a new element at the end. -/
theorem Draft.ShowElements.put_new (h : Draft.ShowElements unshared g elements (keys.map fun k => (k, f k)))
    (hmem : key ∉ keys) (hf : ∀ k ∈ keys, f' k = f k) (hd : d.Shows unshared g (f' key)) :
    Draft.ShowElements unshared g (Slot.putElement key d elements) ((keys ++ [key]).map fun k => (k, f' k)) := by
  induction elements generalizing keys with
  | nil =>
    cases keys with
    | nil => exact ⟨rfl, hd, trivial⟩
    | cons k keys => exact False.elim h
  | cons e elements ih =>
    cases keys with
    | nil => exact False.elim h
    | cons k keys =>
      obtain ⟨hkey, hx, hrest⟩ := h
      rw [Slot.putElement, if_neg (by grind)]
      exact ⟨hkey, by grind, ih hrest (by grind) fun k' hk' => hf k' (mem_cons_of_mem _ hk')⟩

theorem Draft.elementIds_put_known {new : List Nat} (hd : elements.lookup key = some d)
    (hids : d'.ids.Perm (d.ids ++ new)) :
    (Draft.elementIds (Slot.putElement key d' elements)).Perm (Draft.elementIds elements ++ new) := by
  induction elements with
  | nil => cases hd
  | cons e elements ih =>
    rw [Slot.putElement]
    split
    · obtain rfl : e.2 = d := by grind
      rw [Draft.elementIds, Draft.elementIds, append_assoc]
      exact (hids.append_right _).trans (by grind [List.perm_append_comm])
    · rw [Draft.elementIds, Draft.elementIds, append_assoc]
      exact (ih (by grind)).append_left _

theorem Draft.elementIds_put_new (hd : elements.lookup key = none) :
    Draft.elementIds (Slot.putElement key d elements) = Draft.elementIds elements ++ d.ids := by
  induction elements with
  | nil => exact append_nil _
  | cons e elements ih =>
    rw [Slot.putElement, if_neg (by grind), Draft.elementIds, Draft.elementIds, ih (by grind), append_assoc]

/-! ## Taking an element from a row -/

section Row

variable {slot : Slot} {decode : Reader → Shaping Draft} {reader : Reader} {s s' : ShapeState}

/-- A row whose element key is missing has nothing for a slot. -/
theorem Shaping.element_none (hread : Binding.readKey child reader = .ok key) (hnull : key.allNull = true) :
    Steps (slot.element? .plain child decode reader) s none s := by
  unfold Slot.element?
  rw [hread]
  exact steps_bind.2 ⟨key, s, rfl, by rw [if_pos hnull]; rfl⟩

theorem Shaping.element_known (hread : Binding.readKey child reader = .ok key) (hnull : key.allNull = false)
    (hfind : slot.elements.lookup key = some d) : Steps (slot.element? .plain child decode reader) s (some (key, d)) s := by
  unfold Slot.element? Slot.find?
  rw [hread]
  exact steps_bind.2 ⟨key, s, rfl, by rw [if_neg (by simp [hnull]), hfind]; rfl⟩

theorem Shaping.element_new (hread : Binding.readKey child reader = .ok key) (hnull : key.allNull = false)
    (hfind : slot.elements.lookup key = none) (hd : Steps (decode reader) s d s') :
    Steps (slot.element? .plain child decode reader) s (some (key, d)) s' := by
  unfold Slot.element? Slot.find?
  rw [hread]
  refine steps_bind.2 ⟨key, s, rfl, ?_⟩
  rw [if_neg (by simp [hnull]), hfind]
  exact steps_bind.2 ⟨d, s', hd, rfl⟩

end Row

end QueryShaping
