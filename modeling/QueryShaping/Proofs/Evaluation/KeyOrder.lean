import QueryShaping.Proofs.Evaluation.Sorting

/-!
# Sorting and keys

Values are compared by their operators, by the order that sorts them and by the keys that identify them. The three agree
where no value is a floating-point number and any two compare that are not null: there the sort order is the order of
key parts, which is linear. So rows are sorted by their keys, and rows of one key come one after another.
-/

namespace QueryShaping

open List

/-! ## The order of key parts -/

theorem eq_of_compareOfLessAndEq {a b : List UInt8} (h : compareOfLessAndEq a b = .eq) : a = b :=
  (compareOfLessAndEq_eq_eq List.le_refl List.not_le).1 h

theorem isLE_compareBytes {a b : List UInt8} : compareOfLessAndEq a b ≠ .gt ↔ a ≤ b :=
  Ordering.isLE_iff_ne_gt.symm.trans (isLE_compareOfLessAndEq List.le_antisymm List.not_le List.le_total)

theorem compare_ne_gt_trans {α : Type} [Ord α] [Std.TransOrd α] {a b c : α} (hab : compare a b ≠ .gt)
    (hbc : compare b c ≠ .gt) : compare a c ≠ .gt :=
  Ordering.isLE_iff_ne_gt.1 (Std.TransCmp.isLE_trans (Ordering.isLE_iff_ne_gt.2 hab) (Ordering.isLE_iff_ne_gt.2 hbc))

namespace KeyPart

variable {a b c : KeyPart}

theorem compare_of_rank_ne (h : a.rank ≠ b.rank) : a.compare b = Ord.compare a.rank b.rank := by
  cases a <;> cases b <;> first | rfl | exact absurd rfl h

theorem rank_le (h : a.compare b ≠ .gt) : a.rank ≤ b.rank := by
  by_contra hlt
  rw [compare_of_rank_ne (by omega), Nat.compare_ne_gt] at h
  exact hlt h

theorem compare_eq_eq : a.compare b = .eq ↔ a = b := by
  refine ⟨fun h => ?_, ?_⟩
  · by_cases hrank : a.rank = b.rank
    · cases a <;> cases b <;> simp [rank] at hrank
      case null.null => rfl
      case bool.bool => exact congrArg bool (Std.LawfulEqOrd.eq_of_compare h)
      case int.int => exact congrArg int (Std.LawfulEqOrd.eq_of_compare h)
      case float.float => exact congrArg float (UInt64.toNat_inj.1 (Std.LawfulEqOrd.eq_of_compare h))
      case string.string => exact congrArg string (Std.LawfulEqOrd.eq_of_compare h)
      case bytes.bytes => exact congrArg bytes (eq_of_compareOfLessAndEq h)
      case timestamp.timestamp => exact congrArg timestamp (Std.LawfulEqOrd.eq_of_compare h)
      case uuid.uuid x y =>
        obtain ⟨x, hx⟩ := x
        obtain ⟨y, hy⟩ := y
        obtain rfl : x = y := eq_of_compareOfLessAndEq h
        rfl
    · rw [compare_of_rank_ne hrank] at h
      exact absurd (Std.LawfulEqOrd.eq_of_compare h) hrank
  · rintro rfl
    cases a <;> simp [compare, compareOfLessAndEq]

theorem compare_trans (hab : a.compare b ≠ .gt) (hbc : b.compare c ≠ .gt) : a.compare c ≠ .gt := by
  have hle := rank_le hab
  have hle' := rank_le hbc
  by_cases hrank : a.rank = c.rank
  · have hrank' : b.rank = c.rank := by omega
    cases a <;> cases c <;> simp [rank] at hrank <;> cases b <;> simp [rank] at hrank'
    case null.null.null => exact hab
    case bytes.bytes.bytes => exact isLE_compareBytes.2 (List.le_trans (isLE_compareBytes.1 hab) (isLE_compareBytes.1 hbc))
    case uuid.uuid.uuid => exact isLE_compareBytes.2 (List.le_trans (isLE_compareBytes.1 hab) (isLE_compareBytes.1 hbc))
    all_goals exact compare_ne_gt_trans hab hbc
  · rw [compare_of_rank_ne hrank, Nat.compare_ne_gt]
    omega

end KeyPart

/-! ## Values that sort by their keys -/

/-- A comparison under which any two items of a set compare, and consistently. -/
structure TotalPreorder {α : Type} (compare : α → α → Ordering) (s : Set α) : Prop where
  refl : ∀ a ∈ s, compare a a = .eq
  swap : ∀ a ∈ s, ∀ b ∈ s, compare b a = (compare a b).swap
  trans : ∀ a ∈ s, ∀ b ∈ s, ∀ c ∈ s, compare a b ≠ .gt → compare b c ≠ .gt → compare a c ≠ .gt
  total : ∀ a ∈ s, ∀ b ∈ s, compare a b ≠ .gt ∨ compare b a ≠ .gt

namespace Value

/-- Values among which is no floating-point number, and of which any two compare that are not null. -/
structure Comparable (vs : Set Value) : Prop where
  noFloat : ∀ v ∈ vs, v.isFloat = false
  compare : ∀ v ∈ vs, ∀ w ∈ vs, v.isNull = false → w.isNull = false → (v.compare? w).isSome

/-- Values that compare are sorted by their keys. -/
theorem sortOrder_eq_compare {v w : Value} (hv : v.isFloat = false) (hw : w.isFloat = false)
    (h : v.isNull = false → w.isNull = false → (v.compare? w).isSome) :
    v.sortOrder w = (KeyPart.ofValue v).compare (KeyPart.ofValue w) := by
  cases v <;> cases w
  all_goals first
    | rfl
    | exact Bool.noConfusion hv
    | exact Bool.noConfusion hw
    | exact Bool.noConfusion (h rfl rfl)
    | simp [sortOrder, compare?, KeyPart.ofValue, KeyPart.compare, isFloat, int64?]

/-- Values that compare and are not null are sorted as they compare. -/
theorem sortOrder_eq_eq_iff_looselyEquals {v w : Value} (hv : v.isNull = false) (hw : w.isNull = false) (h : (v.compare? w).isSome) :
    v.sortOrder w = .eq ↔ v.looselyEquals w := by
  obtain ⟨o, ho⟩ := Option.isSome_iff_exists.1 h
  have hsort : v.sortOrder w = (v.compare? w).getD .eq := by
    cases v <;> cases w <;> first | rfl | exact Bool.noConfusion hv | exact Bool.noConfusion hw
  have hloose : v.looselyEquals w = (v.compare? w == some .eq) := by
    cases v <;> first | rfl | exact Bool.noConfusion hv
  rw [hsort, hloose, ho]
  simp

end Value

theorem totalPreorder_of_swap {α : Type} {compare : α → α → Ordering} {s : Set α}
    (hswap : ∀ a b, compare b a = (compare a b).swap)
    (htrans : ∀ a ∈ s, ∀ b ∈ s, ∀ c ∈ s, compare a b ≠ .gt → compare b c ≠ .gt → compare a c ≠ .gt) :
    TotalPreorder compare s where
  refl a _ := Ordering.eq_eq_of_eq_swap (hswap a a)
  swap a _ b _ := hswap a b
  trans := htrans
  total a _ b _ := by
    rw [hswap a b]
    cases compare a b <;> simp

namespace Value.Comparable

variable {vs : Set Value} {v w : Value}

theorem sortOrder_eq (h : Comparable vs) (hv : v ∈ vs) (hw : w ∈ vs) :
    v.sortOrder w = (KeyPart.ofValue v).compare (KeyPart.ofValue w) :=
  sortOrder_eq_compare (h.noFloat v hv) (h.noFloat w hw) (h.compare v hv w hw)

theorem sortOrder_eq_eq (h : Comparable vs) (hv : v ∈ vs) (hw : w ∈ vs) :
    v.sortOrder w = .eq ↔ KeyPart.ofValue v = KeyPart.ofValue w := by
  rw [h.sortOrder_eq hv hw, KeyPart.compare_eq_eq]

theorem totalPreorder (h : Comparable vs) : TotalPreorder sortOrder vs :=
  totalPreorder_of_swap sortOrder_swap fun a ha b hb c hc hab hbc => by
    rw [h.sortOrder_eq ha hb] at hab
    rw [h.sortOrder_eq hb hc] at hbc
    rw [h.sortOrder_eq ha hc]
    exact KeyPart.compare_trans hab hbc

end Value.Comparable

/-! ## Rows that sort by their keys -/

/-- Rows of one length whose values compare place by place. -/
structure ComparableRows (width : Nat) (rows : Set (List Value)) : Prop where
  length : ∀ row ∈ rows, row.length = width
  columns : ∀ k : Nat, Value.Comparable {v | ∃ row ∈ rows, row[k]? = some v}

theorem Value.Comparable.rows {vs : Set Value} (h : Comparable vs) (width : Nat) :
    ComparableRows width {row | row.length = width ∧ ∀ v ∈ row, v ∈ vs} where
  length _ hrow := hrow.1
  columns k := by
    have hsub : ∀ v, (∃ row : List Value, (row.length = width ∧ ∀ v ∈ row, v ∈ vs) ∧ row[k]? = some v) → v ∈ vs := by
      rintro v ⟨row, hrow, hv⟩
      exact hrow.2 v (mem_of_getElem? hv)
    exact ⟨fun v hv => h.noFloat v (hsub v hv), fun v hv w hw => h.compare v (hsub v hv) w (hsub w hw)⟩

theorem compareKeys_eq_eq {asc : List Bool} {a b : List Value} (ha : a.length = asc.length) (hb : b.length = asc.length)
    (h : ∀ (k : Nat) v w, a[k]? = some v → b[k]? = some w → (v.sortOrder w = .eq ↔ KeyPart.ofValue v = KeyPart.ofValue w)) :
    compareKeys asc a b = .eq ↔ Key.ofValues a = Key.ofValues b := by
  induction asc generalizing a b with
  | nil => simp [List.length_eq_zero_iff.1 ha, List.length_eq_zero_iff.1 hb, compareKeys]
  | cons asc rest ih =>
    obtain ⟨v, a, rfl⟩ := exists_cons_of_length_eq_add_one ha
    obtain ⟨w, b, rfl⟩ := exists_cons_of_length_eq_add_one hb
    rw [compareKeys_cons, Ordering.then_eq_eq, Value.directed_eq_eq, h 0 v w rfl rfl,
      ih (Nat.succ.inj ha) (Nat.succ.inj hb) fun k => h (k + 1)]
    exact List.cons.injEq .. ▸ Iff.rfl

namespace ComparableRows

variable {asc : List Bool} {rows : Set (List Value)}

theorem compareKeys_eq_eq (h : ComparableRows asc.length rows) {a b : List Value} (ha : a ∈ rows) (hb : b ∈ rows) :
    compareKeys asc a b = .eq ↔ Key.ofValues a = Key.ofValues b :=
  QueryShaping.compareKeys_eq_eq (h.length a ha) (h.length b hb) fun k _ _ hv hw =>
    (h.columns k).sortOrder_eq_eq ⟨a, ha, hv⟩ ⟨b, hb, hw⟩

theorem keysSortTransitively (h : ComparableRows asc.length rows) {keys : List (List Value)} (hkeys : ∀ key ∈ keys, key ∈ rows) :
    KeysSortTransitively keys := by
  refine keysSortTransitively_of_forall_lt asc.length (fun key hkey => (h.length key (hkeys key hkey)).le) fun k hk => ?_
  have hcolumn : ∀ v ∈ keys.map (·[k]?.getD .null), ∃ row ∈ rows, row[k]? = some v := by
    rw [forall_mem_map]
    intro key hkey
    have hlt : k < key.length := (h.length key (hkeys key hkey)).symm ▸ hk
    exact ⟨key, hkeys key hkey, by rw [getElem?_eq_getElem hlt, Option.getD_some]⟩
  exact fun a ha b hb c hc => (h.columns k).totalPreorder.trans a (hcolumn a ha) b (hcolumn b hb) c (hcolumn c hc)

theorem totalPreorder (h : ComparableRows asc.length rows) : TotalPreorder (compareKeys asc) rows :=
  totalPreorder_of_swap (compareKeys_swap asc) fun a ha b hb c hc => by
    have hrows : ∀ row ∈ [a, b, c], row ∈ rows := by simp [ha, hb, hc]
    exact compareKeys_trans (h.keysSortTransitively hrows) (fun row hrow => h.length row (hrows row hrow)) (by simp) (by simp)
      (by simp)

/-- Between two rows of one key are only rows of this key, once rows are sorted. -/
theorem contiguous {α : Type} (h : ComparableRows asc.length rows) {items : List α} {key : α → List Value}
    (hitems : ∀ x ∈ items, key x ∈ rows) {before between after : List α} {x y : α}
    (hsorted : sortByKeys asc (items.map fun x => (x, key x)) = before ++ x :: between ++ y :: after)
    (hkey : Key.ofValues (key x) = Key.ofValues (key y)) : ∀ z ∈ between, Key.ofValues (key z) = Key.ofValues (key x) := by
  have hkeys : ∀ k ∈ items.map key, k ∈ rows := forall_mem_map.2 hitems
  have hsorts := ((h.keysSortTransitively hkeys).sorts asc fun k hk => h.length k (hkeys k hk)).of_map
  rw [sortByKeys_map, map_id'] at hsorted
  have hpairwise := hsorts.pairwise_mergeSort
  have hrows : ∀ z ∈ items.mergeSort fun a b => keysLe asc (key a) (key b), key z ∈ rows := fun z hz =>
    hitems z (mem_mergeSort.1 hz)
  rw [hsorted, append_assoc] at hpairwise hrows
  obtain ⟨hx, hrest⟩ := pairwise_cons.1 (pairwise_append.1 hpairwise).2.1
  intro z hz
  have hxz : compareKeys asc (key x) (key z) ≠ .gt := by simpa [keysLe] using hx z (mem_append_left _ hz)
  have hzy : compareKeys asc (key z) (key y) ≠ .gt := by
    simpa [keysLe] using (pairwise_append.1 hrest).2.2 z hz y mem_cons_self
  have heq : compareKeys asc (key z) (key y) = .eq := by
    rw [compareKeys_congr asc hkey, compareKeys_swap asc (key z) (key y)] at hxz
    cases ho : compareKeys asc (key z) (key y) <;> simp_all
  rw [hkey]
  exact (h.compareKeys_eq_eq (hrows z (by simp [hz])) (hrows y (by simp))).1 heq

end ComparableRows

/-- Where values compare, sorting them is a total preorder, and it takes for equal what has one key, which is what compares
as equal unless it is null. So rows of such values are totally preordered by any terms in any directions. Sorted by them,
the rows are the same, and those of one key are next to each other. -/
theorem sorting_agrees_with_keys {vs : Set Value} (hvs : Value.Comparable vs) :
    TotalPreorder Value.sortOrder vs ∧
      (∀ v ∈ vs, ∀ w ∈ vs, (v.sortOrder w = .eq ↔ KeyPart.ofValue v = KeyPart.ofValue w) ∧
        (v.isNull = false → w.isNull = false → (v.sortOrder w = .eq ↔ v.looselyEquals w))) ∧
      ∀ (asc : List Bool) (rows : Set (List Value)), ComparableRows asc.length rows →
        TotalPreorder (compareKeys asc) rows ∧
        ∀ {α : Type} (items : List α) (key : α → List Value), (∀ x ∈ items, key x ∈ rows) →
          (sortByKeys asc (items.map fun x => (x, key x))).Perm items ∧
          ∀ (before between after : List α) (x y : α),
            sortByKeys asc (items.map fun x => (x, key x)) = before ++ x :: between ++ y :: after →
            Key.ofValues (key x) = Key.ofValues (key y) → ∀ z ∈ between, Key.ofValues (key z) = Key.ofValues (key x) := by
  refine ⟨hvs.totalPreorder, fun v hv w hw => ⟨hvs.sortOrder_eq_eq hv hw, fun hv' hw' => ?_⟩, fun asc rows hrows => ?_⟩
  · exact Value.sortOrder_eq_eq_iff_looselyEquals hv' hw' (hvs.compare v hv w hw hv' hw')
  · refine ⟨hrows.totalPreorder, fun items key hitems => ⟨?_, fun before between after x y hsorted hkey => ?_⟩⟩
    · rw [sortByKeys_map, map_id']
      exact mergeSort_perm ..
    · exact hrows.contiguous hitems hsorted hkey

/-- A number in two widths, and a null. -/
def threeAndNull : List Value := [.int32 3, .null, .int64 3]

theorem sorting_agrees_with_keys_threeAndNull : Value.Comparable {v | v ∈ threeAndNull} ∧
    (Value.int32 3).sortOrder (.int64 3) = .eq ∧
    TotalPreorder (compareKeys [true, false]) {row | row.length = 2 ∧ ∀ v ∈ row, v ∈ threeAndNull} ∧
    ∀ before between after : List Value,
      sortByKeys [false] (threeAndNull.map fun v => (v, [v])) = before ++ .int32 3 :: between ++ .int64 3 :: after →
      ∀ v ∈ between, Key.ofValues [v] = [.int 3] := by
  have hvs : Value.Comparable {v | v ∈ threeAndNull} := by
    constructor
    · show ∀ v ∈ threeAndNull, _
      decide
    · show ∀ v ∈ threeAndNull, ∀ w ∈ threeAndNull, _
      decide
  obtain ⟨-, hvalues, hrows⟩ := sorting_agrees_with_keys hvs
  refine ⟨hvs, ((hvalues _ (.head _) _ (.tail _ (.tail _ (.head _)))).1).2 rfl, (hrows [true, false] _ (hvs.rows 2)).1,
    fun before between after heq => ?_⟩
  exact ((hrows [false] _ (hvs.rows 1)).2 _ ([·]) (fun v hv => ⟨rfl, forall_mem_singleton.2 hv⟩)).2 before between after _ _
    heq rfl

end QueryShaping
