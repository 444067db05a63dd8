import Mathlib.Data.List.Destutter
import QueryShaping.Evaluation.Clauses

/-!
# Sorted rows

Sorting is stable: items that compare as equal keep their order. So a sorted list is known by two things, that it is in
order and which items of each class of equals it has in which sequence; `eq_of_sorted` says that there is only one such
list. Everything that is exchanged with sorting here, the removal of repeated rows above all, is exchanged by comparing
these two things.

The order of values is total but not always transitive: values of different kinds compare as equal, and so may an integer
and a double. It sorts the values on which it is transitive, and only about these is anything said.
-/

namespace QueryShaping

open List

variable {keys : List (List Value)} {α β γ : Type}

/-! ## Lists in order -/

/-- Whether an order sorts the items of a list: any two compare, and consistently. -/
structure Sorts (le : α → α → Bool) (l : List α) : Prop where
  total : ∀ a ∈ l, ∀ b ∈ l, le a b || le b a
  trans : ∀ a ∈ l, ∀ b ∈ l, ∀ c ∈ l, le a b → le b c → le a c

/-- Whether items compare as equal. -/
def alike (le : α → α → Bool) (a b : α) : Bool := le a b && le b a

namespace Sorts

variable {le : α → α → Bool} {l l' : List α}

theorem mono (h : Sorts le l) (hsub : l' ⊆ l) : Sorts le l' where
  total a ha b hb := h.total a (hsub ha) b (hsub hb)
  trans a ha b hb c hc := h.trans a (hsub ha) b (hsub hb) c (hsub hc)

theorem of_map {f : β → α} {l : List β} (h : Sorts le (l.map f)) : Sorts (fun a b => le (f a) (f b)) l where
  total _ ha _ hb := h.total _ (mem_map_of_mem ha) _ (mem_map_of_mem hb)
  trans _ ha _ hb _ hc := h.trans _ (mem_map_of_mem ha) _ (mem_map_of_mem hb) _ (mem_map_of_mem hc)

theorem refl (h : Sorts le l) {a : α} (ha : a ∈ l) : le a a := by
  simpa using h.total a ha a ha

/-- The order among the items of a list only, where it is total and transitive. -/
def leOn (le : α → α → Bool) (l : List α) (a b : { x // x ∈ l }) : Bool := le a.1 b.1

theorem map_mergeSort_leOn (le : α → α → Bool) (l : List α) :
    (l.attach.mergeSort (leOn le l)).map Subtype.val = l.mergeSort le := by
  have h := map_mergeSort (r := leOn le l) (s := le) (f := Subtype.val) (l := l.attach) fun _ _ _ _ => rfl
  rwa [attach_map_subtype_val] at h

theorem leOn_trans (h : Sorts le l) (a b c : { x // x ∈ l }) : leOn le l a b → leOn le l b c → leOn le l a c :=
  h.trans a a.2 b b.2 c c.2

theorem leOn_total (h : Sorts le l) (a b : { x // x ∈ l }) : leOn le l a b || leOn le l b a :=
  h.total a a.2 b b.2

theorem pairwise_mergeSort (h : Sorts le l) : (l.mergeSort le).Pairwise fun a b => le a b := by
  rw [← map_mergeSort_leOn, pairwise_map]
  exact List.pairwise_mergeSort h.leOn_trans h.leOn_total l.attach

/-- Sorting keeps each class of equals as it is. -/
theorem filter_mergeSort {a : α} (h : Sorts le (a :: l)) :
    (l.mergeSort le).filter (alike le a) = l.filter (alike le a) := by
  have hl := h.mono (subset_cons_self a l)
  let p : { x // x ∈ l } → Bool := fun x => alike le a x.1
  have hclass : (l.attach.filter p).Pairwise fun x y => leOn le l x y := by
    rw [pairwise_filter]
    refine pairwise_of_forall fun x y hx hy => ?_
    exact h.trans x (mem_cons_of_mem a x.2) a mem_cons_self y (mem_cons_of_mem a y.2)
      (Bool.and_eq_true_iff.1 hx).2 (Bool.and_eq_true_iff.1 hy).1
  have hsub := (sublist_mergeSort hl.leOn_trans hl.leOn_total hclass filter_sublist).filter p
  rw [filter_filter, funext fun x => Bool.and_self (p x)] at hsub
  have heq := hsub.eq_of_length ((mergeSort_perm l.attach (leOn le l)).filter p).length_eq.symm
  calc (l.mergeSort le).filter (alike le a)
      = ((l.attach.mergeSort (leOn le l)).filter p).map Subtype.val := by
        rw [← map_mergeSort_leOn, filter_map]
        rfl
    _ = (l.attach.filter p).map Subtype.val := by rw [heq]
    _ = l.filter (alike le a) := by
        conv_rhs => rw [← attach_map_subtype_val l, filter_map]
        rfl

end Sorts

/-- There is one list in order that has given items in each class of equals. -/
theorem eq_of_sorted (le : α → α → Bool) {l l' : List α} (hrefl : ∀ a ∈ l, le a a) (hrefl' : ∀ a ∈ l', le a a)
    (hl : l.Pairwise fun a b => le a b) (hl' : l'.Pairwise fun a b => le a b)
    (h : ∀ a, a ∈ l ∨ a ∈ l' → l.filter (alike le a) = l'.filter (alike le a)) : l = l' := by
  have hself {a : α} (ha : le a a) : alike le a a := by simp [alike, ha]
  have hmem {a : α} {l₁ l₂ : List α} (ha : a ∈ l₁) (haa : le a a)
      (heq : l₁.filter (alike le a) = l₂.filter (alike le a)) : a ∈ l₂ :=
    mem_of_mem_filter (heq ▸ mem_filter.2 ⟨ha, hself haa⟩)
  induction l generalizing l' with
  | nil =>
    refine (List.eq_nil_iff_forall_not_mem.2 fun a ha => ?_).symm
    exact not_mem_nil (hmem ha (hrefl' a ha) (h a (.inr ha)).symm)
  | cons a l ih =>
    cases l' with
    | nil => exact absurd (hmem mem_cons_self (hrefl a mem_cons_self) (h a (.inl mem_cons_self))) (by simp)
    | cons b l' =>
      have haa := hrefl a mem_cons_self
      have hbb := hrefl' b mem_cons_self
      -- Each head is in the other list and so not before that list's head.
      have hba : le b a := by
        rcases mem_cons.1 (hmem mem_cons_self haa (h a (.inl mem_cons_self))) with hab | hab
        · exact hab ▸ hbb
        · exact (pairwise_cons.1 hl').1 a hab
      have hab : le a b := by
        rcases mem_cons.1 (hmem mem_cons_self hbb (h b (.inr mem_cons_self)).symm) with hba | hba
        · exact hba ▸ haa
        · exact (pairwise_cons.1 hl).1 b hba
      have hhead := h a (.inl mem_cons_self)
      rw [filter_cons_of_pos (hself haa), filter_cons_of_pos (by simp [alike, hab, hba]), List.cons.injEq]
        at hhead
      obtain ⟨rfl, -⟩ := hhead
      refine congrArg (a :: ·) (ih (fun x hx => hrefl x (mem_cons_of_mem a hx))
        (fun x hx => hrefl' x (mem_cons_of_mem a hx)) (pairwise_cons.1 hl).2 (pairwise_cons.1 hl').2
        fun c hc => ?_)
      have hc := h c (hc.imp (mem_cons_of_mem a) (mem_cons_of_mem a))
      rw [filter_cons, filter_cons] at hc
      split at hc
      · exact (List.cons.inj hc).2
      · exact hc

section Coarser

variable {le : α → α → Bool} {R : α → α → Prop} (htotal : ∀ a b, le a b || le b a) (hcoarser : ∀ a b, le a b → R a b)
  (htrans : ∀ a b c, R a b → R b c → R a c)

include htotal hcoarser htrans

/-- Merging keeps a coarser order than the one it merges by. -/
theorem pairwise_merge_of_coarser {l l' : List α} (hl : l.Pairwise R) (hl' : l'.Pairwise R) :
    (l.merge l' le).Pairwise R := by
  induction l generalizing l' with
  | nil => simpa using hl'
  | cons a l ih =>
    induction l' with
    | nil => simpa using hl
    | cons b l' ih' =>
      rw [pairwise_cons] at hl
      rw [cons_merge_cons]
      split
      · rename_i hab
        have hab := hcoarser a b hab
        refine pairwise_cons.2 ⟨fun x hx => ?_, ih hl.2 hl'⟩
        rcases List.mem_merge.1 hx with hx | hx
        · exact hl.1 x hx
        · rcases mem_cons.1 hx with rfl | hx
          · exact hab
          · exact htrans a b x hab ((pairwise_cons.1 hl').1 x hx)
      · rename_i hab
        have hba : R b a := hcoarser b a (by simpa [hab] using htotal a b)
        rw [pairwise_cons] at hl'
        refine pairwise_cons.2 ⟨fun x hx => ?_, ih' hl'.2⟩
        rcases List.mem_merge.1 hx with hx | hx
        · rcases mem_cons.1 hx with rfl | hx
          · exact hba
          · exact htrans b a x hba (hl.1 x hx)
        · exact hl'.1 x hx

theorem pairwise_mergeSort_of_coarser (l : List α) : (l.mergeSort le).Pairwise R := by
  induction l, le using List.mergeSort.induct with
  | case1 => simp
  | case2 => simp
  | case3 a b xs le lr _ _ ih ih' =>
    rw [List.mergeSort]
    exact pairwise_merge_of_coarser htotal hcoarser htrans (ih htotal hcoarser) (ih' htotal hcoarser)

end Coarser

/-- Sorting puts items in a coarser order as well. The finer one need not be transitive. -/
theorem Sorts.pairwise_mergeSort_of_coarser {le coarse : α → α → Bool} {l : List α} (h : Sorts coarse l)
    (htotal : ∀ a b, le a b || le b a) (hcoarser : ∀ a ∈ l, ∀ b ∈ l, le a b → coarse a b) :
    (l.mergeSort le).Pairwise fun a b => coarse a b := by
  rw [← Sorts.map_mergeSort_leOn, pairwise_map]
  exact QueryShaping.pairwise_mergeSort_of_coarser (fun a b => htotal a.1 b.1)
    (fun a b => hcoarser a.1 a.2 b.1 b.2) (fun a b c => h.trans a.1 a.2 b.1 b.2 c.1 c.2) l.attach

/-! ## Runs -/

/-- The first item of each run of consecutive items with the same key. -/
def firstOfRuns {κ : Type} [DecidableEq κ] (key : α → κ) (l : List α) : List α :=
  l.destutter fun a b => key a ≠ key b

section Runs

variable {κ : Type} [DecidableEq κ] {key : α → κ}

theorem firstOfRuns_map (f : β → α) (l : List β) : firstOfRuns key (l.map f) = (firstOfRuns (fun x => key (f x)) l).map f := by
  have h : (l.destutter fun a b => key (f a) ≠ key (f b)).map f = (l.map f).destutter fun a b => key a ≠ key b :=
    map_destutter fun _ _ _ _ => Iff.rfl
  exact h.symm

/-- Where items with one key are one item, each item is the first of a run. -/
theorem mem_destutter_of_mem {a x : α} {l : List α} (hkey : ∀ x ∈ a :: l, ∀ y ∈ a :: l, key x = key y → x = y)
    (hx : x ∈ a :: l) : x ∈ l.destutter' (fun a b => key a ≠ key b) a := by
  induction l generalizing a with
  | nil => simpa using hx
  | cons b l ih =>
    rw [destutter'_cons]
    have hsub : ∀ x ∈ b :: l, ∀ y ∈ b :: l, key x = key y → x = y := fun x hx y hy =>
      hkey x (mem_cons_of_mem a hx) y (mem_cons_of_mem a hy)
    split
    · rcases mem_cons.1 hx with rfl | hx
      · exact mem_cons_self
      · exact mem_cons_of_mem a (ih hsub hx)
    · rename_i hab
      obtain rfl := hkey a mem_cons_self b (mem_cons_of_mem a mem_cons_self) (not_not.1 hab)
      refine ih hsub ?_
      rcases mem_cons.1 hx with rfl | hx
      · exact mem_cons_self
      · exact hx

/-- In a list in order, no item is the first of two runs. -/
theorem nodup_destutter {le : α → α → Bool} {a : α} {l : List α} (hl : (a :: l).Pairwise fun a b => le a b)
    (hanti : ∀ x ∈ a :: l, ∀ y ∈ a :: l, le x y → le y x → x = y) :
    (l.destutter' (fun a b => key a ≠ key b) a).Nodup := by
  induction l generalizing a with
  | nil => simp
  | cons b l ih =>
    obtain ⟨ha, hb⟩ := pairwise_cons.1 hl
    have hsub : ∀ x ∈ b :: l, ∀ y ∈ b :: l, le x y → le y x → x = y := fun x hx y hy =>
      hanti x (mem_cons_of_mem a hx) y (mem_cons_of_mem a hy)
    rw [destutter'_cons]
    split
    · rename_i hab
      refine nodup_cons.2 ⟨fun hmem => hab ?_, ih hb hsub⟩
      have hmem := (destutter'_sublist _ _ _).subset hmem
      rcases mem_cons.1 hmem with rfl | hmem
      · rfl
      · rw [hanti a mem_cons_self b (mem_cons_of_mem a mem_cons_self) (ha b mem_cons_self)
          ((pairwise_cons.1 hb).1 a hmem)]
    · refine ih (pairwise_cons.2 ⟨fun x hx => ha x (mem_cons_of_mem b hx), (pairwise_cons.1 hb).2⟩) ?_
      intro x hx y hy
      have hmem {z : α} (hz : z ∈ a :: l) : z ∈ a :: b :: l :=
        (mem_cons.1 hz).elim (fun h => h ▸ mem_cons_self) fun h =>
          mem_cons_of_mem a (mem_cons_of_mem b h)
      exact hanti x (hmem hx) y (hmem hy)

/-- The runs of a list in order are the items in strict order. -/
theorem firstOfRuns_eq {le : α → α → Bool} {l sorted : List α} (hl : l.Pairwise fun a b => le a b)
    (hsorted : sorted.Pairwise fun a b => le a b ∧ ¬le b a) (hmem : ∀ a, a ∈ l ↔ a ∈ sorted)
    (hkey : ∀ x ∈ l, ∀ y ∈ l, key x = key y → x = y) : firstOfRuns key l = sorted := by
  have hanti : ∀ x ∈ sorted, ∀ y ∈ sorted, le x y → le y x → x = y := by
    intro x hx y hy hxy hyx
    obtain ⟨i, hi, rfl⟩ := getElem_of_mem hx
    obtain ⟨j, hj, rfl⟩ := getElem_of_mem hy
    rw [pairwise_iff_getElem] at hsorted
    rcases Nat.lt_trichotomy i j with hij | rfl | hij
    · exact absurd hyx (hsorted i j hi hj hij).2
    · rfl
    · exact absurd hxy (hsorted j i hj hi hij).2
  have hnodup : sorted.Nodup := by
    refine hsorted.imp fun {a b} h heq => ?_
    subst heq
    exact h.2 h.1
  cases l with
  | nil =>
    rw [List.eq_nil_iff_forall_not_mem.2 fun a ha => not_mem_nil ((hmem a).2 ha)]
    rfl
  | cons a l =>
    have hanti' : ∀ x ∈ a :: l, ∀ y ∈ a :: l, le x y → le y x → x = y := fun x hx y hy =>
      hanti x ((hmem x).1 hx) y ((hmem y).1 hy)
    have hsub : (firstOfRuns key (a :: l)).Sublist (a :: l) := destutter_sublist _ _
    refine List.Perm.eq_of_pairwise
      (fun x y hx hy hxy hyx => hanti x ((hmem x).1 (hsub.subset hx)) y hy hxy hyx) (hl.sublist hsub)
      (hsorted.imp fun h => h.1) ?_
    refine (perm_ext_iff_of_nodup (nodup_destutter hl hanti') hnodup).2 fun x => ?_
    exact ⟨fun hx => (hmem x).1 (hsub.subset hx), fun hx => mem_destutter_of_mem hkey ((hmem x).2 hx)⟩

/-- Where every item stands for at least one item of a list that is sorted more finely, the runs of that list are the
items in their order. -/
theorem firstOfRuns_mergeSort_flatMap {le : α → α → Bool} {fine : β → β → Bool} {l : List α} {copies : α → List β}
    {view : α → γ} {copyView : β → γ} {key : γ → κ} (h : Sorts le l) (hcopies : ∀ a ∈ l, copies a ≠ [])
    (hview : ∀ a ∈ l, ∀ x ∈ copies a, copyView x = view a) (htotal : ∀ x y, fine x y || fine y x)
    (hfine : ∀ a ∈ l, ∀ b ∈ l, ∀ x ∈ copies a, ∀ y ∈ copies b, fine x y → le a b)
    (hstrict : (l.mergeSort le).Pairwise fun a b => ¬le b a)
    (hkey : ∀ a ∈ l, ∀ b ∈ l, key (view a) = key (view b) → a = b) :
    firstOfRuns key (((l.flatMap copies).mergeSort fine).map copyView) = (l.mergeSort le).map view := by
  -- Each copy is paired with its item, so that a sorted list of copies is a list of items, too.
  let pairs := l.flatMap fun a => (copies a).map fun x => (a, x)
  let finePairs : α × β → α × β → Bool := fun p q => fine p.2 q.2
  have hmem {p : α × β} : p ∈ pairs ↔ p.1 ∈ l ∧ p.2 ∈ copies p.1 := by
    simp only [pairs, mem_flatMap, mem_map]
    constructor
    · rintro ⟨a, ha, x, hx, rfl⟩
      exact ⟨ha, hx⟩
    · rintro ⟨ha, hx⟩
      exact ⟨p.1, ha, p.2, hx, rfl⟩
  have hsorted : (l.flatMap copies).mergeSort fine = (pairs.mergeSort finePairs).map (·.2) := by
    have hpairs : pairs.map (·.2) = l.flatMap copies := by
      simp only [pairs, map_flatMap, map_map, Function.comp_def, map_id']
    rw [← hpairs]
    exact (map_mergeSort (r := finePairs) (s := fine) (f := Prod.snd) (l := pairs) fun _ _ _ _ => rfl).symm
  have hitems : ((pairs.mergeSort finePairs).map (·.1)).Pairwise fun a b => le a b := by
    rw [pairwise_map]
    refine Sorts.pairwise_mergeSort_of_coarser (Sorts.of_map (h.mono ?_)) (fun p q => htotal p.2 q.2) fun p hp q hq => ?_
    · intro a ha
      obtain ⟨p, hp, rfl⟩ := mem_map.1 ha
      exact (hmem.1 hp).1
    · exact hfine p.1 (hmem.1 hp).1 q.1 (hmem.1 hq).1 p.2 (hmem.1 hp).2 q.2 (hmem.1 hq).2
  have hitem {a : α} : a ∈ (pairs.mergeSort finePairs).map (·.1) ↔ a ∈ l := by
    rw [mem_map]
    constructor
    · rintro ⟨p, hp, rfl⟩
      exact (hmem.1 (List.mem_mergeSort.1 hp)).1
    · intro ha
      obtain ⟨x, hx⟩ := exists_mem_of_ne_nil _ (hcopies a ha)
      exact ⟨(a, x), List.mem_mergeSort.2 (hmem.2 ⟨ha, hx⟩), rfl⟩
  calc firstOfRuns key (((l.flatMap copies).mergeSort fine).map copyView)
      = firstOfRuns key (((pairs.mergeSort finePairs).map (·.1)).map view) := by
        rw [hsorted, map_map, map_map]
        refine congrArg (firstOfRuns key) (map_congr_left fun p hp => ?_)
        have hp := hmem.1 (List.mem_mergeSort.1 hp)
        exact hview p.1 hp.1 p.2 hp.2
    _ = (l.mergeSort le).map view := by
        rw [firstOfRuns_map]
        refine congrArg (List.map view) (firstOfRuns_eq hitems (h.pairwise_mergeSort.and hstrict) ?_ ?_)
        · exact fun a => hitem.trans List.mem_mergeSort.symm
        · exact fun a ha b hb => hkey a (hitem.1 ha) b (hitem.1 hb)

end Runs

/-! ## The order of values -/

theorem compare_swap [Ord α] [Std.OrientedOrd α] (a b : α) : compare b a = (compare a b).swap :=
  Std.OrientedCmp.eq_swap

theorem compareOfLessAndEq_swap (a b : List UInt8) : compareOfLessAndEq b a = (compareOfLessAndEq a b).swap := by
  refine compareOfLessAndEq_eq_swap_of_lt_iff_not_gt_and_ne fun x y => ⟨fun h => ⟨List.lt_asymm h, ?_⟩, fun ⟨h, hne⟩ => ?_⟩
  · rintro rfl
    exact List.lt_irrefl x h
  · by_contra hlt
    exact hne (List.le_antisymm h hlt)

theorem Double.compare?_swap (a b : Double) : b.compare? a = (a.compare? b).map Ordering.swap := by
  unfold Double.compare?
  rw [Bool.or_comm]
  split
  · rfl
  · rw [Option.map_some, compare_swap]

namespace Value

/-- The comparison of numbers, in which values of different kinds find no order either. -/
def compareNumbers? (a b : Value) : Option Ordering :=
  if a.isFloat || b.isFloat then do
    (← a.double?).compare? (← b.double?)
  else do
    return Ord.compare (← a.int64?).toInt (← b.int64?).toInt

theorem compareNumbers?_swap (a b : Value) : compareNumbers? b a = (compareNumbers? a b).map Ordering.swap := by
  unfold compareNumbers?
  rw [Bool.or_comm]
  split
  · cases a.double? <;> cases b.double? <;> first | rfl | exact Double.compare?_swap _ _
  · cases a.int64? <;> cases b.int64? <;> first | rfl | exact congrArg some (compare_swap _ _)

theorem compare?_swap (a b : Value) : b.compare? a = (a.compare? b).map Ordering.swap := by
  cases a <;> cases b
  case bool.bool a b => exact congrArg some (compare_swap a b)
  case string.string a b => exact congrArg some (compare_swap a b)
  case timestamp.timestamp a b => exact congrArg some (compare_swap a.toInt b.toInt)
  case bytes.bytes a b => exact congrArg some (compareOfLessAndEq_swap a b)
  case uuid.uuid a b => exact congrArg some (compareOfLessAndEq_swap a.bytes b.bytes)
  all_goals exact compareNumbers?_swap _ _

theorem sortOrder_swap (a b : Value) : b.sortOrder a = (a.sortOrder b).swap := by
  have h : (b.compare? a).getD .eq = ((a.compare? b).getD .eq).swap := by
    rw [compare?_swap]
    cases a.compare? b <;> rfl
  cases a <;> cases b <;> first | exact h | rfl

/-- The value that a key part stands for, at the greatest width of its kind. -/
def ofKeyPart : KeyPart → Value
  | .null => .null
  | .bool b => .bool b
  | .int n => .int64 (Int64.ofInt n)
  | .float bits => .float64 ⟨bits⟩
  | .string s => .string s
  | .bytes data => .bytes data
  | .timestamp micros => .timestamp (Int64.ofInt micros)
  | .uuid u => .uuid u

theorem sortOrder_ofKeyPart (a b : Value) : (ofKeyPart (KeyPart.ofValue a)).sortOrder b = a.sortOrder b := by
  cases a
  case int32 n =>
    rw [KeyPart.ofValue, ofKeyPart, Int64.ofInt_int32ToInt]
    cases b <;> rfl
  case int64 n => rw [KeyPart.ofValue, ofKeyPart, Int64.ofInt_toInt]
  case timestamp n => rw [KeyPart.ofValue, ofKeyPart, Int64.ofInt_toInt]
  all_goals cases b <;> rfl

/-- Values with one key compare alike. -/
theorem sortOrder_congr {a b : Value} (h : KeyPart.ofValue a = KeyPart.ofValue b) (c : Value) :
    a.sortOrder c = b.sortOrder c := by
  rw [← sortOrder_ofKeyPart, h, sortOrder_ofKeyPart]

/-- Whether the sort order is transitive among values, so that they can be sorted. Among a mixture of kinds it need not
be, since what does not compare is as good as equal. -/
def SortsTransitively (vs : List Value) : Prop :=
  ∀ a ∈ vs, ∀ b ∈ vs, ∀ c ∈ vs, a.sortOrder b ≠ .gt → b.sortOrder c ≠ .gt → a.sortOrder c ≠ .gt

instance (vs : List Value) : Decidable (SortsTransitively vs) :=
  inferInstanceAs (Decidable (∀ a ∈ vs, ∀ b ∈ vs, ∀ c ∈ vs, _))

/-- The sort order in one direction or the other. -/
def directed (ascending : Bool) (a b : Value) : Ordering :=
  if ascending then a.sortOrder b else (a.sortOrder b).swap

theorem directed_swap (ascending : Bool) (a b : Value) : directed ascending b a = (directed ascending a b).swap := by
  cases ascending <;> simp only [directed, sortOrder_swap a b] <;> rfl

theorem directed_eq_eq {ascending : Bool} {a b : Value} : directed ascending a b = .eq ↔ a.sortOrder b = .eq := by
  cases ascending with
  | true => rfl
  | false => exact Ordering.swap_eq_eq

theorem SortsTransitively.directed_trans {vs : List Value} (h : SortsTransitively vs) (ascending : Bool) :
    ∀ a ∈ vs, ∀ b ∈ vs, ∀ c ∈ vs, directed ascending a b ≠ .gt → directed ascending b c ≠ .gt →
      directed ascending a c ≠ .gt := by
  intro a ha b hb c hc hab hbc
  cases ascending with
  | true => exact h a ha b hb c hc hab hbc
  | false =>
    simp only [directed, ← sortOrder_swap] at hab hbc ⊢
    exact h c hc b hb a ha hbc hab

end Value

/-! ## The order of sort keys -/

theorem compareKeys_cons (asc : Bool) (rest : List Bool) (a b : Value) (as bs : List Value) :
    compareKeys (asc :: rest) (a :: as) (b :: bs) = (Value.directed asc a b).then (compareKeys rest as bs) := rfl

theorem compareKeys_swap (asc : List Bool) (a b : List Value) : compareKeys asc b a = (compareKeys asc a b).swap := by
  induction asc generalizing a b with
  | nil => rfl
  | cons asc rest ih =>
    cases a <;> cases b
    case cons.cons a as b bs => rw [compareKeys_cons, compareKeys_cons, Ordering.swap_then, ih, Value.directed_swap asc a b]
    all_goals rfl

/-- Lists of sort keys compare by what identifies the values in them. -/
theorem compareKeys_congr (asc : List Bool) {a b : List Value} (h : Key.ofValues a = Key.ofValues b) (c : List Value) :
    compareKeys asc a c = compareKeys asc b c := by
  induction asc generalizing a b c with
  | nil => rfl
  | cons asc rest ih =>
    cases a <;> cases b <;> simp only [Key.ofValues, map_nil, map_cons, reduceCtorEq, List.cons.injEq] at h
    · rfl
    · cases c with
      | nil => rfl
      | cons c cs =>
        rw [compareKeys_cons, compareKeys_cons, ih h.2]
        simp only [Value.directed, Value.sortOrder_congr h.1]

/-- Whether the sort order is transitive at each place of lists of sort keys. -/
def KeysSortTransitively (keys : List (List Value)) : Prop :=
  ∀ k : Nat, Value.SortsTransitively (keys.map (·[k]?.getD .null))

/-- Keys are compared as far as they go. -/
theorem keysSortTransitively_of_forall_lt (n : Nat) (hlength : ∀ key ∈ keys, key.length ≤ n)
    (h : ∀ k < n, Value.SortsTransitively (keys.map (·[k]?.getD .null))) : KeysSortTransitively keys := by
  intro k
  by_cases hk : k < n
  · exact h k hk
  · have hnull : ∀ v ∈ keys.map (·[k]?.getD Value.null), v = .null := by
      rw [forall_mem_map]
      intro key hkey
      rw [getElem?_eq_none (Nat.le_trans (hlength key hkey) (Nat.not_lt.1 hk))]
      rfl
    intro a ha b _ c hc _ _
    rw [hnull a ha, hnull c hc]
    exact nofun

theorem KeysSortTransitively.mono {keys keys' : List (List Value)} (h : KeysSortTransitively keys) (hsub : keys' ⊆ keys) :
    KeysSortTransitively keys' := by
  intro k a ha b hb c hc
  have hk := map_subset (·[k]?.getD Value.null) hsub
  exact h k a (hk ha) b (hk hb) c (hk hc)

theorem KeysSortTransitively.tail (h : KeysSortTransitively keys) : KeysSortTransitively (keys.map List.tail) := by
  intro k
  have heq : (keys.map List.tail).map (·[k]?.getD Value.null) = keys.map (·[k + 1]?.getD .null) := by
    rw [map_map]
    exact map_congr_left fun key _ => by simp
  rw [heq]
  exact h (k + 1)

/-- The order by which lists of sort keys are sorted. -/
def keysLe (asc : List Bool) (a b : List Value) : Bool :=
  compareKeys asc a b != .gt

/-- A first order followed by a second one is transitive where both are. -/
theorem Ordering.then_ne_gt {ab bc ac ab' bc' ac' : Ordering} (hac : ab ≠ .gt → bc ≠ .gt → ac ≠ .gt)
    (hcb : ac ≠ .lt → ab ≠ .gt → bc ≠ .lt) (hba : bc ≠ .gt → ac ≠ .lt → ab ≠ .lt)
    (h' : ab' ≠ .gt → bc' ≠ .gt → ac' ≠ .gt) (hab : ab.then ab' ≠ .gt) (hbc : bc.then bc' ≠ .gt) :
    ac.then ac' ≠ .gt := by
  cases ab <;> cases bc <;> cases ac <;> simp_all [Ordering.then]

theorem compareKeys_trans {asc : List Bool} (h : KeysSortTransitively keys)
    (hlength : ∀ key ∈ keys, key.length = asc.length) {a b c : List Value} (ha : a ∈ keys) (hb : b ∈ keys)
    (hc : c ∈ keys) (hab : compareKeys asc a b ≠ .gt) (hbc : compareKeys asc b c ≠ .gt) :
    compareKeys asc a c ≠ .gt := by
  induction asc generalizing keys a b c with
  | nil => exact hab
  | cons asc rest ih =>
    have htail : ∀ key ∈ keys.map List.tail, key.length = rest.length := by
      rw [forall_mem_map]
      intro key hkey
      rw [length_tail, hlength key hkey]
      rfl
    obtain ⟨a₀, as, rfl⟩ := exists_cons_of_length_eq_add_one (hlength a ha)
    obtain ⟨b₀, bs, rfl⟩ := exists_cons_of_length_eq_add_one (hlength b hb)
    obtain ⟨c₀, cs, rfl⟩ := exists_cons_of_length_eq_add_one (hlength c hc)
    have hhead {key : List Value} {v : Value} (hv : v :: key ∈ keys) : v ∈ keys.map (·[0]?.getD .null) :=
      mem_map.2 ⟨_, hv, rfl⟩
    have htrans := (h 0).directed_trans asc
    rw [compareKeys_cons] at hab hbc ⊢
    refine Ordering.then_ne_gt (htrans a₀ (hhead ha) b₀ (hhead hb) c₀ (hhead hc)) ?_ ?_ (ih h.tail htail
      (mem_map_of_mem ha) (mem_map_of_mem hb) (mem_map_of_mem hc)) hab hbc
    · have := htrans c₀ (hhead hc) a₀ (hhead ha) b₀ (hhead hb)
      rw [Value.directed_swap asc a₀ c₀, Value.directed_swap asc b₀ c₀] at this
      simpa using this
    · have := htrans b₀ (hhead hb) c₀ (hhead hc) a₀ (hhead ha)
      rw [Value.directed_swap asc a₀ c₀, Value.directed_swap asc a₀ b₀] at this
      simpa using this

theorem KeysSortTransitively.sorts (h : KeysSortTransitively keys) (asc : List Bool)
    (hlength : ∀ key ∈ keys, key.length = asc.length) : Sorts (keysLe asc) keys where
  total a _ b _ := by
    simp only [keysLe, compareKeys_swap asc a b]
    cases compareKeys asc a b <;> rfl
  trans a ha b hb c hc hab hbc := by
    simp only [keysLe, bne_iff_ne] at hab hbc ⊢
    exact compareKeys_trans h hlength ha hb hc hab hbc

/-! ## Rows in order -/

theorem sortByKeys_map (asc : List Bool) (l : List β) (item : β → α) (key : β → List Value) :
    sortByKeys asc (l.map fun x => (item x, key x)) = (l.mergeSort fun a b => keysLe asc (key a) (key b)).map item := by
  have h := map_mergeSort (r := fun a b => keysLe asc (key a) (key b)) (f := fun x => (item x, key x)) (l := l)
    (s := fun a b => compareKeys asc a.2 b.2 != .gt) fun _ _ _ _ => rfl
  rw [sortByKeys, ← h, map_map]
  rfl

theorem sortByKeys_of_sorted (asc : List Bool) {l : List β} (item : β → α) {key : β → List Value}
    (h : l.Pairwise fun a b => keysLe asc (key a) (key b)) :
    sortByKeys asc (l.map fun x => (item x, key x)) = l.map item := by
  rw [sortByKeys_map, mergeSort_of_pairwise h]

theorem distinctRows_sublist (seen : List Key) (rows : List Row) : (distinctRows seen rows).Sublist rows := by
  induction rows generalizing seen with
  | nil => exact List.Sublist.slnil
  | cons row rest ih =>
    rw [distinctRows]
    split
    · exact (ih seen).cons row
    · exact (ih _).cons_cons row

/-- Repetitions are the same among rows that are selected by their key. -/
theorem filter_distinctRows {p : Row → Bool} (hp : ∀ r r', Key.ofValues r = Key.ofValues r' → p r = p r') (rows : List Row)
    {seen seen' : List Key} (hseen : ∀ r, p r → seen.contains (Key.ofValues r) = seen'.contains (Key.ofValues r)) :
    (distinctRows seen rows).filter p = distinctRows seen' (rows.filter p) := by
  induction rows generalizing seen seen' with
  | nil => rfl
  | cons row rest ih =>
    cases hrow : p row with
    | true =>
      have hkey : ∀ r, p r → (Key.ofValues row :: seen).contains (Key.ofValues r) =
          (Key.ofValues row :: seen').contains (Key.ofValues r) := by
        intro r hr
        rw [contains_cons, contains_cons, hseen r hr]
      rw [filter_cons_of_pos hrow, distinctRows, distinctRows, ← hseen row hrow]
      split
      · exact ih hseen
      · rw [filter_cons_of_pos hrow, ih hkey]
    | false =>
      -- Further rows with this key are not selected either, so it does not matter that it was seen.
      have hkey : ∀ r, p r → (Key.ofValues row :: seen).contains (Key.ofValues r) = seen'.contains (Key.ofValues r) := by
        intro r hr
        have hne : Key.ofValues r ≠ Key.ofValues row := by
          intro heq
          rw [hp r row heq, hrow] at hr
          exact Bool.false_ne_true hr
        rw [contains_cons, hseen r hr, beq_eq_false_iff_ne.2 hne, Bool.false_or]
      rw [filter_cons_of_neg (by rw [hrow]; exact Bool.false_ne_true), distinctRows]
      split
      · exact ih hseen
      · rw [filter_cons_of_neg (by rw [hrow]; exact Bool.false_ne_true), ih hkey]

/-- Rows can be sorted before or after their repetitions are dropped, when equal rows have equal sort keys. -/
theorem distinctRows_mergeSort {asc : List Bool} {key : Row → List Value} {rows : List Row}
    (hkey : ∀ r r', Key.ofValues r = Key.ofValues r' → Key.ofValues (key r) = Key.ofValues (key r'))
    (h : Sorts (fun a b => keysLe asc (key a) (key b)) rows) :
    distinctRows [] (rows.mergeSort fun a b => keysLe asc (key a) (key b)) =
      (distinctRows [] rows).mergeSort fun a b => keysLe asc (key a) (key b) := by
  let le : Row → Row → Bool := fun a b => keysLe asc (key a) (key b)
  have hsub := (distinctRows_sublist [] rows).subset
  have hsub' := List.Subset.trans (distinctRows_sublist [] (rows.mergeSort le)).subset
    (mergeSort_perm rows le).subset
  have hclass (a r r' : Row) (heq : Key.ofValues r = Key.ofValues r') : alike le a r = alike le a r' := by
    simp only [alike, le, keysLe, compareKeys_congr asc (hkey r r' heq), compareKeys_swap asc (key _) (key a)]
  have hfilter (a : Row) (l : List Row) :
      (distinctRows [] l).filter (alike le a) = distinctRows [] (l.filter (alike le a)) :=
    filter_distinctRows (hclass a) l fun _ _ => rfl
  change distinctRows [] (rows.mergeSort le) = (distinctRows [] rows).mergeSort le
  refine eq_of_sorted le (fun a ha => h.refl (hsub' ha))
    (fun a ha => h.refl (hsub ((mergeSort_perm _ le).subset ha)))
    (h.pairwise_mergeSort.sublist (distinctRows_sublist _ _)) (h.mono hsub).pairwise_mergeSort fun a ha => ?_
  have hmem : a ∈ rows := ha.elim (fun ha => hsub' ha) fun ha => hsub ((mergeSort_perm _ le).subset ha)
  have ha := h.mono (List.cons_subset.2 ⟨hmem, List.Subset.refl rows⟩)
  have ha' := h.mono (List.cons_subset.2 ⟨hmem, hsub⟩)
  rw [hfilter, ha.filter_mergeSort, ha'.filter_mergeSort, hfilter]

end QueryShaping
