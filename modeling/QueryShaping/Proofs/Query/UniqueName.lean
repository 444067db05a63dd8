import Mathlib
import QueryShaping.Query.Build

/-!
# Names that are not in use

Digits at the end of a text stay what they are in lowercase, and they do not count as letters for a sigma before them.
So the candidates for a name differ in lowercase too. With the hint there is one more of them than there are names in use,
and a search that tries one suffix after the other ends before it has tried more suffixes than there are names.
-/

namespace QueryShaping

open List

namespace Text

variable {ds : List Char}

theorem toNat_of_isDigit {c : Char} (h : c.isDigit) : 48 ≤ c.toNat ∧ c.toNat ≤ 57 := by
  simpa [Char.isDigit, Char.le_def, UInt32.le_iff_toNat_le] using h

theorem inIntervals_of_isDigit {intervals : List (Nat × Nat)}
    (h : intervals.all (fun (low, high) => high < 48 || 57 < low) = true) {c : Char} (hc : c.isDigit) :
    inIntervals intervals c = false := by
  obtain ⟨hlow, hhigh⟩ := toNat_of_isDigit hc
  rw [inIntervals, any_eq_false]
  intro interval hmem
  have hoff := List.all_eq_true.1 h interval hmem
  simp only [Bool.or_eq_true, decide_eq_true_eq, Bool.and_eq_true] at hoff ⊢
  omega

theorem nextHasCase_append_digits (hd : ∀ c ∈ ds, c.isDigit) (cs : List Char) :
    nextHasCase (cs ++ ds) = nextHasCase cs := by
  unfold nextHasCase
  induction cs with
  | nil =>
    cases ds with
    | nil => rfl
    | cons d ds =>
      have hignorable := inIntervals_of_isDigit (by decide +kernel : ignorableIntervals.all _ = true) (hd d mem_cons_self)
      have hcased := inIntervals_of_isDigit (by decide +kernel : casedIntervals.all _ = true) (hd d mem_cons_self)
      simp [hignorable, hcased]
  | cons c cs ih =>
    rw [cons_append, dropWhile_cons, dropWhile_cons]
    cases inIntervals ignorableIntervals c with
    | true => exact ih
    | false => rfl

theorem lowerAfter_digits (hd : ∀ c ∈ ds, c.isDigit) (before : List Char) : lowerAfter before ds = ds := by
  induction ds generalizing before with
  | nil => rfl
  | cons d ds ih =>
    obtain ⟨hlow, hhigh⟩ := toNat_of_isDigit (hd d mem_cons_self)
    have hlower : d.toLower = d := by
      simp only [Char.toLower, UInt32.le_iff_toNat_le]
      rw [dif_neg]
      rintro ⟨h, -⟩
      have : d.toNat ≥ 65 := h
      omega
    have hsigma : d.toNat ≠ 0x3A3 := by omega
    have hascii : d.toNat < 128 := by omega
    simp only [lowerAfter, hsigma, if_false, lowerChar, hascii, if_true, hlower, singleton_append]
    rw [ih fun c hc => hd c (mem_cons_of_mem d hc)]

theorem lowerAfter_append_digits (hd : ∀ c ∈ ds, c.isDigit) (cs before : List Char) :
    lowerAfter before (cs ++ ds) = lowerAfter before cs ++ ds := by
  induction cs generalizing before with
  | nil => exact lowerAfter_digits hd before
  | cons c cs ih =>
    simp only [cons_append, lowerAfter, ih, nextHasCase_append_digits hd, append_assoc]

theorem lowercase_append_number (hint : String) (n : Nat) :
    lowercase (hint ++ toString n) = lowercase hint ++ toString n := by
  have hdigits : ∀ c ∈ (toString n).toList, c.isDigit := by
    rw [Nat.toString_eq_ofList_toDigits, String.toList_ofList]
    exact fun c hc => Nat.isDigit_of_mem_toDigits (by decide) (by decide) hc
  unfold lowercase
  rw [String.toList_append, lowerAfter_append_digits hdigits, String.ofList_append, String.ofList_toList]

end Text

/-- The names that are tried for a hint, in turn. -/
def nameCandidates (hint : String) (count : Nat) : List String :=
  hint :: (List.range count).map fun n => hint ++ toString n

variable (hint : String) (used : List String)

/-- The suffixes from one on, tried as a loop that only a free name ends. After so many rounds nobody looks any more. -/
def suffixLoop : (rounds : Nat) → (suffix : Nat) → Option String
  | 0, _ => none
  | rounds + 1, suffix =>
    let candidate := hint ++ toString suffix
    if used.contains (Text.lowercase candidate) then suffixLoop rounds (suffix + 1) else some candidate

theorem nodup_lowercase_nameCandidates (count : Nat) : ((nameCandidates hint count).map Text.lowercase).Nodup := by
  have hnumbered : ((List.range count).map fun n => hint ++ toString n).map Text.lowercase =
      (List.range count).map fun n => Text.lowercase hint ++ toString n := by
    rw [map_map]
    exact map_congr_left fun n _ => Text.lowercase_append_number hint n
  rw [nameCandidates, map_cons, hnumbered, nodup_cons]
  constructor
  · intro hmem
    obtain ⟨n, -, hn⟩ := mem_map.1 hmem
    simp at hn
  · refine List.Nodup.map (fun m n hmn => ?_) nodup_range
    have heq : toString m = toString n := by simpa using hmn
    exact Nat.repr_inj.1 heq

/-- If every candidate were in use, there would be too many names in use. -/
theorem exists_unused_candidate : ∃ name ∈ nameCandidates hint used.toFinset.card, Text.lowercase name ∉ used := by
  by_contra! hnone
  have hsubset : ((nameCandidates hint used.toFinset.card).map Text.lowercase).toFinset ⊆ used.toFinset := by
    intro name hname
    obtain ⟨candidate, hcandidate, rfl⟩ := mem_map.1 (mem_toFinset.1 hname)
    exact mem_toFinset.2 (hnone candidate hcandidate)
  have hcard := Finset.card_le_card hsubset
  rw [toFinset_card_of_nodup (nodup_lowercase_nameCandidates hint _)] at hcard
  simp [nameCandidates] at hcard

variable {hint used}

theorem uniqueName_of_notMem (h : Text.lowercase hint ∉ used) : uniqueName hint used = hint := by
  have hfree : (!used.contains (Text.lowercase hint)) = true := by simpa using h
  simp only [uniqueName, find?_cons, hfree, Option.getD_some]

/-- A hint that is in use gets the first suffix that makes it free, and fewer suffixes are in use than names. -/
theorem uniqueName_of_mem (h : Text.lowercase hint ∈ used) : ∃ n < used.toFinset.card,
    uniqueName hint used = hint ++ toString n ∧ Text.lowercase (hint ++ toString n) ∉ used ∧
      ∀ m < n, Text.lowercase (hint ++ toString m) ∈ used := by
  have hfree : ∃ n, n < used.toFinset.card ∧ Text.lowercase (hint ++ toString n) ∉ used := by
    obtain ⟨name, hname, hunused⟩ := exists_unused_candidate hint used
    obtain rfl | hname := mem_cons.1 hname
    · exact absurd h hunused
    · obtain ⟨n, hn, rfl⟩ := mem_map.1 hname
      exact ⟨n, mem_range.1 hn, hunused⟩
  classical
  obtain ⟨hlt, hunused⟩ := Nat.find_spec hfree
  have hleast : ∀ m < Nat.find hfree, Text.lowercase (hint ++ toString m) ∈ used := fun m hm =>
    not_not.1 fun hm' => Nat.find_min hfree hm ⟨hm.trans hlt, hm'⟩
  refine ⟨_, hlt, ?_, hunused, hleast⟩
  have hfound : (List.range used.length).find? (fun n => !used.contains (Text.lowercase (hint ++ toString n))) =
      some (Nat.find hfree) :=
    find?_range_eq_some.2 ⟨by simpa using hunused, mem_range.2 (hlt.trans_le (toFinset_card_le used)),
      fun m hm => by simpa using hleast m hm⟩
  have hused : (!used.contains (Text.lowercase hint)) = false := by simpa using h
  simp only [uniqueName, find?_cons, hused, find?_map, Function.comp_def, hfound, Option.map_some, Option.getD_some]

theorem suffixLoop_eq {n : Nat} (rounds suffix : Nat) (hunused : Text.lowercase (hint ++ toString n) ∉ used)
    (hused : ∀ m < n, Text.lowercase (hint ++ toString m) ∈ used) (hle : suffix ≤ n) (hlt : n < suffix + rounds) :
    suffixLoop hint used rounds suffix = some (hint ++ toString n) := by
  induction rounds generalizing suffix with
  | zero => omega
  | succ rounds ih =>
    obtain rfl | hne := eq_or_ne suffix n
    · exact if_neg (by simpa using hunused)
    · have hnext := ih (suffix + 1) (by omega) (by omega)
      exact (if_pos (by simpa using hused suffix (by omega))).trans hnext

variable (hint used)

/-- A name that was made unique is not in use, in lowercase. -/
theorem lowercase_uniqueName_notMem : Text.lowercase (uniqueName hint used) ∉ used := by
  by_cases h : Text.lowercase hint ∈ used
  · obtain ⟨n, -, hname, hunused, -⟩ := uniqueName_of_mem h
    rwa [hname]
  · rwa [uniqueName_of_notMem h]

end QueryShaping
