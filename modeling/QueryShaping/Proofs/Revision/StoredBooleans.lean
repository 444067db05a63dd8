import QueryShaping.Proofs.Revision.Completeness

/-!
# Stored booleans

A boolean that is stored through a converter is null or one of the two values that the converter writes. That every
reference of a select reads such a value is said of the rows of its sources, those of derived ones included, and it is
true of all frames that are joined from them.

Compared with what the converter writes for true, a stored boolean becomes the boolean. It was no truth value before,
and it may stand in another order to what it is compared with than the boolean does.
-/

namespace QueryShaping

open List

/-! ## Places at which decoding does no harm -/

/-- The converter of booleans through which a reference is stored, if there is one. -/
def Expr.boolConverter? : Expr → Option Converter
  | .column c => (c.mapping.bind TypeMapping.converter).filter (·.domainType = .bool)
  | .keyAccess k => (k.mapping.bind TypeMapping.converter).filter (·.domainType = .bool)
  | _ => none

/-- Whether stored booleans that can be compared are in the order that the booleans are in, as far as the operator
asks. -/
def BinaryOp.ordersAlike (op : BinaryOp) (c d : Converter) : Bool :=
  [false, true].all fun a => [false, true].all fun b =>
    match c.store (.bool a), d.store (.bool b) with
    | .ok v, .ok w => (v.compare? w).all fun o => op.admits o == op.admits (compare a b)
    | _, _ => true

/-- Whether an operator that is no connective gives the same on two operands when they are compensated. -/
def BinaryOp.toleratesBools (op : BinaryOp) (left right : Expr) : Bool :=
  !(left.isConvertedBool || right.isConvertedBool) ||
    op.isComparison && left.isConvertedBool && right.isConvertedBool &&
      match left.boolConverter?, right.boolConverter? with
      | some c, some d => op.ordersAlike c d
      | _, _ => false

/-- Whether the pass does no harm at this place: it compensates booleans that have a converter of booleans, and no
operands that are calculated with or that are ordered otherwise than booleans. -/
def Occurrence.harmless (o : Occurrence) : Bool :=
  !o.position.inCondition ||
    match o.expr with
    | .binary op left right => op.isLogical || op.isEquality || op.toleratesBools left right
    | e => !(o.position.decides && e.isConvertedBool) || e.boolConverter?.isSome

/-! ## Stored booleans -/

/-- Whether the value is null or what the converter writes for a boolean. -/
def Converter.Writes (c : Converter) (v : Value) : Prop :=
  v = .null ∨ ∃ b, c.store (.bool b) = .ok v

/-- The source and the name under which a reference is looked up. -/
def Expr.lookup? : Expr → Option (TableId × String)
  | .column c => some (c.table, c.name)
  | .keyAccess k => some (k.table, k.key)
  | _ => none

/-- Every stored boolean that one of the occurrences refers to is null or written by its converter. -/
def Bound.Stores (os : List Occurrence) (b : Bound) : Prop :=
  ∀ o ∈ os, ∀ c name, o.expr.boolConverter? = some c → o.expr.lookup? = some (b.id, name) →
    ∀ v, b.get name = .ok v → c.Writes v

def Frame.Stores (os : List Occurrence) (frame : Frame) : Prop :=
  ∀ b ∈ frame, b.Stores os

/-- The rows of a source store booleans so, inside of frames that do. -/
def Source.Stores (os : List Occurrence) (env : Environment) (s : Source) : Prop :=
  ∀ outer, (∀ f ∈ outer, Frame.Stores os f) → ∀ r, s.rows env outer = .ok r →
    ∀ row ∈ r.rows, Bound.Stores os ⟨s.id, r.columns, some row⟩

section Frames

variable {os : List Occurrence} {env : Environment}

theorem Bound.stores_of_no_row (id : TableId) (columns : List String) : Bound.Stores os ⟨id, columns, none⟩ := by
  intro o _ c name _ _ v hv
  left
  unfold Bound.get at hv
  split at hv
  · exact (Except.ok.inj hv).symm
  · cases hv

theorem Frame.Stores.extend {frame : Frame} (h : Frame.Stores os frame) {id : TableId} {columns : List String}
    {row : Option Row} (hb : Bound.Stores os ⟨id, columns, row⟩) : Frame.Stores os (frame.extend id columns row) := by
  intro b hmem
  obtain hmem | hmem := mem_append.1 hmem
  · exact h b hmem
  · exact mem_singleton.1 hmem ▸ hb

theorem Frame.closed_stores : Frame.Closed (Frame.Stores os) where
  nil _ h := nomatch h
  extendNull h id r := h.extend (Bound.stores_of_no_row id r.columns)

theorem Source.Stores.extends {s : Source} (h : s.Stores os env) : s.Extends (Frame.Stores os) env := by
  intro outer houter r hr frame hframe f hf
  obtain ⟨row, hrow, rfl⟩ := mem_map.1 hf
  exact hframe.extend (h outer houter r hr row hrow)

/-- A reference reads what its converter writes, or null. -/
theorem Scope.Within.writes {scope : Scope} (hscope : scope.Within (Frame.Stores os)) {o : Occurrence} (ho : o ∈ os)
    {c : Converter} (hc : o.expr.boolConverter? = some c) {v : Value} (hv : o.expr.eval env scope = .ok v) :
    c.Writes v := by
  have hfound {id : TableId} {bound : Bound} (h : scope.bound? id = some bound) : bound.id = id ∧ bound.Stores os := by
    obtain ⟨frame, hframe, hbound⟩ := exists_of_findSome?_eq_some h
    have hid := find?_some hbound
    exact ⟨of_decide_eq_true hid, hscope frame hframe bound (mem_of_find?_eq_some hbound)⟩
  obtain ⟨e, p⟩ := o
  cases e with
  | column c' =>
    simp only [Expr.eval, Scope.column] at hv
    split at hv
    case h_1 bound hbound =>
      obtain ⟨hid, hstores⟩ := hfound hbound
      exact hstores _ ho c c'.name hc (by rw [hid]; rfl) v hv
    case h_2 => cases hv
  | keyAccess k =>
    simp only [Expr.eval, Scope.key] at hv
    split at hv
    case h_1 bound hbound =>
      obtain ⟨hid, hstores⟩ := hfound hbound
      exact hstores _ ho c k.key hc (by rw [hid]; rfl) v hv
    case h_2 => cases hv
  | _ => cases hc

end Frames

/-! ## Decoding -/

/-- A stored value and the boolean that it stands for, or null and null. -/
inductive Converter.Decodes (c : Converter) : Value → Value → Prop where
  | null : Decodes c .null .null
  | bool {v : Value} {b : Bool} (h : c.store (.bool b) = .ok v) : Decodes c v (.bool b)

/-- What a converter writes, compared with what it writes for true, is the boolean. -/
theorem Converter.Writes.decodes {c : Converter} (hc : c.domainType = .bool) {v : Value} (hv : c.Writes v) :
    ∃ t v', c.store (.bool true) = .ok t ∧ applyBinary .equal v t = .ok v' ∧ c.Decodes v v' := by
  cases c with
  | numberToString | uuidToString => cases hc
  | boolToString falseText trueText =>
    refine ⟨.string trueText, ?_⟩
    obtain rfl | ⟨b, hb⟩ := hv
    · exact ⟨.null, rfl, rfl, .null⟩
    · obtain rfl := Except.ok.inj hb
      have hequal : applyBinary .equal (.string (if b then trueText else falseText)) (.string trueText) =
          .ok (.bool (compare (if b then trueText else falseText) trueText == .eq)) := rfl
      refine ⟨_, rfl, hequal, .bool ?_⟩
      by_cases htext : (if b then trueText else falseText) = trueText
      · rw [Std.compare_eq_iff_eq.2 htext]
        exact congrArg (fun s => Except.ok (Value.string s)) htext.symm
      · have hne : (compare (if b then trueText else falseText) trueText == .eq) = false :=
          beq_false_of_ne (mt Std.compare_eq_iff_eq.1 htext)
        rw [hne]
        cases b with
        | true => exact absurd rfl htext
        | false => rfl
  | boolToZeroOne =>
    refine ⟨.int32 1, ?_⟩
    obtain rfl | ⟨b, hb⟩ := hv
    · exact ⟨.null, rfl, rfl, .null⟩
    · obtain rfl := Except.ok.inj hb
      cases b with
      | true => exact ⟨_, rfl, rfl, .bool rfl⟩
      | false => exact ⟨_, rfl, rfl, .bool rfl⟩

/-- What a converter of booleans writes is no truth value. -/
theorem Converter.Decodes.truthOf_keeps {c : Converter} {v v' : Value} (h : c.Decodes v v') (e e' : Expr) :
    Keeps (truthOf e v) (truthOf e' v') := by
  cases h with
  | null => exact .refl _
  | bool h =>
    cases c with
    | boolToString falseText trueText =>
      obtain rfl := Except.ok.inj h
      exact .of_error _ _
    | boolToZeroOne =>
      obtain rfl := Except.ok.inj h
      exact .of_error _ _
    | numberToString | uuidToString => cases h

theorem Converter.Decodes.applyBinary_keeps {c d : Converter} {v v' w w' : Value} (hv : c.Decodes v v')
    (hw : d.Decodes w w') {op : BinaryOp} (hop : op.isComparison) (halike : op.ordersAlike c d) :
    Keeps (applyBinary op v w) (applyBinary op v' w') := by
  have hnotnull {c : Converter} {v : Value} {b : Bool} (h : c.store (.bool b) = .ok v) : v.isNull = false := by
    cases c <;> cases h <;> rfl
  cases hv with
  | null => exact .of_eq rfl
  | @bool _ a ha =>
    cases hw with
    | null => exact .of_eq (by simp [applyBinary, Value.isNull])
    | @bool _ b hb =>
      intro x hx
      have halike : (v.compare? w).all fun o => op.admits o == op.admits (compare a b) := by
        have h := List.all_eq_true.1 (List.all_eq_true.1 halike a (by cases a <;> simp)) b (by cases b <;> simp)
        simpa only [ha, hb] using h
      simp only [applyBinary, hnotnull ha, hnotnull hb, Bool.or_self, hop, if_true] at hx
      cases hcompare : v.compare? w with
      | none =>
        rw [hcompare] at hx
        cases hx
      | some o =>
        rw [hcompare] at hx halike
        rw [Option.all_some, beq_iff_eq] at halike
        have hdecoded : applyBinary op (.bool a) (.bool b) = .ok (.bool (op.admits (compare a b))) := by
          simp only [applyBinary, Value.isNull, Bool.or_self, hop, if_true]
          rfl
        rw [hdecoded, ← halike]
        exact hx

/-- A source with the rows of `flagTable` stores booleans as the references expect, if these are all to flags. -/
theorem Source.stores_flagged {os : List Occurrence} {s : Source}
    (hos : os.all fun o => o.expr.boolConverter?.all fun c => c = .yesNo && o.expr.lookup?.any (·.2 = "Flag"))
    (hs : ∀ outer, s.rows flagTable outer =
      .ok ⟨["Id", "Flag"], [[.int32 1, .string "N"], [.int32 2, .string "Y"], [.int32 3, .null]]⟩) :
    s.Stores os flagTable := by
  intro outer _ r hr row hrow o ho c name hc hlookup v hv
  obtain rfl := Except.ok.inj ((hs outer).symm.trans hr)
  have hflag := List.all_eq_true.1 hos o ho
  rw [hc, hlookup, Option.all_some, Option.any_some, Bool.and_eq_true, decide_eq_true_eq, decide_eq_true_eq] at hflag
  obtain ⟨rfl, rfl⟩ := hflag
  obtain rfl : (row[1]?).getD .null = v := Except.ok.inj hv
  simp only [mem_cons, not_mem_nil, or_false] at hrow
  obtain rfl | rfl | rfl := hrow
  · exact .inr ⟨false, rfl⟩
  · exact .inr ⟨true, rfl⟩
  · exact .inl rfl

end QueryShaping
