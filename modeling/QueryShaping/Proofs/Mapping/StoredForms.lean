import QueryShaping.Evaluation.Run
import QueryShaping.Program.Binding
import QueryShaping.Proofs.Fallible

/-!
# Stored forms

A converter writes each value of the domain in one form and reads it back from there, but it may read it from other forms
too: a number with a sign, with zeros or blanks around it, or bytes in capital digits. A condition on a column compares
stored forms and knows nothing of that.
-/

namespace QueryShaping

open List

namespace Decimal

/-- What number a text denotes that is an optional sign and at least one digit. -/
inductive Denotes : List Char → Int → Prop
  | plain {cs : List Char} : cs ≠ [] → (∀ c ∈ cs, c.isDigit) → Denotes cs (Nat.ofDigitChars 10 cs 0)
  | plus {cs : List Char} : cs ≠ [] → (∀ c ∈ cs, c.isDigit) → Denotes ('+' :: cs) (Nat.ofDigitChars 10 cs 0)
  | minus {cs : List Char} : cs ≠ [] → (∀ c ∈ cs, c.isDigit) → Denotes ('-' :: cs) (-Nat.ofDigitChars 10 cs 0)

theorem digitValue?_eq (c : Char) : digitValue? c = if c.isDigit then some (c.toNat - 48) else none := by
  simp only [digitValue?, Char.isDigit, Bool.and_eq_true, decide_eq_true_eq]
  rfl

theorem le_ofDigitChars (cs : List Char) (n : Nat) : n ≤ Nat.ofDigitChars 10 cs n := by
  induction cs generalizing n with
  | nil => exact Nat.le_refl n
  | cons c cs ih =>
    rw [Nat.ofDigitChars_cons]
    exact Nat.le_trans (by omega) (ih _)

/-- A number that is read digit by digit is checked at every digit. That is the same as to check it at the end, since it
only grows. -/
theorem reads_digits_iff (read : Int → List Char → Except IntegerFault Int) (view : Nat → Int) (Fits : Nat → Prop)
    (hnil : ∀ n, read (view n) [] = .ok (view n))
    (hcons : ∀ n c cs, c.isDigit ∧ Fits (10 * n + (c.toNat - 48)) ∧
      read (view n) (c :: cs) = read (view (10 * n + (c.toNat - 48))) cs ∨
      ¬(c.isDigit ∧ Fits (10 * n + (c.toNat - 48))) ∧ ∃ fault, read (view n) (c :: cs) = .error fault)
    (hfits : ∀ n n', n ≤ n' → Fits n' → Fits n) {cs : List Char} {n : Nat} (hn : Fits n) {m : Int} :
    read (view n) cs = .ok m ↔
      (∀ c ∈ cs, c.isDigit) ∧ Fits (Nat.ofDigitChars 10 cs n) ∧ view (Nat.ofDigitChars 10 cs n) = m := by
  induction cs generalizing n with
  | nil => simp [hnil, hn]
  | cons c cs ih =>
    rw [Nat.ofDigitChars_cons, forall_mem_cons]
    rcases hcons n c cs with ⟨hdigit, hnext, heq⟩ | ⟨hbad, fault, heq⟩
    · rw [heq, ih hnext, and_assoc]
      exact (and_iff_right hdigit).symm
    · rw [heq]
      refine ⟨fun h => (by cases h), fun ⟨⟨hdigit, _⟩, hlast, _⟩ => absurd ⟨hdigit, ?_⟩ hbad⟩
      exact hfits _ _ (le_ofDigitChars cs _) hlast

theorem readUpward_eq_ok_iff {cs : List Char} {m : Int} : readUpward 0 cs = .ok m ↔
    (∀ c ∈ cs, c.isDigit) ∧ (Nat.ofDigitChars 10 cs 0 : Int) ≤ Int64.maxValue.toInt ∧ Nat.ofDigitChars 10 cs 0 = m := by
  refine reads_digits_iff readUpward (fun n => n) (fun n => (n : Int) ≤ Int64.maxValue.toInt) (fun _ => rfl)
    (fun n c cs => ?_) (fun n n' h h' => by omega) (by decide)
  have hnext : (n : Int) * 10 + (c.toNat - 48 : Nat) = (10 * n + (c.toNat - 48) : Nat) := by omega
  rw [readUpward, digitValue?_eq, ← hnext]
  grind

theorem readDownward_eq_ok_iff {cs : List Char} {m : Int} : readDownward 0 cs = .ok m ↔
    (∀ c ∈ cs, c.isDigit) ∧ Int64.minValue.toInt ≤ -(Nat.ofDigitChars 10 cs 0 : Int) ∧ -(Nat.ofDigitChars 10 cs 0 : Int) = m := by
  refine reads_digits_iff readDownward (fun n => -n) (fun n => Int64.minValue.toInt ≤ -(n : Int)) (fun _ => rfl)
    (fun n c cs => ?_) (fun n n' h h' => by omega) (n := 0) (by decide)
  have hnext : -(n : Int) * 10 - (c.toNat - 48 : Nat) = -(10 * n + (c.toNat - 48) : Nat) := by omega
  rw [readDownward, digitValue?_eq, ← hnext]
  grind

theorem readSigned_of_isDigit {c : Char} (h : c.isDigit) (cs : List Char) : readSigned (c :: cs) = readUpward 0 (c :: cs) := by
  unfold readSigned
  split <;> simp_all

theorem readSigned_eq_ok_iff {cs : List Char} {n : Int} : readSigned cs = .ok n ↔
    Denotes cs n ∧ Int64.minValue.toInt ≤ n ∧ n ≤ Int64.maxValue.toInt := by
  have hmin : Int64.minValue.toInt = -9223372036854775808 := rfl
  have hmax : Int64.maxValue.toInt = 9223372036854775807 := rfl
  constructor
  · intro h
    unfold readSigned at h
    split at h
    · cases h
    · cases h
    · cases h
    · obtain ⟨hdigits, hle, rfl⟩ := readUpward_eq_ok_iff.1 h
      exact ⟨.plus (by grind) hdigits, by omega, hle⟩
    · obtain ⟨hdigits, hle, rfl⟩ := readDownward_eq_ok_iff.1 h
      exact ⟨.minus (by grind) hdigits, hle, by omega⟩
    · obtain ⟨hdigits, hle, rfl⟩ := readUpward_eq_ok_iff.1 h
      exact ⟨.plain (by grind) hdigits, by omega, hle⟩
  · rintro ⟨h, hlow, hhigh⟩
    cases h with
    | @plain cs hne hdigits =>
      obtain ⟨c, cs, rfl⟩ := exists_cons_of_ne_nil hne
      rw [readSigned_of_isDigit (hdigits c mem_cons_self)]
      exact readUpward_eq_ok_iff.2 ⟨hdigits, hhigh, rfl⟩
    | @plus cs hne hdigits =>
      rw [readSigned]
      · exact readUpward_eq_ok_iff.2 ⟨hdigits, hhigh, rfl⟩
      · exact hne
    | @minus cs hne hdigits =>
      rw [readSigned]
      · exact readDownward_eq_ok_iff.2 ⟨hdigits, hlow, rfl⟩
      · exact hne


theorem denotes_toString (n : Int) : Denotes (toString n).toList n := by
  rw [Int.toString_eq_repr, Int.repr_eq_if]
  have hdigits (k : Nat) : k.repr.toList = Nat.toDigits 10 k := by rw [Nat.repr_eq_ofList_toDigits, String.toList_ofList]
  split
  case isTrue h =>
    have hplain := Denotes.plain (Nat.toDigits_ne_nil (b := 10) (n := n.toNat))
      fun c hc => Nat.isDigit_of_mem_toDigits (by decide) (by decide) hc
    rwa [Nat.ofDigitChars_ten_toDigits, Int.toNat_of_nonneg h, ← hdigits] at hplain
  case isFalse h =>
    have hminus := Denotes.minus (Nat.toDigits_ne_nil (b := 10) (n := (-n).toNat))
      fun c hc => Nat.isDigit_of_mem_toDigits (by decide) (by decide) hc
    rw [Nat.ofDigitChars_ten_toDigits, Int.toNat_of_nonneg (by omega), Int.neg_neg, ← hdigits] at hminus
    rwa [String.toList_append]

theorem not_isBlank_of_isDigit {c : Char} (h : c.isDigit) : Text.isBlank c = false := by
  simp only [Char.isDigit, Bool.and_eq_true, decide_eq_true_eq, ge_iff_le, UInt32.le_iff_toNat_le] at h
  have hc : 48 ≤ c.toNat ∧ c.toNat ≤ 57 := h
  simp only [Text.isBlank, Bool.or_eq_false_iff, Bool.and_eq_false_iff, decide_eq_false_iff_not]
  omega

theorem Denotes.trimBlanks {cs : List Char} {n : Int} (h : Denotes cs n) : Text.trimBlanks cs = cs := by
  have hblank : ∀ c ∈ cs, Text.isBlank c = false := by
    cases h with
    | plain _ hdigits => exact fun c hc => not_isBlank_of_isDigit (hdigits c hc)
    | plus _ hdigits | minus _ hdigits =>
      exact forall_mem_cons.2 ⟨rfl, fun c hc => not_isBlank_of_isDigit (hdigits c hc)⟩
  have hkept {cs : List Char} (h : ∀ c ∈ cs, Text.isBlank c = false) : cs.dropWhile Text.isBlank = cs := by
    cases cs with
    | nil => rfl
    | cons c cs => exact dropWhile_cons_of_neg (by simp [h c mem_cons_self])
  rw [Text.trimBlanks, hkept hblank, hkept fun c hc => hblank c (List.mem_reverse.1 hc), reverse_reverse]

theorem readInteger_eq_ok_iff {s : String} {n : Int} : readInteger s = .ok n ↔
    Denotes (Text.trimBlanks s.toList) n ∧ Int64.minValue.toInt ≤ n ∧ n ≤ Int64.maxValue.toInt :=
  readSigned_eq_ok_iff

theorem readInteger_toString (n : Int64) : readInteger (toString n.toInt) = .ok n.toInt := by
  have hdenotes := denotes_toString n.toInt
  exact readInteger_eq_ok_iff.2 ⟨hdenotes.trimBlanks.symm ▸ hdenotes, n.minValue_le_toInt, n.toInt_le⟩

end Decimal

namespace Text

theorem hexDigit_digit : ∀ n < 16, (hexDigit n).utf8Size = 1 ∧
    hexDigitValue? (hexDigit n).val.toUInt8 = some (UInt8.ofNat n) := by decide

theorem readHexPairs_hexBytes (bytes : List UInt8) (position : Nat) :
    ((bytes.flatMap hexByte).flatMap String.utf8EncodeChar).length % 2 = 0 ∧
      readHexPairs position ((bytes.flatMap hexByte).flatMap String.utf8EncodeChar) = .ok bytes := by
  induction bytes generalizing position with
  | nil => exact ⟨rfl, rfl⟩
  | cons b bytes ih =>
    obtain ⟨hhigh, hhigh'⟩ := hexDigit_digit (b.toNat / 16) (by have := b.toNat_lt; omega)
    obtain ⟨hlow, hlow'⟩ := hexDigit_digit (b.toNat % 16) (by omega)
    have hsum : UInt8.ofNat (b.toNat / 16) * 16 + UInt8.ofNat (b.toNat % 16) = b := by
      have := b.toNat_lt
      rw [← UInt8.toNat_inj]
      simp [UInt8.toNat_add, UInt8.toNat_mul]
      omega
    simp only [flatMap_cons, hexByte, cons_append, nil_append, String.utf8EncodeChar_eq_singleton hhigh,
      String.utf8EncodeChar_eq_singleton hlow, length_cons, readHexPairs, hhigh', hlow', (ih (position + 2)).2, hsum]
    exact ⟨by have := (ih 0).1; omega, rfl⟩

theorem readHex_hexText (bytes : List UInt8) : readHex (hexText bytes) = .ok bytes := by
  obtain ⟨heven, hread⟩ := readHexPairs_hexBytes bytes 0
  rw [readHex, hexText, String.toUTF8_eq_toByteArray, String.toByteArray_ofList, List.utf8Encode,
    toList_data_toByteArray, if_neg (by omega), hread]

end Text

namespace Converter

/-- Whether the two texts of a boolean differ. -/
def TellsApart (c : Converter) : Prop := ∀ text, c ≠ .boolToString text text

variable {c : Converter} {s t v d : Value}

theorem load_string_eq_ok_iff {s : String} : c.load (.string s) = .ok d ↔ c.loadText s = .ok d := by
  cases h : c.loadText s <;> simp [load, h]

theorem load_number_iff {s : String} : numberToString.load (.string s) = .ok d ↔
    ∃ n : Int64, Decimal.Denotes (Text.trimBlanks s.toList) n.toInt ∧ d = .int64 n := by
  rw [load_string_eq_ok_iff, loadText]
  constructor
  · intro h
    cases hread : Decimal.readInteger s with
    | error fault => simp [hread] at h
    | ok m =>
      obtain ⟨hdenotes, hlow, hhigh⟩ := Decimal.readInteger_eq_ok_iff.1 hread
      refine ⟨Int64.ofInt m, ?_, by simpa [hread] using h.symm⟩
      rwa [Int64.toInt_ofInt_of_le hlow (Int.lt_add_one_of_le hhigh)]
  · rintro ⟨n, hdenotes, rfl⟩
    rw [Decimal.readInteger_eq_ok_iff.2 ⟨hdenotes, n.minValue_le_toInt, n.toInt_le⟩]
    simp

theorem load_of_store (hc : c.TellsApart) (h : c.store v = .ok t) : c.load t = .ok (c.domainType.coerce v) := by
  cases v with
  | null => cases h; cases c <;> rfl
  | bool b =>
    cases c with
    | boolToString falseText trueText =>
      have hne : falseText ≠ trueText := fun heq => hc trueText (by rw [heq])
      cases h
      cases b <;> simp [load_string_eq_ok_iff, loadText, hne, DomainType.coerce]
    | boolToZeroOne => cases h; cases b <;> rfl
    | _ => cases h
  | int32 n | int64 n =>
    cases c <;> cases h
    rw [load_string_eq_ok_iff, loadText, Decimal.readInteger_toString]
    simp [DomainType.coerce, domainType]
  | uuid u =>
    cases c <;> cases h
    simp [load_string_eq_ok_iff, loadText, Text.readHex_hexText, u.size, DomainType.coerce]
  | _ => cases c <;> cases h

theorem accepts_of_load (h : c.load s = .ok d) : c.domainType.accepts d := by
  cases s with
  | null => cases h; cases c <;> rfl
  | string s =>
    rw [load_string_eq_ok_iff] at h
    cases c <;> simp only [loadText] at h <;> grind [DomainType.accepts, domainType]
  | _ => cases c <;> simp only [load, loadOther] at h <;> grind [DomainType.accepts, domainType]

/-- What is stored is read back, in the wider form of the domain type; whatever is read belongs to the domain type; and a
number is read from exactly the texts that denote one of 64 bits between blanks. -/
theorem reads_back (c : Converter) (hc : c.TellsApart) :
    (∀ v t, c.store v = .ok t → c.load t = .ok (c.domainType.coerce v)) ∧
      (∀ s d, c.load s = .ok d → c.domainType.accepts d) ∧
      ∀ s d, numberToString.load (.string s) = .ok d ↔
        ∃ n : Int64, Decimal.Denotes (Text.trimBlanks s.toList) n.toInt ∧ d = .int64 n :=
  ⟨fun _ _ => load_of_store hc, fun _ _ => accepts_of_load, fun _ _ => load_number_iff⟩

theorem reads_back_yesNo : yesNo.TellsApart ∧ yesNo.load (.string "N") = .ok (.bool false) :=
  have hc : yesNo.TellsApart := fun text h => by simp [yesNo] at h; grind
  ⟨hc, (reads_back yesNo hc).1 (.bool false) _ rfl⟩

end Converter

/-! ## Conditions on stored forms -/

namespace Value

theorem looselyEquals_string {a b : String} : (string a).looselyEquals (.string b) ↔ a = b := by
  simp [looselyEquals, compare?]

theorem looselyEquals_bool {a b : Bool} : (bool a).looselyEquals (.bool b) ↔ a = b := by
  simp [looselyEquals, compare?]

theorem looselyEquals_uuid {a b : Uuid} : (uuid a).looselyEquals (.uuid b) ↔ a = b := by
  obtain ⟨a, ha⟩ := a
  obtain ⟨b, hb⟩ := b
  simp [looselyEquals, compare?, compareOfLessAndEq]
  grind

/-- Integers of any width are compared as numbers. -/
theorem compare?_integers {a b : Value} {m n : Int64} (ha : a.int64? = some m) (hb : b.int64? = some n) :
    a.compare? b = some (compare m.toInt n.toInt) := by
  cases a <;> cases ha <;> cases b <;> cases hb <;> rfl

theorem looselyEquals_integers {a b : Value} {m n : Int64} (ha : a.int64? = some m) (hb : b.int64? = some n) :
    a.looselyEquals b ↔ m = n := by
  have heq : a.looselyEquals b = (a.compare? b == some .eq) := by cases a <;> cases ha <;> rfl
  rw [heq, compare?_integers ha hb]
  simp [Int64.toInt_inj]

end Value

namespace Converter
variable {c : Converter} {s t v d : Value}

theorem loadText_of_load (hs : c.load s = .ok d) (hd : d ≠ .null) (hc : c ≠ .boolToZeroOne) :
    ∃ x, s = .string x ∧ c.loadText x = .ok d := by
  cases s with
  | null => cases hs; exact absurd rfl hd
  | string x => exact ⟨x, rfl, load_string_eq_ok_iff.1 hs⟩
  | _ => cases c <;> first | cases hs | exact absurd rfl hc

/-- A stored value equals the stored form of a value exactly if it stands for that value and is stored in the same form. -/
theorem looselyEquals_store (hc : c.TellsApart) (hs : c.load s = .ok d) (hd : d ≠ .null) (ht : c.store v = .ok t)
    (hv : v ≠ .null) : (s.compare? t).isSome ∧
      (s.looselyEquals t ↔ d.looselyEquals v ∧ ∃ t', c.store d = .ok t' ∧ s.looselyEquals t') := by
  cases c with
  | boolToString falseText trueText =>
    have hne : falseText ≠ trueText := fun heq => hc trueText (by rw [heq])
    obtain ⟨x, rfl, hx⟩ := loadText_of_load hs hd (by simp)
    obtain ⟨b', rfl, hb'⟩ : ∃ b', d = .bool b' ∧ x = if b' then trueText else falseText := by
      simp only [loadText] at hx
      grind
    cases v with
    | null => exact absurd rfl hv
    | bool b =>
      cases ht
      refine ⟨rfl, ?_⟩
      simp only [store, Except.ok.injEq, exists_eq_left', Value.looselyEquals_string, Value.looselyEquals_bool]
      grind
    | _ => cases ht
  | boolToZeroOne =>
    obtain ⟨b', n, hn, rfl, hb'⟩ : ∃ b' n, s.int64? = some n ∧ d = .bool b' ∧ n = if b' then 1 else 0 := by
      cases s <;> simp only [load, loadText, loadOther] at hs <;> grind
    cases v with
    | null => exact absurd rfl hv
    | bool b =>
      cases ht
      have hstored (b : Bool) : (Value.int32 (if b then 1 else 0)).int64? = some (if b then 1 else 0) := by
        cases b <;> rfl
      refine ⟨by rw [Value.compare?_integers hn (hstored b)]; rfl, ?_⟩
      simp only [store, Except.ok.injEq, exists_eq_left', Value.looselyEquals_integers hn (hstored _),
        Value.looselyEquals_bool]
      cases b <;> cases b' <;> simp [hb']
    | _ => cases ht
  | numberToString =>
    obtain ⟨x, rfl, hx⟩ := loadText_of_load hs hd (by simp)
    obtain ⟨m, hm, rfl⟩ : ∃ m, Decimal.readInteger x = .ok m ∧ d = .int64 (Int64.ofInt m) := by
      simp only [loadText] at hx
      grind
    obtain ⟨n, hn, rfl⟩ : ∃ n, v.int64? = some n ∧ t = .string (toString n.toInt) := by
      cases v <;> cases ht <;> first | exact absurd rfl hv | exact ⟨_, rfl, rfl⟩
    refine ⟨rfl, ?_⟩
    simp only [store, Value.int64?, Except.ok.injEq, exists_eq_left', Value.looselyEquals_string,
      Value.looselyEquals_integers (a := .int64 _) rfl hn]
    have hread := Decimal.readInteger_toString n
    grind [Int64.ofInt_toInt]
  | uuidToString =>
    obtain ⟨x, rfl, hx⟩ := loadText_of_load hs hd (by simp)
    obtain ⟨u', hu', rfl⟩ : ∃ u' : Uuid, Text.readHex x = .ok u'.bytes ∧ d = .uuid u' := by
      simp only [loadText] at hx
      grind
    cases v with
    | null => exact absurd rfl hv
    | uuid u =>
      cases ht
      refine ⟨rfl, ?_⟩
      simp only [store, Except.ok.injEq, exists_eq_left', Value.looselyEquals_string, Value.looselyEquals_uuid]
      have hread := Text.readHex_hexText u.bytes
      have hinj : u'.bytes = u.bytes → u' = u := by cases u; cases u'; simp
      grind
    | _ => cases ht

/-- A condition that compares a column with a value of its domain holds exactly in the rows that store the value in the form in
which it would be stored. In the others it does not hold, even if the value is read from them. -/
theorem eval_equalTo_iff (hc : c.TellsApart) (hs : c.load s = .ok d) (hd : d ≠ .null) (ht : c.store v = .ok t)
    (hv : v ≠ .null) {column : ColumnRef} {scope : Scope} (hcolumn : scope.column column = .ok s) (storeType : String)
    (env : Environment) : ∃ holds,
      ((Expr.column column).equalTo (.constant v (some (.converted storeType c)))).eval env scope = .ok (.bool holds) ∧
        (holds ↔ d.looselyEquals v ∧ ∃ t', c.store d = .ok t' ∧ s.looselyEquals t') := by
  obtain ⟨hcomparable, hiff⟩ := looselyEquals_store hc hs hd ht hv
  obtain ⟨order, horder⟩ := Option.isSome_iff_exists.1 hcomparable
  have hnull : s.isNull = false ∧ t.isNull = false := by
    cases s <;> cases t <;> first | exact ⟨rfl, rfl⟩ | cases horder
  refine ⟨order == .eq, ?_, ?_⟩
  · have hstored : storedValue (some (.converted storeType c)) v = .ok t := by
      simp [storedValue, storeWith, TypeMapping.converted, ht]
    simp only [Expr.equalTo, Expr.eval, hcolumn, hstored]
    simp [bind, Except.bind, applyBinary, hnull, horder, BinaryOp.isLogical, BinaryOp.isComparison, BinaryOp.admits]
  · have hequals : s.looselyEquals t = (s.compare? t == some .eq) := by
      cases s with
      | null => cases hnull.1
      | _ => rfl
    rw [← hiff, hequals, horder]
    simp

/-- A scope with one row, which has one column. -/
def scopeOf (s : Value) : Scope := .ofRow [⟨1, ["X"], some [s]⟩] []

/-- A column that is compared with a value of its domain. -/
def columnIs (c : Converter) (v : Value) : Expr :=
  (Expr.column ⟨1, none, "X", none, true⟩).equalTo (.constant v (some (.converted "text" c)))

theorem eval_equalTo_iff_five : ∃ holds,
    (columnIs .numberToString (.int32 5)).eval ⟨[], .empty⟩ (scopeOf (.string "5")) = .ok (.bool holds) ∧ holds := by
  have hc : numberToString.TellsApart := fun _ h => by cases h
  have hs : numberToString.load (.string "5") = .ok (.int64 5) := rfl
  have hcolumn : (scopeOf (.string "5")).column ⟨1, none, "X", none, true⟩ = .ok (.string "5") := rfl
  have ht : numberToString.store (.int32 5) = .ok (.string "5") := rfl
  obtain ⟨holds, heval, hiff⟩ := eval_equalTo_iff hc hs (by simp) ht (by simp) hcolumn "text" ⟨[], .empty⟩
  exact ⟨holds, heval, hiff.2 ⟨rfl, .string "5", rfl, rfl⟩⟩

/-- A number with a blank before it is read as the number, but a condition does not find it. -/
theorem not_eval_equalTo_of_blank : numberToString.load (.string " 5") = .ok (.int64 5) ∧
    (Value.int64 5).looselyEquals (.int32 5) ∧ numberToString.store (.int32 5) = .ok (.string "5") ∧
    (columnIs .numberToString (.int32 5)).eval ⟨[], .empty⟩ (scopeOf (.string " 5")) = .ok (.bool false) :=
  ⟨rfl, rfl, rfl, rfl⟩

end Converter

/-! ## Reading what an expression gives -/

/-- Whether a value can be read as one of this type, through this converter. -/
def Value.ReadsAs (domainType : Option DomainType) (converter : Option Converter) (v : Value) : Prop :=
  ∀ ordinal column, ∃ d, (Binding.mk ordinal column domainType converter true).decode v = .ok d

theorem Value.readsAs_none (v : Value) : v.ReadsAs none none := by
  intro ordinal column
  unfold Binding.decode
  split <;> exact ⟨_, rfl⟩

/-- An expression of columns, constants and conditionals, where each column and each constant with a mapping has a value that
can be read by its own mapping, and both branches of each conditional have the same type and the same converter. -/
inductive Expr.Uniform (scope : Scope) : Expr → Prop where
  | column {c : ColumnRef} (h : ∀ v, scope.column c = .ok v →
      v.ReadsAs (c.mapping.map (·.domainType)) (c.mapping.bind (·.converter))) : Uniform scope (.column c)
  | constant {value : Value} {mapping : Option TypeMapping} (h : ∀ m v, mapping = some m → storedValue mapping value = .ok v →
      v.ReadsAs (some m.domainType) m.converter) : Uniform scope (.constant value mapping)
  | conditional {test ifTrue ifFalse : Expr} (hTrue : Uniform scope ifTrue) (hFalse : Uniform scope ifFalse)
      (htype : ifTrue.domainType? = ifFalse.domainType?)
      (hconverter : ifTrue.mapping?.bind (·.converter) = ifFalse.mapping?.bind (·.converter)) :
      Uniform scope (.conditional test ifTrue ifFalse)

namespace Expr

variable {e : Expr} {scope : Scope} {env : Environment} {v : Value}

theorem Uniform.domainType?_eq (h : e.Uniform scope) {m : TypeMapping} (hm : e.mapping? = some m) :
    e.domainType? = some m.domainType := by
  cases h with
  | @constant value mapping =>
    obtain rfl : mapping = some m := hm
    rfl
  | _ => exact congrArg (Option.map (·.domainType)) hm

/-- Whichever branch a value comes from, it is read as one of the whole expression. -/
theorem Uniform.readsAs (h : e.Uniform scope) (hv : e.eval env scope = .ok v) :
    v.ReadsAs e.domainType? (e.mapping?.bind (·.converter)) := by
  induction h with
  | column h => exact h v hv
  | @constant value mapping h =>
    cases mapping with
    | some m => exact h m v rfl hv
    | none =>
      cases hv
      intro ordinal column
      cases v <;> exact ⟨_, rfl⟩
  | @conditional test ifTrue ifFalse hTrue hFalse htype hconverter ihTrue ihFalse =>
    have hbranch : v.ReadsAs ifTrue.domainType? (ifTrue.mapping?.bind (·.converter)) := by
      rw [eval] at hv
      obtain ⟨w, -, hv⟩ := Except.bind_eq_ok_iff.1 hv
      obtain ⟨holds, -, hv⟩ := Except.bind_eq_ok_iff.1 hv
      cases holds with
      | true => exact ihTrue hv
      | false => exact htype ▸ hconverter ▸ ihFalse hv
    -- The mapping of the whole is that of the first branch which has one.
    have hmap : (Expr.conditional test ifTrue ifFalse).mapping? = ifTrue.mapping?.or ifFalse.mapping? := by rw [mapping?]
    have hdomain : (Expr.conditional test ifTrue ifFalse).domainType? =
        (ifTrue.mapping?.or ifFalse.mapping?).map (·.domainType) := congrArg (Option.map TypeMapping.domainType) hmap
    rw [hmap, hdomain]
    cases hmapping : ifTrue.mapping? with
    | some m => rwa [hTrue.domainType?_eq hmapping, hmapping] at hbranch
    | none =>
      cases hmapping' : ifFalse.mapping? with
      | some m => rwa [htype, hconverter, hFalse.domainType?_eq hmapping', hmapping'] at hbranch
      | none => exact v.readsAs_none

end Expr

/-- The value of such an expression can be read through the binding of its projection. -/
theorem Binding.reads_uniform {e : Expr} {scope : Scope} {env : Environment} {v : Value} (h : e.Uniform scope)
    (hv : e.eval env scope = .ok v) {select : Select} {index : Nat} {aliasName : String}
    (hindex : select.projections[index]? = some ⟨aliasName, e⟩) : ∃ b, Binding.resolve select index true = .ok b ∧
      ∀ reader : Reader, reader.value index = .ok v → ∃ d, b.read reader = .ok d := by
  refine ⟨_, by rw [resolve, hindex], fun reader hreader => ?_⟩
  obtain ⟨d, hd⟩ := h.readsAs hv index aliasName
  exact ⟨d, by rw [read, hreader]; exact hd⟩

/-- A flag that is stored as a text, or another boolean: the test fails, so that it is always the other one. -/
def flagOr (other : Expr) : Expr :=
  .conditional (.constant (.bool false) none) (.column ⟨1, none, "X", some (.converted "char(1)" .yesNo), true⟩) other

def flagSelect (other : Expr) : Select :=
  ⟨[⟨"X", flagOr other⟩], [], none, [], none, [], none, none, false⟩

theorem Binding.reads_uniform_flag : ∃ b,
    Binding.resolve (flagSelect (flagOr (.constant (.bool true) (some (.converted "char(1)" .yesNo))))) 0 true = .ok b ∧
      ∀ reader : Reader, reader.value 0 = .ok (.string "Y") → ∃ d, b.read reader = .ok d := by
  have hflag : (Value.string "Y").ReadsAs (some .bool) (some .yesNo) := fun _ _ => ⟨.bool true, rfl⟩
  have hcolumn : (Expr.column ⟨1, none, "X", some (.converted "char(1)" .yesNo), true⟩).Uniform
      (Converter.scopeOf (.string "Y")) := .column fun v hv => by cases hv; exact hflag
  have hconstant : (Expr.constant (.bool true) (some (.converted "char(1)" .yesNo))).Uniform
      (Converter.scopeOf (.string "Y")) := .constant fun m v hm hv => by cases hm; cases hv; exact hflag
  have heval : (flagOr (flagOr (.constant (.bool true) (some (.converted "char(1)" .yesNo))))).eval ⟨[], .empty⟩
      (Converter.scopeOf (.string "Y")) = .ok (.string "Y") := rfl
  exact reads_uniform (.conditional hcolumn (.conditional hcolumn hconstant rfl rfl) rfl rfl) heval rfl

/-- Branches of one type are not enough: a boolean that is stored as it is cannot be read by the mapping of the other branch. -/
theorem Binding.not_reads_flagOr_plain : (flagOr (.constant (.bool false) none)).eval ⟨[], .empty⟩
      (Converter.scopeOf (.string "Y")) = .ok (.bool false) ∧
    ∃ b e, Binding.resolve (flagSelect (.constant (.bool false) none)) 0 true = .ok b ∧ b.domainType = some .bool ∧
      (Expr.constant (.bool false) none).domainType? = some .bool ∧ b.decode (.bool false) = .error e :=
  ⟨rfl, _, _, rfl, rfl, rfl, rfl⟩

end QueryShaping
