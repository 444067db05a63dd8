import Mathlib.Data.List.Basic
import QueryShaping.Evaluation.Run

/-!
# What the text of an expression tells

Expressions are made of columns, parameters and operators here. The text of an operand is the operators that lead, then
a column, a parameter or a binary operation in parentheses, then the operators that trail. From the left each of these
parts can be told from what may follow it, so the text gives back the leading operators, the trailing ones and what they
stand around, and so on inside the parentheses.

What it does not give back is the order in which leading and trailing operators were applied, since nothing stands
between them: `NOT a IS NULL` is the negation of a test and the test of a negation. So the text tells the expression if
and only if no operator that leads is applied directly to one that trails or the other way round.
-/

namespace QueryShaping

open List

/-! ## Parts of a text -/

/-- The characters that stand between the names in the text of an expression. -/
def isMark (c : Char) : Bool :=
  c ∈ [' ', '.', '(', ')', '@', '-']

/-- Whether a text is a name that no character between names is part of. Names of letters and digits are such. -/
def IsName (s : String) : Prop :=
  s.toList ≠ [] ∧ ∀ c ∈ s.toList, isMark c = false

theorem isName_of_isAlphanum {s : String} (hne : s.toList ≠ []) (h : s.toList.all Char.isAlphanum = true) :
    IsName s := by
  refine ⟨hne, fun c hc => ?_⟩
  have halphanum := List.all_eq_true.1 h c hc
  rw [isMark, decide_eq_false_iff_not]
  intro hmark
  simp only [mem_cons, not_mem_nil, or_false] at hmark
  rcases hmark with rfl | rfl | rfl | rfl | rfl | rfl <;> exact absurd halphanum (by decide)

/-- Whether a text is not continued by a name. -/
def Stops (s : List Char) : Prop :=
  ∀ c ∈ s.head?, isMark c = true

theorem stops_cons {c : Char} (h : isMark c = true) (s : List Char) : Stops (c :: s) := by
  intro d hd
  obtain rfl : c = d := Option.some.inj hd
  exact h

/-- The items up to the first that a test rejects are told from what comes behind them. -/
theorem append_cancel_of_test {α : Type} {p : α → Bool} {a b r s : List α} (ha : ∀ x ∈ a, p x = false)
    (hb : ∀ x ∈ b, p x = false) (hr : ∀ x ∈ r.head?, p x = true) (hs : ∀ x ∈ s.head?, p x = true)
    (h : a ++ r = b ++ s) : a = b ∧ r = s := by
  induction a generalizing b with
  | nil =>
    cases b with
    | nil => exact ⟨rfl, h⟩
    | cons y b =>
      subst h
      exact absurd (hr y rfl) (by rw [hb y mem_cons_self]; exact Bool.false_ne_true)
  | cons x a ih =>
    cases b with
    | nil =>
      subst h
      exact absurd (hs x rfl) (by rw [ha x mem_cons_self]; exact Bool.false_ne_true)
    | cons y b =>
      obtain ⟨rfl, htail⟩ := List.cons.inj h
      obtain ⟨rfl, rfl⟩ := ih (forall_mem_cons.1 ha).2 (forall_mem_cons.1 hb).2 htail
      exact ⟨rfl, rfl⟩

theorem IsName.append_cancel {a b : String} (ha : IsName a) (hb : IsName b) {r s : List Char} (hr : Stops r)
    (hs : Stops s) (h : a.toList ++ r = b.toList ++ s) : a = b ∧ r = s := by
  obtain ⟨hab, hrs⟩ := append_cancel_of_test ha.2 hb.2 hr hs h
  exact ⟨String.toList_inj.1 hab, hrs⟩

/-! ## Operators -/

namespace UnaryOp

/-- Whether the operator is written before its operand. -/
def leads : UnaryOp → Bool
  | .not | .negate => true
  | .isNull | .isNotNull => false

/-- The text of the operator, with the space between it and its operand. -/
def word : UnaryOp → List Char
  | .not => ['N', 'O', 'T', ' ']
  | .negate => ['-']
  | .isNull => [' ', 'I', 'S', ' ', 'N', 'U', 'L', 'L']
  | .isNotNull => [' ', 'I', 'S', ' ', 'N', 'O', 'T', ' ', 'N', 'U', 'L', 'L']

end UnaryOp

/-- The text of a binary operator between its operands. -/
def BinaryOp.word (op : BinaryOp) : List Char :=
  ' ' :: op.symbol.toList ++ [' ']

/-- Whether a text comes behind an operand: the end, the end of parentheses, or an operator and another operand. -/
inductive OperandEnd : List Char → Prop
  | nil : OperandEnd []
  | close (rest : List Char) : OperandEnd (')' :: rest)
  | operator (op : BinaryOp) (rest : List Char) : OperandEnd (op.word ++ rest)

theorem BinaryOp.word_append_cancel {op op' : BinaryOp} {r s : List Char} (h : op.word ++ r = op'.word ++ s) :
    op = op' ∧ r = s := by
  have hspace (op : BinaryOp) : ∀ c ∈ op.symbol.toList, (c == ' ') = false := by
    have hall : (op.symbol.toList.all fun c => !(c == ' ')) = true := by cases op <;> decide
    simpa using hall
  have hsymbol : op.symbol.toList ++ ' ' :: r = op'.symbol.toList ++ ' ' :: s := by
    simpa [BinaryOp.word] using h
  obtain ⟨hsymbol, hrest⟩ := append_cancel_of_test (hspace op) (hspace op') (by simp) (by simp) hsymbol
  refine ⟨?_, (List.cons.inj hrest).2⟩
  revert hsymbol
  cases op <;> cases op' <;> decide

/-- Whether no operator of one side begins at a text. -/
def NoOperator (side : Bool) (s : List Char) : Prop :=
  ∀ op : UnaryOp, op.leads = side → ∀ rest, s ≠ op.word ++ rest

theorem UnaryOp.eq_of_word_append {op op' : UnaryOp} (hop : op.leads = op'.leads) {r s : List Char}
    (h : op.word ++ r = op'.word ++ s) : op = op' := by
  cases op <;> cases op' <;> first | rfl | cases hop; done | simp [word] at h

/-- Operators of one side are told from each other and from a text where none begins. -/
theorem words_append_cancel {side : Bool} {ops ops' : List UnaryOp} (hops : ∀ op ∈ ops, op.leads = side)
    (hops' : ∀ op ∈ ops', op.leads = side) {r s : List Char} (hr : NoOperator side r) (hs : NoOperator side s)
    (h : ops.flatMap UnaryOp.word ++ r = ops'.flatMap UnaryOp.word ++ s) : ops = ops' ∧ r = s := by
  induction ops generalizing ops' with
  | nil =>
    cases ops' with
    | nil => exact ⟨rfl, h⟩
    | cons op rest =>
      rw [flatMap_cons, append_assoc] at h
      exact absurd h (hr op (hops' op mem_cons_self) _)
  | cons op rest ih =>
    cases ops' with
    | nil =>
      rw [flatMap_cons, append_assoc] at h
      exact absurd h.symm (hs op (hops op mem_cons_self) _)
    | cons op' rest' =>
      obtain ⟨hop, hrest⟩ := forall_mem_cons.1 hops
      obtain ⟨hop', hrest'⟩ := forall_mem_cons.1 hops'
      rw [flatMap_cons, flatMap_cons, append_assoc, append_assoc] at h
      obtain rfl : op = op' := UnaryOp.eq_of_word_append (hop.trans hop'.symm) h
      obtain ⟨rfl, rfl⟩ := ih hrest hrest' (append_cancel_left h)
      exact ⟨rfl, rfl⟩

/-- No symbol begins with the letter that a trailing operator begins with. -/
theorem OperandEnd.noOperator {s : List Char} (h : OperandEnd s) : NoOperator false s := by
  intro op hop rest heq
  have hword : ∃ w, op.word = ' ' :: 'I' :: w := by
    cases op with
    | not | negate => cases hop
    | isNull | isNotNull => exact ⟨_, rfl⟩
  obtain ⟨w, hw⟩ := hword
  rw [hw] at heq
  cases h with
  | nil => cases heq
  | close => simp at heq
  | operator op' => cases op' <;> simp [BinaryOp.word, BinaryOp.symbol] at heq

theorem OperandEnd.stops {s : List Char} (h : OperandEnd s) : Stops s := by
  cases h with
  | nil => exact nofun
  | close => exact stops_cons rfl _
  | operator => exact stops_cons rfl _

theorem stops_trailing {ops : List UnaryOp} (hops : ∀ op ∈ ops, op.leads = false) {s : List Char} (hs : OperandEnd s) :
    Stops (ops.flatMap UnaryOp.word ++ s) := by
  cases ops with
  | nil => exact hs.stops
  | cons op rest =>
    have hop := hops op mem_cons_self
    cases op with
    | not | negate => cases hop
    | isNull | isNotNull => exact stops_cons rfl _

/-! ## Expressions of columns, parameters and operators -/

namespace Expr

/-- The expressions the text of which is looked at: columns with a qualifier, parameters, and operators over such. -/
inductive Plain : Expr → Prop
  | column {table : Nat} {qualifier name : String} {nullable : Bool} (hqualifier : IsName qualifier)
      (hname : IsName name) : Plain (.column ⟨table, some qualifier, name, none, nullable⟩)
  | parameter {name : String} (hname : IsName name) : Plain (.parameter name none)
  | binary {op : BinaryOp} {left right : Expr} (hleft : Plain left) (hright : Plain right) :
      Plain (.binary op left right)
  | unary {op : UnaryOp} {operand : Expr} (hoperand : Plain operand) : Plain (.unary op operand)

/-- The expression without the table identifiers and the nullability of its columns, which its text does not show. -/
def shown : Expr → Expr
  | .column c => .column { c with table := 0, nullable := false }
  | .binary op left right => .binary op left.shown right.shown
  | .unary op operand => .unary op operand.shown
  | e => e

/-- The text of the expression as an operand. -/
def chars (e : Expr) : List Char :=
  (e.asOperand e.text).toList

/-- The operators that lead in the text of the expression as an operand. -/
def leading : Expr → List UnaryOp
  | .unary op operand => if op.leads then op :: operand.leading else operand.leading
  | _ => []

/-- The operators that trail in the text of the expression as an operand. -/
def trailing : Expr → List UnaryOp
  | .unary op operand => if op.leads then operand.trailing else operand.trailing ++ [op]
  | _ => []

/-- What the leading and the trailing operators stand around. -/
def core : Expr → Expr
  | .unary _ operand => operand.core
  | e => e

theorem text_binary (op : BinaryOp) (left right : Expr) :
    (Expr.binary op left right).text =
      left.asOperand left.text ++ " " ++ op.symbol ++ " " ++ right.asOperand right.text :=
  rfl

theorem toList_text_binary (op : BinaryOp) (left right : Expr) :
    (Expr.binary op left right).text.toList = left.chars ++ (op.word ++ right.chars) := by
  simp [text_binary, chars, BinaryOp.word]

theorem chars_of_not_isBinary {e : Expr} (h : e.isBinary = false) : e.chars = e.text.toList := by
  rw [chars, asOperand, h, if_neg Bool.false_ne_true]

theorem chars_of_isBinary {e : Expr} (h : e.isBinary = true) : e.chars = '(' :: (e.text.toList ++ [')']) := by
  rw [chars, asOperand, h, if_pos rfl]
  simp

theorem chars_column (table : Nat) (qualifier name : String) (nullable : Bool) :
    (Expr.column ⟨table, some qualifier, name, none, nullable⟩).chars = qualifier.toList ++ '.' :: name.toList := by
  have htext : (Expr.column ⟨table, some qualifier, name, none, nullable⟩).text = qualifier ++ "." ++ name := rfl
  rw [chars_of_not_isBinary rfl, htext]
  simp

theorem chars_parameter (name : String) : (Expr.parameter name none).chars = '@' :: name.toList := by
  have htext : (Expr.parameter name none).text = "@" ++ name := rfl
  rw [chars_of_not_isBinary rfl, htext]
  simp

theorem chars_binary (op : BinaryOp) (left right : Expr) :
    (Expr.binary op left right).chars = '(' :: (left.chars ++ (op.word ++ (right.chars ++ [')']))) := by
  rw [chars_of_isBinary rfl, toList_text_binary]
  simp

theorem chars_unary (op : UnaryOp) (operand : Expr) :
    (Expr.unary op operand).chars = if op.leads then op.word ++ operand.chars else operand.chars ++ op.word := by
  have htext : (Expr.unary op operand).text =
      if op.leads then String.ofList op.word ++ operand.asOperand operand.text
      else operand.asOperand operand.text ++ String.ofList op.word := by
    cases op <;> rfl
  rw [chars_of_not_isBinary rfl, htext]
  split <;> simp [chars]

/-- An operand reads as its leading operators, what they stand around, and its trailing operators. -/
theorem Plain.chars_eq {e : Expr} (h : e.Plain) :
    e.chars = e.leading.flatMap UnaryOp.word ++ (e.core.chars ++ e.trailing.flatMap UnaryOp.word) := by
  induction h with
  | column | parameter | binary => exact (append_nil _).symm
  | @unary op operand _ ih =>
    rw [chars_unary, ih]
    cases hop : op.leads <;> simp [leading, trailing, core, hop]

theorem Plain.leads_of_mem_leading {e : Expr} (h : e.Plain) : ∀ op ∈ e.leading, op.leads = true := by
  induction h with
  | column | parameter | binary => exact nofun
  | @unary op operand _ ih => cases hop : op.leads <;> simpa [leading, hop] using ih

theorem Plain.leads_of_mem_trailing {e : Expr} (h : e.Plain) : ∀ op ∈ e.trailing, op.leads = false := by
  induction h with
  | column | parameter | binary => exact nofun
  | @unary op operand _ ih =>
    cases hop : op.leads with
    | true => simpa [trailing, hop] using ih
    | false =>
      rw [trailing, hop, if_neg Bool.false_ne_true, forall_mem_append]
      exact ⟨ih, forall_mem_singleton.2 hop⟩

/-! ## What the operators stand around -/

theorem Plain.core {e : Expr} (h : e.Plain) : e.core.Plain := by
  induction h with
  | column hqualifier hname => exact .column hqualifier hname
  | parameter hname => exact .parameter hname
  | binary hleft hright => exact .binary hleft hright
  | unary _ ih => exact ih

theorem Plain.core_ne_unary {e : Expr} (h : e.Plain) (op : UnaryOp) (operand : Expr) : e.core ≠ .unary op operand := by
  induction h with
  | column | parameter | binary => exact nofun
  | unary _ ih => exact ih

/-- The first mark in the text of what operators stand around. -/
def mark : Expr → Char
  | .column _ => '.'
  | .parameter _ _ => '@'
  | _ => '('

theorem Plain.find?_isMark {c : Expr} (h : c.Plain) (hc : ∀ op operand, c ≠ .unary op operand) (rest : List Char) :
    (c.chars ++ rest).find? isMark = some c.mark := by
  cases h with
  | @column _ qualifier _ _ hqualifier =>
    have hnone : qualifier.toList.find? isMark = none :=
      find?_eq_none.2 fun c hmem => Bool.eq_false_iff.1 (hqualifier.2 c hmem)
    rw [chars_column, append_assoc, find?_append, hnone]
    rfl
  | parameter => rw [chars_parameter]; rfl
  | binary => rw [chars_binary]; rfl
  | unary => exact absurd rfl (hc _ _)

theorem Plain.noOperator_chars {c : Expr} (h : c.Plain) (hc : ∀ op operand, c ≠ .unary op operand) (rest : List Char) :
    NoOperator true (c.chars ++ rest) := by
  intro op hop rest' heq
  have hmark := h.find?_isMark hc rest
  rw [heq] at hmark
  have hword : (op.word ++ rest').find? isMark = some ' ' ∨ (op.word ++ rest').find? isMark = some '-' := by
    cases op with
    | not => exact .inl rfl
    | negate => exact .inr rfl
    | isNull | isNotNull => cases hop
  rw [hmark] at hword
  cases h with
  | column | parameter | binary => simp [mark] at hword
  | unary => exact hc _ _ rfl

/-! ## Settled expressions -/

/-- An operator over an expression. One that trails goes below the operators that lead. -/
def attach (op : UnaryOp) : Expr → Expr
  | .unary other operand =>
    if !op.leads && other.leads then .unary other (attach op operand) else .unary op (.unary other operand)
  | e => .unary op e

/-- What the text shows of the expression, with the leading operators applied after the trailing ones. -/
def settled : Expr → Expr
  | .column c => .column { c with table := 0, nullable := false }
  | .binary op left right => .binary op left.settled right.settled
  | .unary op operand => attach op operand.settled
  | e => e

/-- An expression under trailing operators and these under leading ones. -/
def wrapped (leading trailing : List UnaryOp) (e : Expr) : Expr :=
  leading.foldr .unary (trailing.foldl (fun e op => .unary op e) e)

theorem attach_of_leads {op : UnaryOp} (h : op.leads = true) (e : Expr) : e.attach op = .unary op e := by
  cases e <;> simp [attach, h]

theorem attach_of_ne_unary (op : UnaryOp) {e : Expr} (h : ∀ other operand, e ≠ .unary other operand) :
    e.attach op = .unary op e := by
  cases e with
  | unary other operand => exact absurd rfl (h other operand)
  | _ => rfl

theorem attach_unary_of_not_leads (op : UnaryOp) {other : UnaryOp} (h : other.leads = false) (operand : Expr) :
    (Expr.unary other operand).attach op = .unary op (.unary other operand) := by
  rw [attach, h, Bool.and_false, if_neg Bool.false_ne_true]

theorem attach_unary_of_leads {op other : UnaryOp} (hop : op.leads = false) (h : other.leads = true) (operand : Expr) :
    (Expr.unary other operand).attach op = .unary other (operand.attach op) := by
  rw [attach, hop, h]
  rfl

theorem attach_wrapped {op : UnaryOp} (hop : op.leads = false) {leading trailing : List UnaryOp}
    (hleading : ∀ op ∈ leading, op.leads = true) (htrailing : ∀ op ∈ trailing, op.leads = false) {c : Expr}
    (hc : ∀ other operand, c ≠ .unary other operand) :
    (c.wrapped leading trailing).attach op = c.wrapped leading (trailing ++ [op]) := by
  induction leading with
  | nil =>
    simp only [wrapped, foldr_nil, foldl_append, foldl_cons, foldl_nil]
    rcases eq_nil_or_concat' trailing with rfl | ⟨below, last, rfl⟩
    · exact attach_of_ne_unary op hc
    · rw [foldl_concat]
      exact attach_unary_of_not_leads op (htrailing last (by simp)) _
  | cons first rest ih =>
    obtain ⟨hfirst, hrest⟩ := forall_mem_cons.1 hleading
    exact (attach_unary_of_leads hop hfirst _).trans (congrArg _ (ih hrest))

theorem Plain.settled_ne_unary {c : Expr} (h : c.Plain) (hc : ∀ op operand, c ≠ .unary op operand) (op : UnaryOp)
    (operand : Expr) : c.settled ≠ .unary op operand := by
  cases h with
  | column | parameter | binary => exact nofun
  | unary => exact absurd rfl (hc _ _)

/-- The leading operators, the trailing ones and what they stand around make the settled expression. -/
theorem Plain.settled_eq {e : Expr} (h : e.Plain) : e.settled = e.core.settled.wrapped e.leading e.trailing := by
  induction h with
  | column | parameter | binary => rfl
  | @unary op operand hoperand ih =>
    rw [settled, ih, leading, trailing, Expr.core]
    cases hop : op.leads with
    | true => exact attach_of_leads hop _
    | false =>
      exact attach_wrapped hop hoperand.leads_of_mem_leading hoperand.leads_of_mem_trailing
        (hoperand.core.settled_ne_unary hoperand.core_ne_unary)

/-! ## Reading a text -/

/-- Two texts of what operators stand around are told from what follows them, if this holds of shorter texts. -/
theorem Plain.core_append_cancel {c c' : Expr} (h : c.Plain) (hc : ∀ op operand, c ≠ .unary op operand) (h' : c'.Plain)
    (hc' : ∀ op operand, c' ≠ .unary op operand)
    (ih : ∀ {e e' : Expr} {r s : List Char}, e.chars.length < c.chars.length → e.Plain → e'.Plain → OperandEnd r →
      OperandEnd s → e.chars ++ r = e'.chars ++ s → e.settled = e'.settled ∧ r = s)
    {r s : List Char} (hr : Stops r) (hs : Stops s) (heq : c.chars ++ r = c'.chars ++ s) :
    c.settled = c'.settled ∧ r = s := by
  have hmark : c.mark = c'.mark := by
    have hfound := h.find?_isMark hc r
    rw [heq, h'.find?_isMark hc' s] at hfound
    exact (Option.some.inj hfound).symm
  cases h with
  | unary => exact absurd rfl (hc _ _)
  | column hqualifier hname =>
    cases h' with
    | unary => exact absurd rfl (hc' _ _)
    | parameter | binary => simp [mark] at hmark
    | column hqualifier' hname' =>
      rw [chars_column, chars_column, append_assoc, append_assoc] at heq
      obtain ⟨rfl, hrest⟩ := hqualifier.append_cancel hqualifier' (stops_cons rfl _) (stops_cons rfl _) heq
      obtain ⟨rfl, rfl⟩ := hname.append_cancel hname' hr hs (List.cons.inj hrest).2
      exact ⟨rfl, rfl⟩
  | parameter hname =>
    cases h' with
    | unary => exact absurd rfl (hc' _ _)
    | column | binary => simp [mark] at hmark
    | parameter hname' =>
      rw [chars_parameter, chars_parameter] at heq
      obtain ⟨rfl, rfl⟩ := hname.append_cancel hname' hr hs (List.cons.inj heq).2
      exact ⟨rfl, rfl⟩
  | @binary op left right hleft hright =>
    cases h' with
    | unary => exact absurd rfl (hc' _ _)
    | column | parameter => simp [mark] at hmark
    | @binary op' left' right' hleft' hright' =>
      simp only [chars_binary, length_cons, length_append] at ih
      simp only [chars_binary, cons_append, append_assoc, List.cons.injEq, true_and] at heq
      obtain ⟨hsameLeft, hrest⟩ := ih (by omega) hleft hleft' (.operator _ _) (.operator _ _) heq
      obtain ⟨rfl, hbehind⟩ := BinaryOp.word_append_cancel hrest
      obtain ⟨hsameRight, hclosed⟩ := ih (by omega) hright hright' (.close _) (.close _) hbehind
      exact ⟨by rw [settled, settled, hsameLeft, hsameRight], (List.cons.inj hclosed).2⟩

/-- An operand is told from what comes behind it, up to what its text does not show. -/
theorem Plain.chars_append_cancel {e e' : Expr} (h : e.Plain) (h' : e'.Plain) {r s : List Char} (hr : OperandEnd r)
    (hs : OperandEnd s) (heq : e.chars ++ r = e'.chars ++ s) : e.settled = e'.settled ∧ r = s := by
  -- By induction on the length of the text: what is read next stands inside the core, below all the unary operators.
  induction hn : e.chars.length using Nat.strongRecOn generalizing e e' r s with
  | _ n ih =>
    rw [h.settled_eq, h'.settled_eq]
    have hlength : e.core.chars.length ≤ n := by
      rw [← hn, h.chars_eq, length_append, length_append]
      omega
    rw [h.chars_eq, h'.chars_eq, append_assoc, append_assoc, append_assoc, append_assoc] at heq
    obtain ⟨hleading, hrest⟩ := words_append_cancel h.leads_of_mem_leading h'.leads_of_mem_leading
      (h.core.noOperator_chars h.core_ne_unary _) (h'.core.noOperator_chars h'.core_ne_unary _) heq
    obtain ⟨hcore, hrest⟩ := h.core.core_append_cancel h.core_ne_unary h'.core h'.core_ne_unary
      (fun hlt hx hy hr hs hxy => ih _ (Nat.lt_of_lt_of_le hlt hlength) hx hy hr hs hxy rfl)
      (stops_trailing h.leads_of_mem_trailing hr) (stops_trailing h'.leads_of_mem_trailing hs) hrest
    obtain ⟨htrailing, rfl⟩ := words_append_cancel h.leads_of_mem_trailing h'.leads_of_mem_trailing hr.noOperator
      hs.noOperator hrest
    exact ⟨by rw [hleading, hcore, htrailing], rfl⟩

/-- A binary operation outside parentheses is told from an operand, since its operator comes behind one. -/
theorem Plain.isBinary_of_text_eq {e e' : Expr} (h : e.Plain) (h' : e'.Plain) (heq : e.text = e'.text)
    (hb : e.isBinary = true) : e'.isBinary = true := by
  by_contra hb'
  cases h with
  | column | parameter | unary => cases hb
  | @binary op left right hleft hright =>
    have hlist : left.chars ++ (op.word ++ right.chars) = e'.chars ++ [] := by
      rw [chars_of_not_isBinary (Bool.eq_false_iff.2 hb'), ← heq, toList_text_binary, append_nil]
    cases (hleft.chars_append_cancel h' (.operator _ _) .nil hlist).2

theorem Plain.settled_eq_of_text_eq {e e' : Expr} (h : e.Plain) (h' : e'.Plain) (heq : e.text = e'.text) :
    e.settled = e'.settled := by
  have hb : e.isBinary = e'.isBinary :=
    Bool.eq_iff_iff.2 ⟨h.isBinary_of_text_eq h' heq, h'.isBinary_of_text_eq h heq.symm⟩
  have hchars : e.chars ++ [] = e'.chars ++ [] := by rw [chars, chars, asOperand, asOperand, heq, hb]
  exact (h.chars_append_cancel h' .nil .nil hchars).1

/-! ## When the text tells the expression -/

/-- Whether an operator over the expression is applied to an operator of the other side. -/
def mixes (op : UnaryOp) : Expr → Bool
  | .unary other _ => other.leads != op.leads
  | _ => false

/-- Whether no leading operator is applied to a trailing one, or the other way round. -/
def unmixed : Expr → Bool
  | .binary _ left right => left.unmixed && right.unmixed
  | .unary op operand => !operand.mixes op && operand.unmixed
  | _ => true

theorem mixes_shown (op : UnaryOp) (e : Expr) : e.shown.mixes op = e.mixes op := by
  cases e <;> rfl

theorem Plain.unmixed_shown {e : Expr} (h : e.Plain) : e.shown.unmixed = e.unmixed := by
  induction h with
  | column | parameter => rfl
  | binary _ _ ihleft ihright => rw [shown, unmixed, unmixed, ihleft, ihright]
  | unary _ ih => rw [shown, unmixed, unmixed, mixes_shown, ih]

theorem attach_of_mixes_eq_false {op : UnaryOp} {e : Expr} (h : e.mixes op = false) : e.attach op = .unary op e := by
  cases e with
  | unary other operand =>
    have hside : other.leads = op.leads := by simpa [mixes] using h
    rw [attach, hside, Bool.not_and_self, if_neg Bool.false_ne_true]
  | _ => rfl

theorem Plain.settled_eq_shown {e : Expr} (h : e.Plain) (hunmixed : e.unmixed = true) : e.settled = e.shown := by
  induction h with
  | column | parameter => rfl
  | binary _ _ ihleft ihright =>
    rw [unmixed, Bool.and_eq_true] at hunmixed
    rw [settled, shown, ihleft hunmixed.1, ihright hunmixed.2]
  | @unary op operand _ ih =>
    rw [unmixed, Bool.and_eq_true, Bool.not_eq_true'] at hunmixed
    rw [settled, shown, ih hunmixed.2, attach_of_mixes_eq_false ((mixes_shown op operand).trans hunmixed.1)]

theorem Plain.attach {e : Expr} (h : e.Plain) (op : UnaryOp) : (e.attach op).Plain := by
  induction h with
  | column hqualifier hname => exact .unary (.column hqualifier hname)
  | parameter hname => exact .unary (.parameter hname)
  | binary hleft hright => exact .unary (.binary hleft hright)
  | unary hoperand ih =>
    rw [Expr.attach]
    split
    · exact .unary ih
    · exact .unary (.unary hoperand)

theorem Plain.settled {e : Expr} (h : e.Plain) : e.settled.Plain := by
  induction h with
  | column hqualifier hname => exact .column hqualifier hname
  | parameter hname => exact .parameter hname
  | binary _ _ ihleft ihright => exact .binary ihleft ihright
  | unary _ ih => exact ih.attach _

theorem Plain.unmixed_of_attach {e : Expr} (h : e.Plain) {op : UnaryOp} (hunmixed : (e.attach op).unmixed = true) :
    e.mixes op = false ∧ e.unmixed = true := by
  induction h with
  | column | parameter => exact ⟨rfl, rfl⟩
  | binary => exact ⟨rfl, by simpa [Expr.attach, unmixed, mixes] using hunmixed⟩
  | @unary other operand hoperand ih =>
    cases hop : op.leads with
    | true =>
      rw [attach_of_leads hop, unmixed, Bool.and_eq_true, Bool.not_eq_true'] at hunmixed
      exact hunmixed
    | false =>
      cases hother : other.leads with
      | false =>
        rw [attach_unary_of_not_leads op hother, unmixed, Bool.and_eq_true, Bool.not_eq_true'] at hunmixed
        exact hunmixed
      | true =>
        rw [attach_unary_of_leads hop hother, unmixed, Bool.and_eq_true, Bool.not_eq_true'] at hunmixed
        rw [attach_of_mixes_eq_false (ih hunmixed.2).1, mixes, hop, hother] at hunmixed
        exact absurd hunmixed.1 (by decide)

theorem Plain.unmixed_of_settled {e : Expr} (h : e.Plain) (hunmixed : e.settled.unmixed = true) : e.unmixed = true := by
  induction h with
  | column | parameter => rfl
  | binary _ _ ihleft ihright =>
    rw [Expr.settled, unmixed, Bool.and_eq_true] at hunmixed
    rw [unmixed, ihleft hunmixed.1, ihright hunmixed.2, Bool.and_true]
  | @unary op operand hoperand ih =>
    obtain ⟨hmixes, hsettled⟩ := hoperand.settled.unmixed_of_attach hunmixed
    have hoperandUnmixed := ih hsettled
    rw [hoperand.settled_eq_shown hoperandUnmixed, mixes_shown] at hmixes
    rw [unmixed, hmixes, hoperandUnmixed]
    rfl

/-- Where a leading and a trailing operator meet, their exchange is another expression with the same text. -/
theorem Plain.exists_of_mixed {e : Expr} (h : e.Plain) (hmixed : e.unmixed = false) :
    ∃ e' : Expr, e'.Plain ∧ e'.isBinary = e.isBinary ∧ e'.chars = e.chars ∧ e'.shown ≠ e.shown := by
  induction h with
  | column | parameter => cases hmixed
  | @binary op left right hleft hright ihleft ihright =>
    rw [unmixed, Bool.and_eq_false_iff] at hmixed
    rcases hmixed with hmixed | hmixed
    · obtain ⟨left', hleft', -, hchars, hshown⟩ := ihleft hmixed
      refine ⟨.binary op left' right, .binary hleft' hright, rfl, by rw [chars_binary, chars_binary, hchars], ?_⟩
      exact fun heq => hshown (Expr.binary.inj heq).2.1
    · obtain ⟨right', hright', -, hchars, hshown⟩ := ihright hmixed
      refine ⟨.binary op left right', .binary hleft hright', rfl, by rw [chars_binary, chars_binary, hchars], ?_⟩
      exact fun heq => hshown (Expr.binary.inj heq).2.2
  | @unary op operand hoperand ih =>
    rw [unmixed, Bool.and_eq_false_iff, Bool.not_eq_false'] at hmixed
    rcases hmixed with hmixes | hmixed
    · cases hoperand with
      | column | parameter | binary => cases hmixes
      | @unary other below hbelow =>
        have hside : other.leads ≠ op.leads := by simpa [mixes] using hmixes
        refine ⟨.unary other (.unary op below), .unary (.unary hbelow), rfl, ?_, ?_⟩
        · rw [chars_unary, chars_unary, chars_unary, chars_unary]
          cases hop : op.leads <;> cases hother : other.leads <;> simp_all
        · intro heq
          exact hside (congrArg UnaryOp.leads (Expr.unary.inj heq).1)
    · obtain ⟨operand', hoperand', -, hchars, hshown⟩ := ih hmixed
      refine ⟨.unary op operand', .unary hoperand', rfl, by rw [chars_unary, chars_unary, hchars], ?_⟩
      exact fun heq => hshown (Expr.unary.inj heq).2

theorem text_eq_of_chars_eq {e e' : Expr} (hb : e.isBinary = e'.isBinary) (h : e.chars = e'.chars) :
    e.text = e'.text := by
  apply String.toList_inj.1
  cases hb' : e'.isBinary with
  | false => rwa [chars_of_not_isBinary (hb.trans hb'), chars_of_not_isBinary hb'] at h
  | true =>
    rw [chars_of_isBinary (hb.trans hb'), chars_of_isBinary hb'] at h
    exact append_cancel_right (List.cons.inj h).2

/-- The text of an expression is the text of no other one, up to what texts do not show, if and only if no leading
operator is applied to a trailing one in it, or the other way round. -/
theorem text_tells_iff_unmixed {e : Expr} (h : e.Plain) :
    (∀ e' : Expr, e'.Plain → e'.text = e.text → e'.shown = e.shown) ↔ e.unmixed = true := by
  constructor
  · intro htells
    by_contra hmixed
    obtain ⟨e', h', hb, hchars, hshown⟩ := h.exists_of_mixed (Bool.eq_false_iff.2 hmixed)
    exact hshown (htells e' h' (text_eq_of_chars_eq hb hchars))
  · intro hunmixed e' h' htext
    have hsettled : e'.settled = e.settled := h'.settled_eq_of_text_eq h htext
    have hunmixed' : e'.unmixed = true := by
      apply h'.unmixed_of_settled
      rw [hsettled, h.settled_eq_shown hunmixed, h.unmixed_shown, hunmixed]
    rw [← h'.settled_eq_shown hunmixed', hsettled, h.settled_eq_shown hunmixed]

/-- The column of a flag that need not be set. -/
def hidden : Expr :=
  .column ⟨1, some "b", "Hidden", none, true⟩

theorem plain_hidden : hidden.Plain :=
  .column (isName_of_isAlphanum (by decide) (by decide)) (isName_of_isAlphanum (by decide) (by decide))

/-- `b.Hidden IS NULL AND (NOT NOT b.Hidden = @Wanted)`. -/
def hiddenAsWanted : Expr :=
  .binary .andAlso (.unary .isNull hidden)
    (.binary .equal (.unary .not (.unary .not hidden)) (.parameter "Wanted" none))

theorem text_tells_hiddenAsWanted :
    hiddenAsWanted.Plain ∧ ∀ e : Expr, e.Plain → e.text = hiddenAsWanted.text → e.shown = hiddenAsWanted.shown := by
  have hplain : hiddenAsWanted.Plain :=
    .binary (.unary plain_hidden)
      (.binary (.unary (.unary plain_hidden)) (.parameter (isName_of_isAlphanum (by decide) (by decide))))
  exact ⟨hplain, (text_tells_iff_unmixed hplain).2 (by decide)⟩

/-- The flag is set to something, as the negation of a test. -/
def hiddenIsSet : Expr :=
  .unary .not (.unary .isNull hidden)

/-- The contrary of the flag is not set. -/
def shownIsMissing : Expr :=
  .unary .isNull (.unary .not hidden)

/-- A row in which the flag is not set. -/
def unset : Scope :=
  .ofRow [⟨1, ["Hidden"], some [.null]⟩] []

/-- `NOT b.Hidden IS NULL` is the text of two expressions, and they differ in value where the flag is not set. -/
theorem text_hiddenIsSet_eq :
    hiddenIsSet.Plain ∧ shownIsMissing.Plain ∧ hiddenIsSet.text = shownIsMissing.text ∧
      hiddenIsSet.shown ≠ shownIsMissing.shown ∧ hiddenIsSet.eval ⟨[], .empty⟩ unset = .ok (.bool false) ∧
      shownIsMissing.eval ⟨[], .empty⟩ unset = .ok (.bool true) :=
  ⟨.unary (.unary plain_hidden), .unary (.unary plain_hidden), rfl, nofun, rfl, rfl⟩

end Expr

end QueryShaping
