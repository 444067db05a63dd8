/-!
# Revised values

What a pass makes of a part of a tree, together with whether this is another part than before.
-/

namespace QueryShaping

structure Revised (α : Type) where
  value : α
  changed : Bool

namespace Revised

/-- What is left as it was. -/
instance : Pure Revised := ⟨fun a => ⟨a, false⟩⟩

/-- A value that takes the place of another one. -/
def replaced (a : α) : Revised α := ⟨a, true⟩

/-- The new value if there is one, and else the old one unchanged. -/
def orElseKeep (new : Option α) (old : α) : Revised α :=
  match new with
  | some a => replaced a
  | none => pure old

/-- The new value, where there is one. -/
def new? (x : Revised α) : Option α :=
  if x.changed then some x.value else none

@[simp] theorem value_pure (a : α) : (pure a : Revised α).value = a := rfl

@[simp] theorem changed_pure (a : α) : (pure a : Revised α).changed = false := rfl

@[simp] theorem new?_pure (a : α) : (pure a : Revised α).new? = none := rfl

@[simp] theorem changed_orElseKeep (new : Option α) (old : α) : (orElseKeep new old).changed = new.isSome := by
  cases new <;> rfl

@[simp] theorem new?_eq_none {x : Revised α} : x.new? = none ↔ x.changed = false := by
  simp [new?]

end Revised

end QueryShaping
