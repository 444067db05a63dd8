import QueryShaping.Entity.Basic

/-!
# Identity

Which entity stands for a type and a key. A manager keeps such a map across enumerations.
-/

namespace QueryShaping

/-- The entities that are known by type and key. -/
structure IdentityMap where
  entries : List ((String × Key) × EntityId)

namespace IdentityMap

def empty : IdentityMap := ⟨[]⟩

def size (m : IdentityMap) : Nat := m.entries.length

def find? (m : IdentityMap) (entityType : String) (key : Key) : Option EntityId :=
  m.entries.lookup (entityType, key)

/-- Makes an entity known; one that is known already stays. -/
def add (m : IdentityMap) (entityType : String) (key : Key) (id : EntityId) : IdentityMap :=
  match m.find? entityType key with
  | some _ => m
  | none => ⟨((entityType, key), id) :: m.entries⟩

end IdentityMap

/-- Keeps track of entities, and counts the enumerations that asked it to. -/
structure StateManager where
  known : IdentityMap
  initializations : Nat

namespace StateManager

def empty : StateManager := ⟨.empty, 0⟩

/-- Counts an enumeration that starts. -/
def started (m : StateManager) : StateManager :=
  { m with initializations := m.initializations + 1 }

def clear (m : StateManager) : StateManager :=
  { m with known := .empty }

end StateManager

end QueryShaping
