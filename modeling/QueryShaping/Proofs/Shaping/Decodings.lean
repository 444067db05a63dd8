import QueryShaping.Proofs.Fallible
import QueryShaping.Proofs.Shaping.ShapingSteps

/-!
# Decodings

An entity is decoded when its key has been read from a row and its identity has been resolved. The steps of shaping are
given here with a list of all decodings, in order. The list has no influence: without it the steps are those of plain
shaping, which is what `Recording.Forgets` says.
-/

namespace QueryShaping

/-- A scope in which identity is resolved: nowhere, one enumeration, or a manager. -/
inductive ScopeName where
  | nowhere
  | within (enumeration : Nat)
  | manager (place : Nat)
deriving DecidableEq

/-- That an entity has been read from the current row of a reader, with its key and its place. -/
structure Decoding where
  scope : ScopeName
  node : EntityNode
  reader : Reader
  key : List Value
  id : EntityId

/-- The type and the key by which an entity is known. -/
def Entity.label (e : Entity) : String × Key := (e.entityType, e.identity)

def Decoding.label (d : Decoding) : String × Key := (d.node.entityType, Key.ofValues d.key)

/-- The fields of an entity on the current row. -/
def EntityNode.readFields (e : EntityNode) (reader : Reader) : Except Error (List (String × Value)) :=
  e.properties.mapM fun (name, b) => do return (name, ← b.read reader)

/-! ## Shaping with a list of decodings -/

/-- A state of shaping with the decodings so far. -/
structure Sketch where
  state : ShapeState
  decodings : List Decoding

/-- A step of shaping that notes the decodings. -/
abbrev Recording := ExceptT Error (StateM Sketch)

namespace Recording

variable {α : Type}

/-- A step that decodes no entity. -/
def ofShaping (x : Shaping α) : Recording α := ExceptT.mk fun s =>
  let (result, state) := x.run.run s.state
  (result, { s with state })

/-- Resolves the identity of an entity whose key has been read, and notes that. -/
def resolve (scope : ScopeName) (node : EntityNode) (key : List Value) (reader : Reader) : Recording EntityId := do
  let id ← ofShaping (Shaping.resolveEntity node.entityType key node.properties reader)
  modify fun s => { s with decodings := s.decodings ++ [⟨scope, node, reader, key, id⟩] }
  return id

/-- Shaping with a list of decodings. -/
def shaper (scope : ScopeName) : Shaper Recording := ⟨ofShaping, resolve scope⟩

end Recording

/-! ## Forgetting the decodings -/

namespace Recording

variable {α β : Type} {x : Recording α} {f : α → Recording β} {s : Sketch}

theorem run_ofShaping (y : Shaping α) (s : Sketch) : (ofShaping y).run.run s =
    ((y.run.run s.state).1, { s with state := (y.run.run s.state).2 }) := rfl

/-- A step that is another step if its decodings are forgotten. -/
def Forgets (x : Recording α) (y : Shaping α) : Prop :=
  ∀ s : Sketch, ((x.run.run s).1, (x.run.run s).2.state) = y.run.run s.state

theorem Forgets.bind {y : Shaping α} {g : α → Shaping β} (h : x.Forgets y) (hf : ∀ a, (f a).Forgets (g a)) :
    Forgets (x >>= f) (y >>= g) := by
  intro s
  rw [Faulting.run_bind, Faulting.run_bind, ← h s]
  cases (x.run.run s).1 with
  | ok a => exact hf a _
  | error e => rfl

theorem forgets_pure (a : α) : Forgets (pure a) (pure a) := fun _ => rfl

theorem forgets_ofShaping (y : Shaping α) : (ofShaping y).Forgets y := fun _ => rfl

section Resolve

variable {scope : ScopeName} {node : EntityNode} {key : List Value} {reader : Reader} {state : ShapeState}

theorem resolve_of_ok {id : EntityId}
    (h : (Shaping.resolveEntity node.entityType key node.properties reader).run.run s.state = (.ok id, state)) :
    (resolve scope node key reader).run.run s = (.ok id, ⟨state, s.decodings ++ [⟨scope, node, reader, key, id⟩]⟩) := by
  refine (Faulting.bind_of_ok (t := { s with state }) ?_).trans rfl
  rw [run_ofShaping, h]

theorem resolve_of_error {e : Error}
    (h : (Shaping.resolveEntity node.entityType key node.properties reader).run.run s.state = (.error e, state)) :
    (resolve scope node key reader).run.run s = (.error e, { s with state }) := by
  refine Faulting.bind_of_error ?_
  rw [run_ofShaping, h]

theorem forgets_resolve : (resolve scope node key reader).Forgets
    (Shaping.resolveEntity node.entityType key node.properties reader) := by
  intro s
  rcases h : (Shaping.resolveEntity node.entityType key node.properties reader).run.run s.state with ⟨result, state⟩
  cases result with
  | ok id => rw [resolve_of_ok h]
  | error e => rw [resolve_of_error h]

end Resolve

/-- Shaping with a list of decodings is shaping. -/
theorem related_shaper (scope : ScopeName) : (shaper scope).Related .plain fun _ x y => x.Forgets y where
  pure := forgets_pure
  bind h hf := h.bind hf
  step := forgets_ofShaping
  resolve _ _ _ := forgets_resolve

end Recording

end QueryShaping
