import QueryShaping.Shaping.Decode

/-!
# The steps that shaping is made of

Two ways of shaping may differ in the account that they keep. What relates their steps, and two steps in a row if it
relates each, relates them as a whole. The induction over the program is done here once.
-/

namespace QueryShaping

variable {m m' : Type → Type} [Monad m] [Monad m']

/-- A relation between the steps of two ways of shaping. -/
structure Shaper.Related (sh : Shaper m) (sh' : Shaper m') (R : (α : Type) → m α → m' α → Prop) : Prop where
  pure : ∀ {α : Type} (a : α), R α (pure a) (pure a)
  bind : ∀ {α β : Type} {x : m α} {y : m' α} {f : α → m β} {g : α → m' β},
    R α x y → (∀ a, R β (f a) (g a)) → R β (x >>= f) (y >>= g)
  step : ∀ {α : Type} (x : Shaping α), R α (sh.step x) (sh'.step x)
  resolve : ∀ node key reader, R EntityId (sh.resolve node key reader) (sh'.resolve node key reader)

namespace Shaper.Related

variable {sh : Shaper m} {sh' : Shaper m'} {R : (α : Type) → m α → m' α → Prop}

mutual

theorem decode (h : sh.Related sh' R) : ∀ (node : Node) (reader : Reader),
    R Draft (node.decode sh reader) (node.decode sh' reader)
  | .scalar b, reader => by
    refine h.bind (h.step _) fun v => ?_
    cases v <;> exact h.pure _
  | .entity e, reader => decodeEntity h e reader
  | .collection c, reader => h.bind (h.step _) fun _ => h.pure _
  | .record members, reader => h.bind (decodeMembers h members reader) fun _ => h.pure _

theorem decodeEntity (h : sh.Related sh' R) : ∀ (e : EntityNode) (reader : Reader),
    R Draft (e.decode sh reader) (e.decode sh' reader)
  | ⟨_, _, _, references, _, _⟩, reader => by
    refine h.bind (h.step _) fun values => h.bind (h.step _) fun present => ?_
    cases present with
    | false => exact h.pure _
    | true =>
      refine h.bind (h.resolve _ _ _) fun id => h.bind (decodeReferences h references id reader) fun _ => ?_
      exact h.bind (h.step _) fun _ => h.pure _

theorem decodeMembers (h : sh.Related sh' R) : ∀ (members : List (String × Node)) (reader : Reader),
    R _ (Node.decodeMembers sh members reader) (Node.decodeMembers sh' members reader)
  | [], _ => h.pure _
  | (_, member) :: rest, reader =>
    h.bind (decode h member reader) fun _ => h.bind (decodeMembers h rest reader) fun _ => h.pure _

theorem decodeReferences (h : sh.Related sh' R) : ∀ (references : List (String × EntityNode)) (id : EntityId)
    (reader : Reader),
    R _ (EntityNode.decodeReferences sh references id reader) (EntityNode.decodeReferences sh' references id reader)
  | [], _, _ => h.pure _
  | (_, target) :: rest, id, reader =>
    h.bind (decodeEntity h target reader) fun _ => h.bind (h.step _) fun _ =>
      h.bind (decodeReferences h rest id reader) fun _ => h.pure _

end

theorem element? (h : sh.Related sh' R) (s : Slot) (child : List Binding) {decode : Reader → m Draft}
    {decode' : Reader → m' Draft} (reader : Reader) (hdecode : R Draft (decode reader) (decode' reader)) :
    R _ (s.element? sh child decode reader) (s.element? sh' child decode' reader) := by
  refine h.bind (h.step _) fun key => ?_
  split
  · exact h.pure _
  · cases s.find? key with
    | some d => exact h.pure _
    | none => exact h.bind hdecode fun _ => h.pure _

mutual

theorem consume (h : sh.Related sh' R) : ∀ (node : Node) (d : Draft) (reader : Reader),
    R Draft (node.consume sh d reader) (node.consume sh' d reader)
  | .scalar _, d, _ => h.pure d
  | .entity e, d, reader => consumeEntity h e d reader
  | .collection c, d, reader => by
    cases d with
    | collection s => exact h.bind (consumePlace h c s reader) fun _ => h.pure _
    | null | scalar | entity | record => exact h.step _
  | .record members, d, reader => by
    cases d with
    | record ds => exact h.bind (consumeMembers h members ds reader) fun _ => h.pure _
    | null | scalar | entity | collection => exact h.step _

theorem consumeEntity (h : sh.Related sh' R) : ∀ (e : EntityNode) (d : Draft) (reader : Reader),
    R Draft (e.consume sh d reader) (e.consume sh' d reader)
  | ⟨_, _, _, references, collections, _⟩, d, reader => by
    cases d with
    | entity id ds slots =>
      refine h.bind (consumeReferences h references ds reader) fun _ => ?_
      exact h.bind (consumeAll h collections slots reader) fun _ => h.pure _
    | null => exact h.pure _
    | scalar | record | collection => exact h.step _

theorem consumePlace (h : sh.Related sh' R) : ∀ (c : CollectionPlace) (s : Slot) (reader : Reader),
    R Slot (c.consume sh s reader) (c.consume sh' s reader)
  | .here c, s, reader => consumeCollection h c s reader
  | .again .., _, _ => h.step _

theorem consumeCollection (h : sh.Related sh' R) : ∀ (c : CollectionNode) (s : Slot) (reader : Reader),
    R Slot (c.consume sh s reader) (c.consume sh' s reader)
  | ⟨_, _, _, _, child, element, _⟩, s, reader => by
    refine h.bind (h.element? s child reader (h.decode element reader)) fun found => ?_
    cases found with
    | none => exact h.pure _
    | some found => exact h.bind (consume h element found.2 reader) fun _ => h.pure _

theorem consumeMembers (h : sh.Related sh' R) : ∀ (members : List (String × Node)) (ds : List (String × Draft))
    (reader : Reader), R _ (Node.consumeMembers sh members ds reader) (Node.consumeMembers sh' members ds reader)
  | [], [], _ => h.pure _
  | [], _ :: _, _ | _ :: _, [], _ => h.step _
  | (_, member) :: rest, (_, d) :: ds, reader =>
    h.bind (consume h member d reader) fun _ => h.bind (consumeMembers h rest ds reader) fun _ => h.pure _

theorem consumeReferences (h : sh.Related sh' R) : ∀ (references : List (String × EntityNode)) (ds : List Draft)
    (reader : Reader),
    R _ (EntityNode.consumeReferences sh references ds reader) (EntityNode.consumeReferences sh' references ds reader)
  | [], [], _ => h.pure _
  | [], _ :: _, _ | _ :: _, [], _ => h.step _
  | (_, target) :: rest, d :: ds, reader =>
    h.bind (consumeEntity h target d reader) fun _ => h.bind (consumeReferences h rest ds reader) fun _ => h.pure _

theorem consumeAll (h : sh.Related sh' R) : ∀ (collections : List (String × CollectionPlace)) (slots : List Slot)
    (reader : Reader),
    R _ (CollectionPlace.consumeAll sh collections slots reader) (CollectionPlace.consumeAll sh' collections slots reader)
  | [], [], _ => h.pure _
  | [], _ :: _, _ | _ :: _, [], _ => h.step _
  | (_, c) :: rest, s :: slots, reader =>
    h.bind (consumePlace h c s reader) fun _ => h.bind (consumeAll h rest slots reader) fun _ => h.pure _

end

end Shaper.Related

/-- Shaping is related to itself. -/
theorem Shaper.related_eq (sh : Shaper m) : sh.Related sh fun _ => Eq where
  pure _ := rfl
  bind h hf := by rw [h, funext hf]
  step _ := rfl
  resolve _ _ _ := rfl

theorem Shaper.related_true (sh : Shaper m) : sh.Related sh fun _ _ _ => True :=
  ⟨fun _ => trivial, fun _ _ => trivial, fun _ => trivial, fun _ _ _ => trivial⟩

end QueryShaping
