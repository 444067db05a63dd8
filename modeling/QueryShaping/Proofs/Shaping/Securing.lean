import QueryShaping.Proofs.Shaping.Resolution

/-!
# Shaping keeps identity resolved

A step of shaping secures the identity of entities if it keeps what the decodings say about them and adds decodings of
its own scope only. Decoding a row and consuming it do so, and the drafts that they give mention entities of their scope
only. So collections can be attached.
-/

namespace QueryShaping

open List Recording

/-! ## The entities of a draft -/

mutual

/-- The entities of a draft, those inside elements and the owners of collections included. -/
@[simp]
def Draft.mentions : Draft → List EntityId
  | .null => []
  | .scalar _ => []
  | .entity id references slots => id :: (Draft.listMentions references ++ Slot.listMentions slots)
  | .record members => Draft.memberMentions members
  | .collection s => s.mentions

@[simp]
def Slot.mentions : Slot → List EntityId
  | ⟨_, owner, _, elements⟩ => (owner.elim [] fun o => [o.1]) ++ Draft.elementMentions elements

@[simp]
def Draft.listMentions : List Draft → List EntityId
  | [] => []
  | d :: rest => d.mentions ++ Draft.listMentions rest

@[simp]
def Slot.listMentions : List Slot → List EntityId
  | [] => []
  | s :: rest => s.mentions ++ Slot.listMentions rest

@[simp]
def Draft.memberMentions : List (String × Draft) → List EntityId
  | [] => []
  | (_, d) :: rest => d.mentions ++ Draft.memberMentions rest

def Draft.elementMentions : List (Key × Draft) → List EntityId
  | [] => []
  | (_, d) :: rest => d.mentions ++ Draft.elementMentions rest

end

mutual

theorem Draft.ids_result : ∀ d : Draft, d.result.ids ⊆ d.mentions
  | .null => nil_subset _
  | .scalar _ => nil_subset _
  | .entity _ _ _ => List.cons_subset.2 ⟨mem_cons_self, nil_subset _⟩
  | .record members => Draft.ids_memberResults members
  | .collection s => s.ids_result

theorem Slot.ids_result : ∀ s : Slot, s.result.ids ⊆ s.mentions
  | ⟨_, _, _, elements⟩ => fun _ h => mem_append_right _ (Draft.ids_elementResults elements h)

theorem Draft.ids_memberResults : ∀ members : List (String × Draft),
    Result.memberIds (Draft.memberResults members) ⊆ Draft.memberMentions members
  | [] => nil_subset _
  | (_, d) :: rest => List.append_subset.2
    ⟨subset_append_of_subset_left _ d.ids_result, subset_append_of_subset_right _ (Draft.ids_memberResults rest)⟩

theorem Draft.ids_elementResults : ∀ elements : List (Key × Draft),
    Result.itemIds (Draft.elementResults elements) ⊆ Draft.elementMentions elements
  | [] => nil_subset _
  | (_, d) :: rest => List.append_subset.2
    ⟨subset_append_of_subset_left _ d.ids_result, subset_append_of_subset_right _ (Draft.ids_elementResults rest)⟩

end

theorem Draft.ids_reference (d : Draft) : d.reference.ids ⊆ d.mentions := by
  cases d with
  | entity id references slots => exact List.cons_subset.2 ⟨mem_cons_self, nil_subset _⟩
  | null | scalar | record | collection => exact nil_subset _

/-- The entities of an attachment. -/
def Attachment.mentions (a : Attachment) : List EntityId := a.owner :: a.value.ids

mutual

theorem Draft.mentions_attachments : ∀ d : Draft, ∀ a ∈ d.attachments, a.mentions ⊆ d.mentions
  | .null => nofun
  | .scalar _ => nofun
  | .entity id references slots => by
    refine forall_mem_append.2 ⟨fun a ha => ?_, fun a ha => ?_⟩
    · exact fun _ h => mem_cons_of_mem _ (mem_append_left _ (Draft.mentions_listAttachments references a ha h))
    · exact fun _ h => mem_cons_of_mem _ (mem_append_right _ (Slot.mentions_listAttachments slots a ha h))
  | .record members => Draft.mentions_memberAttachments members
  | .collection s => s.mentions_attachments

theorem Slot.mentions_attachments : ∀ s : Slot, ∀ a ∈ s.attachments, a.mentions ⊆ s.mentions
  | ⟨_, owner, _, elements⟩ => by
    refine forall_mem_append.2 ⟨?_, fun a ha => ?_⟩
    · cases owner with
      | none => exact nofun
      | some o =>
        refine forall_mem_singleton.2 (List.cons_subset.2 ⟨mem_cons_self, fun _ h => ?_⟩)
        exact mem_append_right _ (Draft.ids_elementResults elements h)
    · exact fun _ h => mem_append_right _ (Draft.mentions_elementAttachments elements a ha h)

theorem Draft.mentions_listAttachments : ∀ ds : List Draft, ∀ a ∈ Draft.listAttachments ds,
    a.mentions ⊆ Draft.listMentions ds
  | [] => nofun
  | d :: rest => forall_mem_append.2
    ⟨fun a ha _ h => mem_append_left _ (d.mentions_attachments a ha h),
      fun a ha _ h => mem_append_right _ (Draft.mentions_listAttachments rest a ha h)⟩

theorem Slot.mentions_listAttachments : ∀ slots : List Slot, ∀ a ∈ Slot.listAttachments slots,
    a.mentions ⊆ Slot.listMentions slots
  | [] => nofun
  | s :: rest => forall_mem_append.2
    ⟨fun a ha _ h => mem_append_left _ (s.mentions_attachments a ha h),
      fun a ha _ h => mem_append_right _ (Slot.mentions_listAttachments rest a ha h)⟩

theorem Draft.mentions_memberAttachments : ∀ members : List (String × Draft), ∀ a ∈ Draft.memberAttachments members,
    a.mentions ⊆ Draft.memberMentions members
  | [] => nofun
  | (_, d) :: rest => forall_mem_append.2
    ⟨fun a ha _ h => mem_append_left _ (d.mentions_attachments a ha h),
      fun a ha _ h => mem_append_right _ (Draft.mentions_memberAttachments rest a ha h)⟩

theorem Draft.mentions_elementAttachments : ∀ elements : List (Key × Draft), ∀ a ∈ Draft.elementAttachments elements,
    a.mentions ⊆ Draft.elementMentions elements
  | [] => nofun
  | (_, d) :: rest => forall_mem_append.2
    ⟨fun a ha _ h => mem_append_left _ (d.mentions_attachments a ha h),
      fun a ha _ h => mem_append_right _ (Draft.mentions_elementAttachments rest a ha h)⟩

end

theorem Slot.mentions_find? {s : Slot} {key : Key} {d : Draft} (h : s.find? key = some d) : d.mentions ⊆ s.mentions := by
  obtain ⟨number, owner, parentKey, elements⟩ := s
  refine fun id hid => mem_append_right _ ?_
  have h : elements.lookup key = some d := h
  induction elements with
  | nil => cases h
  | cons e rest ih =>
    rw [lookup_cons] at h
    split at h
    · cases h
      exact mem_append_left _ hid
    · exact mem_append_right _ (ih h h)

theorem Draft.mentions_putElement (key : Key) (d : Draft) : ∀ elements : List (Key × Draft),
    Draft.elementMentions (Slot.putElement key d elements) ⊆ d.mentions ++ Draft.elementMentions elements
  | [] => List.Subset.refl _
  | (other, old) :: rest => by
    unfold Slot.putElement
    split
    · refine List.append_subset.2 ⟨subset_append_left _ _, ?_⟩
      exact subset_append_of_subset_right _ (subset_append_right _ _)
    · refine List.append_subset.2 ⟨subset_append_of_subset_right _ (subset_append_left _ _), ?_⟩
      refine List.Subset.trans (Draft.mentions_putElement key d rest) (List.append_subset.2 ⟨subset_append_left _ _, ?_⟩)
      exact subset_append_of_subset_right _ (subset_append_right _ _)

theorem Slot.mentions_put (s : Slot) (key : Key) (d : Draft) : (s.put key d).mentions ⊆ d.mentions ++ s.mentions := by
  obtain ⟨number, owner, parentKey, elements⟩ := s
  refine List.append_subset.2 ⟨subset_append_of_subset_right _ (subset_append_left _ _), ?_⟩
  refine List.Subset.trans (Draft.mentions_putElement key d elements) (List.append_subset.2 ⟨subset_append_left _ _, ?_⟩)
  exact subset_append_of_subset_right _ (subset_append_right _ _)

/-- Whether all of these entities have been decoded in a scope. -/
def AllDecoded (log : List Decoding) (scope : ScopeName) (ids : List EntityId) : Prop :=
  ∀ id ∈ ids, Decoded log scope id

theorem AllDecoded.mono {log log' : List Decoding} {scope : ScopeName} {ids : List EntityId}
    (h : AllDecoded log scope ids) (hlog : log <+: log') : AllDecoded log' scope ids :=
  fun id hid => (h id hid).mono hlog

/-- Collections are attached to entities of their own scope. -/
theorem Graph.Resolved.attach {g : Graph} {log : List Decoding} {scope : ScopeName} (h : g.Resolved log) {d : Draft}
    (hd : AllDecoded log scope d.mentions) : (g.attach d).Resolved log := by
  have hall : ∀ a ∈ d.attachments.mergeSort fun a b => a.number ≤ b.number, AllDecoded log scope a.mentions :=
    fun a ha id hid => hd id (d.mentions_attachments a (List.mem_mergeSort.1 ha) hid)
  unfold Graph.attach
  generalize d.attachments.mergeSort (fun a b => a.number ≤ b.number) = attachments at hall
  induction attachments generalizing g with
  | nil => exact h
  | cons a rest ih =>
    obtain ⟨howner, hvalue⟩ := forall_mem_cons.1 (hall a mem_cons_self)
    exact ih (h.setNavigation howner hvalue) fun b hb => hall b (mem_cons_of_mem _ hb)

/-! ## Steps that decode nothing -/

namespace Shaping

variable {α β : Type} {P : α → Prop} {s : ShapeState}

/-- A step that leaves the entities alone and gives something like this. -/
def LeavesEntities (P : α → Prop) (x : Shaping α) : Prop :=
  ∀ s, (x.run.run s).2.graph = s.graph ∧ (x.run.run s).2.known = s.known ∧ ∀ a, (x.run.run s).1 = .ok a → P a

theorem LeavesEntities.bind {x : Shaping α} {f : α → Shaping β} {Q : β → Prop} (h : x.LeavesEntities P)
    (hf : ∀ a, P a → (f a).LeavesEntities Q) : (x >>= f).LeavesEntities Q := by
  intro s
  obtain ⟨hgraph, hknown, hP⟩ := h s
  rw [Faulting.run_bind, ← hgraph, ← hknown]
  cases hresult : (x.run.run s).1 with
  | ok a => exact hf a (hP a hresult) _
  | error e => exact ⟨rfl, rfl, nofun⟩

theorem leavesEntities_pure {a : α} (h : P a) : LeavesEntities P (pure a) :=
  fun _ => ⟨rfl, rfl, fun _ ha => Except.ok.inj ha ▸ h⟩

theorem leavesEntities_ofExcept {x : Except Error α} (h : ∀ a, x = .ok a → P a) : LeavesEntities P (ofExcept x) :=
  fun _ => ⟨rfl, rfl, h⟩

theorem leavesEntities_newSlot (parent : List Binding) (owner : Option (EntityId × String)) (reader : Reader) :
    LeavesEntities (·.mentions ⊆ owner.elim [] fun o => [o.1]) (newSlot parent owner reader) := by
  refine (leavesEntities_ofExcept fun _ _ => trivial).bind fun key _ s => ⟨rfl, rfl, fun slot hslot => ?_⟩
  cases hslot
  exact List.append_subset.2 ⟨List.Subset.refl _, nil_subset _⟩

theorem leavesEntities_newSlots (id : EntityId) (collections : List (String × CollectionPlace)) (reader : Reader) :
    LeavesEntities (Slot.listMentions · ⊆ [id])
      (collections.mapM fun (name, c) => newSlot c.parent (some (id, name)) reader) := by
  induction collections with
  | nil => exact leavesEntities_pure (nil_subset _)
  | cons c rest ih =>
    rw [mapM_cons]
    refine (leavesEntities_newSlot _ _ _).bind fun s hs => ih.bind fun slots hslots => leavesEntities_pure ?_
    exact List.append_subset.2 ⟨hs, hslots⟩

end Shaping

/-! ## Steps that keep identity resolved -/

/-- Whether the entities that shaping knows are those of its scope. Nothing is known where identity is not resolved. -/
def Knows (scope : ScopeName) (log : List Decoding) : Option IdentityMap → Prop
  | none => scope = .nowhere
  | some m => scope ≠ .nowhere ∧ m.Represents log scope

namespace Knows

variable {scope : ScopeName} {log : List Decoding} {known : Option IdentityMap} {d : Decoding}

/-- An entity that is found has been decoded in the scope before. -/
theorem found (h : Knows scope log known) {entityType : String} {key : Key} {id : EntityId}
    (hfind : (known.bind fun m => m.find? entityType key) = some id) :
    scope ≠ .nowhere ∧ ∃ d ∈ log, d.scope = scope ∧ d.label = (entityType, key) ∧ d.id = id := by
  obtain ⟨m, rfl, hfind⟩ := Option.bind_eq_some_iff.1 hfind
  exact ⟨h.1, (h.2.find _ _ _).1 hfind⟩

/-- An entity that is not found has not. -/
theorem new (h : Knows scope log known) {entityType : String} {key : Key}
    (hfind : (known.bind fun m => m.find? entityType key) = none) (hscope : scope ≠ .nowhere) :
    ∀ d ∈ log, d.scope = scope → d.label ≠ (entityType, key) := by
  intro d hd hd' hlabel
  cases known with
  | none => exact hscope h
  | some m =>
    have hfound := (h.2.find _ _ _).2 ⟨d, hd, hd', hlabel, rfl⟩
    cases hfind.symm.trans hfound

theorem again (h : Knows scope log known) {d₀ : Decoding} (hd₀ : d₀ ∈ log) (hscope₀ : d₀.scope = d.scope)
    (hlabel₀ : d₀.label = d.label) (hid₀ : d₀.id = d.id) : Knows scope (log ++ [d]) known := by
  cases known with
  | none => exact h
  | some m => exact ⟨h.1, h.2.again hd₀ hscope₀ hlabel₀ hid₀⟩

theorem add (h : Knows scope log known) (hscope : d.scope = scope)
    (hfind : (known.bind fun m => m.find? d.node.entityType (Key.ofValues d.key)) = none) :
    Knows scope (log ++ [d]) (known.map fun m => m.add d.node.entityType (Key.ofValues d.key) d.id) := by
  cases known with
  | none => exact h
  | some m => exact ⟨h.1, h.2.add hscope hfind⟩

end Knows

/-- What the decodings say about a state of shaping. -/
structure Sketch.Resolved (scope : ScopeName) (s : Sketch) : Prop where
  graph : s.state.graph.Resolved s.decodings
  known : Knows scope s.decodings s.state.known

namespace Recording

variable {α β : Type} {scope : ScopeName} {ids all : List EntityId} {mentions : α → List EntityId}

/-- What is true after a step of shaping from a state. -/
structure Secured (scope : ScopeName) (s : Sketch) (mentions : α → List EntityId) (r : Except Error α × Sketch) :
    Prop where
  resolved : r.2.Resolved scope
  grows : Decoding.Grows scope s.decodings r.2.decodings
  result : ∀ a, r.1 = .ok a → AllDecoded r.2.decodings scope (mentions a)

/-- A step that keeps identity resolved whenever these entities have been decoded, and gives something that mentions
entities only that have been decoded then. -/
def Secures (scope : ScopeName) (ids : List EntityId) (x : Recording α) (mentions : α → List EntityId) : Prop :=
  ∀ s : Sketch, AllDecoded s.decodings scope ids → s.Resolved scope → Secured scope s mentions (x.run.run s)

/-- What has been decoded before a step has been decoded after it, together with what the step gives. -/
theorem Secures.bind {x : Recording α} {f : α → Recording β} {mentions' : β → List EntityId}
    (h : x.Secures scope ids mentions) (hids : ids ⊆ all) (hf : ∀ a, (f a).Secures scope (mentions a ++ all) mentions') :
    Secures scope all (x >>= f) mentions' := by
  intro s hall hs
  have hx := h s (fun id hid => hall id (hids hid)) hs
  rcases hrun : x.run.run s with ⟨result, s'⟩
  rw [hrun] at hx
  cases result with
  | ok a =>
    rw [Faulting.bind_of_ok hrun]
    have hf := hf a s' (forall_mem_append.2 ⟨hx.result a rfl, hall.mono hx.grows.isPrefix⟩) hx.resolved
    exact ⟨hf.resolved, hx.grows.trans hf.grows, hf.result⟩
  | error e =>
    rw [Faulting.bind_of_error hrun]
    exact ⟨hx.resolved, hx.grows, nofun⟩

theorem secures_pure {a : α} (h : mentions a ⊆ ids) : Secures scope ids (pure a) mentions :=
  fun _ hids hs => ⟨hs, .refl _ _, fun _ ha => Except.ok.inj ha ▸ fun id hid => hids id (h hid)⟩

theorem secures_ofShaping {P : α → Prop} {x : Shaping α} (h : x.LeavesEntities P) (hP : ∀ a, P a → mentions a ⊆ ids) :
    Secures scope ids (ofShaping x) mentions := by
  intro s hids hs
  obtain ⟨hgraph, hknown, hresult⟩ := h s.state
  rw [run_ofShaping]
  exact ⟨⟨hgraph ▸ hs.graph, hknown ▸ hs.known⟩, .refl _ _, fun a ha id hid => hids id (hP a (hresult a ha) hid)⟩

theorem secures_ofExcept {x : Except Error β} {f : β → Recording α}
    (h : ∀ b, x = .ok b → (f b).Secures scope ids mentions) :
    Secures scope ids (ofShaping (Shaping.ofExcept x) >>= f) mentions := by
  cases x with
  | ok b => exact h b rfl
  | error e => exact fun _ _ hs => ⟨hs, .refl _ _, nofun⟩

theorem secures_error (e : Error) : Secures scope ids (ofShaping (Shaping.ofExcept (.error e))) mentions :=
  fun _ _ hs => ⟨hs, .refl _ _, nofun⟩

theorem secures_setNavigation (id : EntityId) (name : String) (value : Result) :
    Secures scope (id :: value.ids) (ofShaping (Shaping.setNavigation id name value)) fun _ => [] := by
  intro s hids hs
  obtain ⟨hid, hvalue⟩ := forall_mem_cons.1 hids
  exact ⟨⟨hs.graph.setNavigation hid hvalue, hs.known⟩, .refl _ _, fun _ _ => forall_mem_nil _⟩

end Recording

namespace Shaping

variable {node : EntityNode} {key : List Value} {reader : Reader} {s : ShapeState}

theorem resolveEntity_of_known {id : EntityId}
    (h : (s.known.bind fun m => m.find? node.entityType (Key.ofValues key)) = some id) :
    (resolveEntity node.entityType key node.properties reader).run.run s = (.ok id, s) := by
  refine (Faulting.bind_of_ok (x := get) rfl).trans ?_
  dsimp only
  rw [h]
  rfl

theorem resolveEntity_of_error {e : Error}
    (h : (s.known.bind fun m => m.find? node.entityType (Key.ofValues key)) = none)
    (hfields : node.readFields reader = .error e) :
    (resolveEntity node.entityType key node.properties reader).run.run s = (.error e, s) := by
  refine (Faulting.bind_of_ok (x := get) rfl).trans ?_
  dsimp only
  rw [h]
  exact Faulting.bind_of_error (congrArg (·, s) hfields)

theorem resolveEntity_of_new {fields : List (String × Value)}
    (h : (s.known.bind fun m => m.find? node.entityType (Key.ofValues key)) = none)
    (hfields : node.readFields reader = .ok fields) :
    (resolveEntity node.entityType key node.properties reader).run.run s =
      (.ok s.graph.size, { s with
        graph := (s.graph.add node.entityType key fields).2
        known := s.known.map fun m => m.add node.entityType (Key.ofValues key) s.graph.size }) := by
  refine (Faulting.bind_of_ok (x := get) rfl).trans ?_
  dsimp only
  rw [h]
  exact Faulting.bind_of_ok (congrArg (·, s) hfields)

end Shaping

/-- To resolve the identity of an entity is one more decoding of it. -/
theorem Recording.secures_resolve {scope : ScopeName} (node : EntityNode) {key : List Value} {reader : Reader}
    (hkey : Binding.readAll node.key reader = .ok key) :
    (resolve scope node key reader).Secures scope [] fun id => [id] := by
  intro s _ hs
  have hgrows (id : EntityId) : Decoding.Grows scope s.decodings (s.decodings ++ [⟨scope, node, reader, key, id⟩]) :=
    ⟨_, rfl, forall_mem_singleton.2 rfl⟩
  have hdecoded (id : EntityId) : AllDecoded (s.decodings ++ [⟨scope, node, reader, key, id⟩]) scope [id] :=
    forall_mem_singleton.2 ⟨_, mem_append_right _ (mem_singleton.2 rfl), rfl, rfl⟩
  cases hfind : s.state.known.bind fun m => m.find? node.entityType (Key.ofValues key) with
  | some id =>
    rw [resolve_of_ok (Shaping.resolveEntity_of_known hfind)]
    refine ⟨?_, hgrows id, fun _ h => Except.ok.inj h ▸ hdecoded id⟩
    obtain ⟨hne, d, hd, hscope, hlabel, hid⟩ := hs.known.found hfind
    exact ⟨hs.graph.again hkey hne hd hscope hlabel hid, hs.known.again hd hscope hlabel hid⟩
  | none =>
    cases hfields : node.readFields reader with
    | error e =>
      rw [resolve_of_error (Shaping.resolveEntity_of_error hfind hfields)]
      exact ⟨hs, .refl _ _, nofun⟩
    | ok fields =>
      rw [resolve_of_ok (Shaping.resolveEntity_of_new hfind hfields)]
      refine ⟨⟨?_, ?_⟩, hgrows _, fun _ h => Except.ok.inj h ▸ hdecoded _⟩
      · exact hs.graph.add (d := ⟨scope, node, reader, key, _⟩) hkey hfields rfl (hs.known.new hfind)
      · exact hs.known.add (d := ⟨scope, node, reader, key, _⟩) rfl hfind

/-! ## Decoding and consuming -/

section Secures

variable {scope : ScopeName}

mutual

theorem Node.decode_secures : ∀ (n : Node) (reader : Reader),
    (n.decode (shaper scope) reader).Secures scope [] Draft.mentions
  | .scalar b, reader => by
    refine secures_ofExcept fun v _ => ?_
    cases v <;> exact secures_pure (nil_subset _)
  | .entity e, reader => e.decode_secures reader
  | .collection c, reader =>
    (secures_ofShaping (Shaping.leavesEntities_newSlot c.parent none reader) fun _ h => h).bind (nil_subset _) fun _ =>
      secures_pure (by simp)
  | .record members, reader =>
    (Node.decodeMembers_secures members reader).bind (nil_subset _) fun _ => secures_pure (by simp)

theorem EntityNode.decode_secures : ∀ (e : EntityNode) (reader : Reader),
    (e.decode (shaper scope) reader).Secures scope [] Draft.mentions
  | ⟨entityType, key, properties, references, collections, nullable⟩, reader => by
    refine secures_ofExcept fun values hvalues => secures_ofExcept fun present _ => ?_
    cases present with
    | false => exact secures_pure (nil_subset _)
    | true =>
      refine (secures_resolve ⟨entityType, key, properties, references, collections, nullable⟩ hvalues).bind
        (nil_subset _) fun id => ?_
      refine (EntityNode.decodeReferences_secures references id reader).bind (by simp) fun ds => ?_
      exact (secures_ofShaping (Shaping.leavesEntities_newSlots id collections reader) fun _ h => h).bind (by simp)
        fun slots => secures_pure (by simp)

theorem Node.decodeMembers_secures : ∀ (members : List (String × Node)) (reader : Reader),
    (Node.decodeMembers (shaper scope) members reader).Secures scope [] Draft.memberMentions
  | [], _ => secures_pure (nil_subset _)
  | (_, member) :: rest, reader =>
    (member.decode_secures reader).bind (nil_subset _) fun _ =>
      (Node.decodeMembers_secures rest reader).bind (nil_subset _) fun _ => secures_pure (by simp)

theorem EntityNode.decodeReferences_secures : ∀ (references : List (String × EntityNode)) (id : EntityId)
    (reader : Reader), (EntityNode.decodeReferences (shaper scope) references id reader).Secures scope [id]
      Draft.listMentions
  | [], _, _ => secures_pure (nil_subset _)
  | (name, target) :: rest, id, reader =>
    (target.decode_secures reader).bind (nil_subset _) fun d =>
      (secures_setNavigation id name d.reference).bind (by simp [d.ids_reference]) fun _ =>
        (EntityNode.decodeReferences_secures rest id reader).bind (by simp) fun _ => secures_pure (by simp)

end

/-- The element of a row is one that its slot has, or it has been decoded. -/
theorem Slot.element?_secures (s : Slot) (child : List Binding) {decode : Reader → Recording Draft}
    {reader : Reader} (hdecode : (decode reader).Secures scope [] Draft.mentions) :
    (s.element? (shaper scope) child decode reader).Secures scope s.mentions fun found => found.elim [] (·.2.mentions) := by
  refine secures_ofExcept fun key _ => ?_
  split
  · exact secures_pure (nil_subset _)
  · cases hfind : s.find? key with
    | some d => exact secures_pure (mentions_find? hfind)
    | none => exact hdecode.bind (nil_subset _) fun d => secures_pure (by simp)

mutual

theorem Node.consume_secures : ∀ (n : Node) (d : Draft) (reader : Reader),
    (n.consume (shaper scope) d reader).Secures scope d.mentions Draft.mentions
  | .scalar _, d, _ => secures_pure (List.Subset.refl _)
  | .entity e, d, reader => e.consume_secures d reader
  | .collection c, d, reader => by
    cases d with
    | collection s => exact (c.consume_secures s reader).bind (by simp) fun _ => secures_pure (by simp)
    | null | scalar | entity | record => exact secures_error _
  | .record members, d, reader => by
    cases d with
    | record ds =>
      exact (Node.consumeMembers_secures members ds reader).bind (by simp) fun _ => secures_pure (by simp)
    | null | scalar | entity | collection => exact secures_error _

theorem EntityNode.consume_secures : ∀ (e : EntityNode) (d : Draft) (reader : Reader),
    (e.consume (shaper scope) d reader).Secures scope d.mentions Draft.mentions
  | ⟨_, _, _, references, collections, _⟩, d, reader => by
    cases d with
    | entity id ds slots =>
      refine (EntityNode.consumeReferences_secures references ds reader).bind (by simp) fun _ => ?_
      exact (CollectionPlace.consumeAll_secures collections slots reader).bind (by grind [Draft.mentions])
        fun _ => secures_pure (by simp)
    | null => exact secures_pure (nil_subset _)
    | scalar | record | collection => exact secures_error _

theorem CollectionPlace.consume_secures : ∀ (c : CollectionPlace) (s : Slot) (reader : Reader),
    (c.consume (shaper scope) s reader).Secures scope s.mentions Slot.mentions
  | .here c, s, reader => c.consume_secures s reader
  | .again .., _, _ => secures_error _

theorem CollectionNode.consume_secures : ∀ (c : CollectionNode) (s : Slot) (reader : Reader),
    (c.consume (shaper scope) s reader).Secures scope s.mentions Slot.mentions
  | ⟨_, _, _, _, child, element, _⟩, s, reader => by
    refine (s.element?_secures child (element.decode_secures reader)).bind (List.Subset.refl _)
      fun found => ?_
    cases found with
    | none => exact secures_pure (by simp)
    | some found =>
      refine (element.consume_secures found.2 reader).bind (by simp) fun d => secures_pure ?_
      exact List.Subset.trans (s.mentions_put found.1 d) (by simp)

theorem Node.consumeMembers_secures : ∀ (members : List (String × Node)) (ds : List (String × Draft))
    (reader : Reader), (Node.consumeMembers (shaper scope) members ds reader).Secures scope (Draft.memberMentions ds)
      Draft.memberMentions
  | [], [], _ => secures_pure (nil_subset _)
  | [], _ :: _, _ | _ :: _, [], _ => secures_error _
  | (_, member) :: rest, (_, d) :: ds, reader =>
    (member.consume_secures d reader).bind (by simp) fun _ =>
      (Node.consumeMembers_secures rest ds reader).bind (by simp) fun _ => secures_pure (by simp)

theorem EntityNode.consumeReferences_secures : ∀ (references : List (String × EntityNode)) (ds : List Draft)
    (reader : Reader), (EntityNode.consumeReferences (shaper scope) references ds reader).Secures scope
      (Draft.listMentions ds) Draft.listMentions
  | [], [], _ => secures_pure (nil_subset _)
  | [], _ :: _, _ | _ :: _, [], _ => secures_error _
  | (_, target) :: rest, d :: ds, reader =>
    (target.consume_secures d reader).bind (by simp) fun _ =>
      (EntityNode.consumeReferences_secures rest ds reader).bind (by simp) fun _ => secures_pure (by simp)

theorem CollectionPlace.consumeAll_secures : ∀ (collections : List (String × CollectionPlace))
    (slots : List Slot) (reader : Reader), (CollectionPlace.consumeAll (shaper scope) collections slots reader).Secures
      scope (Slot.listMentions slots) Slot.listMentions
  | [], [], _ => secures_pure (nil_subset _)
  | [], _ :: _, _ | _ :: _, [], _ => secures_error _
  | (_, c) :: rest, s :: slots, reader =>
    (c.consume_secures s reader).bind (by simp) fun _ =>
      (CollectionPlace.consumeAll_secures rest slots reader).bind (by simp) fun _ => secures_pure (by simp)

end

end Secures

end QueryShaping
