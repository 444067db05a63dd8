import QueryShaping.Entity.Basic

/-!
# Drafts

A row is first read into a draft of the value it belongs to. The collections of a draft are slots that later rows fill;
when the last of these rows has been read, the collections are attached to the entities that own them and the draft
becomes a result.
-/

namespace QueryShaping

mutual

/-- A value whose collections are still being filled. An entity comes with the drafts of its references and with the
slots of its own collections. -/
inductive Draft where
  | null
  | scalar (v : Value)
  | entity (id : EntityId) (references : List Draft) (slots : List Slot)
  | record (members : List (String × Draft))
  | collection (s : Slot)

/-- A collection that is being filled. Its number tells which of two slots was made first. -/
structure Slot where
  number : Nat
  owner : Option (EntityId × String)
  parentKey : Key
  elements : List (Key × Draft)

end

instance : Inhabited Draft := ⟨.null⟩

/-- A finished collection and the place where it belongs. -/
structure Attachment where
  number : Nat
  owner : EntityId
  navigation : String
  value : Result

mutual

/-- The value of a draft with the elements that its slots hold. -/
def Draft.result : Draft → Result
  | .null => .null
  | .scalar v => .scalar v
  | .entity id _ _ => .entity id
  | .record members => .record (Draft.memberResults members)
  | .collection s => s.result

def Slot.result : Slot → Result
  | ⟨_, _, _, elements⟩ => .collection (Draft.elementResults elements)

def Draft.memberResults : List (String × Draft) → List (String × Result)
  | [] => []
  | (name, d) :: rest => (name, d.result) :: Draft.memberResults rest

def Draft.elementResults : List (Key × Draft) → List Result
  | [] => []
  | (_, d) :: rest => d.result :: Draft.elementResults rest

end

mutual

/-- All collections of a draft that an entity owns, those inside elements included. -/
def Draft.attachments : Draft → List Attachment
  | .null => []
  | .scalar _ => []
  | .entity _ references slots => Draft.listAttachments references ++ Slot.listAttachments slots
  | .record members => Draft.memberAttachments members
  | .collection s => s.attachments

def Slot.attachments : Slot → List Attachment
  | ⟨number, owner, _, elements⟩ =>
    (owner.elim [] fun (id, navigation) => [⟨number, id, navigation, .collection (Draft.elementResults elements)⟩]) ++
      Draft.elementAttachments elements

def Draft.listAttachments : List Draft → List Attachment
  | [] => []
  | d :: rest => d.attachments ++ Draft.listAttachments rest

def Slot.listAttachments : List Slot → List Attachment
  | [] => []
  | s :: rest => s.attachments ++ Slot.listAttachments rest

def Draft.memberAttachments : List (String × Draft) → List Attachment
  | [] => []
  | (_, d) :: rest => d.attachments ++ Draft.memberAttachments rest

def Draft.elementAttachments : List (Key × Draft) → List Attachment
  | [] => []
  | (_, d) :: rest => d.attachments ++ Draft.elementAttachments rest

end

mutual

/-- The slots of a draft outside of its collections. -/
def Draft.slots : Draft → List Slot
  | .null => []
  | .scalar _ => []
  | .entity _ references slots => Draft.listSlots references ++ slots
  | .record members => Draft.memberSlots members
  | .collection s => [s]

def Draft.listSlots : List Draft → List Slot
  | [] => []
  | d :: rest => d.slots ++ Draft.listSlots rest

def Draft.memberSlots : List (String × Draft) → List Slot
  | [] => []
  | (_, d) :: rest => d.slots ++ Draft.memberSlots rest

end

namespace Slot

/-- The element with this key. -/
def find? (s : Slot) (key : Key) : Option Draft := s.elements.lookup key

/-- The elements with one of them changed, or a new one at the end. -/
def putElement (key : Key) (d : Draft) : List (Key × Draft) → List (Key × Draft)
  | [] => [(key, d)]
  | (other, old) :: rest =>
    if other = key then (other, d) :: rest else (other, old) :: putElement key d rest

def put (s : Slot) (key : Key) (d : Draft) : Slot :=
  { s with elements := putElement key d s.elements }

end Slot

/-- What a navigation to this draft shows: its entity, if there is one. -/
def Draft.reference : Draft → Result
  | .entity id _ _ => .entity id
  | _ => .null

/-- Attaches every collection of a draft to its owner. Where two collections claim one navigation, the slot that was
made last has it. -/
def Graph.attach (g : Graph) (d : Draft) : Graph :=
  (d.attachments.mergeSort fun a b => a.number ≤ b.number).foldl
    (fun g a => g.setNavigation a.owner a.navigation a.value) g

end QueryShaping
