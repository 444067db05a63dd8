import QueryShaping.Execution.Compiled
import QueryShaping.Proofs.Revision.Alias
import QueryShaping.Proofs.Revision.CollectionJoin
import QueryShaping.Proofs.Revision.CompensationStability
import QueryShaping.Proofs.Revision.ConvertedBool

/-!
# Compilation succeeds

A shape that is in reach of its select, with a number of its own for each collection, is compiled to a program. Its
bindings read columns that are there: those of the enclosing select, or of the query that a collection is loaded by,
which is found by the number of the collection. Each collection is at one place of the program and complete once.

Joining puts a well-formed shape in reach, and the passes after it do not change the number of columns of any select.
-/

namespace QueryShaping

open List Compiling

/-! ## Programs in range -/

/-- Whether a binding reads a column of the select. -/
def Binding.InRange (b : Binding) (select : Select) : Prop :=
  b.ordinal < select.width

def Binding.AllInRange (bindings : List Binding) (select : Select) : Prop :=
  ∀ b ∈ bindings, b.InRange select

mutual

/-- Whether every binding reads a column of the select whose rows it is read from: the select around it, or the one of
its own that a collection is loaded by. -/
def Node.InRange (queries : List (Nat × Select)) : Node → Select → Prop
  | .scalar b, select => b.InRange select
  | .entity e, select => e.InRange queries select
  | .collection c, select => c.InRange queries select
  | .record members, select => Node.AllInRange queries members select

def EntityNode.InRange (queries : List (Nat × Select)) : EntityNode → Select → Prop
  | ⟨_, key, properties, references, collections, _⟩, select =>
    Binding.AllInRange key select ∧ Binding.AllInRange (properties.map (·.2)) select ∧
      EntityNode.AllInRange queries references select ∧ CollectionPlace.AllInRange queries collections select

def CollectionPlace.InRange (queries : List (Nat × Select)) : CollectionPlace → Select → Prop
  | .here c, select => c.InRange queries select
  | .again _ parent, select => Binding.AllInRange parent select

def CollectionNode.InRange (queries : List (Nat × Select)) : CollectionNode → Select → Prop
  | ⟨_, _, _, parent, child, element, none⟩, select =>
    Binding.AllInRange parent select ∧ Binding.AllInRange child select ∧ element.InRange queries select
  | ⟨id, _, _, parent, child, element, some splitParent⟩, select =>
    Binding.AllInRange parent select ∧ ∃ query, queries.lookup id = some query ∧
      Binding.AllInRange splitParent query ∧ Binding.AllInRange child query ∧ element.InRange queries query

def Node.AllInRange (queries : List (Nat × Select)) : List (String × Node) → Select → Prop
  | [], _ => True
  | (_, n) :: rest, select => n.InRange queries select ∧ Node.AllInRange queries rest select

def EntityNode.AllInRange (queries : List (Nat × Select)) : List (String × EntityNode) → Select → Prop
  | [], _ => True
  | (_, e) :: rest, select => e.InRange queries select ∧ EntityNode.AllInRange queries rest select

def CollectionPlace.AllInRange (queries : List (Nat × Select)) : List (String × CollectionPlace) → Select → Prop
  | [], _ => True
  | (_, c) :: rest, select => c.InRange queries select ∧ CollectionPlace.AllInRange queries rest select

end

mutual

/-- The collections of a program that are at their places, at any depth. -/
def Node.collectionNodes : Node → List CollectionNode
  | .scalar _ => []
  | .entity e => e.collectionNodes
  | .collection c => c.collectionNodes
  | .record members => Node.allCollectionNodes members

def EntityNode.collectionNodes : EntityNode → List CollectionNode
  | ⟨_, _, _, references, collections, _⟩ =>
    EntityNode.allCollectionNodes references ++ CollectionPlace.allCollectionNodes collections

def CollectionPlace.collectionNodes : CollectionPlace → List CollectionNode
  | .here c => c.collectionNodes
  | .again _ _ => []

def CollectionNode.collectionNodes : CollectionNode → List CollectionNode
  | ⟨id, navigation, elementType, parent, child, element, splitParent⟩ =>
    ⟨id, navigation, elementType, parent, child, element, splitParent⟩ :: element.collectionNodes

def Node.allCollectionNodes : List (String × Node) → List CollectionNode
  | [] => []
  | (_, n) :: rest => n.collectionNodes ++ Node.allCollectionNodes rest

def EntityNode.allCollectionNodes : List (String × EntityNode) → List CollectionNode
  | [] => []
  | (_, e) :: rest => e.collectionNodes ++ EntityNode.allCollectionNodes rest

def CollectionPlace.allCollectionNodes : List (String × CollectionPlace) → List CollectionNode
  | [] => []
  | (_, c) :: rest => c.collectionNodes ++ CollectionPlace.allCollectionNodes rest

end

/-! ## Steps of compiling -/

namespace Compiling

variable {α β : Type} {complete complete' : List CollectionNode}

/-- A step of compiling that gives a value and leaves the complete collections behind. -/
def Steps (x : Compiling α) (complete : List CollectionNode) (a : α) (complete' : List CollectionNode) : Prop :=
  x.run complete = .ok (a, complete')

theorem steps_pure {a b : α} : Steps (pure a) complete b complete' ↔ a = b ∧ complete = complete' := by
  show (Except.ok (a, complete) : Except Error (α × List CollectionNode)) = .ok (b, complete') ↔ _
  simp

theorem steps_bind {x : Compiling α} {f : α → Compiling β} {b : β} :
    Steps (x >>= f) complete b complete' ↔ ∃ a mid, Steps x complete a mid ∧ Steps (f a) mid b complete' := by
  unfold Steps
  rw [StateT.run_bind, Except.bind_eq_ok_iff]
  constructor
  · rintro ⟨⟨a, mid⟩, ha, hb⟩
    exact ⟨a, mid, ha, hb⟩
  · rintro ⟨a, mid, ha, hb⟩
    exact ⟨(a, mid), ha, hb⟩

theorem steps_lift {x : Except Error α} {a : α} :
    Steps (liftM x) complete a complete' ↔ x = .ok a ∧ complete = complete' := by
  show (x >>= fun a => .ok (a, complete)) = .ok (a, complete') ↔ _
  rw [Except.bind_eq_ok_iff]
  simp

theorem steps_get {found : List CollectionNode} : Steps get complete found complete' ↔ complete = found ∧ complete = complete' := by
  show (Except.ok (complete, complete) : Except Error (_ × List CollectionNode)) = .ok (found, complete') ↔ _
  simp

theorem steps_keep {c : CollectionNode} {u : Unit} :
    Steps (keep c) complete u complete' ↔ c :: complete.filter (·.id ≠ c.id) = complete' := by
  show (Except.ok ((), _) : Except Error (Unit × List CollectionNode)) = .ok (u, complete') ↔ _
  simp

end Compiling

theorem Binding.resolve_ok {select : Select} {index : Nat} (h : index < select.width) (nullable : Bool) :
    ∃ b, Binding.resolve select index nullable = .ok b ∧ b.InRange select := by
  unfold Binding.resolve
  rw [getElem?_eq_getElem h]
  exact ⟨_, rfl, h⟩

theorem Binding.resolveIdentifier_ok {select : Select} {indices : List Nat} (h : Below select.width indices) :
    ∃ bindings, Binding.resolveIdentifier select indices = .ok bindings ∧ Binding.AllInRange bindings select := by
  obtain ⟨bindings, hbindings, -, hrange⟩ := Except.mapM_ok_of_forall_and fun i hi => resolve_ok (h i hi) true
  exact ⟨bindings, hbindings, hrange⟩

theorem PropertyShape.compileAll_ok {select : Select} {properties : List PropertyShape}
    (h : Below select.width (properties.map (·.index))) :
    ∃ compiled, properties.mapM (fun p => p.compile select) = .ok compiled ∧
      Binding.AllInRange (compiled.map (·.2)) select := by
  have hone : ∀ p ∈ properties, ∃ q, p.compile select = .ok q ∧ q.2.InRange select := by
    intro p hp
    obtain ⟨b, hb, hrange⟩ := Binding.resolve_ok (h _ (mem_map_of_mem hp)) p.nullable
    exact ⟨_, Except.bind_eq_ok_iff.2 ⟨b, hb, rfl⟩, hrange⟩
  obtain ⟨compiled, hcompiled, -, hrange⟩ := Except.mapM_ok_of_forall_and hone
  exact ⟨compiled, hcompiled, forall_mem_map.2 hrange⟩

/-! ## Compiling shapes in reach -/

/-- Whether collections have numbers of their own, which no complete collection and none around them has. -/
structure CollectionShape.Unused (collections : List CollectionShape) (around : Enclosing)
    (complete : List CollectionNode) : Prop where
  nodup : (collections.map (·.id)).Nodup
  around : ∀ c ∈ collections, around.lookup c.id = none
  complete : ∀ c ∈ collections, ∀ d ∈ complete, d.id ≠ c.id

/-- What compiling collections does: each has become one node, and the nodes are complete. -/
structure CollectionShape.Compiled (collections : List CollectionShape) (complete : List CollectionNode)
    (nodes complete' : List CollectionNode) : Prop where
  complete : complete'.Perm (nodes ++ complete)
  nodes : (nodes.map fun c => (c.elementType, c.id)).Perm (collections.map fun c => (c.elementType, c.id))

namespace CollectionShape

variable {cs ds : List CollectionShape} {around : Enclosing} {complete mid complete' ns ms : List CollectionNode}

theorem Compiled.nil : Compiled [] complete [] complete :=
  ⟨.refl _, .refl _⟩

theorem Compiled.append (h : Compiled cs complete ns mid) (h' : Compiled ds mid ms complete') :
    Compiled (cs ++ ds) complete (ns ++ ms) complete' where
  complete := by
    refine h'.complete.trans ((h.complete.append_left ms).trans ?_)
    rw [← append_assoc]
    exact List.perm_append_comm.append_right complete
  nodes := by
    rw [map_append, map_append]
    exact h.nodes.append h'.nodes

theorem Compiled.of_perm (h : Compiled cs complete ns complete') (hperm : ms.Perm ns) : Compiled cs complete ms complete' where
  complete := h.complete.trans (hperm.symm.append_right complete)
  nodes := (hperm.map _).trans h.nodes

theorem Unused.left (h : Unused (cs ++ ds) around complete) : Unused cs around complete where
  nodup := (nodup_append.1 (map_append ▸ h.nodup)).1
  around := fun c hc => h.around c (mem_append_left ds hc)
  complete := fun c hc => h.complete c (mem_append_left ds hc)

theorem Compiled.id_mem (h : Compiled cs complete ns mid) {d : CollectionNode} (hd : d ∈ mid) :
    d ∈ complete ∨ d.id ∈ cs.map (·.id) := by
  rcases mem_append.1 (h.complete.mem_iff.1 hd) with hd | hd
  · have hmem := h.nodes.mem_iff.1 (mem_map_of_mem (f := fun c => (c.elementType, c.id)) hd)
    obtain ⟨c, hc, heq⟩ := mem_map.1 hmem
    exact .inr (mem_map.2 ⟨c, hc, congrArg Prod.snd heq⟩)
  · exact .inl hd

theorem Unused.right (h : Unused (cs ++ ds) around complete) (h' : Compiled cs complete ns mid) :
    Unused ds around mid where
  nodup := (nodup_append.1 (map_append ▸ h.nodup)).2.1
  around := fun c hc => h.around c (mem_append_right cs hc)
  complete := by
    intro c hc d hd
    rcases h'.id_mem hd with hd | hd
    · exact h.complete c (mem_append_right cs hc) d hd
    · exact (nodup_append.1 (map_append ▸ h.nodup)).2.2 _ hd _ (mem_map_of_mem hc)

theorem Unused.inner {c : CollectionShape} (h : Unused (c :: cs) around complete) (parent : List Binding) :
    Unused cs (around.enter c.id parent) complete where
  nodup := (nodup_cons.1 h.nodup).2
  around := by
    intro d hd
    have hne : d.id ≠ c.id := fun heq => (nodup_cons.1 h.nodup).1 (mem_map.2 ⟨d, hd, heq⟩)
    have hc := h.around c mem_cons_self
    simp only [Enclosing.enter, hc, Option.isSome_none, Bool.false_eq_true, if_false]
    rw [lookup_cons, beq_eq_false_iff_ne.2 hne]
    exact h.around d (mem_cons_of_mem c hd)
  complete := fun d hd => h.complete d (mem_cons_of_mem c hd)

theorem Compiled.keep {c : CollectionShape} {node : CollectionNode} (hunused : Unused (c :: cs) around complete)
    (h : Compiled cs complete ns mid) (hid : node.id = c.id) (htype : node.elementType = c.elementType) :
    Compiled (c :: cs) complete (node :: ns) (node :: mid.filter (·.id ≠ node.id)) where
  complete := by
    rw [List.filter_eq_self.2 fun d hd => ?_]
    · exact h.complete.cons node
    · rcases h.id_mem hd with hd | hd
      · simpa [hid] using hunused.complete c mem_cons_self d hd
      · have hne : d.id ≠ c.id := by
          rintro heq
          rw [heq] at hd
          exact (nodup_cons.1 hunused.nodup).1 hd
        simpa [hid] using hne
  nodes := by
    rw [map_cons, map_cons, hid, htype]
    exact h.nodes.cons _

end CollectionShape

/-- Whether the queries that collections are loaded by are found by the numbers of the collections. -/
def CollectionShape.Queried (queries : List (Nat × Select)) (collections : List CollectionShape) : Prop :=
  ∀ c ∈ collections, ∀ q ∈ c.split, queries.lookup c.id = some q.query

/-- The collections in what the navigations of an entity lead to. -/
def Targets.collectionNodes (t : Targets) : List CollectionNode :=
  EntityNode.allCollectionNodes t.references ++ CollectionPlace.allCollectionNodes t.collections

def Targets.InRange (queries : List (Nat × Select)) (t : Targets) (select : Select) : Prop :=
  EntityNode.AllInRange queries t.references select ∧ CollectionPlace.AllInRange queries t.collections select

/-- A collection with a number of its own is compiled to a node at its place. -/
theorem CollectionShape.compile_here {id : Nat} {navigation : Option String} {elementType : String}
    {parent child : List Nat} {element : Shape} {split : Option SplitQuery} {cs : List CollectionShape}
    {around : Enclosing} {complete mid : List CollectionNode} {select : Select} {ps bs : List Binding}
    {sps : Option (List Binding)} {n : Node}
    (hunused : Unused (⟨id, navigation, elementType, parent, child, element, split⟩ :: cs) around complete)
    (hparent : Binding.resolveIdentifier select parent = .ok ps)
    (hsplit : split.mapM (fun s => Binding.resolveIdentifier s.query s.parentIdentifier) = .ok sps)
    (hchild : Binding.resolveIdentifier (split.elim select (·.query)) child = .ok bs)
    (hn : Steps (element.compile (around.enter id ps) (split.elim select (·.query))) complete n mid) :
    Steps
      (CollectionShape.compile ⟨id, navigation, elementType, parent, child, element, split⟩ around select) complete
      (.here ⟨id, navigation, elementType, ps, bs, n, sps⟩)
      (⟨id, navigation, elementType, ps, bs, n, sps⟩ :: mid.filter (·.id ≠ id)) := by
  have hnew : complete.any (·.id = id) = false := by simpa using hunused.complete _ mem_cons_self
  have hplace : around.lookup id = none := hunused.around _ mem_cons_self
  simp only [CollectionShape.compile, steps_bind, steps_get]
  refine ⟨complete, complete, ⟨rfl, rfl⟩, ?_⟩
  simp only [hnew, Bool.false_eq_true, if_false, steps_bind, steps_lift, steps_keep,
    steps_pure, Enclosing.place, hplace]
  exact ⟨ps, _, ⟨hparent, rfl⟩, sps, _, ⟨hsplit, rfl⟩, bs, _, ⟨hchild, rfl⟩, n, mid, hn, (), _, rfl, rfl, rfl⟩

/-- Compiling a part of a shape works in any select that it is in reach of, if its collections have numbers of their own. -/
def Compiling.Complete {α : Type} (queries : List (Nat × Select)) (collections : List CollectionShape)
    (reach : Nat → Prop) (range : α → Select → Prop) (nodes : α → List CollectionNode)
    (compile : Enclosing → Select → Compiling α) : Prop :=
  ∀ ⦃around : Enclosing⦄ ⦃select : Select⦄ ⦃complete : List CollectionNode⦄, reach select.width →
    CollectionShape.Queried queries collections → CollectionShape.Unused collections around complete →
    ∃ n complete', Steps (compile around select) complete n complete' ∧ range n select ∧
      CollectionShape.Compiled collections complete (nodes n) complete'

theorem Compiling.Complete.map {α β : Type} {queries : List (Nat × Select)} {collections : List CollectionShape}
    {reach reach' : Nat → Prop} {range : α → Select → Prop} {range' : β → Select → Prop}
    {nodes : α → List CollectionNode} {nodes' : β → List CollectionNode} {compile : Enclosing → Select → Compiling α}
    {compile' : Enclosing → Select → Compiling β}
    (h : Complete queries collections reach range nodes compile) (f : α → β)
    (hcompile : compile' = fun around select => do let n ← compile around select; return f n)
    (hreach : ∀ count, reach' count → reach count) (hrange : ∀ n select, range n select → range' (f n) select)
    (hnodes : ∀ n, nodes' (f n) = nodes n) : Complete queries collections reach' range' nodes' compile' := by
  intro around select complete hreach' hqueries hunused
  obtain ⟨n, complete', hn, hrange', hcompiled⟩ := h (hreach _ hreach') hqueries hunused
  simp only [hcompile, steps_bind, steps_pure]
  exact ⟨f n, complete', ⟨n, complete', hn, rfl, rfl⟩, hrange n select hrange', hnodes n ▸ hcompiled⟩

section Completeness

variable {queries : List (Nat × Select)}

mutual

theorem Shape.compile_steps : ∀ s : Shape, Complete queries s.collections (Shape.InReach · s)
    (Node.InRange queries) Node.collectionNodes s.compile
  | .scalar index nullable => by
    intro around select complete h _ _
    obtain ⟨b, hb, hrange⟩ := Binding.resolve_ok h nullable
    simp only [Shape.compile, steps_bind, steps_lift, steps_pure]
    exact ⟨_, _, ⟨b, complete, ⟨hb, rfl⟩, rfl, rfl⟩, hrange, .nil⟩
  | .entity e => (EntityShape.compile_steps e).map .entity rfl (fun _ h => h) (fun _ _ h => h) fun _ => rfl
  | .collection c => (CollectionShape.compile_steps c).map .collection rfl (fun _ h => h) (fun _ _ h => h) fun _ => rfl
  | .record members => (Member.compileAll_steps members).map .record rfl (fun _ h => h) (fun _ _ h => h) fun _ => rfl
  | .pending _ => fun _ _ _ h => h.elim

theorem EntityShape.compile_steps : ∀ e : EntityShape, Complete queries e.collections
    (EntityShape.InReach · e) (EntityNode.InRange queries) EntityNode.collectionNodes e.compile
  | ⟨entityType, key, properties, navigations, nullable⟩ => by
    intro around select complete h hqueries hunused
    obtain ⟨hne, hkey, hproperties, hnavigations⟩ := h
    obtain ⟨bs, hbs, hrange⟩ := Binding.resolveIdentifier_ok hkey
    obtain ⟨ps, hps, hrange'⟩ := PropertyShape.compileAll_ok hproperties
    obtain ⟨ts, complete', hts, hrange'', hcompiled⟩ :=
      Navigation.compileAll_steps navigations hnavigations hqueries hunused
    have hempty : key.isEmpty = false := by simpa using hne
    simp only [EntityShape.compile, hempty, Bool.false_eq_true, if_false, steps_bind, steps_lift,
      steps_pure]
    exact ⟨_, _, ⟨bs, complete, ⟨hbs, rfl⟩, ps, complete, ⟨hps, rfl⟩, ts, complete', hts, rfl, rfl⟩,
      ⟨hrange, hrange', hrange''⟩, hcompiled⟩

theorem CollectionShape.compile_steps : ∀ c : CollectionShape, Complete queries (c :: c.inner)
    (CollectionShape.InReach · c) (CollectionPlace.InRange queries) CollectionPlace.collectionNodes c.compile
  | ⟨id, navigation, elementType, parent, child, element, none⟩ => by
    intro around select complete h hqueries hunused
    obtain ⟨hparent, hchild, helement⟩ := h
    obtain ⟨ps, hps, hrange⟩ := Binding.resolveIdentifier_ok hparent
    obtain ⟨bs, hbs, hrange'⟩ := Binding.resolveIdentifier_ok hchild
    obtain ⟨n, mid, hn, hrange'', hcompiled⟩ := Shape.compile_steps element helement
      (fun c hc => hqueries c (mem_cons_of_mem _ hc)) (hunused.inner ps)
    exact ⟨_, _, CollectionShape.compile_here hunused hps rfl hbs hn, ⟨hrange, hrange', hrange''⟩,
      hcompiled.keep hunused rfl rfl⟩
  | ⟨id, navigation, elementType, parent, child, element, some ⟨query, splitParent⟩⟩ => by
    intro around select complete h hqueries hunused
    obtain ⟨hparent, hsplit, hchild, helement⟩ := h
    obtain ⟨ps, hps, hrange⟩ := Binding.resolveIdentifier_ok hparent
    obtain ⟨sps, hsps, hrangeSplit⟩ := Binding.resolveIdentifier_ok hsplit
    obtain ⟨bs, hbs, hrange'⟩ := Binding.resolveIdentifier_ok hchild
    obtain ⟨n, mid, hn, hrange'', hcompiled⟩ := Shape.compile_steps element helement
      (fun c hc => hqueries c (mem_cons_of_mem _ hc)) (hunused.inner ps)
    have hsplits : (some (SplitQuery.mk query splitParent)).mapM (m := Except Error)
        (fun s => Binding.resolveIdentifier s.query s.parentIdentifier) = .ok (some sps) := by
      simp only [Option.mapM, hsps]
      rfl
    refine ⟨_, _, CollectionShape.compile_here hunused hps hsplits hbs hn, ⟨hrange, query, ?_, hrangeSplit, hrange', hrange''⟩,
      hcompiled.keep hunused rfl rfl⟩
    exact hqueries _ mem_cons_self _ rfl

theorem Navigation.compile_steps : ∀ (n : Navigation) {around : Enclosing} {select : Select}
    {complete : List CollectionNode}, n.InReach select.width →
    CollectionShape.Queried queries n.targetCollections → CollectionShape.Unused n.targetCollections around complete →
    ∃ add nodes complete', Steps (n.compile around select) complete add complete' ∧
      CollectionShape.Compiled n.targetCollections complete nodes complete' ∧
      ∀ t : Targets, (add t).collectionNodes.Perm (nodes ++ t.collectionNodes) ∧
        (t.InRange queries select → (add t).InRange queries select)
  | ⟨name, .entity e⟩, around, select, complete, h, hqueries, hunused => by
    obtain ⟨n, complete', hn, hrange, hcompiled⟩ := EntityShape.compile_steps e h hqueries hunused
    simp only [Navigation.compile, steps_bind, steps_pure]
    refine ⟨_, n.collectionNodes, _, ⟨n, complete', hn, rfl, rfl⟩, hcompiled, fun t => ⟨?_, fun ht => ?_⟩⟩
    · simp [Targets.addReference, Targets.collectionNodes, EntityNode.allCollectionNodes]
    · exact ⟨⟨hrange, ht.1⟩, ht.2⟩
  | ⟨name, .collection c⟩, around, select, complete, h, hqueries, hunused => by
    obtain ⟨n, complete', hn, hrange, hcompiled⟩ := CollectionShape.compile_steps c h hqueries hunused
    simp only [Navigation.compile, steps_bind, steps_pure]
    refine ⟨_, n.collectionNodes, _, ⟨n, complete', hn, rfl, rfl⟩, hcompiled, fun t => ⟨?_, fun ht => ?_⟩⟩
    · simp only [Targets.addCollection, Targets.collectionNodes, CollectionPlace.allCollectionNodes]
      rw [← append_assoc, ← append_assoc]
      exact List.perm_append_comm.append_right _
    · exact ⟨ht.1, hrange, ht.2⟩

theorem Navigation.compileAll_steps : ∀ l : List Navigation, Complete queries (Navigation.collections l)
    (Navigation.AllInReach · l) (Targets.InRange queries) Targets.collectionNodes (Navigation.compileAll l)
  | [], _, _, complete, _, _, _ =>
    ⟨.none, complete, steps_pure.2 ⟨rfl, rfl⟩, ⟨trivial, trivial⟩, .nil⟩
  | n :: rest, _, _, _, h, hqueries, hunused => by
    obtain ⟨hn, hrest⟩ := h
    obtain ⟨add, nodes, mid, hadd, hcompiled, hadds⟩ := Navigation.compile_steps n hn
      (fun c hc => hqueries c (mem_append_left _ hc)) hunused.left
    obtain ⟨t, complete', ht, hrange, hcompiled'⟩ := Navigation.compileAll_steps rest hrest
      (fun c hc => hqueries c (mem_append_right _ hc)) (hunused.right hcompiled)
    simp only [Navigation.compileAll, steps_bind, steps_pure]
    exact ⟨_, _, ⟨add, mid, hadd, t, complete', ht, rfl, rfl⟩, (hadds t).2 hrange,
      (hcompiled.append hcompiled').of_perm (hadds t).1⟩

theorem Member.compile_steps : ∀ m : Member, Complete queries m.shapeCollections (Member.InReach · m)
    (fun n => n.2.InRange queries) (·.2.collectionNodes) m.compile
  | ⟨name, shape⟩ => (Shape.compile_steps shape).map (name, ·) rfl (fun _ h => h) (fun _ _ h => h) fun _ => rfl

theorem Member.compileAll_steps : ∀ l : List Member, Complete queries (Member.collections l)
    (Member.AllInReach · l) (Node.AllInRange queries) Node.allCollectionNodes (Member.compileAll l)
  | [], _, _, complete, _, _, _ => ⟨[], complete, steps_pure.2 ⟨rfl, rfl⟩, trivial, .nil⟩
  | m :: rest, _, _, _, h, hqueries, hunused => by
    obtain ⟨hm, hrest⟩ := h
    obtain ⟨⟨name, n⟩, mid, hn, hrange, hcompiled⟩ := Member.compile_steps m hm
      (fun c hc => hqueries c (mem_append_left _ hc)) hunused.left
    obtain ⟨ns, complete', hns, hrange', hcompiled'⟩ := Member.compileAll_steps rest hrest
      (fun c hc => hqueries c (mem_append_right _ hc)) (hunused.right hcompiled)
    simp only [Member.compileAll, steps_bind, steps_pure]
    exact ⟨_, _, ⟨_, mid, hn, ns, complete', hns, rfl, rfl⟩, ⟨hrange, hrange'⟩, hcompiled.append hcompiled'⟩

end

end Completeness

/-! ## Finalized queries -/

theorem Select.width_compensate (s : Select) : s.compensate.value.width = s.width := by
  rw [width, ← mapNodes_inserting, length_projections_mapNodes, width]

theorem Select.width_finalize (s : Select) (options : QueryOptions) : (s.finalize options).width = s.width := by
  have hunique (s : Select) : s.uniquifyAliases.value.width = s.width := by
    unfold width
    rw [uniquifyAliases, AliasScope.apply, ← mapNodes_naming, length_projections_mapNodes]
  unfold finalize
  split
  · rw [hunique, width_compensate]
  · exact hunique s

section

variable {f : Select → Select}

mutual

theorem Shape.inReach_mapSplitQueries (hf : ∀ s, (f s).width = s.width) {count : Nat} :
    ∀ {s : Shape}, s.InReach count → (s.mapSplitQueries f).InReach count
  | .scalar .., h => h
  | .entity e, h => EntityShape.inReach_mapSplitQueries hf (e := e) h
  | .collection c, h => CollectionShape.inReach_mapSplitQueries hf (c := c) h
  | .record members, h => Member.allInReach_mapSplitQueries hf (l := members) h

theorem EntityShape.inReach_mapSplitQueries (hf : ∀ s, (f s).width = s.width) {count : Nat} :
    ∀ {e : EntityShape}, e.InReach count → (e.mapSplitQueries f).InReach count
  | ⟨_, _, _, navigations, _⟩, ⟨hne, hkey, hproperties, hnavigations⟩ =>
    ⟨hne, hkey, hproperties, Navigation.allInReach_mapSplitQueries hf (l := navigations) hnavigations⟩

theorem CollectionShape.inReach_mapSplitQueries (hf : ∀ s, (f s).width = s.width) {count : Nat} :
    ∀ {c : CollectionShape}, c.InReach count →
    (c.mapSplitQueries f).InReach count
  | ⟨_, _, _, _, _, element, none⟩, ⟨hparent, hchild, helement⟩ =>
    ⟨hparent, hchild, Shape.inReach_mapSplitQueries hf (s := element) helement⟩
  | ⟨_, _, _, _, _, element, some ⟨query, _⟩⟩, ⟨hparent, hsplit, hchild, helement⟩ => by
    refine ⟨hparent, ?_, ?_, ?_⟩ <;> simp only [hf]
    · exact hsplit
    · exact hchild
    · exact Shape.inReach_mapSplitQueries hf (s := element) helement

theorem Navigation.inReach_mapSplitQueries (hf : ∀ s, (f s).width = s.width) {count : Nat} :
    ∀ {n : Navigation}, n.InReach count → (n.mapSplitQueries f).InReach count
  | ⟨_, .entity e⟩, h => EntityShape.inReach_mapSplitQueries hf (e := e) h
  | ⟨_, .collection c⟩, h => CollectionShape.inReach_mapSplitQueries hf (c := c) h

theorem Navigation.allInReach_mapSplitQueries (hf : ∀ s, (f s).width = s.width) {count : Nat} :
    ∀ {l : List Navigation}, Navigation.AllInReach count l →
      Navigation.AllInReach count (Navigation.mapSplitQueriesList f l)
  | [], _ => trivial
  | n :: rest, ⟨hn, hrest⟩ =>
    ⟨Navigation.inReach_mapSplitQueries hf (n := n) hn, Navigation.allInReach_mapSplitQueries hf (l := rest) hrest⟩

theorem Member.inReach_mapSplitQueries (hf : ∀ s, (f s).width = s.width) {count : Nat} :
    ∀ {m : Member}, m.InReach count → (m.mapSplitQueries f).InReach count
  | ⟨_, shape⟩, h => Shape.inReach_mapSplitQueries hf (s := shape) h

theorem Member.allInReach_mapSplitQueries (hf : ∀ s, (f s).width = s.width) {count : Nat} :
    ∀ {l : List Member}, Member.AllInReach count l →
    Member.AllInReach count (Member.mapSplitQueriesList f l)
  | [], _ => trivial
  | m :: rest, ⟨hm, hrest⟩ =>
    ⟨Member.inReach_mapSplitQueries hf (m := m) hm, Member.allInReach_mapSplitQueries hf (l := rest) hrest⟩

end

end

mutual

theorem Shape.collections_mapSplitQueries (f : Select → Select) :
    ∀ s : Shape, (s.mapSplitQueries f).collections = s.collections.map (·.mapSplitQueries f)
  | .scalar .. | .pending _ => rfl
  | .entity e => EntityShape.collections_mapSplitQueries f e
  | .collection c => congrArg (_ :: ·) (CollectionShape.inner_mapSplitQueries f c)
  | .record members => Member.collections_mapSplitQueries f members

theorem EntityShape.collections_mapSplitQueries (f : Select → Select) :
    ∀ e : EntityShape, (e.mapSplitQueries f).collections = e.collections.map (·.mapSplitQueries f)
  | ⟨_, _, _, navigations, _⟩ => Navigation.collections_mapSplitQueries f navigations

theorem CollectionShape.inner_mapSplitQueries (f : Select → Select) :
    ∀ c : CollectionShape, (c.mapSplitQueries f).inner = c.inner.map (·.mapSplitQueries f)
  | ⟨_, _, _, _, _, element, _⟩ => Shape.collections_mapSplitQueries f element

theorem Navigation.targetCollections_mapSplitQueries (f : Select → Select) :
    ∀ n : Navigation, (n.mapSplitQueries f).targetCollections = n.targetCollections.map (·.mapSplitQueries f)
  | ⟨_, target⟩ => Shape.collections_mapSplitQueries f target

theorem Navigation.collections_mapSplitQueries (f : Select → Select) : ∀ ns : List Navigation,
    Navigation.collections (Navigation.mapSplitQueriesList f ns) =
      (Navigation.collections ns).map (·.mapSplitQueries f)
  | [] => rfl
  | n :: rest => by
    simp only [Navigation.mapSplitQueriesList, Navigation.collections, map_append,
      Navigation.targetCollections_mapSplitQueries f n, Navigation.collections_mapSplitQueries f rest]

theorem Member.shapeCollections_mapSplitQueries (f : Select → Select) :
    ∀ m : Member, (m.mapSplitQueries f).shapeCollections = m.shapeCollections.map (·.mapSplitQueries f)
  | ⟨_, shape⟩ => Shape.collections_mapSplitQueries f shape

theorem Member.collections_mapSplitQueries (f : Select → Select) : ∀ ms : List Member,
    Member.collections (Member.mapSplitQueriesList f ms) = (Member.collections ms).map (·.mapSplitQueries f)
  | [] => rfl
  | m :: rest => by
    simp only [Member.mapSplitQueriesList, Member.collections, map_append,
      Member.shapeCollections_mapSplitQueries f m, Member.collections_mapSplitQueries f rest]

end

theorem CollectionShape.numbers_mapSplitQueries (f : Select → Select) (cs : List CollectionShape) :
    (cs.map (·.mapSplitQueries f)).map (fun c => (c.elementType, c.id)) = cs.map fun c => (c.elementType, c.id) := by
  rw [map_map]
  refine map_congr_left fun c _ => ?_
  cases c
  rfl

/-- The number and the query of a collection that has a query of its own. -/
def CollectionShape.ownQuery? (c : CollectionShape) : Option (Nat × Select) :=
  c.split.map fun q => (c.id, q.query)

theorem CollectionShape.queried_ownQueries {cs : List CollectionShape} (h : (cs.map (·.id)).Nodup) :
    Queried (cs.filterMap ownQuery?) cs := by
  induction cs with
  | nil => exact fun c hc => nomatch hc
  | cons d rest ih =>
    obtain ⟨hd, hrest⟩ := nodup_cons.1 h
    refine forall_mem_cons.2 ⟨fun q hq => ?_, fun c hc q hq => ?_⟩
    · have hown : d.ownQuery? = some (d.id, q.query) := Option.map_eq_some_iff.2 ⟨q, hq, rfl⟩
      rw [filterMap_cons_some hown, lookup_cons_self]
    · have hne : c.id ≠ d.id := by
        intro heq
        exact hd (mem_map.2 ⟨c, hc, heq⟩)
      have hfound := ih hrest c hc q hq
      cases hown : d.ownQuery? with
      | none => rwa [filterMap_cons_none hown]
      | some entry =>
        obtain ⟨r, -, rfl⟩ := Option.map_eq_some_iff.1 hown
        rwa [filterMap_cons_some hown, lookup_cons, beq_eq_false_iff_ne.2 hne]

theorem ShapedQuery.joinCollections_steps {shaped : ShapedQuery} (h : shaped.wellFormed false = true) (split : Bool)
    (fresh : Fresh) : ∃ joined fresh', Joining.Steps (shaped.joinCollections split) fresh joined fresh' ∧
      joined.shape.InReach joined.query.width ∧
      joined.shape.collections.map (fun c => (c.elementType, c.id)) =
        (shaped.shape.pendings.map (·.elementType)).zipIdx fresh.nextCollection := by
  obtain ⟨query, shape⟩ := shaped
  unfold ShapedQuery.joinCollections
  cases hpending : shape.hasPending with
  | false =>
    obtain ⟨hreach, hcollections, hpendings⟩ := Shape.inReach_of_not_hasPending h hpending
    simp only [Bool.false_eq_true, if_false]
    refine ⟨_, fresh, Joining.steps_pure.2 ⟨rfl, rfl⟩, hreach, ?_⟩
    rw [hcollections, hpendings]
    rfl
  | true =>
    obtain ⟨target, mid, htarget, hwidth, hmid⟩ := query.pushDownWhen_steps fresh query.requiresPushdown
    have hmove : IndexMove.Into .ok query.width target.width := fun i hi => ⟨i, hwidth ▸ hi, rfl⟩
    have houter : Below target.width [] := fun i hi => nomatch hi
    obtain ⟨s', target', fresh', hs, hreach, hjoins⟩ :=
      Shape.join_steps split h none mid hmove houter fun hnested => nomatch hnested
    simp only [if_true, Joining.steps_bind, Joining.steps_pure]
    refine ⟨_, _, ⟨target, mid, htarget, (s', target'), fresh', hs, rfl, rfl⟩, hreach, ?_⟩
    rw [hjoins.numbered, hmid]

/-- A well-formed query is finalized and compiled in every mode. The program reads columns that are there, and it has one
node for each collection of the shape. -/
theorem ShapedQuery.compile_finalize (shaped : ShapedQuery) (options : QueryOptions) (fresh : Fresh)
    (h : shaped.wellFormed false = true) :
    ∃ finalized fresh' program, (shaped.finalize options).run.run fresh = (.ok finalized, fresh') ∧
      finalized.compile = .ok program ∧ program.root.InRange finalized.shape.splitQueries finalized.query ∧
      program.collections.Perm program.root.collectionNodes ∧
      (program.collections.map fun c => (c.elementType, c.id)).Perm
        ((shaped.shape.pendings.map (·.elementType)).zipIdx fresh.nextCollection) := by
  obtain ⟨joined, fresh', hjoined, hreach, hnumbered⟩ := shaped.joinCollections_steps h options.isSplit fresh
  have hfinalized : Joining.Steps (shaped.finalize options) fresh
      ⟨joined.query.finalize options, joined.shape.mapSplitQueries fun s => s.finalize options⟩ fresh' :=
    Joining.steps_bind.2 ⟨joined, fresh', hjoined, Joining.steps_pure.2 ⟨rfl, rfl⟩⟩
  have hnumbers : (joined.shape.mapSplitQueries fun s => s.finalize options).collections.map
      (fun c => (c.elementType, c.id)) = (shaped.shape.pendings.map (·.elementType)).zipIdx fresh.nextCollection := by
    rw [Shape.collections_mapSplitQueries, CollectionShape.numbers_mapSplitQueries, hnumbered]
  have hnodup : ((joined.shape.mapSplitQueries fun s => s.finalize options).collections.map (·.id)).Nodup := by
    have hids := congrArg (List.map Prod.snd) hnumbers
    rw [map_map, zipIdx_map_snd] at hids
    exact hids ▸ nodup_range'
  have hreach' : (joined.shape.mapSplitQueries fun s => s.finalize options).InReach
      (joined.query.finalize options).width := by
    rw [Select.width_finalize]
    exact Shape.inReach_mapSplitQueries (fun s => s.width_finalize options) hreach
  have hunused : CollectionShape.Unused (joined.shape.mapSplitQueries fun s => s.finalize options).collections [] [] :=
    ⟨hnodup, fun _ _ => rfl, fun _ _ _ hd => nomatch hd⟩
  obtain ⟨root, complete, hroot, hrange, hcompiled⟩ :=
    Shape.compile_steps _ hreach' (CollectionShape.queried_ownQueries hnodup) hunused
  have hcomplete : complete.Perm root.collectionNodes := by simpa using hcompiled.complete
  refine ⟨_, fresh', ⟨root, complete⟩, hfinalized, ?_, hrange, hcomplete, ?_⟩
  · exact Except.bind_eq_ok_iff.2 ⟨(root, complete), hroot, rfl⟩
  · exact (hcomplete.map _).trans (hnumbers ▸ hcompiled.nodes)

/-- Blogs with the latest posts of each, these with their tags, and with the distinct titles of their posts. -/
def taggedPosts : ShapedQuery :=
  let column (id : TableId) (name : String) : Expr := .column ⟨id, none, name, none, true⟩
  let tags : PendingCollection := ⟨none, "Tag", [], [0],
    ⟨{ Select.empty with projections := [⟨"Tag", column 3 "Tag"⟩], sources := [.table 3 none "Tags" none] }, .scalar 0 true⟩,
    [column 3 "PostId"], [0]⟩
  let posts : PendingCollection := ⟨some "Posts", "Post", [0], [0],
    ⟨{ Select.empty with
        projections := [⟨"Id", column 2 "Id"⟩, ⟨"Title", column 2 "Title"⟩], sources := [.table 2 none "Posts" none]
        orderings := [⟨column 2 "Date", false⟩], limit := some (.literal (.int32 2)) },
      .entity ⟨"Post", [0], [⟨"Title", 1, true⟩], [⟨"Tags", .pending tags⟩], false⟩⟩,
    [column 2 "BlogId"], [0]⟩
  let titles : PendingCollection := ⟨none, "Title", [0], [0],
    ⟨{ Select.empty with
        projections := [⟨"Title", column 4 "Title"⟩], sources := [.table 4 none "Posts" none], distinct := true },
      .scalar 0 true⟩,
    [column 4 "BlogId"], [0]⟩
  ⟨{ Select.empty with
      projections := [⟨"Id", column 1 "Id"⟩], sources := [.table 1 none "Blogs" none], offset := some (.literal (.int32 1)) },
    .record [⟨"Blog", .entity ⟨"Blog", [0], [], [⟨"Posts", .pending posts⟩], false⟩⟩, ⟨"Titles", .pending titles⟩]⟩

theorem ShapedQuery.compile_finalize_taggedPosts : taggedPosts.wellFormed false = true ∧
    ∃ finalized fresh' program, (taggedPosts.finalize { splitting := .split }).run.run ⟨0, 5⟩ = (.ok finalized, fresh') ∧
      finalized.compile = .ok program ∧ program.root.InRange finalized.shape.splitQueries finalized.query ∧
      (program.collections.map fun c => (c.elementType, c.id)).Perm [("Post", 0), ("Tag", 1), ("Title", 2)] := by
  have h : taggedPosts.wellFormed false = true := by decide
  obtain ⟨finalized, fresh', program, hfinalized, hprogram, hrange, -, hnumbers⟩ :=
    compile_finalize taggedPosts { splitting := .split } ⟨0, 5⟩ h
  exact ⟨h, finalized, fresh', program, hfinalized, hprogram, hrange, hnumbers⟩

end QueryShaping
