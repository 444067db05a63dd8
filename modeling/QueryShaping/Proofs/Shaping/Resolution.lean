import Mathlib.Data.List.Dedup
import Mathlib.Data.List.Perm.Lattice
import QueryShaping.Proofs.Shaping.Decoding
import QueryShaping.Proofs.Shaping.Decodings

/-!
# Resolved identity

What the list of decodings says about the entities is an invariant of shaping. Each decoding leads to an entity of its
type and key, which has the key and the fields of the first decoding that led to it. Within one scope two decodings lead
to the same entity exactly if type and key are the same; where identity is not resolved, each decoding leads to an entity
of its own. Navigations never leave the scope.

An entity that is known is decoded again, one that is not is made, and navigations are set: these are the ways in which
shaping changes the entities, and each of them keeps what has been said.
-/

namespace QueryShaping

open List

mutual

/-- The entities of a result, without those that are only reached by navigations. -/
def Result.ids : Result → List EntityId
  | .null => []
  | .scalar _ => []
  | .entity id => [id]
  | .collection items => Result.itemIds items
  | .record members => Result.memberIds members

def Result.itemIds : List Result → List EntityId
  | [] => []
  | r :: rest => r.ids ++ Result.itemIds rest

def Result.memberIds : List (String × Result) → List EntityId
  | [] => []
  | (_, r) :: rest => r.ids ++ Result.memberIds rest

end

/-! ## The invariant -/

/-- Whether an entity has been decoded in a scope. -/
def Decoded (log : List Decoding) (scope : ScopeName) (id : EntityId) : Prop :=
  ∃ d ∈ log, d.scope = scope ∧ d.id = id

/-- What the decodings so far say about the entities. -/
structure Graph.Resolved (g : Graph) (log : List Decoding) : Prop where
  /-- The keys have been read from the rows. -/
  read : ∀ d ∈ log, Binding.readAll d.node.key d.reader = .ok d.key
  /-- A decoding leads to an entity of its type and key. -/
  label : ∀ d ∈ log, ∃ x, g.get? d.id = some x ∧ x.label = d.label
  /-- Key and fields of an entity are those of its first decoding. -/
  first : ∀ id d, log.find? (·.id = id) = some d →
    ∃ x, g.get? id = some x ∧ x.key = d.key ∧ d.node.readFields d.reader = .ok x.fields
  /-- Where identity is resolved, an entity is known by its scope, type and key. -/
  same : ∀ d ∈ log, ∀ d' ∈ log, d.scope ≠ .nowhere →
    (d.id = d'.id ↔ d.scope = d'.scope ∧ d.label = d'.label)
  /-- Where it is not, no two decodings lead to the same entity. -/
  apart : log.Pairwise fun d d' => d.scope = .nowhere → d.id ≠ d'.id
  /-- Navigations lead to entities of the same scope. -/
  navigations : ∀ id x, g.get? id = some x → ∀ nav ∈ x.navigations, ∀ id' ∈ nav.2.ids, ∀ scope,
    Decoded log scope id → Decoded log scope id'

/-- Whether the entities that are known are those that have been decoded in a scope. -/
structure IdentityMap.Represents (m : IdentityMap) (log : List Decoding) (scope : ScopeName) : Prop where
  find : ∀ entityType key id, m.find? entityType key = some id ↔
    ∃ d ∈ log, d.scope = scope ∧ d.label = (entityType, key) ∧ d.id = id
  nodup : (m.entries.map Prod.fst).Nodup

/-- More decodings, all of them in one scope. -/
def Decoding.Grows (scope : ScopeName) (log log' : List Decoding) : Prop :=
  ∃ new, log' = log ++ new ∧ ∀ d ∈ new, d.scope = scope

namespace Decoding.Grows

variable {scope : ScopeName} {log log' log'' : List Decoding}

theorem refl (scope : ScopeName) (log : List Decoding) : Decoding.Grows scope log log :=
  ⟨[], (append_nil log).symm, forall_mem_nil _⟩

theorem trans (h : Decoding.Grows scope log log') (h' : Decoding.Grows scope log' log'') :
    Decoding.Grows scope log log'' := by
  obtain ⟨new, rfl, hnew⟩ := h
  obtain ⟨new', rfl, hnew'⟩ := h'
  exact ⟨new ++ new', append_assoc .., forall_mem_append.2 ⟨hnew, hnew'⟩⟩

theorem isPrefix (h : Decoding.Grows scope log log') : log <+: log' :=
  h.imp fun _ h => h.1.symm

end Decoding.Grows

theorem Decoded.mono {log log' : List Decoding} {scope : ScopeName} {id : EntityId} (h : Decoded log scope id)
    (hlog : log <+: log') : Decoded log' scope id :=
  h.imp fun _ hd => ⟨hlog.subset hd.1, hd.2⟩

theorem Entity.mem_putNavigation {name : String} {value : Result} {nav : String × Result} :
    ∀ {navigations : List (String × Result)}, nav ∈ putNavigation name value navigations →
      nav.2 = value ∨ nav ∈ navigations
  | [], h => .inl (by cases mem_singleton.1 h; rfl)
  | (other, old) :: rest, h => by
    unfold putNavigation at h
    split at h
    · rcases mem_cons.1 h with rfl | h
      · exact .inl rfl
      · exact .inr (mem_cons_of_mem _ h)
    · rcases mem_cons.1 h with rfl | h
      · exact .inr mem_cons_self
      · exact (mem_putNavigation h).imp_right (mem_cons_of_mem _)

namespace Graph.Resolved

variable {g : Graph} {log : List Decoding} {d : Decoding}

theorem lt_size (h : g.Resolved log) {scope : ScopeName} {id : EntityId} (hid : Decoded log scope id) : id < g.size := by
  obtain ⟨d, hd, -, rfl⟩ := hid
  obtain ⟨x, hx, -⟩ := h.label d hd
  exact lt_size_of_get? hx

/-- No entity belongs to two scopes. -/
theorem scope_eq (h : g.Resolved log) {scope scope' : ScopeName} {id : EntityId} (hid : Decoded log scope id)
    (hid' : Decoded log scope' id) : scope = scope' := by
  obtain ⟨d, hd, rfl, rfl⟩ := hid
  obtain ⟨d', hd', rfl, hid⟩ := hid'
  by_cases hscope : d.scope = .nowhere
  · by_cases hscope' : d'.scope = .nowhere
    · exact hscope.trans hscope'.symm
    · exact ((h.same d' hd' d hd hscope').1 hid).1.symm
  · exact ((h.same d hd d' hd' hscope).1 hid.symm).1

/-- An entity that is known already is decoded once more. -/
theorem again (h : g.Resolved log) (hread : Binding.readAll d.node.key d.reader = .ok d.key)
    (hscope : d.scope ≠ .nowhere) {d₀ : Decoding} (hd₀ : d₀ ∈ log) (hscope₀ : d₀.scope = d.scope)
    (hlabel₀ : d₀.label = d.label) (hid₀ : d₀.id = d.id) : g.Resolved (log ++ [d]) := by
  -- An earlier decoding stands for each, the last one included.
  have hearlier : ∀ e ∈ log ++ [d], ∃ e' ∈ log, e'.scope = e.scope ∧ e'.label = e.label ∧ e'.id = e.id :=
    forall_mem_append.2 ⟨fun e he => ⟨e, he, rfl, rfl, rfl⟩,
      forall_mem_singleton.2 ⟨d₀, hd₀, hscope₀, hlabel₀, hid₀⟩⟩
  constructor
  case read => exact forall_mem_append.2 ⟨h.read, forall_mem_singleton.2 hread⟩
  case label =>
    intro e he
    obtain ⟨e', he', -, hlabel, hid⟩ := hearlier e he
    rw [← hlabel, ← hid]
    exact h.label e' he'
  case first =>
    intro id e hfind
    rw [find?_append, Option.or_eq_some_iff] at hfind
    obtain hfind | ⟨hnone, hlast⟩ := hfind
    · exact h.first id e hfind
    · have hid : e.id = id := by simpa using find?_some hlast
      obtain ⟨e', he', -, -, hid'⟩ := hearlier e (mem_append_right _ (mem_of_find?_eq_some hlast))
      have hne := find?_eq_none.1 hnone e' he'
      exact absurd (decide_eq_true (hid'.trans hid)) hne
  case same =>
    intro e he f hf hne
    obtain ⟨e', he', hscope, hlabel, hid⟩ := hearlier e he
    obtain ⟨f', hf', hscope', hlabel', hid'⟩ := hearlier f hf
    rw [← hscope] at hne
    rw [← hscope, ← hlabel, ← hid, ← hscope', ← hlabel', ← hid']
    exact h.same e' he' f' hf' hne
  case apart =>
    refine List.pairwise_append.2 ⟨h.apart, pairwise_singleton _ _, ?_⟩
    intro e he f hf hnowhere hid
    cases mem_singleton.1 hf
    have hscope' : d₀.scope ≠ .nowhere := hscope₀ ▸ hscope
    have hsame := (h.same d₀ hd₀ e he hscope').1 (hid₀.trans hid.symm)
    exact hscope' (hsame.1.trans hnowhere)
  case navigations =>
    intro id x hx nav hnav id' hid' scope hdecoded
    obtain ⟨e, he, hscope, hid⟩ := hdecoded
    obtain ⟨e', he', hscope', -, hid''⟩ := hearlier e he
    have hdecoded : Decoded log scope id := ⟨e', he', hscope'.trans hscope, hid''.trans hid⟩
    exact (h.navigations id x hx nav hnav id' hid' scope hdecoded).mono (prefix_append _ _)

/-- An entity that is not known is made. -/
theorem add (h : g.Resolved log) (hread : Binding.readAll d.node.key d.reader = .ok d.key)
    {fields : List (String × Value)} (hfields : d.node.readFields d.reader = .ok fields) (hid : d.id = g.size)
    (hnew : d.scope ≠ .nowhere → ∀ e ∈ log, e.scope = d.scope → e.label ≠ d.label) :
    (g.add d.node.entityType d.key fields).2.Resolved (log ++ [d]) := by
  have hold : ∀ e ∈ log, e.id ≠ g.size := fun e he => Nat.ne_of_lt (h.lt_size ⟨e, he, rfl, rfl⟩)
  have hget : (g.add d.node.entityType d.key fields).2.get? d.id = some ⟨d.node.entityType, d.key, fields, []⟩ := by
    rw [get?_add, if_pos hid]
  have hkept (j : EntityId) (x : Entity) (hx : g.get? j = some x) :
      (g.add d.node.entityType d.key fields).2.get? j = some x := by
    rw [get?_add, if_neg (Nat.ne_of_lt (lt_size_of_get? hx)), hx]
  constructor
  case read => exact forall_mem_append.2 ⟨h.read, forall_mem_singleton.2 hread⟩
  case label =>
    refine forall_mem_append.2 ⟨fun e he => ?_, forall_mem_singleton.2 ⟨_, hget, rfl⟩⟩
    obtain ⟨x, hx, hlabel⟩ := h.label e he
    exact ⟨x, hkept _ x hx, hlabel⟩
  case first =>
    intro id e hfind
    rw [find?_append, Option.or_eq_some_iff] at hfind
    obtain hfind | ⟨-, hlast⟩ := hfind
    · obtain ⟨x, hx, hkey, hread⟩ := h.first id e hfind
      exact ⟨x, hkept id x hx, hkey, hread⟩
    · have hid' : e.id = id := by simpa using find?_some hlast
      cases mem_singleton.1 (mem_of_find?_eq_some hlast)
      exact ⟨_, hid' ▸ hget, rfl, hfields⟩
  case same =>
    refine forall_mem_append.2 ⟨fun e he => forall_mem_append.2 ⟨h.same e he, ?_⟩, ?_⟩
    · refine forall_mem_singleton.2 fun hne => ⟨fun hsame => absurd (hsame.trans hid) (hold e he), ?_⟩
      rintro ⟨hscope, hlabel⟩
      exact absurd hlabel (hnew (hscope ▸ hne) e he hscope)
    · refine forall_mem_singleton.2 (forall_mem_append.2 ⟨fun e he hne => ⟨fun hsame => ?_, ?_⟩, ?_⟩)
      · exact absurd (hsame.symm.trans hid) (hold e he)
      · rintro ⟨hscope, hlabel⟩
        exact absurd hlabel.symm (hnew hne e he hscope.symm)
      · exact forall_mem_singleton.2 fun _ => iff_of_true rfl ⟨rfl, rfl⟩
  case apart =>
    refine List.pairwise_append.2 ⟨h.apart, pairwise_singleton _ _, fun e he f hf _ => ?_⟩
    cases mem_singleton.1 hf
    exact hid ▸ hold e he
  case navigations =>
    intro id x hx nav hnav id' hid' scope hdecoded
    rw [get?_add] at hx
    split at hx
    · cases hx
      cases hnav
    · next hne =>
      obtain ⟨e, he, hscope, hide⟩ := hdecoded
      rcases mem_append.1 he with he | he
      · exact (h.navigations id x hx nav hnav id' hid' scope ⟨e, he, hscope, hide⟩).mono (prefix_append _ _)
      · cases mem_singleton.1 he
        exact absurd (hide.symm.trans hid) hne

/-- A navigation is set to entities of the same scope. -/
theorem setNavigation (h : g.Resolved log) {scope : ScopeName} {id : EntityId} {name : String} {value : Result}
    (hid : Decoded log scope id) (hvalue : ∀ id' ∈ value.ids, Decoded log scope id') :
    (g.setNavigation id name value).Resolved log := by
  have hkept (j : EntityId) (x : Entity) (hx : g.get? j = some x) : ∃ y, (g.setNavigation id name value).get? j = some y ∧
      y.entityType = x.entityType ∧ y.key = x.key ∧ y.fields = x.fields := by
    rw [get?_setNavigation, hx]
    split
    · exact ⟨_, rfl, rfl, rfl, rfl⟩
    · exact ⟨_, rfl, rfl, rfl, rfl⟩
  constructor
  case read => exact h.read
  case label =>
    intro d hd
    obtain ⟨x, hx, hlabel⟩ := h.label d hd
    obtain ⟨y, hy, htype, hkey, -⟩ := hkept _ x hx
    refine ⟨y, hy, Eq.trans ?_ hlabel⟩
    rw [Entity.label, Entity.label, Entity.identity, Entity.identity, htype, hkey]
  case first =>
    intro j d hfind
    obtain ⟨x, hx, hkey, hfields⟩ := h.first j d hfind
    obtain ⟨y, hy, -, hkey', hfields'⟩ := hkept j x hx
    exact ⟨y, hy, hkey'.trans hkey, hfields' ▸ hfields⟩
  case same => exact h.same
  case apart => exact h.apart
  case navigations =>
    intro j y hy nav hnav id' hid' scope' hdecoded
    rw [get?_setNavigation] at hy
    split at hy
    · next hj =>
      subst hj
      obtain ⟨x, hx, rfl⟩ := Option.map_eq_some_iff.1 hy
      rcases Entity.mem_putNavigation hnav with hvalue' | hnav
      · rw [hvalue'] at hid'
        exact h.scope_eq hid hdecoded ▸ hvalue id' hid'
      · exact h.navigations j x hx nav hnav id' hid' scope' hdecoded
    · exact h.navigations j y hy nav hnav id' hid' scope' hdecoded

end Graph.Resolved

namespace IdentityMap.Represents

variable {m : IdentityMap} {log : List Decoding} {scope : ScopeName} {d : Decoding}

/-- Decodings in other scopes make no difference. -/
theorem other (h : m.Represents log scope) {new : List Decoding} (hnew : ∀ d ∈ new, d.scope ≠ scope) :
    m.Represents (log ++ new) scope := by
  refine ⟨fun entityType key id => (h.find entityType key id).trans ⟨?_, ?_⟩, h.nodup⟩
  · rintro ⟨d, hd, hdecoding⟩
    exact ⟨d, mem_append_left _ hd, hdecoding⟩
  · rintro ⟨d, hd, hscope, hdecoding⟩
    rcases mem_append.1 hd with hd | hd
    · exact ⟨d, hd, hscope, hdecoding⟩
    · exact absurd hscope (hnew d hd)

theorem again (h : m.Represents log scope) {d₀ : Decoding} (hd₀ : d₀ ∈ log) (hscope₀ : d₀.scope = d.scope)
    (hlabel₀ : d₀.label = d.label) (hid₀ : d₀.id = d.id) : m.Represents (log ++ [d]) scope := by
  refine ⟨fun entityType key id => (h.find entityType key id).trans ⟨?_, ?_⟩, h.nodup⟩
  · rintro ⟨e, he, hdecoding⟩
    exact ⟨e, mem_append_left _ he, hdecoding⟩
  · rintro ⟨e, he, hscope, hlabel, hid⟩
    rcases mem_append.1 he with he | he
    · exact ⟨e, he, hscope, hlabel, hid⟩
    · cases mem_singleton.1 he
      exact ⟨d₀, hd₀, hscope₀.trans hscope, hlabel₀.trans hlabel, hid₀.trans hid⟩

theorem add (h : m.Represents log scope) (hscope : d.scope = scope)
    (hnone : m.find? d.node.entityType (Key.ofValues d.key) = none) :
    (m.add d.node.entityType (Key.ofValues d.key) d.id).Represents (log ++ [d]) scope := by
  have hnew : ∀ e ∈ log, e.scope = scope → e.label ≠ d.label := by
    intro e he hscope hlabel
    have hfind := (h.find d.node.entityType (Key.ofValues d.key) e.id).2 ⟨e, he, hscope, hlabel, rfl⟩
    rw [hnone] at hfind
    cases hfind
  constructor
  case find =>
    intro entityType key id
    rw [IdentityMap.find?_add hnone]
    split
    · next heq =>
      refine ⟨fun hid => ⟨d, by simp, hscope, heq.symm, Option.some.inj hid⟩, ?_⟩
      rintro ⟨e, he, hscope', hlabel, hid⟩
      rcases mem_append.1 he with he | he
      · exact absurd (hlabel.trans heq) (hnew e he hscope')
      · cases mem_singleton.1 he
        exact congrArg some hid
    · next hne =>
      rw [h.find]
      constructor
      · rintro ⟨e, he, hdecoding⟩
        exact ⟨e, mem_append_left _ he, hdecoding⟩
      · rintro ⟨e, he, hscope', hlabel, hid⟩
        rcases mem_append.1 he with he | he
        · exact ⟨e, he, hscope', hlabel, hid⟩
        · cases mem_singleton.1 he
          exact absurd hlabel.symm hne
  case nodup =>
    unfold IdentityMap.add
    rw [hnone]
    refine nodup_cons.2 ⟨fun hmem => ?_, h.nodup⟩
    obtain ⟨entry, hentry, hlabel⟩ := mem_map.1 hmem
    have hlookup := List.lookup_eq_none_iff.1 hnone entry hentry
    exact absurd hlabel.symm (by simpa using hlookup)

/-- So many entities are known as there are types and keys among the decodings. -/
theorem size_eq (h : m.Represents log scope) :
    m.size = (((log.filter (·.scope = scope)).map Decoding.label).dedup).length := by
  have hperm : (m.entries.map Prod.fst).Perm (((log.filter (·.scope = scope)).map Decoding.label).dedup) := by
    refine (perm_ext_iff_of_nodup h.nodup (nodup_dedup _)).2 fun label => ?_
    have hknown : label ∈ m.entries.map Prod.fst ↔ ∃ id, m.find? label.1 label.2 = some id := by
      rw [← Option.isSome_iff_exists, IdentityMap.find?, lookup_isSome_iff, mem_map]
      simp only [beq_iff_eq]
      exact exists_congr fun _ => and_congr_right fun _ => eq_comm
    rw [hknown, mem_dedup, mem_map]
    constructor
    · rintro ⟨id, hfind⟩
      obtain ⟨d, hd, hscope, hlabel, -⟩ := (h.find _ _ _).1 hfind
      exact ⟨d, mem_filter.2 ⟨hd, decide_eq_true hscope⟩, hlabel⟩
    · rintro ⟨d, hd, hlabel⟩
      obtain ⟨hd, hscope⟩ := mem_filter.1 hd
      exact ⟨d.id, (h.find _ _ _).2 ⟨d, hd, of_decide_eq_true hscope, hlabel, rfl⟩⟩
  have hlength := hperm.length_eq
  rwa [length_map] at hlength

end IdentityMap.Represents

end QueryShaping
