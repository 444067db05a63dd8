import Mathlib.Data.List.Forall2
import Mathlib.Data.List.Nodup
import QueryShaping.Value.Json

/-!
# Forms of a JSON value

The same value can be written in several forms: the members of an object stand in any order, and one that is `null` may
be left out. What a value has been encoded from is read back from each of its forms, so decoding has to be followed
through the forms of a value and not only through the value itself.
-/

namespace QueryShaping.Json

open List

variable {members : List (String × Json)}

/-- A value and a form of it. -/
inductive Form : Json → Json → Prop
  | refl (j : Json) : Form j j
  | array {items items' : List Json} (h : List.Forall₂ Form items items') : Form (.array items) (.array items')
  | object {members members' : List (String × Json)} (distinct : (members'.map Prod.fst).Nodup)
      (names : ∀ name ∈ members'.map Prod.fst, name ∈ members.map Prod.fst)
      (kept : ∀ name v, (name, v) ∈ members → v ≠ .null → name ∈ members'.map Prod.fst)
      (values : ∀ name v v', (name, v) ∈ members → (name, v') ∈ members' → Form v v') :
      Form (.object members) (.object members')

namespace Form

variable {j : Json}

theorem eq_null (h : Form .null j) : j = .null := by
  cases h
  rfl

theorem eq_bool {b : Bool} (h : Form (.bool b) j) : j = .bool b := by
  cases h
  rfl

theorem eq_int {n : Int} (h : Form (.int n) j) : j = .int n := by
  cases h
  rfl

theorem eq_string {s : String} (h : Form (.string s) j) : j = .string s := by
  cases h
  rfl

theorem ne_null {j' : Json} (h : Form j j') (hnull : j ≠ .null) : j' ≠ .null := by
  cases h with
  | refl => exact hnull
  | array | object => exact nofun

theorem of_array {items : List Json} (h : Form (.array items) j) :
    ∃ items', j = .array items' ∧ List.Forall₂ Form items items' := by
  cases h with
  | refl => exact ⟨items, rfl, List.forall₂_same.2 fun j _ => .refl j⟩
  | array h => exact ⟨_, rfl, h⟩

/-- A form of an object has each of its members, or leaves it out if it is `null`. -/
theorem of_object (h : Form (.object members) j)
    (hdistinct : (members.map Prod.fst).Nodup) : ∃ members', j = .object members' ∧ (members'.map Prod.fst).Nodup ∧
      (∀ name ∈ members'.map Prod.fst, name ∈ members.map Prod.fst) ∧
      (∀ name v, (name, v) ∈ members → v ≠ .null → name ∈ members'.map Prod.fst) ∧
      ∀ name v v', (name, v) ∈ members → (name, v') ∈ members' → Form v v' := by
  cases h with
  | refl =>
    refine ⟨members, rfl, hdistinct, fun _ => id, fun name v hv _ => mem_map_of_mem hv, fun name v v' hv hv' => ?_⟩
    cases inj_on_of_nodup_map hdistinct hv hv' rfl
    exact .refl v
  | object distinct names kept values => exact ⟨_, rfl, distinct, names, kept, values⟩

theorem of_variant {tag : String} {payload : Json} (h : Form (.variant tag payload) j) (hpayload : payload ≠ .null) :
    ∃ payload', j = .variant tag payload' ∧ Form payload payload' := by
  obtain ⟨members, rfl, hdistinct, hnames, hkept, hvalues⟩ := of_object h (nodup_singleton tag)
  have htag : tag ∈ members.map Prod.fst := hkept tag payload (mem_singleton_self _) hpayload
  have hall : ∀ name ∈ members.map Prod.fst, name = tag := fun name hname => by simpa using hnames name hname
  match members with
  | [] => simp at htag
  | [(name, v)] =>
    obtain rfl : name = tag := hall name (by simp)
    exact ⟨v, rfl, hvalues _ _ _ (mem_singleton_self _) (mem_singleton_self _)⟩
  | (name, v) :: (name', v') :: rest =>
    have hsame : name = name' := (hall name (by simp)).trans (hall name' (by simp)).symm
    simp [hsame] at hdistinct

end Form

/-- What has been encoded is read back from every form of its code. The code is not `null`, which would mean that there
is nothing. -/
structure ReadsBack {α : Type} (encode : α → Json) (decode : Json → Option α) (a : α) : Prop where
  ne_null : encode a ≠ .null
  decode_form : ∀ {j}, (encode a).Form j → decode j = some a

variable {α : Type} {decode : Json → Option α} {encode : α → Json} {whole j : Json}

/-- One step of a reader. A reader is followed from step to step, in its own order, so that no step is looked at before
the ones in front of it have been taken. -/
theorem bind_of_some {β : Type} {x : Option α} {f : α → Option β} {a : α} {o : Option β} (hx : x = some a)
    (hf : f a = o) : (x >>= f) = o := by
  rw [hx]
  exact hf

theorem readsBack_string (s : String) : ReadsBack .string string? s :=
  ⟨nofun, fun h => by rw [h.eq_string]; rfl⟩

theorem readsBack_bool (b : Bool) : ReadsBack .bool bool? b :=
  ⟨nofun, fun h => by rw [h.eq_bool]; rfl⟩

/-! ## Items -/

/-- Items are read one by one. -/
theorem mapM_of_form {β : Type} {value : β → Json} {as : List α} {items : List β}
    (hitems : List.Forall₂ (fun j item => j.Form (value item)) (as.map encode) items)
    (h : ∀ a ∈ as, ReadsBack encode decode a) : (items.mapM fun item => decode (value item)) = some as := by
  induction as generalizing items with
  | nil =>
    cases hitems
    rfl
  | cons a as ih =>
    obtain _ | ⟨hfirst, hrest⟩ := hitems
    have ha := (h a mem_cons_self).decode_form hfirst
    have has := ih hrest fun b hb => h b (mem_cons_of_mem a hb)
    simp [mapM_cons, ha, has]

theorem readsBack_list {as : List α} (h : ∀ a ∈ as, ReadsBack encode decode a) :
    ReadsBack (fun as => .array (as.map encode)) (listWith? decode) as := by
  refine ⟨nofun, fun hj => ?_⟩
  obtain ⟨items, rfl, hitems⟩ := hj.of_array
  exact mapM_of_form hitems h

theorem parts?_of_form {p : Part whole} {items : List Json} (h : Form (.array items) p.value) :
    ∃ parts, p.parts? = some parts ∧ List.Forall₂ (fun j (part : Part whole) => j.Form part.value) items parts := by
  obtain ⟨value, smaller⟩ := p
  obtain ⟨items', rfl, hitems⟩ := h.of_array
  refine ⟨_, rfl, ?_⟩
  rw [← attach_map_subtype_val items', forall₂_map_right_iff] at hitems
  rwa [forall₂_map_right_iff, forall₂_map_right_iff]

/-! ## Fields -/

/-- Fields that are those of a form of an object with these members. -/
structure Fields.Hold (f : Fields whole) (members : List (String × Json)) : Prop where
  value : ∀ {name v}, members.lookup name = some v → v ≠ .null → ∃ p, f.get? name = some p ∧ v.Form p.value
  null : ∀ {name}, members.lookup name = some .null → f.value? name = none ∨ f.value? name = some .null

theorem Fields.value?_eq (f : Fields whole) (name : String) :
    f.value? name = ((f.named.map fun (n, p) => (n, p.value)).reverse.find? (·.1 = name)).map Prod.snd := by
  rw [← map_reverse, find?_map, Option.map_map]
  exact Option.map_map ..

theorem members?_object (members : List (String × Json)) :
    ∃ f, (object members).members? = some f ∧ (f.named.map fun (n, p) => (n, p.value)) = members := by
  refine ⟨_, rfl, ?_⟩
  rw [map_map]
  exact attach_map_subtype_val members

theorem members?_of_form (names : List String) (h : Form (.object members) j)
    (hnames : members.map Prod.fst = names) (hdistinct : names.Nodup) :
    ∃ f, j.members? = some f ∧ f.Hold members := by
  obtain ⟨members', rfl, -, -, hkept, hvalues⟩ := h.of_object (hnames ▸ hdistinct)
  obtain ⟨f, hf, hnamed⟩ := members?_object members'
  have hlookup {name : String} {v : Json} (hv : members.lookup name = some v) : (name, v) ∈ members := by
    obtain ⟨before, after, rfl, -⟩ := List.lookup_eq_some_iff.1 hv
    simp
  have hmem {name : String} {v : Json} (hv : f.value? name = some v) : (name, v) ∈ members' := by
    rw [f.value?_eq, hnamed, Option.map_eq_some_iff] at hv
    obtain ⟨⟨name', v⟩, hfound, rfl⟩ := hv
    obtain rfl : name' = name := by simpa using find?_some hfound
    exact List.mem_reverse.1 (mem_of_find?_eq_some hfound)
  refine ⟨f, hf, fun {name v} hname hnull => ?_, fun {name} hname => ?_⟩
  · have hv := hlookup hname
    obtain ⟨⟨name, v'⟩, hv', rfl⟩ := mem_map.1 (hkept name v hv hnull)
    cases hget : f.get? name with
    | none =>
      have hnone : f.value? name = none := by rw [Fields.value?, hget]; rfl
      rw [f.value?_eq, hnamed, Option.map_eq_none_iff, find?_eq_none] at hnone
      exact (hnone _ (List.mem_reverse.2 hv') (by simp)).elim
    | some p => exact ⟨p, rfl, hvalues _ _ _ hv (hmem (by rw [Fields.value?, hget]; rfl))⟩
  · cases hfound : f.value? name with
    | none => exact .inl rfl
    | some v => exact .inr (congrArg some (hvalues _ _ _ (hlookup hname) (hmem hfound)).eq_null)

theorem fields?_of_form (names : List String) (h : Form (.object members) j)
    (hnames : members.map Prod.fst = names) (hdistinct : names.Nodup) :
    ∃ f, j.fields? names = some f ∧ f.Hold members := by
  obtain ⟨members', rfl, -⟩ := h.of_object (hnames ▸ hdistinct)
  exact members?_of_form names h hnames hdistinct

namespace Part

variable {p : Part whole}

/-- Fields of a part are found in the whole as well. -/
theorem hold_lift {f : Fields p.value} (h : f.Hold members) : (p.lift f).Hold members := by
  have hget (name : String) : (p.lift f).get? name = (f.get? name).map p.within := by
    rw [Fields.get?, lift, ← map_reverse, find?_map, Option.map_map, Fields.get?, Option.map_map]
    rfl
  refine ⟨fun {name v} hv hnull => ?_, fun {name} hv => ?_⟩
  · obtain ⟨part, hpart, hform⟩ := h.value hv hnull
    exact ⟨p.within part, by rw [hget, hpart]; rfl, hform⟩
  · rw [Fields.value?, hget, Option.map_map]
    exact h.null hv

theorem members?_of_form (names : List String) (h : Form (.object members) p.value)
    (hnames : members.map Prod.fst = names) (hdistinct : names.Nodup) :
    ∃ f, p.members? = some f ∧ f.Hold members := by
  obtain ⟨f, hf, hhold⟩ := Json.members?_of_form names h hnames hdistinct
  exact ⟨p.lift f, by rw [members?, hf]; rfl, hold_lift hhold⟩

theorem fields?_of_form (names : List String) (h : Form (.object members) p.value)
    (hnames : members.map Prod.fst = names) (hdistinct : names.Nodup) :
    ∃ f, p.fields? names = some f ∧ f.Hold members := by
  obtain ⟨f, hf, hhold⟩ := Json.fields?_of_form names h hnames hdistinct
  exact ⟨p.lift f, by rw [fields?, hf]; rfl, hold_lift hhold⟩

end Part

theorem tagged?_of_form {tag : String} {payload : Json} (h : Form (.variant tag payload) j) (hpayload : payload ≠ .null) :
    ∃ p : Part j, j.tagged? = some (tag, p) ∧ payload.Form p.value := by
  obtain ⟨payload', rfl, hform⟩ := h.of_variant hpayload
  exact ⟨_, rfl, hform⟩

theorem Part.tagged?_of_form {p : Part whole} {tag : String} {payload : Json} (h : Form (.variant tag payload) p.value)
    (hpayload : payload ≠ .null) : ∃ q : Part whole, p.tagged? = some (tag, q) ∧ payload.Form q.value := by
  obtain ⟨q, hq, hform⟩ := Json.tagged?_of_form h hpayload
  exact ⟨p.within q, by rw [tagged?, hq]; rfl, hform⟩

namespace Fields.Hold

variable {β : Type} {f : Fields whole} {members : List (String × Json)}

theorem get? (h : f.Hold members) (name : String) {a : α} (ha : ReadsBack encode decode a)
    (hname : members.lookup name = some (encode a)) : ∃ p, f.get? name = some p ∧ decode p.value = some a := by
  obtain ⟨p, hp, hform⟩ := h.value hname ha.ne_null
  exact ⟨p, hp, ha.decode_form hform⟩

theorem bind_value? (h : f.Hold members) (name : String) {a : α} {k : α → Option β} {o : Option β}
    (ha : ReadsBack encode decode a) (hname : members.lookup name = some (encode a)) (hk : k a = o) :
    (f.value? name >>= fun v => decode v >>= k) = o := by
  obtain ⟨p, hp, hdecode⟩ := h.get? name ha hname
  have hv : f.value? name = some p.value := by rw [Fields.value?, hp]; rfl
  exact bind_of_some hv <| bind_of_some hdecode hk

theorem option? (h : f.Hold members) (name : String) {o : Option α} (ho : ∀ a ∈ o, ReadsBack encode decode a)
    (hname : members.lookup name = some (ofOption encode o)) : f.option? decode name = some o := by
  cases o with
  | none =>
    rcases h.null hname with hnone | hnull
    · rw [Fields.option?, hnone]
      rfl
    · rw [Fields.option?, hnull]
      rfl
  | some a =>
    obtain ⟨p, hp, hform⟩ := h.value hname (ho a rfl).ne_null
    have hread : optionWith? decode (some p.value) = (decode p.value).map some := by
      have hnull := hform.ne_null (ho a rfl).ne_null
      cases hp : p.value <;> first | exact (hnull hp).elim | rfl
    rw [Fields.option?, Fields.value?, hp]
    exact hread.trans (congrArg (Option.map some) ((ho a rfl).decode_form hform))

theorem optional? (h : f.Hold members) (name : String) {o : Option α} (ho : ∀ a ∈ o, ReadsBack encode decode a)
    {code : Json} (hcode : code = ofOption encode o) (hname : members.lookup name = some code) :
    ((f.optional? name).mapM fun p => decode p.value) = some o := by
  subst hcode
  cases o with
  | none =>
    have hnone : f.optional? name = none := by
      have hnull := h.null hname
      unfold Fields.optional?
      cases hget : f.get? name with
      | none => rfl
      | some p =>
        obtain ⟨v, hsmaller⟩ := p
        obtain rfl : v = .null := by simpa [Fields.value?, hget] using hnull
        rfl
    rw [hnone]
    rfl
  | some a =>
    obtain ⟨⟨v, hsmaller⟩, hp, hform⟩ := h.value hname (ho a rfl).ne_null
    have hfound : f.optional? name = some ⟨v, hsmaller⟩ := by
      have hnull := hform.ne_null (ho a rfl).ne_null
      unfold Fields.optional?
      rw [hp]
      cases v <;> first | exact (hnull rfl).elim | rfl
    rw [hfound]
    exact congrArg (Option.map some) ((ho a rfl).decode_form hform)

theorem bind_items? (h : f.Hold members) (name : String) {as : List α} {k : List α → Option β} {o : Option β}
    (has : ∀ a ∈ as, ReadsBack encode decode a) {codes : List Json} (hcodes : codes = as.map encode)
    (hname : members.lookup name = some (.array codes)) (hk : k as = o) :
    (f.items? name >>= fun parts => (parts.mapM fun p => decode p.value) >>= k) = o := by
  subst hcodes
  obtain ⟨p, hp, hform⟩ := h.value hname nofun
  obtain ⟨parts, hparts, hitems⟩ := parts?_of_form hform
  have hread : f.items? name = some parts := by rw [Fields.items?, hp]; exact hparts
  exact bind_of_some hread <| bind_of_some (mapM_of_form hitems has) hk

end Fields.Hold

/-! ## Codes of nodes -/

namespace ReadsBack

variable {a : α} {tag : String} {members : List (String × Json)}

/-- A node whose code is an object is read through its fields. -/
theorem of_fields (names : List String) (hcode : encode a = .object members) (hnames : members.map Prod.fst = names)
    (hdistinct : names.Nodup)
    (hread : ∀ {j} {f : Fields j}, j.fields? names = some f → f.Hold members → decode j = some a) :
    ReadsBack encode decode a := by
  refine ⟨hcode ▸ nofun, fun {j} hj => ?_⟩
  obtain ⟨f, hf, hhold⟩ := fields?_of_form names (hcode ▸ hj) hnames hdistinct
  exact hread hf hhold

/-- A variant is read through its tag, and then as its payload is. -/
theorem of_payload {β : Type} {encode' : β → Json} {decode' : Json → Option β} {b : β} (hb : ReadsBack encode' decode' b)
    (hcode : encode a = .variant tag (encode' b))
    (hread : ∀ {j} {p : Part j}, j.tagged? = some (tag, p) → decode' p.value = some b → decode j = some a) :
    ReadsBack encode decode a := by
  refine ⟨hcode ▸ nofun, fun {j} hj => ?_⟩
  obtain ⟨p, htag, hp⟩ := tagged?_of_form (hcode ▸ hj) hb.ne_null
  exact hread htag (hb.decode_form hp)

/-- A variant whose payload is an object is read through its tag and its fields. -/
theorem of_variant (names : List String) (hcode : encode a = .variant tag (.object members))
    (hnames : members.map Prod.fst = names) (hdistinct : names.Nodup)
    (hread : ∀ {j} {p : Part j} {f : Fields j}, j.tagged? = some (tag, p) → p.fields? names = some f →
      f.Hold members → decode j = some a) : ReadsBack encode decode a := by
  refine ⟨hcode ▸ nofun, fun {j} hj => ?_⟩
  rw [hcode] at hj
  obtain ⟨p, htag, hp⟩ := tagged?_of_form hj nofun
  obtain ⟨f, hf, hhold⟩ := Part.fields?_of_form names hp hnames hdistinct
  exact hread htag hf hhold

end ReadsBack

end QueryShaping.Json
