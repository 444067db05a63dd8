/-!
# Steps that can fail

How a chain of steps that can fail is taken apart. A chain succeeds when each of its steps does, and a step over a list
succeeds when it does on every item.
-/

namespace QueryShaping

open List

variable {ε α β γ δ : Type}

theorem Except.bind_eq_ok_iff {x : Except ε α} {f : α → Except ε β} {b : β} :
    (x >>= f) = .ok b ↔ ∃ a, x = .ok a ∧ f a = .ok b := by
  cases x with
  | error e => simp [bind, Except.bind]
  | ok a => simp [bind, Except.bind]

theorem Except.map_eq_ok_iff {x : Except ε α} {f : α → β} {b : β} :
    (f <$> x) = .ok b ↔ ∃ a, x = .ok a ∧ f a = b := by
  cases x with
  | error e => simp [Functor.map, Except.map]
  | ok a => simp [Functor.map, Except.map]

theorem Except.pure_eq_ok_iff {a b : α} : (pure a : Except ε α) = .ok b ↔ a = b := by
  simp [pure, Except.pure]

/-- A step over a list gives the list of what it gives on the items. -/
theorem Except.mapM_eq_ok_iff {f : α → Except ε β} {l : List α} {bs : List β} :
    l.mapM f = .ok bs ↔ l.map f = bs.map .ok := by
  induction l generalizing bs with
  | nil =>
    rw [mapM_nil, pure_eq_ok_iff]
    cases bs <;> simp
  | cons a l ih =>
    rw [mapM_cons, bind_eq_ok_iff]
    constructor
    · rintro ⟨b, hb, h⟩
      rw [bind_eq_ok_iff] at h
      obtain ⟨rest, hrest, h⟩ := h
      rw [pure_eq_ok_iff] at h
      subst h
      rw [map_cons, map_cons, hb, ih.1 hrest]
    · intro h
      cases bs with
      | nil => simp at h
      | cons b rest =>
        rw [map_cons, map_cons, List.cons.injEq] at h
        refine ⟨b, h.1, ?_⟩
        rw [bind_eq_ok_iff]
        exact ⟨rest, ih.2 h.2, rfl⟩

theorem Except.mapM_congr {f g : α → Except ε β} {l : List α} (h : ∀ a ∈ l, f a = g a) : l.mapM f = l.mapM g := by
  induction l with
  | nil => rfl
  | cons a l ih => rw [mapM_cons, mapM_cons, h a mem_cons_self, ih fun x hx => h x (mem_cons_of_mem a hx)]

theorem Except.mapM_ok_of_forall {f : α → Except ε β} {l : List α} (h : ∀ a ∈ l, ∃ b, f a = .ok b) :
    ∃ bs, l.mapM f = .ok bs := by
  induction l with
  | nil => exact ⟨[], rfl⟩
  | cons a l ih =>
    obtain ⟨b, hb⟩ := h a mem_cons_self
    obtain ⟨bs, hbs⟩ := ih fun x hx => h x (mem_cons_of_mem a hx)
    refine ⟨b :: bs, ?_⟩
    rw [mapM_eq_ok_iff] at hbs ⊢
    rw [map_cons, map_cons, hb, hbs]

/-- What a step gives on the items of a list has the properties that it gives on each. -/
theorem Except.mapM_ok_of_forall_and {f : α → Except ε β} {P : β → Prop} {l : List α}
    (h : ∀ a ∈ l, ∃ b, f a = .ok b ∧ P b) : ∃ bs, l.mapM f = .ok bs ∧ bs.length = l.length ∧ ∀ b ∈ bs, P b := by
  obtain ⟨bs, hbs⟩ := mapM_ok_of_forall fun a ha => (h a ha).imp fun _ hb => hb.1
  have heq := mapM_eq_ok_iff.1 hbs
  refine ⟨bs, hbs, by simpa using (congrArg List.length heq).symm, fun b hb => ?_⟩
  have hmem : .ok b ∈ l.map f := heq ▸ mem_map_of_mem hb
  obtain ⟨a, ha, hab⟩ := mem_map.1 hmem
  obtain ⟨b', hab', hb'⟩ := h a ha
  cases hab.symm.trans hab'
  exact hb'

/-- A step that gives one view of some data wherever another gives a second view of it does so over a list. -/
theorem Except.mapM_ok_of_views {f : α → Except ε β} {g : α → Except ε γ} {view : δ → β} {other : δ → γ} {P : δ → Prop}
    {l : List α} (h : ∀ a ∈ l, ∀ b, f a = .ok b → ∃ d, b = view d ∧ g a = .ok (other d) ∧ P d) {bs : List β}
    (hbs : l.mapM f = .ok bs) : ∃ ds : List δ, bs = ds.map view ∧ l.mapM g = .ok (ds.map other) ∧ ∀ d ∈ ds, P d := by
  induction l generalizing bs with
  | nil =>
    rw [mapM_nil, pure_eq_ok_iff] at hbs
    subst hbs
    exact ⟨[], rfl, rfl, fun _ hd => nomatch hd⟩
  | cons a l ih =>
    rw [mapM_cons, bind_eq_ok_iff] at hbs
    obtain ⟨b, hb, hbs⟩ := hbs
    rw [bind_eq_ok_iff] at hbs
    obtain ⟨rest, hrest, hbs⟩ := hbs
    rw [pure_eq_ok_iff] at hbs
    subst hbs
    obtain ⟨d, rfl, hd, hP⟩ := h a mem_cons_self b hb
    obtain ⟨ds, rfl, hds, hPs⟩ := ih (fun x hx => h x (mem_cons_of_mem a hx)) hrest
    refine ⟨d :: ds, rfl, ?_, forall_mem_cons.2 ⟨hP, hPs⟩⟩
    rw [mapM_cons, hd, hds]
    rfl

theorem Except.filterMapM_ok_of_views {f : α → Except ε (Option β)} {g : α → Except ε (Option γ)} {view : δ → β}
    {other : δ → γ} {P : δ → Prop} {l : List α}
    (h : ∀ a ∈ l, ∀ b, f a = .ok b → ∃ d : Option δ, b = d.map view ∧ g a = .ok (d.map other) ∧ ∀ x ∈ d, P x) {bs : List β}
    (hbs : l.filterMapM f = .ok bs) :
    ∃ ds : List δ, bs = ds.map view ∧ l.filterMapM g = .ok (ds.map other) ∧ ∀ d ∈ ds, P d := by
  induction l generalizing bs with
  | nil =>
    rw [filterMapM_nil, pure_eq_ok_iff] at hbs
    subst hbs
    exact ⟨[], rfl, rfl, fun _ hd => nomatch hd⟩
  | cons a l ih =>
    rw [filterMapM_cons, bind_eq_ok_iff] at hbs
    obtain ⟨b, hb, hbs⟩ := hbs
    obtain ⟨d, rfl, hd, hP⟩ := h a mem_cons_self b hb
    rw [filterMapM_cons, hd]
    cases d with
    | none => exact ih (fun x hx => h x (mem_cons_of_mem a hx)) hbs
    | some d =>
      obtain ⟨rest, hrest, hbs⟩ := bind_eq_ok_iff.1 hbs
      rw [pure_eq_ok_iff] at hbs
      subst hbs
      obtain ⟨ds, rfl, hds, hPs⟩ := ih (fun x hx => h x (mem_cons_of_mem a hx)) hrest
      refine ⟨d :: ds, rfl, ?_, forall_mem_cons.2 ⟨hP d rfl, hPs⟩⟩
      simp only [Option.map_some, bind, Except.bind, hds]
      rfl

/-- Whether a step succeeds and says yes. -/
def Except.saysYes : Except ε Bool → Bool
  | .ok b => b
  | .error _ => false

/-- A condition that can fail selects the items that fulfil it, if it fails on none. -/
theorem Except.filterM_eq_ok_iff {f : α → Except ε Bool} {l kept : List α} :
    l.filterM f = .ok kept ↔ (∀ a ∈ l, ∃ b, f a = .ok b) ∧ kept = l.filter fun a => saysYes (f a) := by
  have haux (acc found : List α) : l.filterAuxM f acc = .ok found ↔
      (∀ a ∈ l, ∃ b, f a = .ok b) ∧ found = (l.filter fun a => saysYes (f a)).reverse ++ acc := by
    induction l generalizing acc with
    | nil => simp [List.filterAuxM, pure, Except.pure, eq_comm]
    | cons a l ih =>
      rw [List.filterAuxM, bind_eq_ok_iff, forall_mem_cons]
      cases ha : f a with
      | error e => simp
      | ok b => cases b <;> simp [ha, ih, saysYes]
  rw [List.filterM, bind_eq_ok_iff]
  constructor
  · rintro ⟨found, hfound, h⟩
    rw [pure_eq_ok_iff] at h
    obtain ⟨hok, rfl⟩ := (haux [] found).1 hfound
    exact ⟨hok, by simpa using h.symm⟩
  · rintro ⟨hok, rfl⟩
    exact ⟨_, (haux [] _).2 ⟨hok, rfl⟩, by simp [pure, Except.pure]⟩

/-! ## Steps that can fail and change a state -/

namespace Faulting

variable {σ : Type} {x : ExceptT ε (StateM σ) α} {f : α → ExceptT ε (StateM σ) β} {s t : σ}

theorem run_bind :
    (x >>= f).run.run s = ((ExceptT.bindCont f (x.run.run s).1).run (x.run.run s).2 : Id _) := rfl

theorem bind_of_ok {a : α} (h : x.run.run s = (.ok a, t)) : (x >>= f).run.run s = (f a).run.run t := by
  rw [run_bind, h]
  rfl

theorem bind_of_error {e : ε} (h : x.run.run s = (.error e, t)) : (x >>= f).run.run s = (.error e, t) := by
  rw [run_bind, h]
  rfl

theorem bind_eq_ok_iff {b : β} : (x >>= f).run.run s = (.ok b, t) ↔
    ∃ a mid, x.run.run s = (.ok a, mid) ∧ (f a).run.run mid = (.ok b, t) := by
  rcases h : x.run.run s with ⟨e | a, mid⟩
  · rw [bind_of_error h]
    constructor
    · intro heq
      cases heq
    · rintro ⟨_, _, heq, -⟩
      cases heq
  · rw [bind_of_ok h]
    constructor
    · exact fun hb => ⟨a, mid, rfl, hb⟩
    · rintro ⟨_, _, heq, hb⟩
      cases heq
      exact hb

end Faulting

end QueryShaping
