import QueryShaping.Proofs.Execution.Pulling

/-!
# The life of an enumeration

An enumeration is asked for its next value, asked to start over, or disposed, again and again. Whatever others do to the
world meanwhile, its phase only moves forward, each phase at the end has its one answer, and a failure is reported by the
request that moves it there, once.
-/

namespace QueryShaping

open List

/-- Whether an enumeration in one phase can be in another one after a request. -/
def Phase.leadsTo : Phase → Phase → Bool
  | _, .disposed | .created, .active | .created, .exhausted | .created, .faulted => true
  | .active, .exhausted | .active, .faulted => true
  | p, p' => p = p'

/-- A fault stays, until the enumeration is disposed. -/
theorem Phase.ended_of_leadsTo {p p' : Phase} (h : p = .faulted ∨ p = .disposed) (hleads : p.leadsTo p') :
    p' = .faulted ∨ p' = .disposed := by
  rcases h with rfl | rfl <;> cases p' <;> simp_all [leadsTo]

/-- What a request is answered with. -/
inductive Reply where
  | pulled (result : Except Error (Option Result))
  | reset (result : Except Error Unit)
  | disposed

/-- A request to an enumeration and what comes of it. -/
structure Exchange where
  before : Enumeration
  reply : Reply
  stretches : List Stretch
  after : Enumeration

namespace Exchange

inductive Possible : Exchange → Prop where
  | pull {e : Enumeration} {r : Except Error (Option Result) × Enumeration} {stretches : List Stretch}
      (h : e.pull.Goes stretches r) : Possible ⟨e, .pulled r.1, stretches, r.2⟩
  | reset (e : Enumeration) : Possible ⟨e, .reset e.reset, [], e⟩
  | dispose (e : Enumeration) (w : World) : Possible ⟨e, .disposed, [⟨w, (e.dispose w).2⟩], (e.dispose w).1⟩

/-- Whether a request moved the enumeration to its fault. -/
def faults (x : Exchange) : Bool := x.before.phase ≠ .faulted ∧ x.after.phase = .faulted

/-- What holds of each request. -/
structure Regular (x : Exchange) : Prop where
  phase : x.before.phase.leadsTo x.after.phase
  exhausted : ∀ r, x.reply = .pulled r → x.before.phase = .exhausted → r = .ok none
  faulted : ∀ r, x.reply = .pulled r → x.before.phase = .faulted → r = .error .faulted
  disposed : ∀ r, x.reply = .pulled r → x.before.phase = .disposed → r = .error .disposed
  reset : ∀ r, x.reply = .reset r → (∃ e, r = .error e) ∧ x.after = x.before ∧ x.stretches = []
  dispose : x.reply = .disposed → x.after.phase = .disposed

/-- What a request reports: nothing, unless it moves the enumeration to its fault. -/
def Reports (x : Exchange) (reported : List (String × Error)) : Prop :=
  x.faults = false ∧ reported = [] ∨
    x.faults ∧ ∃ fault, x.reply = .pulled (.error fault) ∧ reported = [(x.before.context.contextType, fault)]

end Exchange

namespace Enumeration

namespace Moves

variable {contextType : String} {p p' : Phase} {r : Except Error (Option Result)} {reported : List (String × Error)}

theorem leadsTo (h : Moves contextType p r reported p') : p.leadsTo p' := by
  cases h with
  | disposed | faulted | exhausted => rfl
  | value hp | finished hp | failed hp => rcases hp with rfl | rfl <;> rfl

/-- At the end there is only one answer. -/
theorem answer (h : Moves contextType p r reported p') : (p = .exhausted → r = .ok none) ∧
    (p = .faulted → r = .error .faulted) ∧ (p = .disposed → r = .error .disposed) := by
  cases h with
  | disposed | faulted | exhausted => simp
  | value hp | finished hp | failed hp => rcases hp with rfl | rfl <;> simp

theorem reports (h : Moves contextType p r reported p') : ¬ (p ≠ .faulted ∧ p' = .faulted) ∧ reported = [] ∨
    (p ≠ .faulted ∧ p' = .faulted) ∧ ∃ fault, r = .error fault ∧ reported = [(contextType, fault)] := by
  cases h with
  | disposed | faulted | exhausted => exact .inl ⟨by decide, rfl⟩
  | value hp | finished hp => exact .inl ⟨by simp, rfl⟩
  | failed hp fault => exact .inr ⟨by rcases hp with rfl | rfl <;> decide, fault, rfl, rfl⟩

end Moves

/-- What comes of a request to an enumeration that is tended. -/
theorem tended_of_possible {x : Exchange} (hx : x.Possible) {log : CallLog} (h : x.before.Tended log) :
    x.Regular ∧ (x.after.query = x.before.query ∧ x.after.context = x.before.context) ∧
      (∃ log', x.after.Tended log') ∧ ∃ d : Deeds, d.Over x.stretches ∧ x.Reports d.reported := by
  cases hx with
  | pull hgo =>
    obtain ⟨d, hover, hpulled, htended⟩ := (pull_does h).goes hgo
    obtain ⟨hexhausted, hfaulted, hdisposed⟩ := hpulled.moves.answer
    refine ⟨⟨hpulled.moves.leadsTo, ?_, ?_, ?_, by simp, by simp⟩, ⟨hpulled.query, hpulled.context⟩, htended, d, hover, ?_⟩
    · rintro _ ⟨⟩
      exact hexhausted
    · rintro _ ⟨⟩
      exact hfaulted
    · rintro _ ⟨⟩
      exact hdisposed
    · rcases hpulled.moves.reports with ⟨hfaults, hreported⟩ | ⟨hfaults, fault, hfault, hreported⟩
      · exact .inl ⟨decide_eq_false hfaults, hreported⟩
      · exact .inr ⟨decide_eq_true hfaults, fault, congrArg Reply.pulled hfault, hreported⟩
  | reset e =>
    have hphase : e.phase.leadsTo e.phase := by cases e.phase <;> rfl
    have hreset : ∃ fault, e.reset = .error fault := ⟨_, rfl⟩
    refine ⟨⟨hphase, ?_, ?_, ?_, ?_, ?_⟩, ⟨rfl, rfl⟩, ⟨log, h⟩, .none, rfl, .inl ⟨?_, rfl⟩⟩
    case refine_4 =>
      rintro _ ⟨⟩
      exact ⟨hreset, rfl, rfl⟩
    case refine_6 => exact decide_eq_false fun hfaults => hfaults.1 hfaults.2
    all_goals simp
  | dispose e w =>
    obtain ⟨hdisposed, htended⟩ := dispose_disposed h w
    have hphase : e.phase.leadsTo (e.dispose w).1.phase := by
      rw [hdisposed.phase]
      cases e.phase <;> rfl
    have hfaults : ¬ (e.phase ≠ .faulted ∧ (e.dispose w).1.phase = .faulted) := by
      rw [hdisposed.phase]
      simp
    refine ⟨⟨hphase, ?_, ?_, ?_, ?_, fun _ => hdisposed.phase⟩, ⟨hdisposed.query, hdisposed.context⟩, ⟨_, htended⟩, _,
      ⟨_, .none, (Deeds.andThen_none _).symm, hdisposed.between, rfl⟩, .inl ⟨decide_eq_false hfaults, rfl⟩⟩
    all_goals simp

/-- Requests to an enumeration, one after the other, and what becomes of it. -/
inductive History (e : Enumeration) : List Exchange → Enumeration → Prop where
  | nil : e.History [] e
  | next {earlier : List Exchange} {x : Exchange} (h : e.History earlier x.before) (hx : x.Possible) :
      e.History (earlier ++ [x]) x.after

/-- What all requests so far have reported: the one failure that moved the enumeration to its fault, or nothing. -/
def Reported (contextType : String) (exchanges : List Exchange) (reported : List (String × Error)) : Prop :=
  exchanges.filter Exchange.faults = [] ∧ reported = [] ∨
    ∃ x fault, exchanges.filter Exchange.faults = [x] ∧ x.reply = .pulled (.error fault) ∧
      reported = [(contextType, fault)]

/-- Where an enumeration stands after some requests. -/
structure Lived (query : CompiledQuery) (contextType : String) (exchanges : List Exchange) (e : Enumeration) : Prop where
  query : e.query = query
  context : e.context.contextType = contextType
  tended : ∃ log, e.Tended log
  /-- An enumeration with a fault has got there, and it does not get there again. -/
  phase : if exchanges.filter Exchange.faults = [] then e.phase ≠ .faulted else e.phase = .faulted ∨ e.phase = .disposed
  regular : ∀ x ∈ exchanges, x.Regular
  reported : ∃ d : Deeds, d.Over (exchanges.flatMap (·.stretches)) ∧ Reported contextType exchanges d.reported

theorem Lived.next {query : CompiledQuery} {contextType : String} {earlier : List Exchange} {x : Exchange}
    (h : Lived query contextType earlier x.before) (hx : x.Possible) :
    Lived query contextType (earlier ++ [x]) x.after := by
  obtain ⟨log, htended⟩ := h.tended
  obtain ⟨hregular, ⟨hquery, hcontext⟩, htended', d', hover', hreports⟩ := tended_of_possible hx htended
  obtain ⟨d, hover, hreported⟩ := h.reported
  have hover : (d.andThen d').Over ((earlier ++ [x]).flatMap (·.stretches)) := by
    rw [flatMap_append]
    exact hover.append (by simpa using hover')
  have hregular' : ∀ y ∈ earlier ++ [x], y.Regular := by
    intro y hy
    rcases mem_append.1 hy with hy | hy
    · exact h.regular y hy
    · exact mem_singleton.1 hy ▸ hregular
  have hphase := h.phase
  rcases hreports with ⟨hfaults, hnone⟩ | ⟨hfaults, fault, hreply, hone⟩
  · have hfilter : (earlier ++ [x]).filter Exchange.faults = earlier.filter Exchange.faults := by
      simp [filter_append, hfaults]
    refine ⟨hquery.trans h.query, hcontext ▸ h.context, htended', ?_, hregular', _, hover, ?_⟩
    · rw [hfilter]
      split at hphase
      · rw [if_pos ‹_›]
        exact fun hafter => of_decide_eq_false hfaults ⟨hphase, hafter⟩
      · rw [if_neg ‹_›]
        exact Phase.ended_of_leadsTo hphase hregular.phase
    · rw [Reported, hfilter, Deeds.andThen, hnone, append_nil]
      exact hreported
  · obtain ⟨hbefore, hafter⟩ := of_decide_eq_true hfaults
    have hfirst : earlier.filter Exchange.faults = [] := by
      by_contra hearlier
      rw [if_neg hearlier] at hphase
      have hend := hphase.resolve_left hbefore
      have hleads := hregular.phase
      rw [hend, hafter] at hleads
      cases hleads
    have hfilter : (earlier ++ [x]).filter Exchange.faults = [x] := by
      simp [filter_append, hfirst, hfaults]
    refine ⟨hquery.trans h.query, hcontext ▸ h.context, htended', ?_, hregular', _, hover, .inr ⟨x, fault, hfilter, hreply, ?_⟩⟩
    · rw [hfilter, if_neg (cons_ne_nil x [])]
      exact .inl hafter
    · rcases hreported with ⟨-, hnone⟩ | ⟨y, -, hearlier, -⟩
      · rw [Deeds.andThen, hnone, hone, h.context]
        rfl
      · cases hfirst.symm.trans hearlier

theorem History.lived {query : CompiledQuery} {context : Context} {mode : Mode} {exchanges : List Exchange}
    {e : Enumeration} (h : (start query context mode).History exchanges e) :
    Lived query context.contextType exchanges e := by
  induction h with
  | nil =>
    refine ⟨rfl, rfl, ⟨[], tended_start ..⟩, ?_, ?_, .none, rfl, .inl ⟨rfl, rfl⟩⟩
    · simp [start]
    · simp
  | next _ hx ih => exact ih.next hx

/-- The phase of an enumeration moves forward, at the end there is only one answer, and starting over always fails. It
reports the failure that moves it to its fault, with the type of its context, and nothing else. -/
theorem regular_history {query : CompiledQuery} {context : Context} {mode : Mode} {exchanges : List Exchange}
    {e : Enumeration} (h : (start query context mode).History exchanges e) :
    (∀ x ∈ exchanges, x.Regular) ∧ ∃ d : Deeds, d.Over (exchanges.flatMap (·.stretches)) ∧
      Reported context.contextType exchanges d.reported :=
  ⟨h.lived.regular, h.lived.reported⟩

/-- A reader that cannot be opened is a fault; after that the enumeration is pulled once more and disposed. -/
theorem regular_history_unopened :
    let e := start (.prepared ⟨.scalar (.field 0), []⟩ .none []) .plain .blocking
    ∃ exchanges e', e.History exchanges e' ∧ e'.phase = .disposed ∧ (exchanges.filter Exchange.faults).length = 1 ∧
      (∀ x ∈ exchanges, x.Regular) ∧ ∃ d : Deeds, d.Over (exchanges.flatMap (·.stretches)) ∧
        Reported "" exchanges d.reported := by
  intro e
  let w := World.scripted [⟨[], some .connectionFailed, none⟩]
  have hfaulted : (e.pull.run w).1.2.phase = .faulted := by decide +kernel
  obtain ⟨stretches, hpull⟩ := e.pull.goes_run w
  obtain ⟨stretches', hagain⟩ := (e.pull.run w).1.2.pull.goes_run w
  have hstays : ((e.pull.run w).1.2.pull.run w).1.2.phase = .faulted := by decide +kernel
  have hhistory := ((History.nil.next (.pull hpull)).next (.pull hagain)).next (.dispose _ w)
  refine ⟨_, _, hhistory, by decide +kernel, ?_, regular_history hhistory⟩
  have hcreated : e.phase = .created := rfl
  simp [Exchange.faults, hfaulted, hstays, hcreated]

end Enumeration

end QueryShaping
