import QueryShaping.Proofs.Execution.Pulling
import QueryShaping.Proofs.Execution.SplitValues

/-!
# How enumerations use their readers

However an enumeration is pulled and disposed, it reads a reader only as long as rows can come, asks for values only while
the reader stands on a row, and closes it once.
-/

namespace QueryShaping

namespace Enumeration

/-- An enumeration that has come about by pulls and disposals, with the calls to its readers. -/
inductive Used : Enumeration → CallLog → Prop where
  | start (query : CompiledQuery) (context : Context) (mode : Mode) : Used (start query context mode) []
  | pull {e : Enumeration} {log : CallLog} {r : (Except Error (Option Result) × Enumeration) × CallLog}
      {stretches : List Stretch} (h : Used e log) (hpull : (e.pullLogged log).Goes stretches r) : Used r.1.2 r.2
  | dispose {e : Enumeration} {log : CallLog} (h : Used e log) (w : World) :
      Used (e.dispose w).1 (e.disposeLogged log w).2

theorem Used.tended {e : Enumeration} {log : CallLog} (h : e.Used log) : e.Tended log := by
  induction h with
  | start query context mode => exact tended_start query context mode
  | pull _ hpull ih =>
    obtain ⟨d, -, -, htended⟩ := (pullLogged_does ih).goes hpull
    exact htended
  | dispose _ w ih => exact (dispose_disposed ih w).2

theorem Tended.standing {e : Enumeration} {log : CallLog} (h : e.Tended log) (name : ReaderName) :
    ∃ st, log.standing? name = some st := by
  cases hcursor : e.cursor with
  | none =>
    rcases h.closed hcursor name with hname | ⟨-, -, hname⟩
    · exact ⟨_, hname⟩
    · exact ⟨_, hname⟩
  | some c =>
    have hholds := (h.holds hcursor).1
    cases hholder : c.holder name with
    | none => exact ⟨_, hholds.unopened hholder⟩
    | some r =>
      obtain ⟨st, hst, -⟩ := (hholds.held hholder).standing
      exact ⟨st, hst⟩

/-- The readers of an enumeration are called in order. The log that says so does not change what pulling and disposing
do. -/
theorem disciplined_callsTo {e : Enumeration} {log : CallLog} (h : e.Used log) :
    (∀ name, ReaderCall.Disciplined (log.callsTo name)) ∧
      Prod.fst <$> e.pullLogged log = e.pull ∧ ∀ w, (e.disposeLogged log w).1 = e.dispose w := by
  refine ⟨fun name => ?_, e.fst_pullLogged log, e.fst_disposeLogged log⟩
  obtain ⟨st, hst⟩ := h.tended.standing name
  exact ReaderCall.disciplined_of_standingAfter? hst

/-- The second read of the inner collection fails. -/
theorem disciplined_callsTo_nested : ∃ e log, Used e log ∧
    log.callsTo (.collection 1) = [.opened, .found, .looked, .looked, .failed, .closed] ∧
    ReaderCall.Disciplined (log.callsTo (.collection 1)) := by
  let e := start (.prepared nestedCollections .none [(0, 1), (1, 2)]) .plain .blocking
  let w := World.scripted [⟨[[.int32 1]], none, none⟩, ⟨nestedRows.results 0, none, none⟩,
    ⟨nestedRows.results 1, none, some ⟨1, .connectionFailed⟩⟩]
  obtain ⟨stretches, hpull⟩ := (e.pullLogged []).goes_run w
  have hused := ((Used.start _ _ _).pull hpull).dispose w
  exact ⟨_, _, hused, by decide +kernel, (disciplined_callsTo hused).1 _⟩

end Enumeration

end QueryShaping
