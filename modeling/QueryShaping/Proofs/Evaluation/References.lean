import Mathlib
import QueryShaping.Proofs.Evaluation.Truths

/-!
# Evaluation reads what is referred to

An evaluation gives the same in two scopes that bind alike the identities to which a tree refers, whatever else they
bind. So sources can be added to a select without a change to what was there, as long as their identities are new.
-/

namespace QueryShaping

open List

variable {outer outer' : List Frame} {a b : Scope}

/-- The identities of the sources that columns and keys among some expressions are read from. -/
def idsRead (os : List Occurrence) : List TableId :=
  os.flatMap (·.expr.reads)

def Expr.references (e : Expr) : List TableId := idsRead (e.occurrences .value)

def Select.references (s : Select) : List TableId := idsRead s.occurrences

def Source.references (s : Source) : List TableId := idsRead s.occurrences

theorem granted_of_idsRead {known : TableId → Prop} {os : List Occurrence} (h : ∀ id ∈ idsRead os, known id)
    (o : Occurrence) (ho : o ∈ os) : o.Granted known fun _ => True :=
  ⟨fun id hid => h id (mem_flatMap_of_mem ho hid), fun _ => trivial⟩

/-! ## Scopes that bind alike -/

variable {known : TableId → Prop}

theorem find?_of_unknown {frame : Frame} (h : ∀ b ∈ frame, ¬known b.id) {id : TableId} (hid : known id) :
    frame.find? (·.id = id) = none := by
  rw [find?_eq_none]
  intro b hb heq
  exact h b hb ((of_decide_eq_true heq) ▸ hid)

/-- Sources with other identities can be added at the end of a frame. -/
theorem BindAlike.append {frame more : Frame} (hmore : ∀ b ∈ more, ¬known b.id) (outer : List Frame) :
    BindAlike known (frame :: outer) ((frame ++ more) :: outer) := by
  intro id hid
  simp only [boundIn?, findSome?_cons, find?_append, find?_of_unknown hmore hid, Option.or_none]

/-- A frame of sources with other identities can be left out. -/
theorem BindAlike.of_unknown {frame : Frame} (h : ∀ b ∈ frame, ¬known b.id) (outer : List Frame) :
    BindAlike known (frame :: outer) outer := by
  intro id hid
  simp only [boundIn?, findSome?_cons, find?_of_unknown h hid]

/-- Whether an expression evaluates alike in scopes that bind the known identities alike. -/
def Expr.ReadsAlike (known : TableId → Prop) (env : Environment) (e : Expr) : Prop :=
  ∀ a b : Scope, a.Alike (BindAlike known) b → e.eval env a = e.eval env b

variable {env : Environment}

theorem Expr.eval_alike (known : TableId → Prop) (env : Environment) (e : Expr) (h : ∀ id ∈ e.references, known id) :
    e.ReadsAlike known env := by
  intro a b hab
  rw [← e.evalWith_stored env .value]
  exact (evalWith_same (granted_of_idsRead h) hab).1

theorem Expr.holdsOption_alike {o : Option Expr} (h : ∀ e ∈ o, e.ReadsAlike known env)
    (hab : a.Alike (BindAlike known) b) : Expr.holdsOption env o a = Expr.holdsOption env o b := by
  cases o with
  | none => rfl
  | some e => rw [Expr.holdsOption, Expr.holdsOption, h e rfl a b hab]

/-- A projected row is the same in scopes that bind alike. -/
theorem Projection.evalAll_alike {ps : List Projection} (h : ∀ p ∈ ps, p.expr.ReadsAlike known env)
    (hab : a.Alike (BindAlike known) b) (numbers : List (Option Nat)) :
    Projection.evalAll env ps numbers a = Projection.evalAll env ps numbers b := by
  induction ps generalizing numbers with
  | nil => rfl
  | cons p ps ih =>
    have hp : p.cell env numbers.head?.join a = p.cell env numbers.head?.join b := by
      unfold Projection.cell
      cases numbers.head?.join with
      | some n => rfl
      | none => exact h p mem_cons_self a b hab
    rw [Projection.evalAll_cons, Projection.evalAll_cons, hp, ih fun q hq => h q (mem_cons_of_mem p hq)]

/-- A select gives the same rows inside selects that bind what it refers to alike. -/
theorem Select.run_alike (s : Select) (h : ∀ id ∈ s.references, known id) (hab : BindAlike known outer outer') :
    s.run env outer = s.run env outer' := by
  rw [← s.runWith_stored]
  exact (runWith_same (granted_of_idsRead h) hab).1

theorem Source.rows_alike (s : Source) (h : ∀ id ∈ s.references, known id) (hab : BindAlike known outer outer') :
    s.rows env outer = s.rows env outer' := by
  cases s with
  | derived => exact Select.run_alike _ h hab
  | setOperation id aliasName op distinct left right =>
    simp only [Source.references, Source.occurrences, idsRead, flatMap_append, forall_mem_append] at h
    rw [Source.rows, Source.rows, left.run_alike h.1 hab, right.run_alike h.2 hab]
  | _ => rfl

/-! ## Applies over sources that refer to nothing on their left -/

/-- Where every row fulfils the condition, a left join is an outer apply of the rows. -/
theorem joinWhere_left_true (id : TableId) (r : Relation) (frame : Frame) :
    joinWhere .left id r (fun _ => .ok true) frame = .ok (applyRows .outerApply id r frame) := by
  have hall : (frame.extendAll id r).filterM (fun _ => .ok true) = (.ok (frame.extendAll id r) : Except Error _) :=
    Except.filterM_eq_ok_iff.2 ⟨fun _ _ => ⟨true, rfl⟩, (List.filter_eq_self.2 fun _ _ => rfl).symm⟩
  have hempty : (frame.extendAll id r).isEmpty = r.rows.isEmpty := isEmpty_map
  simp only [joinWhere, hall, applyRows, ← hempty]
  rfl

/-- A source that refers to nothing bound on its left is applied as it is joined, frame by frame in the same order. -/
theorem Source.joinAll_apply_eq_join {source : Source} {frames outer : List Frame} {r : Relation}
    (hfree : ∀ frame ∈ frames, ∀ b ∈ frame, b.id ∉ source.references) (h : source.rows env outer = .ok r) :
    (∃ joined, Source.joinAll env [.joined .crossApply source] frames outer = .ok joined ∧
      Source.joinAll env [.joined .cross source] frames outer = .ok joined) ∧
    ∃ joined, Source.joinAll env [.joined .outerApply source] frames outer = .ok joined ∧
      Source.joinAll env [.joinedOn .left source (.literal (.bool true))] frames outer = .ok joined := by
  have hrows : ∀ frame ∈ frames, source.rows env (frame :: outer) = .ok r := fun frame hframe =>
    (source.rows_alike (fun _ hid => hid) (BindAlike.of_unknown (hfree frame hframe) outer)).trans h
  have happly (kind : JoinKind) : frames.mapM (fun frame => do
      let r ← source.rows env (frame :: outer)
      return applyRows kind source.id r frame) = .ok (frames.map (applyRows kind source.id r)) := by
    rw [Except.mapM_eq_ok_iff, map_map]
    refine map_congr_left fun frame hframe => ?_
    rw [hrows frame hframe]
    rfl
  have hleft : frames.mapM (joinWhere .left source.id r fun _ => .ok true) =
      .ok (frames.map (applyRows .outerApply source.id r)) := by
    rw [Except.mapM_eq_ok_iff, map_map]
    exact map_congr_left fun frame _ => joinWhere_left_true source.id r frame
  refine ⟨⟨crossJoin frames source.id r, ?_, ?_⟩, (frames.map (applyRows .outerApply source.id r)).flatten, ?_, ?_⟩
  · simp only [Source.joinAll, happly]
    rfl
  · rw [Source.joinAll, h]
    rfl
  · simp only [Source.joinAll, happly]
    rfl
  · rw [Source.joinAll, h]
    exact congrArg (· >>= fun joined => Source.joinAll env [] joined.flatten outer) hleft

/-- The rows of a table with the value that the enclosing select has. -/
def rowsOfOuter : Source :=
  .derived 4 "d" { Select.fromSource (.table 2 "t" "T" none) with
    projections := [⟨"X", .column ⟨2, none, "X", none, false⟩⟩]
    predicate := some (.equalTo (.column ⟨2, none, "X", none, false⟩) (.column ⟨3, none, "Y", none, false⟩)) }

theorem Source.joinAll_apply_rowsOfOuter :
    let env : Environment := ⟨[("T", ⟨["X"], [[.int32 7], [.int32 8], [.int64 7]]⟩)], .empty⟩
    let frames : List Frame := [[⟨1, ["A"], some [.bool true]⟩], [⟨1, ["A"], none⟩]]
    let outer : List Frame := [[⟨3, ["Y"], some [.int32 7]⟩]]
    (∃ r, rowsOfOuter.rows env outer = .ok r ∧ r.rows = [[.int32 7], [.int64 7]]) ∧
      ∃ joined, Source.joinAll env [.joined .crossApply rowsOfOuter] frames outer = .ok joined ∧
        Source.joinAll env [.joined .cross rowsOfOuter] frames outer = .ok joined := by
  intro env frames outer
  have hrows : rowsOfOuter.rows env outer = .ok ⟨["X"], [[.int32 7], [.int64 7]]⟩ := by cbv
  have hfree : ∀ frame ∈ frames, ∀ b ∈ frame, b.id ∉ rowsOfOuter.references := by decide
  exact ⟨⟨_, hrows, rfl⟩, (joinAll_apply_eq_join hfree hrows).1⟩

end QueryShaping
