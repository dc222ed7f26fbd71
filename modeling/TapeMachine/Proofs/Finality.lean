import Mathlib
import TapeMachine.Proofs.Chain
import TapeMachine.Proofs.Schedule

namespace TapeMachine

namespace Machine

variable {machine next : Machine} {event : Event}

/-- A machine that shows something has no bad answer to report, and has finished if it shows the end. -/
theorem AtWork.shows_of_step (atWork : machine.AtWork) (stepped : machine.step = .shows event next) :
    next.fault = none ∧ (event.ends = true → next.Calm ∧ next.phase = .finished) := by
  have settled := atWork.settle
  unfold Machine.step at stepped
  split at stepped
  · cases stepped
  · rename_i here same
    rw [same] at settled
    unfold Machine.finish at stepped
    dsimp only at stepped
    split at stepped <;> cases stepped <;>
      exact ⟨settled.fault, fun _ => ⟨⟨settled.pending, settled.fault, settled.interrupted⟩, rfl⟩⟩
  · rename_i here same
    rw [same] at settled
    split at stepped
    · rename_i there
      have goesOn := goesOn_perform there
      rw [stepped] at goesOn
      refine ⟨goesOn.2.trans settled.fault, fun ends => ?_⟩
      cases goesOn.1.symm.trans ends
    · cases stepped

/-- A machine that has been answered goes on, whatever its phase was. -/
theorem phase_enter {asked : InputKind × Location} (pending : machine.pending = some asked) (line : String) :
    (machine.enter line).phase = .running := by
  simp only [Machine.enter, pending]
  split
  · rfl
  · split <;> rfl

theorem phase_closeInput (machine : Machine) (pending : machine.pending ≠ none) :
    machine.closeInput.phase = .running := by
  unfold Machine.closeInput
  split
  · rename_i asked
    exact phase_enter asked "0"
  · rename_i asked
    exact phase_enter asked ""
  · rename_i none
    exact absurd none pending

end Machine

namespace Run

variable {settings : Settings} {run : Run} {workspace : Workspace}

/-- The run has come to its end, and nothing is asked of it. -/
structure Ended (run : Run) : Prop where
  alone : run.modules = []
  phase : run.machine.phase = .finished
  interrupted : run.machine.interrupted = false

/-- Nothing is left of the input: no question is open, and no bad answer waits to be reported. -/
structure Settled (run : Run) : Prop where
  pending : run.machine.pending = none
  fault : run.machine.fault = none

/-- What a slice of a run at work comes to: there is no bad answer, and if it ends the run, nothing is left over. -/
structure Concludes (result : Result) : Prop where
  fault : result.2.1.machine.fault = none
  ended : result.1.ends = true → result.2.1.Ended
  pending : result.1.ends = true → result.2.1.machine.pending = none

theorem Concludes.of_event {event : Event} (workspace : Workspace) (fault : run.machine.fault = none)
    (more : event.ends = false) : Concludes (event, run, workspace) := by
  refine ⟨fault, fun ends => ?_, fun ends => ?_⟩
  · cases more.symm.trans ends
  · cases more.symm.trans ends

theorem Concludes.of_failure {machine : Machine} (atWork : machine.AtWork) (modules : List Machine) (failure : Failure)
    (workspace : Workspace) : Concludes (fail ⟨machine, modules⟩ failure workspace) where
  fault := atWork.fault
  ended _ := ⟨rfl, rfl, atWork.interrupted⟩
  pending _ := atWork.pending

theorem ComesTo.concludes {execute : Run → Workspace → Result} {result : Result}
    (comes : ComesTo settings execute run workspace result) (atWork : run.machine.AtWork) : Concludes result := by
  induction comes with
  | out => exact .of_event _ atWork.fault rfl
  | ran stepped _ ih => exact ih (atWork.onward stepped)
  | shows stepped =>
    obtain ⟨fault, ends⟩ := atWork.shows_of_step stepped
    exact ⟨fault, fun shown => ⟨rfl, (ends shown).2, (ends shown).1.interrupted⟩, fun shown => (ends shown).1.pending⟩
  | failed stepped | refused stepped _ => exact .of_failure (atWork.onward stepped) [] _ _
  | entered stepped _ _ ih => exact ih (atWork.onward stepped)
  | adopted _ _ ih => exact ih (atWork.change ..)
  | broken _ => exact .of_failure atWork _ _ _
  | waits _ more => exact .of_event _ atWork.fault more

/-- The states between which the calls of a driver lead who does not break the run off. -/
def afterCall (settings : Settings) (state : Run × Workspace) : Call → Run × Workspace
  | .execute cycles => (state.1.execute settings cycles state.2).2
  | .enter line => (state.1.enter line, state.2)
  | .closeInput => (state.1.closeInput, state.2)

/-- Whatever calls follow, an execution shows that the run has stopped, and neither operands nor heap nor functions are
any other than they are now. -/
def Final (settings : Settings) (run : Run) (workspace : Workspace) : Prop :=
  ∀ (calls : List Call) (cycles : Nat),
    let later := calls.foldl (afterCall settings) (run, workspace)
    let result := later.1.execute settings cycles later.2
    result.1 = .stopped ∧ result.2.1.machine.operands = run.machine.operands ∧
      result.2.1.machine.heap = run.machine.heap ∧ result.2.1.machine.functions = run.machine.functions

theorem execute_of_ended (ended : run.Ended) (fault : run.machine.fault = none) (cycles : Nat) (workspace : Workspace) :
    run.execute settings cycles workspace = (.stopped, run, workspace) := by
  obtain ⟨machine, modules⟩ := run
  rw [execute, executeWithin, if_neg (by simp [show machine.interrupted = false from ended.interrupted]),
    show machine.fault = none from fault, show machine.phase = .finished from ended.phase]

theorem execute_of_fault {failure : Failure} (ended : run.Ended) (fault : run.machine.fault = some failure) (cycles : Nat)
    (workspace : Workspace) : (run.execute settings cycles workspace).1 = .error failure := by
  obtain ⟨machine, modules⟩ := run
  rw [execute, executeWithin, if_neg (by simp [show machine.interrupted = false from ended.interrupted]),
    show machine.fault = some failure from fault]
  rfl

theorem onInnermost_alone (change : Machine → Machine) (alone : run.modules = []) :
    run.onInnermost change = ⟨change run.machine, []⟩ := by
  obtain ⟨machine, modules⟩ := run
  cases alone
  rfl

/-- Where nothing is left of the input, calls change nothing. -/
theorem afterCall_of_settled (ended : run.Ended) (settled : run.Settled) (call : Call) :
    afterCall settings (run, workspace) call = (run, workspace) := by
  have alone : (⟨run.machine, []⟩ : Run) = run := by
    rw [← ended.alone]
  cases call with
  | execute cycles =>
    rw [afterCall, execute_of_ended ended settled.fault]
  | enter line =>
    have same : run.machine.enter line = run.machine := by rw [Machine.enter, settled.pending]
    rw [afterCall, enter, onInnermost_alone _ ended.alone, same, alone]
  | closeInput =>
    have same : run.machine.closeInput = run.machine := by rw [Machine.closeInput, settled.pending]
    rw [afterCall, closeInput, onInnermost_alone _ ended.alone, same, alone]

theorem Ended.final (ended : run.Ended) (settled : run.Settled) : Final settings run workspace := by
  intro calls cycles
  have same : calls.foldl (afterCall settings) (run, workspace) = (run, workspace) := by
    induction calls with
    | nil => rfl
    | cons call rest ih => rw [List.foldl_cons, afterCall_of_settled ended settled, ih]
  rw [same]
  dsimp only
  rw [execute_of_ended ended settled.fault]
  exact ⟨rfl, rfl, rfl, rfl⟩

/-- If a question is still open when a run has come to its end, the end of input puts the run back to work. -/
theorem not_final_of_pending (ended : run.Ended) (pending : run.machine.pending ≠ none) :
    ¬Final settings run workspace := by
  intro final
  have closed := (final [.closeInput] 0).1
  have running := run.machine.phase_closeInput pending
  rw [List.foldl_cons, List.foldl_nil, afterCall, closeInput, onInnermost_alone _ ended.alone, execute,
    executeWithin] at closed
  split at closed
  · cases closed
  · split at closed
    · cases closed
    · rw [running] at closed
      cases closed

/-- Behind the end of a run everything stays as it is if and only if nothing is left of the input. -/
theorem Ended.final_iff (ended : run.Ended) : Final settings run workspace ↔ run.Settled := by
  refine ⟨fun final => ⟨?_, ?_⟩, ended.final⟩
  · by_contra pending
    exact not_final_of_pending ended pending final
  · by_contra faulty
    obtain ⟨failure, fault⟩ := Option.ne_none_iff_exists'.1 faulty
    have stopped := (final [] 0).1
    rw [List.foldl_nil, execute_of_fault ended fault] at stopped
    cases stopped

end Run

variable {settings : Settings} {program : List Item} {workspace before : Workspace} {run : Run}

/-- A bad answer is an answer: no question is open until it has been reported. -/
theorem Reached.pending_of_fault (reached : Reached settings program workspace run before)
    (fault : run.machine.fault ≠ none) : run.machine.pending = none := by
  induction reached with
  | start => exact absurd rfl fault
  | @execute run before cycles earlier ih =>
    have executes := Run.executes_executeWithin settings cycles settings.depth run before
    rw [Run.execute] at fault ⊢
    generalize Run.executeWithin settings cycles (settings.depth + 1) run before = result at executes fault ⊢
    cases executes with
    | interrupted | finished | awaiting => exact ih fault
    | faulty => exact absurd rfl fault
    | running quiet clean running comes =>
      have concludes := comes.concludes ⟨⟨earlier.linked.idle running, clean, quiet⟩, running⟩
      exact absurd concludes.fault fault
  | @enter run _ line _ ih =>
    obtain ⟨machine, modules⟩ := run
    cases modules with
    | nil => exact machine.pending_enter line
    | cons module inner =>
      rw [Run.enter, Run.onInnermost_cons] at fault ⊢
      exact ih fault
  | @closeInput run _ _ ih =>
    obtain ⟨machine, modules⟩ := run
    cases modules with
    | nil => exact machine.pending_closeInput
    | cons module inner =>
      rw [Run.closeInput, Run.onInnermost_cons] at fault ⊢
      exact ih fault
  | interrupt _ ih => exact ih fault

/-- An execution that ends a run leaves it at its end. -/
theorem Reached.ended (reached : Reached settings program workspace run before) {cycles : Nat}
    (ends : (run.execute settings cycles before).1.ends = true) : (run.execute settings cycles before).2.1.Ended := by
  have executes := Run.executes_executeWithin settings cycles settings.depth run before
  rw [Run.execute] at ends ⊢
  generalize Run.executeWithin settings cycles (settings.depth + 1) run before = result at executes ends ⊢
  cases executes with
  | interrupted => exact ⟨rfl, rfl, rfl⟩
  | faulty quiet _ => exact ⟨rfl, rfl, quiet⟩
  | finished quiet _ finished => exact ⟨reached.linked.alone_of_finished finished, finished, quiet⟩
  | awaiting => cases ends
  | running quiet clean running comes =>
    exact (comes.concludes ⟨⟨reached.linked.idle running, clean, quiet⟩, running⟩).ended ends

/-- A run that ends of itself leaves nothing of the input behind. -/
theorem Reached.settled (reached : Reached settings program workspace run before) {cycles : Nat}
    (ends : (run.execute settings cycles before).1.ends = true) (quiet : run.machine.interrupted = false)
    (goes : run.machine.phase ≠ .finished) : (run.execute settings cycles before).2.1.Settled := by
  have executes := Run.executes_executeWithin settings cycles settings.depth run before
  rw [Run.execute] at ends ⊢
  generalize Run.executeWithin settings cycles (settings.depth + 1) run before = result at executes ends ⊢
  cases executes with
  | interrupted interrupted => cases quiet.symm.trans interrupted
  | faulty _ faulty => exact ⟨reached.pending_of_fault (by simp [faulty]), rfl⟩
  | finished _ _ finished => exact absurd finished goes
  | awaiting => cases ends
  | running quiet clean running comes =>
    have concludes := comes.concludes ⟨⟨reached.linked.idle running, clean, quiet⟩, running⟩
    exact ⟨concludes.pending ends, concludes.fault⟩

/-- The end of a run is final, unless the run was broken off while a question was open or a bad answer had not been
reported. When an execution has shown an error or the end, then every later one shows the end, with operands, heap and
functions as they are, if and only if nothing is left of the input; and nothing is left if the run has ended of itself. -/
theorem end_is_final_iff (settings : Settings) (program : List Item) (workspace : Workspace) {run : Run}
    {before : Workspace} (reached : Reached settings program workspace run before) (cycles : Nat)
    (ends : (run.execute settings cycles before).1.ends = true) :
    (Run.Final settings (run.execute settings cycles before).2.1 (run.execute settings cycles before).2.2 ↔
      (run.execute settings cycles before).2.1.Settled) ∧
    (run.machine.interrupted = false → run.machine.phase ≠ .finished →
      (run.execute settings cycles before).2.1.Settled) :=
  ⟨(reached.ended ends).final_iff, reached.settled ends⟩

/-- The settings of programs without modules and with a small heap. -/
def small : Settings where
  library := .memory {}
  capacity := 4

/-- The program `"?" ips pr`, executed up to its question. -/
def questioned : Run.Result :=
  (Run.start small (.ofItems [.string ⟨0, 0, 3⟩ "?", .word ⟨0, 4, 7⟩ "ips", .word ⟨0, 8, 10⟩ "pr"])).execute small 9 {}

/-- That program, answered and executed up to what it prints. -/
def replied : Run.Result :=
  (questioned.2.1.enter "x").execute small 9 questioned.2.2

/-- That program, broken off at its question. -/
def brokenOff : Run.Result :=
  questioned.2.1.interrupt.execute small 9 questioned.2.2

/-- When the program has been answered, it ends of itself, and that is final. -/
theorem answered_end_is_final :
    Reached small [.string ⟨0, 0, 3⟩ "?", .word ⟨0, 4, 7⟩ "ips", .word ⟨0, 8, 10⟩ "pr"] {} replied.2.1 replied.2.2 ∧
    (replied.2.1.execute small 9 replied.2.2).1.ends = true ∧
    Run.Final small (replied.2.1.execute small 9 replied.2.2).2.1 (replied.2.1.execute small 9 replied.2.2).2.2 := by
  have reached : Reached small [.string ⟨0, 0, 3⟩ "?", .word ⟨0, 4, 7⟩ "ips", .word ⟨0, 8, 10⟩ "pr"] {}
      replied.2.1 replied.2.2 := .execute 9 (.enter "x" (.execute 9 .start))
  have ends : (replied.2.1.execute small 9 replied.2.2).1.ends = true := by cbv
  have quiet : replied.2.1.machine.interrupted = false := by cbv
  have running : replied.2.1.machine.phase = .running := by cbv
  obtain ⟨final, settled⟩ := end_is_final_iff small _ {} reached 9 ends
  exact ⟨reached, ends, final.2 (settled quiet (by simp [running]))⟩

/-- When it has been broken off at its question, the end is not final: an answer puts the program back to work. -/
theorem broken_off_question_goes_on :
    brokenOff.1.ends = true ∧ ¬Run.Final small brokenOff.2.1 brokenOff.2.2 := by
  refine ⟨by cbv, fun final => ?_⟩
  have stopped := (final [.enter "x"] 9).1
  have prints : ((brokenOff.2.1.enter "x").execute small 9 brokenOff.2.2).1 = .print "x" := by cbv
  cases prints.symm.trans stopped

end TapeMachine
