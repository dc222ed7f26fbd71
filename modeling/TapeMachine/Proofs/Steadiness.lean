import TapeMachine.Proofs.Turns

namespace TapeMachine

namespace Run

variable {settings : Settings} {run : Run}

/-- The machines of a run that wait for a module are at work, and the innermost machine has asked for input or not; only
that somebody may have asked the run to break off. Or the run is over. -/
def Steady (run : Run) : Prop :=
  (∃ asked, Poised asked ⟨run.machine.calmed, run.modules⟩) ∨ run.modules = [] ∧ run.machine.phase = .finished

theorem Poised.steady {asked : Bool} (poised : run.Poised asked) : run.Steady := by
  refine .inl ⟨asked, ?_⟩
  cases poised with
  | alone poised =>
    refine .alone ?_
    cases asked with
    | true => exact ⟨poised.pending, poised.fault, rfl, poised.phase⟩
    | false => exact ⟨poised.pending, rfl, poised.phase⟩
  | waiting atWork inside => exact .waiting ⟨⟨atWork.pending, atWork.fault, rfl⟩, atWork.phase⟩ inside

theorem Steady.poised {machine : Machine} {modules : List Machine} (steady : Steady ⟨machine, modules⟩)
    (calm : machine.interrupted = false) :
    (∃ asked, Poised asked ⟨machine, modules⟩) ∨ modules = [] ∧ machine.phase = .finished := by
  have same : machine.calmed = machine := by rw [Machine.calmed, ← calm]
  unfold Steady at steady
  rwa [same] at steady

/-- A machine that is over shows the same, however many cycles it has. -/
theorem executeWithin_of_finished {machine : Machine} (finished : machine.phase = .finished) (cycles depth : Nat)
    (workspace : Workspace) :
    executeWithin settings cycles (depth + 1) ⟨machine, []⟩ workspace =
        executeWithin settings 1 (depth + 1) ⟨machine, []⟩ workspace ∧
      (executeWithin settings 1 (depth + 1) ⟨machine, []⟩ workspace).2.1.Steady := by
  rw [executeWithin, executeWithin, finished]
  split
  · exact ⟨rfl, .inr ⟨rfl, rfl⟩⟩
  · split
    · exact ⟨rfl, .inr ⟨rfl, rfl⟩⟩
    · exact ⟨rfl, .inr ⟨rfl, finished⟩⟩

theorem Steady.execute (steady : run.Steady) (cycles : Nat) (workspace : Workspace) :
    Reaches settings (settings.depth + 1) (run, workspace) (run.execute settings cycles workspace) ∧
      (run.execute settings 1 workspace).2.1.Steady := by
  obtain ⟨machine, modules⟩ := run
  unfold Run.execute
  cases interrupted : machine.interrupted with
  | true =>
    have broken (cycles : Nat) : executeWithin settings cycles (settings.depth + 1) ⟨machine, modules⟩ workspace =
        fail ⟨{ machine with interrupted := false }, modules⟩ (machine.failure .interrupted) workspace := by
      rw [Run.executeWithin, if_pos interrupted]
    refine ⟨?_, ?_⟩
    · rw [broken, ← broken 1]
      exact .of_turn ..
    · rw [broken]
      exact .inr ⟨rfl, rfl⟩
  | false =>
    rcases steady.poised interrupted with ⟨asked, poised⟩ | ⟨rfl, finished⟩
    · cases asked with
      | true =>
        rw [poised.executeWithin_asked, poised.executeWithin_asked]
        exact ⟨.running .., poised.steady⟩
      | false => exact ⟨poised.reaches cycles (settings.depth + 1) workspace, (poised.executeWithin 1 _ workspace).steady⟩
    · obtain ⟨same, steady⟩ := @executeWithin_of_finished settings _ finished cycles settings.depth workspace
      rw [same]
      exact ⟨.of_turn .., steady⟩

theorem Steady.onInnermost {change : Machine → Machine} (steady : run.Steady)
    (calms : ∀ machine : Machine, (change machine).calmed = change machine.calmed)
    (keeps : ∀ machine : Machine, machine.pending = none → change machine = machine)
    (takes : ∀ machine : Machine, machine.pending ≠ none → (change machine).calmed.Answered) :
    (run.onInnermost change).Steady := by
  obtain ⟨machine, modules⟩ := run
  have answers (asked : Bool) (machine : Machine) (poised : machine.Poised asked) : (change machine).Answered := by
    cases asked with
    | true =>
      have awaits : machine.Awaits := poised
      have answered := takes machine awaits.pending
      rwa [calms, awaits.calmed_eq] at answered
    | false => exact (keeps machine poised.pending).symm ▸ poised
  rcases steady with ⟨asked, poised⟩ | ⟨alone, finished⟩
  · cases poised with
    | alone poised => exact .inl ⟨false, .alone ((calms machine).symm ▸ answers asked _ poised)⟩
    | waiting atWork inside =>
      rw [onInnermost_cons]
      exact .inl ⟨false, .waiting atWork (inside.onInnermost (answers asked))⟩
  · cases alone
    by_cases none : machine.pending = none
    · exact .inr ⟨rfl, (congrArg Machine.phase (keeps machine none)).trans finished⟩
    · exact .inl ⟨false, .alone (takes machine none)⟩

end Run

end TapeMachine
