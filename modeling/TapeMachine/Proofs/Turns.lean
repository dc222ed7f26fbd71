import Mathlib.Logic.Relation
import TapeMachine.Proofs.Simulation
import TapeMachine.Run

namespace TapeMachine

namespace Machine

/-- The machine takes a step as soon as it is executed. -/
structure AtWork (machine : Machine) : Prop extends machine.Calm where
  phase : machine.phase = .running

/-- The machine has asked for input, and nothing else happens before there is an answer. -/
structure Awaits (machine : Machine) : Prop where
  pending : machine.pending ≠ none
  fault : machine.fault = none
  interrupted : machine.interrupted = false
  phase : machine.phase = .awaiting

/-- The machine has not asked for input, or has been answered. -/
structure Answered (machine : Machine) : Prop where
  pending : machine.pending = none
  interrupted : machine.interrupted = false
  phase : machine.phase ≠ .awaiting

/-- The machine has asked for input, or it has not. -/
def Poised (machine : Machine) : (asked : Bool) → Prop
  | true => machine.Awaits
  | false => machine.Answered

variable {machine next : Machine}

theorem AtWork.change (atWork : machine.AtWork) (tape : Tape) (ip : Nat) (operands : Stack Value) (frames : List Frame)
    (bindings : Scope Value) (functions : Dictionary Callable) (heap : Heap) :
    ({ machine with tape, ip, operands, frames, bindings, functions, heap }).AtWork :=
  ⟨⟨atWork.pending, atWork.fault, atWork.interrupted⟩, atWork.phase⟩

theorem AtWork.answered (atWork : machine.AtWork) : machine.Answered where
  pending := atWork.pending
  interrupted := atWork.interrupted
  phase := by simp [atWork.phase]

theorem AtWork.finished (atWork : machine.AtWork) : { machine with phase := .finished }.Answered where
  pending := atWork.pending
  interrupted := atWork.interrupted
  phase := nofun

/-- A line that nobody has asked for changes nothing. -/
theorem Answered.enter (answered : machine.Answered) (line : String) : machine.enter line = machine := by
  simp only [Machine.enter, answered.pending]

theorem Answered.closeInput (answered : machine.Answered) : machine.closeInput = machine := by
  simp only [Machine.closeInput, answered.pending]

/-- The machine as it is when nobody has asked it to break off. -/
def calmed (machine : Machine) : Machine :=
  { machine with interrupted := false }

theorem calmed_enter (machine : Machine) (line : String) : (machine.enter line).calmed = machine.calmed.enter line := by
  cases asked : machine.pending with
  | none => simp only [Machine.enter, calmed, asked]
  | some request =>
    obtain ⟨kind, place⟩ := request
    simp only [Machine.enter, calmed, asked]
    split
    · rfl
    · split <;> rfl

theorem calmed_closeInput (machine : Machine) : machine.closeInput.calmed = machine.calmed.closeInput := by
  cases asked : machine.pending with
  | none => simp only [Machine.closeInput, calmed, asked]
  | some request =>
    obtain ⟨_ | _, place⟩ := request
    · rw [Machine.closeInput, Machine.closeInput, asked, show machine.calmed.pending = _ from asked]
      exact calmed_enter machine _
    · rw [Machine.closeInput, Machine.closeInput, asked, show machine.calmed.pending = _ from asked]
      exact calmed_enter machine _

/-- An answer is taken, even by a machine that has been broken off. -/
theorem Answered.of_enter (asked : machine.pending ≠ none) (line : String) : (machine.enter line).calmed.Answered := by
  unfold Machine.enter
  split
  · rename_i none
    exact absurd none asked
  · dsimp only
    split
    · exact ⟨rfl, rfl, nofun⟩
    · split
      · exact ⟨rfl, rfl, nofun⟩
      · exact ⟨rfl, rfl, nofun⟩

theorem Answered.of_closeInput (asked : machine.pending ≠ none) : machine.closeInput.calmed.Answered := by
  unfold Machine.closeInput
  split
  · exact .of_enter asked _
  · exact .of_enter asked _
  · rename_i none
    exact absurd none asked

theorem Awaits.calmed_eq (awaits : machine.Awaits) : machine.calmed = machine := by
  rw [calmed, ← awaits.interrupted]

theorem Awaits.enter (awaits : machine.Awaits) (line : String) : (machine.enter line).Answered := by
  have answered := Answered.of_enter awaits.pending line
  rwa [calmed_enter, awaits.calmed_eq] at answered

theorem Awaits.closeInput (awaits : machine.Awaits) : machine.closeInput.Answered := by
  have answered := Answered.of_closeInput awaits.pending
  rwa [calmed_closeInput, awaits.calmed_eq] at answered

/-- A machine at work that crosses boundaries stays at work. -/
def Boundary.Onward : Boundary → Prop
  | .settled _ next | .crossed next | .failed _ next => next.AtWork

/-- A boundary moves the machine and closes blocks; it asks for nothing and ends nothing. -/
theorem AtWork.boundary (atWork : machine.AtWork) : machine.boundary.Onward := by
  unfold Machine.boundary
  split
  · exact atWork
  · split
    · exact atWork.change ..
    · exact atWork
  · split
    · unfold againOrDone
      split <;> exact atWork.change ..
    · exact atWork
  · rename_i test body stop outer _
    have back : (machine.backToTest test stop).AtWork := by
      unfold backToTest
      split
      · exact atWork.change ..
      · exact atWork
    unfold bodyOrDone
    split
    · split
      · exact back
      · split
        · exact back.change ..
        · split <;> exact back.change ..
    · exact back
  · split
    · rename_i stop address outer _ _
      unfold dropCell
      cases machine.heap.free address <;> exact atWork.change ..
    · exact atWork
  · exact atWork

theorem AtWork.settle (atWork : machine.AtWork) : machine.settle.2.AtWork := by
  induction machine using Machine.settle.induct with
  | case1 machine more next found =>
    have onward := atWork.boundary
    rw [found] at onward
    rw [settle_of_settled found]
    exact onward
  | case2 machine cause next found =>
    have onward := atWork.boundary
    rw [found] at onward
    rw [settle_of_failed found]
    exact onward
  | case3 machine next found _ ih =>
    have onward := atWork.boundary
    rw [found] at onward
    rw [settle_of_crossed found]
    exact ih onward

end Machine

/-- Does the event ask for input? -/
def Event.asks : Event → Bool
  | .input _ => true
  | _ => false

/-- The events behind which a run has nothing more to do. -/
def Event.ends : Event → Bool
  | .stopped | .error _ => true
  | .running | .print _ | .input _ | .leak .. => false

namespace Machine

variable {machine : Machine}

/-- A step of a machine at work leaves it at work, unless it shows something. -/
def Progress.Onward : Progress → Prop
  | .ran next | .imports _ _ next | .failed _ next => next.AtWork
  | .shows event next => next.Poised event.asks

theorem AtWork.leave (atWork : machine.AtWork) (value : Value) : (machine.leave value).Onward := by
  unfold Machine.leave
  split <;> exact atWork.change ..

theorem AtWork.branch (atWork : machine.AtWork) (alternative : Option Nat) (stop : Nat) :
    (machine.branch alternative stop).Onward := by
  unfold Machine.branch
  split
  · exact atWork
  · split
    · exact atWork.change ..
    · split <;> exact atWork.change ..

theorem AtWork.repeats (atWork : machine.AtWork) (start stop : Nat) : (machine.repeats start stop).Onward := by
  unfold Machine.repeats
  split
  · exact atWork
  · split <;> exact atWork.change ..

theorem AtWork.bind (atWork : machine.AtWork) (names : List String) : (machine.bind names).Onward := by
  unfold Machine.bind
  split
  · exact atWork
  · exact atWork.change ..

theorem AtWork.cell (atWork : machine.AtWork) (name : String) (stop : Nat) : (machine.cell name stop).Onward := by
  unfold Machine.cell
  split
  · exact atWork
  · exact atWork.change ..

/-- Only the words that ask for input leave the machine waiting. -/
theorem AtWork.builtin (atWork : machine.AtWork) (word : Builtin) (place : Location) :
    (machine.builtin word place).Onward := by
  unfold Machine.builtin
  split
  · exact atWork.change ..
  · rename_i effect operands heap _
    cases effect with
    | «continue» => exact atWork.change ..
    | print text => exact (atWork.change ..).answered
    | input kind prompt => exact ⟨nofun, atWork.fault, atWork.interrupted, rfl⟩

theorem AtWork.call (atWork : machine.AtWork) (name : String) (place : Location) :
    (machine.call name place).Onward := by
  unfold Machine.call
  split
  · exact atWork.builtin _ _
  · exact atWork.change ..
  · split
    · exact atWork.leave _
    · exact atWork

theorem AtWork.unwind (atWork : machine.AtWork) (frames : List Frame) : (unwind frames machine).Onward := by
  induction frames generalizing machine with
  | nil => exact atWork.change ..
  | cons frame outer ih =>
    cases frame with
    | call tape address => exact atWork.change ..
    | cell stop address =>
      have closed : (machine.dropCell address outer).2.AtWork := by
        unfold dropCell
        split <;> exact atWork.change ..
      rw [Machine.unwind]
      split
      · rename_i dropped
        rw [dropped] at closed
        exact ih closed
      · rename_i dropped
        rw [dropped] at closed
        exact closed
    | branch | repeats | loop => exact ih atWork

/-- One case for each opcode. -/
theorem AtWork.perform (atWork : machine.AtWork) (instruction : Instruction) :
    (machine.perform instruction).Onward := by
  unfold Machine.perform
  cases instruction.opcode with
  | number | string => exact atWork.leave _
  | branch => exact atWork.branch _ _
  | repeats => exact atWork.repeats _ _
  | bind => exact atWork.bind _
  | cell => exact atWork.cell _ _
  | call => exact atWork.call _ _
  | ret => exact atWork.unwind _
  | imports => exact atWork
  | loop | unbind | define | dropCell | enter | noop => exact atWork.change ..

theorem AtWork.finish (atWork : machine.AtWork) : machine.finish.Onward := by
  unfold Machine.finish
  dsimp only
  split <;> exact atWork.finished

/-- A machine at work stays so, unless what it shows is a question or an end. -/
theorem AtWork.step (atWork : machine.AtWork) : machine.step.Onward := by
  have settled := atWork.settle
  unfold Machine.step
  split
  · rename_i found
    rw [found] at settled
    exact settled
  · rename_i found
    rw [found] at settled
    exact settled.finish
  · rename_i found
    rw [found] at settled
    split
    · exact settled.perform _
    · exact settled

theorem AtWork.onward (atWork : machine.AtWork) {progress : Progress} (stepped : machine.step = progress) :
    progress.Onward :=
  stepped ▸ atWork.step

end Machine

namespace Run

/-- What turns of a run come to when `execute` executes the modules, however many turns there are. -/
inductive ComesTo (settings : Settings) (execute : Run → Workspace → Result) : Run → Workspace → Result → Prop
  | out {run : Run} {workspace : Workspace} : ComesTo settings execute run workspace (.running, run, workspace)
  | ran {machine next : Machine} {workspace : Workspace} {result : Result} :
      machine.step = .ran next → ComesTo settings execute ⟨next, []⟩ workspace result →
      ComesTo settings execute ⟨machine, []⟩ workspace result
  | shows {machine next : Machine} {event : Event} {workspace : Workspace} :
      machine.step = .shows event next →
      ComesTo settings execute ⟨machine, []⟩ workspace (event, ⟨next, []⟩, workspace)
  | failed {machine next : Machine} {cause : Cause} {workspace : Workspace} :
      machine.step = .failed cause next →
      ComesTo settings execute ⟨machine, []⟩ workspace (fail ⟨next, []⟩ (next.failure cause) workspace)
  | refused {machine next : Machine} {name : String} {place : Location} {failure : Failure}
      {workspace after : Workspace} :
      machine.step = .imports name place next → settings.enterModule name place workspace = (.error failure, after) →
      ComesTo settings execute ⟨machine, []⟩ workspace (fail ⟨next, []⟩ failure after)
  | entered {machine next : Machine} {name : String} {place : Location} {items : List Item}
      {workspace after : Workspace} {result : Result} :
      machine.step = .imports name place next → settings.enterModule name place workspace = (.ok items, after) →
      ComesTo settings execute ⟨next, [.start settings.capacity (.ofItems items)]⟩ after result →
      ComesTo settings execute ⟨machine, []⟩ workspace result
  | adopted {machine module : Machine} {inner : List Machine} {finished : Run} {workspace after : Workspace}
      {result : Result} :
      execute ⟨module, inner⟩ workspace = (.stopped, finished, after) →
      ComesTo settings execute (adopt ⟨machine, []⟩ finished) after.close result →
      ComesTo settings execute ⟨machine, module :: inner⟩ workspace result
  | broken {machine module : Machine} {inner : List Machine} {failure : Failure} {ended : Run}
      {workspace after : Workspace} :
      execute ⟨module, inner⟩ workspace = (.error failure, ended, after) →
      ComesTo settings execute ⟨machine, module :: inner⟩ workspace
        (fail ⟨machine, ended.machine :: ended.modules⟩ failure after)
  | waits {machine module : Machine} {inner : List Machine} {event : Event} {next : Run}
      {workspace after : Workspace} :
      execute ⟨module, inner⟩ workspace = (event, next, after) → event.ends = false →
      ComesTo settings execute ⟨machine, module :: inner⟩ workspace
        (event, ⟨machine, next.machine :: next.modules⟩, after)

/-- What turns come to is one of the ways of the relation, by induction on the turns that are left. -/
theorem comesTo_advance (settings : Settings) (execute : Run → Workspace → Result) (turns : Nat) (run : Run)
    (workspace : Workspace) : ComesTo settings execute run workspace (advance settings execute turns run workspace) := by
  induction turns generalizing run workspace with
  | zero => exact .out
  | succ turns ih =>
    obtain ⟨machine, modules⟩ := run
    cases modules with
    | nil =>
      rw [advance]
      cases stepped : machine.step with
      | ran next => exact .ran stepped (ih ..)
      | shows event next => exact .shows stepped
      | failed cause next => exact .failed stepped
      | imports name place next =>
        dsimp only
        split
        · rename_i entered
          exact .refused stepped entered
        · rename_i entered
          exact .entered stepped entered (ih ..)
    | cons module inner =>
      rw [advance]
      cases executed : execute ⟨module, inner⟩ workspace with
      | mk event result =>
      cases event with
      | stopped => exact .adopted executed (ih ..)
      | error failure => exact .broken executed
      | running | print | input | leak => exact .waits executed rfl

/-- What an execution comes to when `execute` executes the modules. It breaks off a run that has been told so, it reports
a bad answer, and it makes turns only with a machine that runs. -/
inductive Executes (settings : Settings) (execute : Run → Workspace → Result) : Run → Workspace → Result → Prop
  | interrupted {machine : Machine} {modules : List Machine} {workspace : Workspace} :
      machine.interrupted = true → Executes settings execute ⟨machine, modules⟩ workspace
        (fail ⟨{ machine with interrupted := false }, modules⟩ (machine.failure .interrupted) workspace)
  | faulty {machine : Machine} {modules : List Machine} {failure : Failure} {workspace : Workspace} :
      machine.interrupted = false → machine.fault = some failure → Executes settings execute ⟨machine, modules⟩ workspace
        (fail ⟨{ machine with fault := none }, modules⟩ failure workspace)
  | finished {machine : Machine} {modules : List Machine} {workspace : Workspace} :
      machine.interrupted = false → machine.fault = none → machine.phase = .finished →
      Executes settings execute ⟨machine, modules⟩ workspace (.stopped, ⟨machine, modules⟩, workspace)
  | awaiting {machine : Machine} {modules : List Machine} {workspace : Workspace} :
      machine.interrupted = false → machine.fault = none → machine.phase = .awaiting →
      Executes settings execute ⟨machine, modules⟩ workspace (.running, ⟨machine, modules⟩, workspace)
  | running {machine : Machine} {modules : List Machine} {workspace : Workspace} {result : Result} :
      machine.interrupted = false → machine.fault = none → machine.phase = .running →
      ComesTo settings execute ⟨machine, modules⟩ workspace result →
      Executes settings execute ⟨machine, modules⟩ workspace result

/-- The same for an execution, which looks for interruptions, faults and ends first. -/
theorem executes_executeWithin (settings : Settings) (cycles depth : Nat) (run : Run) (workspace : Workspace) :
    Executes settings (executeWithin settings cycles depth) run workspace
      (executeWithin settings cycles (depth + 1) run workspace) := by
  obtain ⟨machine, modules⟩ := run
  rw [executeWithin]
  split
  · rename_i interrupted
    exact .interrupted interrupted
  · rename_i quiet
    have quiet : machine.interrupted = false := by simpa using quiet
    split
    · rename_i faulty
      exact .faulty quiet faulty
    · rename_i clean
      split
      · rename_i finished
        exact .finished quiet clean finished
      · rename_i awaiting
        exact .awaiting quiet clean awaiting
      · rename_i running
        exact .running quiet clean running (comesTo_advance ..)

/-- The machines that wait for a module are at work, and the innermost machine has asked for input or not. -/
inductive Poised (asked : Bool) : Run → Prop
  | alone {machine : Machine} : machine.Poised asked → Poised asked ⟨machine, []⟩
  | waiting {machine module : Machine} {inner : List Machine} : machine.AtWork → Poised asked ⟨module, inner⟩ →
      Poised asked ⟨machine, module :: inner⟩

theorem onInnermost_cons (machine module : Machine) (inner : List Machine) (change : Machine → Machine) :
    onInnermost ⟨machine, module :: inner⟩ change =
      ⟨machine, (onInnermost ⟨module, inner⟩ change).machine :: (onInnermost ⟨module, inner⟩ change).modules⟩ := by
  cases found : inner.reverse with
  | nil =>
    cases List.reverse_eq_nil_iff.1 found
    rfl
  | cons innermost outer => simp [onInnermost, found]

variable {run : Run} {asked : Bool}

/-- What the innermost machine makes of an answer, the run makes of it. -/
theorem Poised.onInnermost {asked' : Bool} {change : Machine → Machine} (poised : run.Poised asked)
    (changes : ∀ machine : Machine, machine.Poised asked → (change machine).Poised asked') :
    (run.onInnermost change).Poised asked' := by
  induction poised with
  | alone poised => exact .alone (changes _ poised)
  | waiting atWork _ ih =>
    rw [onInnermost_cons]
    exact .waiting atWork ih

theorem Poised.onInnermost_eq {change : Machine → Machine} (poised : run.Poised asked)
    (keeps : ∀ machine : Machine, machine.Poised asked → change machine = machine) : run.onInnermost change = run := by
  induction poised with
  | alone poised =>
    simp only [Run.onInnermost, List.reverse_nil]
    rw [keeps _ poised]
  | waiting _ _ ih => rw [onInnermost_cons, ih]

theorem Poised.pending (poised : run.Poised false) : run.machine.pending = none := by
  cases poised with
  | alone poised => exact Machine.Answered.pending poised
  | waiting atWork _ => exact atWork.pending

theorem Poised.interrupted (poised : run.Poised false) : run.machine.interrupted = false := by
  cases poised with
  | alone poised => exact Machine.Answered.interrupted poised
  | waiting atWork _ => exact atWork.interrupted

variable {settings : Settings} {workspace : Workspace}

theorem executeWithin_of_atWork {machine : Machine} (atWork : machine.AtWork) (modules : List Machine)
    (cycles depth : Nat) :
    executeWithin settings cycles (depth + 1) ⟨machine, modules⟩ workspace =
      advance settings (executeWithin settings cycles depth) cycles ⟨machine, modules⟩ workspace := by
  rw [executeWithin, if_neg (by simp [atWork.interrupted]), atWork.fault, atWork.phase]

/-- While an answer is awaited, an execution does nothing. -/
theorem Poised.executeWithin_asked (poised : run.Poised true) (cycles depth : Nat) :
    executeWithin settings cycles depth run workspace = (.running, run, workspace) := by
  induction depth generalizing run with
  | zero => rfl
  | succ depth ih =>
    cases poised with
    | alone awaits =>
      simp [executeWithin, awaits.interrupted, awaits.fault, awaits.phase]
    | waiting atWork inner =>
      rw [executeWithin_of_atWork atWork]
      cases cycles with
      | zero => rfl
      | succ more => rw [advance, ih inner]

theorem poised_start (settings : Settings) (tape : Tape) : (start settings tape).Poised false :=
  .alone ⟨rfl, rfl, nofun⟩

theorem start_atWork (capacity : Nat) (tape : Tape) : (Machine.start capacity tape).AtWork :=
  ⟨⟨rfl, rfl, rfl⟩, rfl⟩

/-- Turns lead from a run that has not asked for input to one that has asked if they show so, and not otherwise. -/
theorem ComesTo.poised {execute : Run → Workspace → Result} {result : Result}
    (inside : ∀ {run : Run}, run.Poised false → ∀ workspace,
      (execute run workspace).2.1.Poised (execute run workspace).1.asks)
    (comes : ComesTo settings execute run workspace result) (atWork : run.machine.AtWork) (poised : run.Poised false) :
    result.2.1.Poised result.1.asks := by
  induction comes with
  | out => exact poised
  | ran stepped _ ih =>
    have onward : Machine.AtWork _ := atWork.onward stepped
    exact ih onward (.alone onward.answered)
  | shows stepped => exact .alone (atWork.onward stepped)
  | failed stepped | refused stepped _ =>
    have onward : Machine.AtWork _ := atWork.onward stepped
    exact .alone onward.finished
  | entered stepped _ _ ih =>
    have onward : Machine.AtWork _ := atWork.onward stepped
    exact ih onward (.waiting onward (.alone (start_atWork ..).answered))
  | adopted _ _ ih => exact ih (atWork.change ..) (.alone (atWork.change ..).answered)
  | broken _ => exact .alone atWork.finished
  | @waits _ _ _ _ _ workspace _ executed _ =>
    cases poised with
    | waiting _ poised =>
      have onward := inside poised workspace
      rw [executed] at onward
      exact .waiting atWork onward

/-- A run that has not asked for input asks when it shows so, and not otherwise. -/
theorem Poised.executeWithin (poised : run.Poised false) (cycles depth : Nat) (workspace : Workspace) :
    (executeWithin settings cycles depth run workspace).2.1.Poised
      (executeWithin settings cycles depth run workspace).1.asks := by
  induction depth generalizing run workspace with
  | zero => exact poised
  | succ depth ih =>
    have executes := executes_executeWithin settings cycles depth run workspace
    generalize Run.executeWithin settings cycles (depth + 1) run workspace = result at executes ⊢
    cases executes with
    | interrupted interrupted => cases poised.interrupted.symm.trans interrupted
    | faulty _ _ => exact .alone ⟨poised.pending, poised.interrupted, nofun⟩
    | finished | awaiting => exact poised
    | running quiet clean running comes =>
      exact comes.poised ih ⟨⟨poised.pending, clean, quiet⟩, running⟩ poised

/-- A turn that shows nothing. -/
def Tick (settings : Settings) (depth : Nat) (before after : Run × Workspace) : Prop :=
  executeWithin settings 1 depth before.1 before.2 = (.running, after)

/-- The result of an execution is what turns lead to. -/
def Reaches (settings : Settings) (depth : Nat) (before : Run × Workspace) (result : Result) : Prop :=
  ∃ last, Relation.ReflTransGen (Tick settings depth) before last ∧
    (result = (.running, last) ∨ result.1 ≠ .running ∧ result = executeWithin settings 1 depth last.1 last.2)

theorem Reaches.running (depth : Nat) (before : Run × Workspace) : Reaches settings depth before (.running, before) :=
  ⟨before, .refl, .inl rfl⟩

/-- One turn reaches what it shows. -/
theorem Reaches.of_turn {depth : Nat} (run : Run) (workspace : Workspace) :
    Reaches settings depth (run, workspace) (executeWithin settings 1 depth run workspace) := by
  by_cases running : (executeWithin settings 1 depth run workspace).1 = .running
  · refine ⟨(executeWithin settings 1 depth run workspace).2, .single ?_, .inl ?_⟩
    · exact Prod.ext running rfl
    · exact Prod.ext running rfl
  · exact ⟨_, .refl, .inr ⟨running, rfl⟩⟩

/-- Silent turns before it do not matter. -/
theorem Reaches.of_ticks {depth : Nat} {before after : Run × Workspace} {result : Result}
    (ticks : Relation.ReflTransGen (Tick settings depth) before after) (reaches : Reaches settings depth after result) :
    Reaches settings depth before result := by
  obtain ⟨last, rest, shown⟩ := reaches
  exact ⟨last, ticks.trans rest, shown⟩

/-- A machine that waits for a run as its module. -/
def within (machine : Machine) (inner : Run × Workspace) : Run × Workspace :=
  (⟨machine, inner.1.machine :: inner.1.modules⟩, inner.2)

/-- A turn of a module is one of the machine that waits for it. -/
theorem Tick.within {machine : Machine} (atWork : machine.AtWork) {depth : Nat} {before after : Run × Workspace}
    (tick : Tick settings depth before after) :
    Tick settings (depth + 1) (within machine before) (within machine after) := by
  have tick : executeWithin settings 1 depth before.1 before.2 = (.running, after) := tick
  rw [Tick, Run.within, executeWithin_of_atWork atWork, advance, tick]
  rfl

/-- One turn of a run at work. -/
theorem Reaches.of_advance {depth : Nat} (atWork : run.machine.AtWork) (workspace : Workspace) :
    Reaches settings (depth + 1) (run, workspace)
      (advance settings (executeWithin settings 1 depth) 1 run workspace) := by
  rw [← executeWithin_of_atWork atWork]
  exact .of_turn run workspace

/-- What a module shows, it shows in a turn of its own, to which turns of the machine that waits for it lead. -/
theorem Reaches.within {machine : Machine} (atWork : machine.AtWork) {depth : Nat} {before : Run × Workspace}
    {result : Result} (reaches : Reaches settings depth before result) (shows : result.1 ≠ .running) :
    ∃ last, Relation.ReflTransGen (Tick settings (depth + 1)) (Run.within machine before) (Run.within machine last) ∧
      executeWithin settings 1 depth last.1 last.2 = result := by
  obtain ⟨last, ticks, rfl | ⟨-, same⟩⟩ := reaches
  · exact absurd rfl shows
  · exact ⟨last, ticks.lift (Run.within machine) fun _ _ tick => tick.within atWork, same.symm⟩

/-- A module that shows nothing leaves its importer waiting and silent. -/
theorem Reaches.within_running {machine : Machine} (atWork : machine.AtWork) {depth : Nat}
    {before after : Run × Workspace} (reaches : Reaches settings depth before (.running, after)) :
    Reaches settings (depth + 1) (Run.within machine before) (.running, Run.within machine after) := by
  obtain ⟨last, ticks, same | ⟨shows, -⟩⟩ := reaches
  · cases same
    exact ⟨_, ticks.lift (Run.within machine) fun _ _ tick => tick.within atWork, .inl rfl⟩
  · exact absurd rfl shows

/-- What turns come to, single turns lead to, if that is so for the executions of a module. -/
theorem ComesTo.reaches {cycles depth : Nat} {result : Result}
    (inside : ∀ {run : Run}, run.Poised false → ∀ workspace,
      Reaches settings depth (run, workspace) (Run.executeWithin settings cycles depth run workspace))
    (comes : ComesTo settings (Run.executeWithin settings cycles depth) run workspace result)
    (atWork : run.machine.AtWork) (poised : run.Poised false) :
    Reaches settings (depth + 1) (run, workspace) result := by
  induction comes with
  | out => exact .running ..
  | @ran machine next workspace _ stepped _ ih =>
    have onward : next.AtWork := atWork.onward stepped
    have turn : Tick settings (depth + 1) (⟨machine, []⟩, workspace) (⟨next, []⟩, workspace) := by
      rw [Tick, executeWithin_of_atWork atWork, advance, stepped]
      rfl
    exact .of_ticks (.single turn) (ih onward (.alone onward.answered))
  | @shows machine _ _ workspace stepped | @failed machine _ _ workspace stepped =>
    have turn : Reaches settings (depth + 1) (⟨machine, []⟩, workspace) _ := .of_advance atWork workspace
    rwa [advance, stepped] at turn
  | @refused machine _ _ _ _ workspace _ stepped entered =>
    have turn : Reaches settings (depth + 1) (⟨machine, []⟩, workspace) _ := .of_advance atWork workspace
    rw [advance, stepped] at turn
    dsimp only at turn
    rwa [entered] at turn
  | @entered machine next _ _ items workspace after _ stepped entered _ ih =>
    have onward : next.AtWork := atWork.onward stepped
    have turn : Tick settings (depth + 1) (⟨machine, []⟩, workspace)
        (⟨next, [.start settings.capacity (.ofItems items)]⟩, after) := by
      rw [Tick, executeWithin_of_atWork atWork, advance, stepped]
      dsimp only
      rw [entered]
      rfl
    exact .of_ticks (.single turn) (ih onward (.waiting onward (.alone (start_atWork ..).answered)))
  | @adopted machine _ _ finished workspace after _ executed _ ih =>
    cases poised with
    | waiting _ poised =>
      have reaches := inside poised workspace
      rw [executed] at reaches
      obtain ⟨last, ticks, same⟩ := reaches.within atWork nofun
      have turn : Tick settings (depth + 1) (Run.within machine last) (adopt ⟨machine, []⟩ finished, after.close) := by
        rw [Tick, Run.within, executeWithin_of_atWork atWork, advance, same]
        rfl
      exact .of_ticks (ticks.tail turn) (ih (atWork.change ..) (.alone (atWork.change ..).answered))
  | @broken machine _ _ failure _ workspace _ executed =>
    cases poised with
    | waiting _ poised =>
      have reaches := inside poised workspace
      rw [executed] at reaches
      obtain ⟨last, ticks, same⟩ := reaches.within atWork nofun
      have still : (Run.within machine last).1.machine.AtWork := atWork
      have turn : Reaches settings (depth + 1) (Run.within machine last) _ := .of_advance still last.2
      rw [Run.within, advance, same] at turn
      exact .of_ticks ticks turn
  | @waits machine _ _ event next workspace after executed more =>
    cases poised with
    | waiting _ poised =>
      have reaches := inside poised workspace
      rw [executed] at reaches
      by_cases running : event = .running
      · subst running
        exact reaches.within_running atWork
      · obtain ⟨last, ticks, same⟩ := reaches.within atWork running
        have still : (Run.within machine last).1.machine.AtWork := atWork
        have turn : Reaches settings (depth + 1) (Run.within machine last) _ := .of_advance still last.2
        rw [Run.within, advance, same] at turn
        refine .of_ticks ticks ?_
        cases event with
        | stopped | error => cases more
        | running => exact absurd rfl running
        | print | input | leak => exact turn

/-- A machine that cannot take a step needs no cycles. -/
theorem executeWithin_of_idle (poised : run.Poised false) (idle : ¬run.machine.AtWork) (cycles depth : Nat)
    (workspace : Workspace) :
    executeWithin settings cycles (depth + 1) run workspace = executeWithin settings 1 (depth + 1) run workspace := by
  obtain ⟨machine, modules⟩ := run
  have quiet : ¬machine.interrupted = true := by simp [show machine.interrupted = false from poised.interrupted]
  rw [executeWithin, executeWithin, if_neg quiet, if_neg quiet]
  cases fault : machine.fault with
  | some failure => rfl
  | none =>
    cases phase : machine.phase with
    | finished | awaiting => rfl
    | running => exact absurd ⟨⟨poised.pending, fault, poised.interrupted⟩, phase⟩ idle

/-- An execution comes to what turns lead to, however many cycles it has. -/
theorem Poised.reaches (poised : run.Poised false) (cycles depth : Nat) (workspace : Workspace) :
    Reaches settings depth (run, workspace) (Run.executeWithin settings cycles depth run workspace) := by
  induction depth generalizing run workspace with
  | zero => exact .running ..
  | succ depth ih =>
    by_cases atWork : run.machine.AtWork
    · rw [executeWithin_of_atWork atWork]
      exact (comesTo_advance ..).reaches ih atWork poised
    · rw [executeWithin_of_idle poised atWork]
      exact .of_turn ..

end Run

end TapeMachine
