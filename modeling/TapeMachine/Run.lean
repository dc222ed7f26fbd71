import TapeMachine.Machine.Step
import TapeMachine.Program
import TapeMachine.Tape.Layout

namespace TapeMachine

/-- A machine and the modules it waits for: the first of them was imported by the machine, and each
other one by the one before it. -/
structure Run where
  machine : Machine
  modules : List Machine := []

namespace Run

/-- A run at the beginning of a program. -/
def start (settings : Settings) (tape : Tape) : Run where
  machine := .start settings.capacity tape

/-- Do something to the machine that is at work, which is the last one. -/
def onInnermost (run : Run) (change : Machine → Machine) : Run :=
  match run.modules.reverse with
  | [] => { run with machine := change run.machine }
  | innermost :: outer => { run with modules := (change innermost :: outer).reverse }

/-- Answer the input that was asked for. -/
def enter (run : Run) (line : String) : Run :=
  run.onInnermost fun machine => machine.enter line

/-- Answer it where input has ended. -/
def closeInput (run : Run) : Run :=
  run.onInnermost Machine.closeInput

/-- Ask the run to break off. -/
def interrupt (run : Run) : Run :=
  { run with machine := { run.machine with interrupted := true } }

/-- What an execution shows, the run behind it, and the workspace behind it. -/
abbrev Result := Event × Run × Workspace

/-- End a run by a failure. The modules it waits for are given up and leave the chain. -/
def fail (run : Run) (failure : Failure) (workspace : Workspace) : Result :=
  (.error failure, ⟨{ run.machine with phase := .finished }, []⟩,
    run.modules.foldl (fun workspace _ => workspace.close) workspace)

/-- A module is done: its functions join those of its importer, which goes on behind the import. -/
def adopt (run : Run) (finished : Run) : Run where
  machine :=
    { run.machine with
      functions := run.machine.functions.merge finished.machine.functions
      ip := run.machine.ip + 1 }

/-- Make `turns` turns. A turn is a step of the machine or, while it waits for a module, an execution of
that. -/
def advance (settings : Settings) (execute : Run → Workspace → Result) :
    (turns : Nat) → Run → Workspace → Result
  | 0, run, workspace => (.running, run, workspace)
  | turns + 1, ⟨machine, module :: inner⟩, workspace =>
    match execute ⟨module, inner⟩ workspace with
    | (.stopped, finished, after) =>
      advance settings execute turns (adopt ⟨machine, []⟩ finished) after.close
    | (.error failure, ended, after) =>
      fail ⟨machine, ended.machine :: ended.modules⟩ failure after
    | (event, next, after) => (event, ⟨machine, next.machine :: next.modules⟩, after)
  | turns + 1, ⟨machine, []⟩, workspace =>
    match machine.step with
    | .ran next => advance settings execute turns ⟨next, []⟩ workspace
    | .shows event next => (event, ⟨next, []⟩, workspace)
    | .failed cause next => fail ⟨next, []⟩ (next.failure cause) workspace
    | .imports name place next =>
      match settings.enterModule name place workspace with
      | (.error failure, after) => fail ⟨next, []⟩ failure after
      | (.ok items, after) =>
        advance settings execute turns ⟨next, [.start settings.capacity (.ofItems items)]⟩ after

/-- Execute a slice of at most `cycles` turns, on each of at most `depth` levels. An interrupt comes
before a fault of the last input, and both come before anything else. -/
def executeWithin (settings : Settings) (cycles : Nat) : (depth : Nat) → Run → Workspace → Result
  | 0, run, workspace => (.running, run, workspace)
  | depth + 1, ⟨machine, modules⟩, workspace =>
    if machine.interrupted then
      fail ⟨{ machine with interrupted := false }, modules⟩ (machine.failure .interrupted) workspace
    else
      match machine.fault with
      | some failure => fail ⟨{ machine with fault := none }, modules⟩ failure workspace
      | none =>
        match machine.phase with
        | .finished => (.stopped, ⟨machine, modules⟩, workspace)
        | .awaiting => (.running, ⟨machine, modules⟩, workspace)
        | .running =>
          advance settings (executeWithin settings cycles depth) cycles ⟨machine, modules⟩ workspace

/-- Execute a slice of at most `cycles` turns. A module on the chain is never entered again, so there are
no more levels than modules. -/
def execute (settings : Settings) (cycles : Nat) (run : Run) (workspace : Workspace) : Result :=
  executeWithin settings cycles (settings.depth + 1) run workspace

end Run

end TapeMachine
