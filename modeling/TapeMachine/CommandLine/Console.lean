import TapeMachine.CommandLine.Job

namespace TapeMachine

/-- A job whose input is a text, and what it has written so far. -/
structure Console where
  job : Job
  input : List String
  output : String := ""
  errors : String := ""

namespace Console

/-- The lines that a text has as input. Each keeps its ending. -/
def inputLines (text : String) : List String :=
  (linesOf text).map fun line => String.ofList line.chars

/-- A job at its beginning. -/
def start (job : Job) (input : String) : Console where
  job := job
  input := inputLines input

/-- All that was written, with what an ending adds to it. -/
def finish (console : Console) (ending : Ending) : Ending where
  code := ending.code
  output := console.output ++ ending.output
  errors := console.errors ++ ending.errors

/-- Let the job execute a slice and serve its demand. -/
def step (console : Console) : Except Ending Console :=
  let (demand, job) := console.job.next
  match demand with
  | .proceed => .ok { console with job }
  | .write text => .ok { console with job, output := console.output ++ text }
  | .warn text => .ok { console with job, errors := console.errors ++ text }
  | .ask prompt =>
    .ok { console with
      job := job.answer console.input.head?
      input := console.input.tail
      output := console.output ++ prompt }
  | .exit ending => .error (console.finish ending)

/-- Let the job execute at most `slices` slices. -/
def runFor : (slices : Nat) → Console → Except Ending Console
  | 0, console => .ok console
  | slices + 1, console =>
    match console.step with
    | .ok next => runFor slices next
    | .error ending => .error ending

end Console

end TapeMachine
