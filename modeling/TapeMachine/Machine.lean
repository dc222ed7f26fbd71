import TapeMachine.Builtin.Call
import TapeMachine.Scope
import TapeMachine.Tape

namespace TapeMachine

/-- What a name of the function table stands for. A function runs on the tape it was defined on. -/
inductive Callable
  | builtin (word : Builtin)
  | user (tape : Tape) (definition : Definition)

/-- A block that is being run, or a call. -/
inductive Frame
  /-- The consequent of a choice: at `bound` the machine skips to `resume`. -/
  | branch (bound resume : Nat)
  | repeats (start stop remaining : Nat)
  | loop (test body stop : Nat)
  /-- A cell at `address`, which is given back at `stop`. -/
  | cell (stop address : Nat)
  /-- The tape of the caller, and where it goes on. -/
  | call (tape : Tape) (address : Nat)

inductive Phase
  | running
  | awaiting
  | finished
  deriving DecidableEq, Repr

/-- A machine with one tape. `pending` is the input that was asked for and where, `fault` a failure of
that input which has not been reported. -/
structure Machine where
  tape : Tape
  ip : Nat := 0
  operands : Stack Value := { label := "operand stack" }
  frames : List Frame := []
  bindings : Scope Value := {}
  functions : Dictionary Callable
  heap : Heap
  phase : Phase := .running
  pending : Option (InputKind × Location) := none
  fault : Option Failure := none
  interrupted : Bool := false

/-- What a run shows to its surroundings. -/
inductive Event
  | stopped
  | running
  | print (text : String)
  | input (prompt : String)
  | leak (regions slots : Nat)
  | error (failure : Failure)
  deriving DecidableEq

namespace Machine

/-- A machine at the beginning of `tape`. -/
def start (capacity : Nat) (tape : Tape) : Machine where
  tape := tape
  functions := .ofList (Builtin.all.map fun word => (word.name, .builtin word))
  heap := .new capacity

/-- The machine behind the instruction it stands at. -/
def next (machine : Machine) : Machine :=
  { machine with ip := machine.ip + 1 }

/-- A failure where the machine stands. -/
def failure (machine : Machine) (cause : Cause) : Failure where
  cause := cause
  place := machine.tape[machine.ip]?.map Instruction.place

/-- The value that a line of input stands for. -/
def readLine (kind : InputKind) (line : String) : Outcome Value :=
  match kind with
  | .number => (Decimal.parse line).map .number
  | .string => .ok (.string line)

/-- Answer the input that was asked for. Line endings at the end of the line do not belong to it. A
line that is no answer is a fault, to be reported by the next step. -/
def enter (machine : Machine) (line : String) : Machine :=
  match machine.pending with
  | none => machine
  | some (kind, place) =>
    let resumed := { machine with pending := none, phase := .running }
    match readLine kind (String.ofList (chomp line.toList)) with
    | .error cause => { resumed with fault := some ⟨cause, some place⟩ }
    | .ok value =>
      match machine.operands.push value with
      | (.ok _, operands) => { resumed with operands }
      | (.error cause, operands) =>
        { resumed with operands, fault := some ⟨cause, some place⟩ }

/-- Where input has ended, a number is 0 and a string is empty. -/
def closeInput (machine : Machine) : Machine :=
  match machine.pending with
  | some (.number, _) => machine.enter "0"
  | some (.string, _) => machine.enter ""
  | none => machine

end Machine

end TapeMachine
