import TapeMachine.Machine.Boundary

namespace TapeMachine.Machine

/-- What one step leads to. A machine that meets an import stays there; the module has to be found and
run before it goes on. -/
inductive Progress
  | ran (machine : Machine)
  | shows (event : Event) (machine : Machine)
  | imports (name : String) (place : Location) (machine : Machine)
  | failed (cause : Cause) (machine : Machine)

/-- The machine behind the instruction, where a value is on top of the stack. -/
def leave (machine : Machine) (value : Value) : Progress :=
  match machine.operands.push value with
  | (.ok _, operands) => .ran { machine with operands, ip := machine.ip + 1 }
  | (.error cause, operands) => .failed cause { machine with operands }

/-- A condition holds from 1 on. Where it does not hold, the machine goes to the `else` or the `end`,
and does what stands there. -/
def branch (machine : Machine) (alternative : Option Nat) (stop : Nat) : Progress :=
  match machine.operands.popOne with
  | .error cause => .failed cause machine
  | .ok (condition, operands) =>
    match condition.asNumber with
    | .error cause => .failed cause { machine with operands }
    | .ok n =>
      if Decimal.one.le n then
        let frames := match alternative with
          | some middle => .branch middle stop :: machine.frames
          | none => machine.frames
        .ran { machine with operands, frames, ip := machine.ip + 1 }
      else .ran { machine with operands, ip := alternative.getD stop }

/-- How often a value asks to be repeated. -/
def countOf : Value → Outcome Nat
  | .number n => n.toCount
  | value => .error (.operands "repeat" [.number] [value.ty])

/-- Begin a repetition, unless it runs no times. -/
def repeats (machine : Machine) (start stop : Nat) : Progress :=
  match machine.operands.popOne with
  | .error cause => .failed cause machine
  | .ok (value, operands) =>
    match countOf value with
    | .error cause => .failed cause { machine with operands }
    | .ok 0 => .ran { machine with operands, ip := stop }
    | .ok (more + 1) =>
      .ran { machine with
        operands
        frames := .repeats start stop more :: machine.frames
        ip := start + 1 }

/-- Bind names to the values on top of the stack. -/
def bind (machine : Machine) (names : List String) : Progress :=
  match machine.operands.pop names.length with
  | .error cause => .failed cause machine
  | .ok (values, operands) =>
    .ran { machine with
      operands
      bindings := machine.bindings.bind names values
      ip := machine.ip + 1 }

/-- Claim a cell for the block up to `stop`. -/
def cell (machine : Machine) (name : String) (stop : Nat) : Progress :=
  match machine.heap.alloc 1 with
  | .error cause => .failed cause machine
  | .ok (address, heap) =>
    .ran { machine with
      heap
      bindings := machine.bindings.bind [name] [.pointer address]
      frames := .cell stop address :: machine.frames
      ip := machine.ip + 1 }

/-- Put a function into the table and go past its body. -/
def define (machine : Machine) (definition : Definition) : Machine :=
  { machine with
    functions :=
      machine.functions.insert definition.heading.name (.user machine.tape definition)
    ip := definition.stop + 1 }

/-- Call a builtin, which is wanted at `place`. What it does to stack and heap stays if it fails, but
the machine is behind it only if it does not. -/
def builtin (machine : Machine) (word : Builtin) (place : Location) : Progress :=
  match word.call machine.operands machine.heap with
  | (.error cause, operands, heap) => .failed cause { machine with operands, heap }
  | (.ok effect, operands, heap) =>
    let done := { machine with operands, heap, ip := machine.ip + 1 }
    match effect with
    | .continue => .ran done
    | .print text => .shows (.print text) done
    | .input kind prompt =>
      .shows (.input prompt) { done with pending := some (kind, place), phase := .awaiting }

/-- A word by its name: functions come before bindings. -/
def call (machine : Machine) (name : String) (place : Location) : Progress :=
  match machine.functions.get? name with
  | some (.builtin word) => machine.builtin word place
  | some (.user tape definition) =>
    .ran { machine with
      tape
      frames := .call machine.tape (machine.ip + 1) :: machine.frames
      ip := definition.start }
  | none =>
    match machine.bindings.get? name with
    | some value => machine.leave value
    | none => .failed (.undefinedName name) machine

/-- Leave the innermost call, and on the way the blocks inside it, whose frames are given. -/
def unwind : List Frame → Machine → Progress
  | [], machine => .failed .returnOutsideFunction { machine with frames := [] }
  | .call tape address :: outer, machine => .ran { machine with tape, ip := address, frames := outer }
  | .cell _ address :: outer, machine =>
    match machine.dropCell address outer with
    | (.ok _, closed) => unwind outer closed
    | (.error cause, closed) => .failed cause closed
  | _ :: outer, machine => unwind outer machine

/-- Carry an instruction out. -/
def perform (machine : Machine) (instruction : Instruction) : Progress :=
  match instruction.opcode with
  | .number n => machine.leave (.number n)
  | .string text => machine.leave (.string text)
  | .branch alternative stop => machine.branch alternative stop
  | .repeats start stop => machine.repeats start stop
  | .loop test body stop =>
    .ran { machine with frames := .loop test body stop :: machine.frames, ip := test + 1 }
  | .bind names => machine.bind names
  | .unbind _ => .ran { machine with bindings := machine.bindings.pop, ip := machine.ip + 1 }
  | .cell name stop => machine.cell name stop
  | .call name => machine.call name instruction.place
  | .define definition => .ran (machine.define definition)
  | .ret => unwind machine.frames machine
  | .imports name => .imports name instruction.place machine
  | .dropCell | .enter | .noop => .ran machine.next

/-- The tape has ended. Regions that nobody has given back are a leak. -/
def finish (machine : Machine) : Progress :=
  let used := machine.heap.usedRegions
  let finished := { machine with phase := .finished }
  if used.isEmpty then .shows .stopped finished
  else .shows (.leak used.length (used.foldl (fun sum region => sum + region.size) 0)) finished

/-- Settle the boundaries, then carry one instruction out. A step that fails leaves the machine where the
failure shows. -/
def step (machine : Machine) : Progress :=
  match machine.settle with
  | (.error cause, here) => .failed cause here
  | (.ok false, here) => here.finish
  | (.ok true, here) =>
    match here.tape[here.ip]? with
    | some instruction => here.perform instruction
    | none => .failed (.pastTheTape here.ip) here

end TapeMachine.Machine
