import TapeMachine.Machine

namespace TapeMachine.Machine

/-- What the innermost frame makes of the place where the machine stands. -/
inductive Boundary
  /-- There is no boundary left here; is there more to run? -/
  | settled (more : Bool) (machine : Machine)
  | crossed (machine : Machine)
  | failed (cause : Cause) (machine : Machine)

/-- A repetition that stands at its end starts over, or is done. -/
def againOrDone (machine : Machine) (start stop remaining : Nat) (outer : List Frame) : Boundary :=
  match remaining with
  | 0 => .settled true { machine with frames := outer }
  | remaining + 1 =>
    .crossed { machine with ip := start + 1, frames := .repeats start stop remaining :: outer }

/-- Behind the test of a loop, the number that it has left decides whether the body runs. -/
def bodyOrDone (machine : Machine) (body stop : Nat) (outer : List Frame) : Boundary :=
  if machine.ip = body then
    match machine.operands.popOne with
    | .error cause => .failed cause machine
    | .ok (condition, operands) =>
      match condition.asNumber with
      | .error cause => .failed cause { machine with operands }
      | .ok n =>
        if n.isZero then .settled true { machine with operands, frames := outer, ip := stop }
        else .crossed { machine with operands, ip := body + 1 }
  else .settled true machine

/-- A loop behind its body returns to its test. -/
def backToTest (machine : Machine) (test stop : Nat) : Machine :=
  if machine.ip = stop then { machine with ip := test + 1 } else machine

/-- Give a cell back. -/
def dropCell (machine : Machine) (address : Nat) (outer : List Frame) : Outcome Unit × Machine :=
  let closed := { machine with frames := outer, bindings := machine.bindings.pop }
  match machine.heap.free address with
  | .ok heap => (.ok (), { closed with heap })
  | .error cause => (.error cause, closed)

/-- Look at the innermost frame, and at no other. -/
def boundary (machine : Machine) : Boundary :=
  match machine.frames with
  | [] => .settled (machine.ip < machine.tape.size) machine
  | .branch bound resume :: outer =>
    if machine.ip = bound then .crossed { machine with ip := resume, frames := outer }
    else .settled true machine
  | .repeats start stop remaining :: outer =>
    if machine.ip = stop then machine.againOrDone start stop remaining outer
    else .settled true machine
  | .loop test body stop :: outer =>
    (machine.backToTest test stop).bodyOrDone body stop outer
  | .cell stop address :: outer =>
    if machine.ip = stop then
      match machine.dropCell address outer with
      | (.ok _, closed) => .settled true closed
      | (.error cause, closed) => .failed cause closed
    else .settled true machine
  | .call .. :: _ => .settled true machine

/-- How often the innermost frame can still start over at once. -/
def turns (machine : Machine) : Nat :=
  match machine.frames with
  | .repeats _ _ remaining :: _ => remaining
  | _ => 0

/-- A crossing leaves a frame, or uses up a repetition, or takes an operand. -/
theorem measure_of_crossed {machine next : Machine} (step : machine.boundary = .crossed next) :
    next.frames.length < machine.frames.length ∨
      next.frames.length = machine.frames.length ∧
        (next.turns < machine.turns ∨
          next.turns = machine.turns ∧ next.operands.size < machine.operands.size) := by
  unfold boundary at step
  split at step
  · cases step
  · rename_i outer frames
    split at step
    · cases step
      exact Or.inl (by simp [frames])
    · cases step
  · rename_i start stop remaining outer frames
    split at step
    · unfold againOrDone at step
      split at step
      · cases step
      · cases step
        exact Or.inr ⟨by simp [frames], Or.inl (by simp [turns, frames])⟩
    · cases step
  · rename_i test body stop outer frames
    have sameFrames : (machine.backToTest test stop).frames = machine.frames := by
      unfold backToTest
      split <;> rfl
    have sameOperands : (machine.backToTest test stop).operands = machine.operands := by
      unfold backToTest
      split <;> rfl
    unfold bodyOrDone at step
    split at step
    · split at step
      · cases step
      · rename_i condition operands taken
        split at step
        · cases step
        · split at step
          · cases step
          · cases step
            have smaller := Stack.size_of_popOne taken
            rw [sameOperands] at smaller
            refine Or.inr ⟨by simp [sameFrames], Or.inr ⟨?_, by simpa using by omega⟩⟩
            simp only [turns, sameFrames]
    · cases step
  · split at step
    · split at step <;> cases step
    · cases step
  · cases step

/-- Cross boundaries until there is none where the machine stands. Is there more to run? -/
def settle (machine : Machine) : Outcome Bool × Machine :=
  match step : machine.boundary with
  | .settled more next => (.ok more, next)
  | .failed cause next => (.error cause, next)
  | .crossed next =>
    have _smaller := measure_of_crossed step
    settle next
termination_by (machine.frames.length, machine.turns, machine.operands.size)
decreasing_by
  simp only [Prod.lex_def]
  exact _smaller

end TapeMachine.Machine
