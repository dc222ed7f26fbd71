import TapeMachine.Machine.Step

namespace TapeMachine

namespace Outcome

variable {α β : Type}

/-- Where a mapped outcome has a result, it comes from one of the outcome itself. -/
theorem map_eq_ok {f : α → β} {outcome : Outcome α} {result : β} (mapped : outcome.map f = .ok result) :
    ∃ found, outcome = .ok found ∧ f found = result := by
  cases outcome with
  | ok found => exact ⟨found, rfl, Except.ok.inj mapped⟩
  | error cause => cases mapped

/-- Where a sequence has a result, both parts have, and the second starts from what the first has found. -/
theorem bind_eq_ok {next : α → Outcome β} {outcome : Outcome α} {result : β}
    (bound : outcome.bind next = .ok result) : ∃ found, outcome = .ok found ∧ next found = .ok result := by
  cases outcome with
  | ok found => exact ⟨found, rfl, bound⟩
  | error cause => cases bound

theorem map_eq_error {f : α → β} {outcome : Outcome α} {cause : Cause} (mapped : outcome.map f = .error cause) :
    outcome = .error cause := by
  cases outcome with
  | ok found => cases mapped
  | error => cases mapped; rfl

end Outcome

/-- What instructions work on, whatever their order: operands, bindings and heap. -/
structure Store where
  operands : Stack Value
  bindings : Scope Value
  heap : Heap

namespace Store

/-- What there is to work on in the beginning. -/
def start (capacity : Nat) : Store where
  operands := (Machine.start capacity #[]).operands
  bindings := {}
  heap := .new capacity

/-- Leave a value on the stack. -/
def push (store : Store) (value : Value) : Outcome Store :=
  (Stack.accepted (store.operands.push value)).map fun operands => { store with operands }

/-- Take the number that decides what a block does. -/
def takeNumber (store : Store) : Outcome (Decimal × Store) :=
  store.operands.popOne.bind fun (value, operands) =>
    value.asNumber.map fun n => (n, { store with operands })

/-- Take the number of turns of a repetition. -/
def takeCount (store : Store) : Outcome (Nat × Store) :=
  store.operands.popOne.bind fun (value, operands) =>
    (Machine.countOf value).map fun count => (count, { store with operands })

/-- Open a scope frame that binds names to the values on top of the stack. -/
def bind (store : Store) (names : List String) : Outcome Store :=
  (store.operands.pop names.length).map fun (values, operands) =>
    { store with operands, bindings := store.bindings.bind names values }

/-- Close the newest scope frame. -/
def unbind (store : Store) : Store :=
  { store with bindings := store.bindings.pop }

/-- Claim a cell, and open a scope frame that binds `name` to its address. -/
def claim (store : Store) (name : String) : Outcome (Nat × Store) :=
  (store.heap.alloc 1).map fun (address, heap) =>
    (address, { store with heap, bindings := store.bindings.bind [name] [.pointer address] })

/-- Close the scope frame of the cell at `address` and give the cell back. -/
def release (store : Store) (address : Nat) : Outcome Store :=
  (store.heap.free address).map fun heap => { store.unbind with heap }

/-- Call a builtin. -/
def invoke (store : Store) (word : Builtin) : Outcome (Effect × Store) :=
  match word.call store.operands store.heap with
  | (.ok effect, operands, heap) => .ok (effect, { store with operands, heap })
  | (.error cause, _, _) => .error cause

/-- Leave what a name is bound to. -/
def fetch (store : Store) (name : String) : Outcome Store :=
  match store.bindings.get? name with
  | some value => store.push value
  | none => .error (.undefinedName name)

/-- Leave the value that a line of input stands for; where input has ended, 0 or an empty string. -/
def answer (store : Store) (kind : InputKind) (line : Option String) : Outcome Store :=
  let text := line.getD (match kind with | .number => "0" | .string => "")
  (Machine.readLine kind (String.ofList (chomp text.toList))).bind store.push

/-- What is shown at the end of a program: regions that nobody has given back are a leak. -/
def farewell (store : Store) : List Event :=
  let used := store.heap.usedRegions
  if used.isEmpty then [.stopped]
  else [.leak used.length (used.foldl (fun sum region => sum + region.size) 0), .stopped]

section

variable {α : Type} {read : Value → Outcome α} {store next : Store} {cause : Cause} {found : α}

/-- What has been taken was on top, and could be read. -/
theorem take_of_ok
    (taken : (store.operands.popOne.bind fun (value, operands) =>
      (read value).map fun found => (found, { store with operands })) = .ok (found, next)) :
    ∃ value operands, store.operands.popOne = .ok (value, operands) ∧ read value = .ok found ∧
      next = { store with operands } := by
  obtain ⟨⟨value, operands⟩, popped, taken⟩ := Outcome.bind_eq_ok taken
  obtain ⟨_, result, same⟩ := Outcome.map_eq_ok taken
  cases same
  exact ⟨value, operands, popped, result, rfl⟩

/-- Where nothing can be taken, nothing is on top or what is there cannot be read. -/
theorem take_of_error
    (failed : (store.operands.popOne.bind fun (value, operands) =>
      (read value).map fun found => (found, { store with operands })) = .error cause) :
    store.operands.popOne = .error cause ∨
      ∃ value operands, store.operands.popOne = .ok (value, operands) ∧ read value = .error cause := by
  cases popped : store.operands.popOne with
  | error => rw [popped] at failed; cases failed; exact .inl rfl
  | ok top =>
    obtain ⟨value, operands⟩ := top
    rw [popped] at failed
    cases result : read value with
    | error => simp only [Except.bind, result] at failed; cases failed; exact .inr ⟨value, operands, rfl, result⟩
    | ok => simp only [Except.bind, result] at failed; cases failed

end

variable {store next : Store}

/-- Only the operands change, by a push that is accepted. -/
theorem push_eq_ok {value : Value} (pushed : store.push value = .ok next) :
    ∃ operands, Stack.accepted (store.operands.push value) = .ok operands ∧ next = { store with operands } := by
  obtain ⟨operands, accepted, rfl⟩ := Outcome.map_eq_ok pushed
  exact ⟨operands, accepted, rfl⟩

theorem bind_eq_ok {names : List String} (bound : store.bind names = .ok next) :
    ∃ values operands, store.operands.pop names.length = .ok (values, operands) ∧
      next = { store with operands, bindings := store.bindings.bind names values } := by
  obtain ⟨⟨values, operands⟩, popped, rfl⟩ := Outcome.map_eq_ok bound
  exact ⟨values, operands, popped, rfl⟩

/-- A cell takes one slot of the heap, and its address is bound; the operands have no part in it. -/
theorem claim_eq_ok {name : String} {address : Nat} (claimed : store.claim name = .ok (address, next)) :
    ∃ heap, store.heap.alloc 1 = .ok (address, heap) ∧
      next = { store with heap, bindings := store.bindings.bind [name] [.pointer address] } := by
  obtain ⟨⟨found, heap⟩, allocated, same⟩ := Outcome.map_eq_ok claimed
  cases same
  exact ⟨heap, allocated, rfl⟩

theorem release_eq_ok {address : Nat} (released : store.release address = .ok next) :
    ∃ heap, store.heap.free address = .ok heap ∧ next = { store.unbind with heap } := by
  obtain ⟨heap, freed, rfl⟩ := Outcome.map_eq_ok released
  exact ⟨heap, freed, rfl⟩

/-- Calling a word leaves the bindings alone. -/
theorem invoke_eq_ok {word : Builtin} {effect : Effect} (invoked : store.invoke word = .ok (effect, next)) :
    ∃ operands heap, word.call store.operands store.heap = (.ok effect, operands, heap) ∧
      next = { store with operands, heap } := by
  unfold invoke at invoked
  split at invoked
  · rename_i operands heap called
    cases invoked
    exact ⟨operands, heap, called, rfl⟩
  · cases invoked

end Store

namespace Machine

/-- The part of a machine that instructions work on. -/
def store (machine : Machine) : Store where
  operands := machine.operands
  bindings := machine.bindings
  heap := machine.heap

/-- The machine with that part replaced. -/
def withStore (machine : Machine) (store : Store) : Machine :=
  { machine with operands := store.operands, bindings := store.bindings, heap := store.heap }

/-- The machine stands where it stood, and nothing has come in from outside. -/
structure Stays (machine after : Machine) : Prop where
  tape : after.tape = machine.tape
  ip : after.ip = machine.ip
  pending : after.pending = machine.pending
  fault : after.fault = machine.fault
  interrupted : after.interrupted = machine.interrupted

/-- A failure that shows where the machine stands. -/
def FailsHere (machine : Machine) (progress : Progress) (cause : Cause) : Prop :=
  ∃ after, progress = .failed cause after ∧ machine.Stays after

variable {machine : Machine} {store : Store} {cause : Cause}

/-- The machine goes on behind the instruction, with the value on its stack. -/
theorem leave_of_push {value : Value} (pushed : machine.store.push value = .ok store) :
    machine.leave value = .ran (machine.withStore store).next := by
  rw [leave]
  cases result : machine.operands.push value with
  | mk outcome operands =>
    simp only [Store.push, Machine.store, result, Stack.accepted] at pushed
    cases outcome with
    | ok => cases pushed; rfl
    | error => cases pushed

/-- A push that fails has changed the stack, which shows in the machine but not in where it stands. -/
theorem leave_of_error {value : Value} (failed : machine.store.push value = .error cause) :
    machine.FailsHere (machine.leave value) cause := by
  rw [leave]
  cases result : machine.operands.push value with
  | mk outcome operands =>
    simp only [Store.push, Machine.store, result, Stack.accepted] at failed
    cases outcome with
    | ok => cases failed
    | error => cases failed; exact ⟨_, rfl, ⟨rfl, rfl, rfl, rfl, rfl⟩⟩

/-- Numbers from 1 on lead into the block. A frame is kept only where there is an alternative to jump over. -/
theorem branch_of_taken {n : Decimal} (alternative : Option Nat) (stop : Nat)
    (taken : machine.store.takeNumber = .ok (n, store)) :
    machine.branch alternative stop =
      if Decimal.one.le n then
        .ran { (machine.withStore store).next with
          frames := match alternative with
            | some middle => .branch middle stop :: machine.frames
            | none => machine.frames }
      else .ran { machine.withStore store with ip := alternative.getD stop } := by
  unfold branch
  obtain ⟨value, operands, popped, read, rfl⟩ := Store.take_of_ok taken
  simp only [Machine.store] at popped
  simp only [popped, read]
  rfl

/-- Whether there is no operand or one that is no number, the failure shows at the instruction that opens the block.
-/
theorem branch_of_error (alternative : Option Nat) (stop : Nat)
    (failed : machine.store.takeNumber = .error cause) :
    machine.FailsHere (machine.branch alternative stop) cause := by
  unfold branch
  rcases Store.take_of_error failed with popped | ⟨value, operands, popped, read⟩
  · simp only [Machine.store] at popped
    simp only [popped]
    exact ⟨_, rfl, ⟨rfl, rfl, rfl, rfl, rfl⟩⟩
  · simp only [Machine.store] at popped
    simp only [popped, read]
    exact ⟨_, rfl, ⟨rfl, rfl, rfl, rfl, rfl⟩⟩

/-- No turns at all: the machine stands at the end of the block, and no frame is left. -/
theorem repeats_of_none (start stop : Nat) (taken : machine.store.takeCount = .ok (0, store)) :
    machine.repeats start stop = .ran { machine.withStore store with ip := stop } := by
  rw [repeats]
  obtain ⟨value, operands, popped, read, rfl⟩ := Store.take_of_ok taken
  simp only [Machine.store] at popped
  simp only [popped, read]
  rfl

/-- The frame counts the turns behind the first. -/
theorem repeats_of_more {more : Nat} (start stop : Nat)
    (taken : machine.store.takeCount = .ok (more + 1, store)) :
    machine.repeats start stop = .ran { machine.withStore store with
      frames := .repeats start stop more :: machine.frames
      ip := start + 1 } := by
  rw [repeats]
  obtain ⟨value, operands, popped, read, rfl⟩ := Store.take_of_ok taken
  simp only [Machine.store] at popped
  simp only [popped, read]
  rfl

theorem repeats_of_error (start stop : Nat) (failed : machine.store.takeCount = .error cause) :
    machine.FailsHere (machine.repeats start stop) cause := by
  rw [repeats]
  rcases Store.take_of_error failed with popped | ⟨value, operands, popped, read⟩
  · simp only [Machine.store] at popped
    simp only [popped]
    exact ⟨_, rfl, ⟨rfl, rfl, rfl, rfl, rfl⟩⟩
  · simp only [Machine.store] at popped
    simp only [popped, read]
    exact ⟨_, rfl, ⟨rfl, rfl, rfl, rfl, rfl⟩⟩

/-- Names are bound in a scope frame of their own. -/
theorem bind_of_bound {names : List String} (bound : machine.store.bind names = .ok store) :
    machine.bind names = .ran (machine.withStore store).next := by
  obtain ⟨values, operands, popped, rfl⟩ := Store.bind_eq_ok bound
  have found : machine.operands.pop names.length = .ok (values, operands) := popped
  rw [bind, found]
  rfl

theorem bind_of_error {names : List String} (failed : machine.store.bind names = .error cause) :
    machine.FailsHere (machine.bind names) cause := by
  have short : machine.operands.pop names.length = .error cause := Outcome.map_eq_error failed
  rw [bind, short]
  exact ⟨_, rfl, ⟨rfl, rfl, rfl, rfl, rfl⟩⟩

/-- The frame keeps the address, so that the end of the block can give the cell back. -/
theorem cell_of_claimed {name : String} {address : Nat} (stop : Nat)
    (claimed : machine.store.claim name = .ok (address, store)) :
    machine.cell name stop = .ran { (machine.withStore store).next with
      frames := .cell stop address :: machine.frames } := by
  obtain ⟨heap, allocated, rfl⟩ := Store.claim_eq_ok claimed
  have found : machine.heap.alloc 1 = .ok (address, heap) := allocated
  rw [cell, found]
  rfl

theorem cell_of_error {name : String} (stop : Nat) (failed : machine.store.claim name = .error cause) :
    machine.FailsHere (machine.cell name stop) cause := by
  have full : machine.heap.alloc 1 = .error cause := Outcome.map_eq_error failed
  rw [cell, full]
  exact ⟨_, rfl, ⟨rfl, rfl, rfl, rfl, rfl⟩⟩

/-- Closing the block of a cell drops frame, bindings and cell together. -/
theorem dropCell_of_released {address : Nat} (outer : List Frame)
    (released : machine.store.release address = .ok store) :
    machine.dropCell address outer = (.ok (), { machine.withStore store with frames := outer }) := by
  obtain ⟨heap, freed, rfl⟩ := Store.release_eq_ok released
  have found : machine.heap.free address = .ok heap := freed
  rw [dropCell, found]
  rfl

/-- Also a cell that cannot be given back makes a failure where the machine stands. -/
theorem dropCell_of_error {address : Nat} (outer : List Frame)
    (failed : machine.store.release address = .error cause) :
    ∃ after, machine.dropCell address outer = (.error cause, after) ∧
      machine.Stays after := by
  have astray : machine.heap.free address = .error cause := Outcome.map_eq_error failed
  rw [dropCell, astray]
  exact ⟨_, rfl, ⟨rfl, rfl, rfl, rfl, rfl⟩⟩

/-- What the effect of a word makes of the machine behind the word. -/
def react (done : Machine) (place : Location) : Effect → Progress
  | .continue => .ran done
  | .print text => .shows (.print text) done
  | .input kind prompt =>
    .shows (.input prompt) { done with pending := some (kind, place), phase := .awaiting }

/-- A word that has been called lets the machine go on, show a text or wait for a line. -/
theorem builtin_of_invoked {word : Builtin} {effect : Effect} (place : Location)
    (invoked : machine.store.invoke word = .ok (effect, store)) :
    machine.builtin word place = (machine.withStore store).next.react place effect := by
  rw [builtin]
  simp only [Store.invoke, Machine.store] at invoked
  generalize word.call machine.operands machine.heap = called at invoked ⊢
  obtain ⟨outcome, operands, heap⟩ := called
  cases outcome with
  | error => cases invoked
  | ok => cases invoked; cases effect <;> rfl

/-- What a word has left on the stack when it failed is of no concern any more. -/
theorem builtin_of_error {word : Builtin} (place : Location)
    (failed : machine.store.invoke word = .error cause) :
    machine.FailsHere (machine.builtin word place) cause := by
  rw [builtin]
  simp only [Store.invoke, Machine.store] at failed
  generalize word.call machine.operands machine.heap = called at failed ⊢
  obtain ⟨outcome, operands, heap⟩ := called
  cases outcome with
  | error => cases failed; exact ⟨_, rfl, ⟨rfl, rfl, rfl, rfl, rfl⟩⟩
  | ok => cases failed

/-- Behind the test of a loop: 0 leaves it and drops the frame, any other number leads into the body. -/
theorem bodyOrDone_of_taken {n : Decimal} {body : Nat} (stop : Nat) (outer : List Frame)
    (here : machine.ip = body) (taken : machine.store.takeNumber = .ok (n, store)) :
    machine.bodyOrDone body stop outer =
      if n.isZero then .settled true { machine.withStore store with frames := outer, ip := stop }
      else .crossed { machine.withStore store with ip := body + 1 } := by
  rw [bodyOrDone, if_pos here]
  obtain ⟨value, operands, popped, read, rfl⟩ := Store.take_of_ok taken
  simp only [Machine.store] at popped
  simp only [popped, read]
  rfl

/-- A test that leaves nothing, or no number, makes a failure at the beginning of the body. -/
theorem bodyOrDone_of_error {body : Nat} (stop : Nat) (outer : List Frame) (here : machine.ip = body)
    (failed : machine.store.takeNumber = .error cause) :
    ∃ after, machine.bodyOrDone body stop outer = .failed cause after ∧
      machine.Stays after := by
  rw [bodyOrDone, if_pos here]
  rcases Store.take_of_error failed with popped | ⟨value, operands, popped, read⟩
  · simp only [Machine.store] at popped
    simp only [popped]
    exact ⟨_, rfl, ⟨rfl, rfl, rfl, rfl, rfl⟩⟩
  · simp only [Machine.store] at popped
    simp only [popped, read]
    exact ⟨_, rfl, ⟨rfl, rfl, rfl, rfl, rfl⟩⟩

end Machine

end TapeMachine
