import TapeMachine.Proofs.Activations
import TapeMachine.Proofs.Placement
import TapeMachine.Proofs.Provenance

namespace TapeMachine

/-- Every instruction stands at the place of a token. -/
def Tape.Marked (sources : Sources) (tape : Tape) : Prop :=
  ∀ (address : Nat) (instruction : Instruction), tape[address]? = some instruction → sources.Marks instruction.place

theorem Tape.Marked.grow {sources later : Sources} {tape : Tape} (marked : tape.Marked sources)
    (grows : sources.Grows later) : tape.Marked later :=
  fun address instruction found => (marked address instruction found).grow grows

/-- An instruction has its place from the item that it comes from, so the tape of items with known places is marked.
-/
theorem Tape.marked_ofItems {sources : Sources} {items : List Item} (marks : sources.MarksAll (placesOf items)) :
    (ofItems items).Marked sources := by
  intro address instruction found
  rw [← Array.getElem?_toList, toList_ofItems] at found
  exact marks _ (place_of_mem_codeOf (List.mem_of_getElem? found))

namespace Machine

variable {sources later : Sources} {machine : Machine}

/-- All that a machine knows of places comes from tokens: its tape, the tapes of its functions and of its callers, where
input was asked for, and the fault of the last answer. -/
structure Marked (sources : Sources) (machine : Machine) : Prop where
  tape : machine.tape.Marked sources
  functions : ∀ name tape definition, machine.functions.get? name = some (.user tape definition) → tape.Marked sources
  callers : ∀ tape address, .call tape address ∈ machine.frames → tape.Marked sources
  pending : ∀ kind place, machine.pending = some (kind, place) → sources.Marks place
  fault : ∀ failure, machine.fault = some failure → sources.Shows failure

namespace Marked

/-- New files are added behind the old ones and change none of the places. -/
theorem grow (marked : machine.Marked sources) (grows : sources.Grows later) : machine.Marked later where
  tape := marked.tape.grow grows
  functions name tape definition known := (marked.functions name tape definition known).grow grows
  callers tape address member := (marked.callers tape address member).grow grows
  pending kind place asked := (marked.pending kind place asked).grow grows
  fault failure waits := (marked.fault failure waits).grow grows

/-- Nothing that is kept on the stack, in the scopes or in the heap has a place. -/
theorem change (marked : machine.Marked sources) (ip : Nat) (operands : Stack Value) (bindings : Scope Value)
    (heap : Heap) : { machine with ip, operands, bindings, heap }.Marked sources :=
  ⟨marked.tape, marked.functions, marked.callers, marked.pending, marked.fault⟩

/-- Of the frames only the calls hold a tape. -/
theorem withFrames (marked : machine.Marked sources) {frames : List Frame}
    (callers : ∀ tape address, .call tape address ∈ frames → tape.Marked sources) :
    { machine with frames }.Marked sources :=
  ⟨marked.tape, marked.functions, callers, marked.pending, marked.fault⟩

/-- The callers around the innermost block. -/
theorem outer (marked : machine.Marked sources) {frame : Frame} {outer : List Frame}
    (frames : machine.frames = frame :: outer) (tape : Tape) (address : Nat) (member : .call tape address ∈ outer) :
    tape.Marked sources := by
  refine marked.callers tape address ?_
  rw [frames]
  exact List.mem_cons_of_mem _ member

/-- A block is entered. -/
theorem push (marked : machine.Marked sources) {frame : Frame} (block : ∀ tape address, frame ≠ .call tape address) :
    { machine with frames := frame :: machine.frames }.Marked sources := by
  refine marked.withFrames fun tape address member => ?_
  rcases List.mem_cons.1 member with same | member
  · exact absurd same.symm (block tape address)
  · exact marked.callers tape address member

/-- Giving a cell back touches the heap, whether it works or not. -/
theorem dropCell (marked : machine.Marked sources) {outer : List Frame}
    (callers : ∀ tape address, .call tape address ∈ outer → tape.Marked sources) (address : Nat) :
    (machine.dropCell address outer).2.Marked sources := by
  have closed := marked.withFrames callers
  unfold Machine.dropCell
  dsimp only
  split
  · exact closed.change ..
  · exact closed.change ..

end Marked

/-- What a machine with known places makes of a boundary has them too. -/
def Boundary.Marked (sources : Sources) : Boundary → Prop
  | .settled _ next | .crossed next | .failed _ next => next.Marked sources

/-- Crossing a boundary drops frames or moves inside one; it makes no caller and asks for nothing. -/
theorem Marked.boundary (marked : machine.Marked sources) : machine.boundary.Marked sources := by
  unfold Machine.boundary
  split
  · exact marked
  · rename_i frames
    split
    · exact (marked.withFrames (marked.outer frames)).change ..
    · exact marked
  · rename_i start stop remaining outer frames
    split
    · have popped := marked.withFrames (marked.outer frames)
      unfold againOrDone
      split
      · exact popped
      · exact (popped.push (by simp)).change ..
    · exact marked
  · rename_i test body stop outer frames
    have back : (machine.backToTest test stop).Marked sources := by
      unfold backToTest
      split
      · exact marked.change ..
      · exact marked
    have popped := back.withFrames (marked.outer frames)
    unfold bodyOrDone
    split
    · split
      · exact back
      · split
        · exact back.change ..
        · split
          · exact popped.change ..
          · exact back.change ..
    · exact back
  · rename_i stop address outer frames
    split
    · have closed := marked.dropCell (marked.outer frames) address
      split
      · rename_i dropped
        rwa [dropped] at closed
      · rename_i dropped
        rwa [dropped] at closed
    · exact marked
  · exact marked

/-- Many boundaries one after the other, by induction on how the machine settles. -/
theorem Marked.settle (marked : machine.Marked sources) : machine.settle.2.Marked sources := by
  induction machine using Machine.settle.induct with
  | case1 machine more next found =>
    have onward := marked.boundary
    rw [found] at onward
    rwa [settle_of_settled found]
  | case2 machine cause next found =>
    have onward := marked.boundary
    rw [found] at onward
    rwa [settle_of_failed found]
  | case3 machine next found _ ih =>
    have onward := marked.boundary
    rw [found] at onward
    rw [settle_of_crossed found]
    exact ih onward

/-- What a step leads to has known places, an import among them, and what it shows is no failure. -/
def Progress.Marked (sources : Sources) : Progress → Prop
  | .ran next | .failed _ next => next.Marked sources
  | .shows event next => event.isError = false ∧ next.Marked sources
  | .imports _ place next => sources.Marks place ∧ next.Marked sources

theorem Marked.leave (marked : machine.Marked sources) (value : Value) : (machine.leave value).Marked sources := by
  unfold Machine.leave
  split
  · exact marked.change ..
  · exact marked.change ..

/-- A block that is entered puts a frame on top which is no call. -/
theorem Marked.branch (marked : machine.Marked sources) (alternative : Option Nat) (stop : Nat) :
    (machine.branch alternative stop).Marked sources := by
  unfold Machine.branch
  split
  · exact marked
  · split
    · exact marked.change ..
    · split
      · cases alternative with
        | none => exact marked.change ..
        | some middle => exact (marked.push (by simp)).change ..
      · exact marked.change ..

theorem Marked.repeats (marked : machine.Marked sources) (start stop : Nat) :
    (machine.repeats start stop).Marked sources := by
  unfold Machine.repeats
  split
  · exact marked
  · split
    · exact marked.change ..
    · exact marked.change ..
    · exact (marked.push (by simp)).change ..

theorem Marked.bind (marked : machine.Marked sources) (names : List String) : (machine.bind names).Marked sources := by
  unfold Machine.bind
  split
  · exact marked
  · exact marked.change ..

theorem Marked.cell (marked : machine.Marked sources) (name : String) (stop : Nat) :
    (machine.cell name stop).Marked sources := by
  unfold Machine.cell
  split
  · exact marked
  · exact (marked.push (by simp)).change ..

/-- A function is defined on the tape where it is read, so it has places if that tape has. -/
theorem Marked.define (marked : machine.Marked sources) (definition : Definition) :
    (machine.define definition).Marked sources := by
  refine ⟨marked.tape, ?_, marked.callers, marked.pending, marked.fault⟩
  intro name tape other known
  rw [Machine.define, Dictionary.get?_insert] at known
  split at known
  · cases known
    exact marked.tape
  · exact marked.functions name tape other known

/-- Only a word that asks for input keeps its place, to be shown if the answer is no good. -/
theorem Marked.builtin (marked : machine.Marked sources) (word : Builtin) {place : Location}
    (here : sources.Marks place) : (machine.builtin word place).Marked sources := by
  unfold Machine.builtin
  split
  · exact marked.change ..
  · rename_i effect operands heap _
    have done := marked.change (machine.ip + 1) operands machine.bindings heap
    cases effect with
    | «continue» => exact done
    | print text => exact ⟨rfl, done⟩
    | input kind prompt =>
      refine ⟨rfl, done.tape, done.functions, done.callers, ?_, done.fault⟩
      rintro _ _ ⟨⟩
      exact here

/-- The caller's tape goes into the frames, and the tape of the function takes its place. -/
theorem Marked.call (marked : machine.Marked sources) (name : String) {place : Location} (here : sources.Marks place) :
    (machine.call name place).Marked sources := by
  unfold Machine.call
  split
  · exact marked.builtin _ here
  · rename_i tape definition known
    refine ⟨marked.functions name tape definition known, marked.functions, ?_, marked.pending, marked.fault⟩
    intro caller address member
    rcases List.mem_cons.1 member with same | member
    · cases same
      exact marked.tape
    · exact marked.callers caller address member
  · split
    · exact marked.leave _
    · exact marked

/-- Returning takes the tape of the nearest caller, which was marked as long as it waited. -/
theorem Marked.unwind (marked : machine.Marked sources) {frames : List Frame}
    (callers : ∀ tape address, .call tape address ∈ frames → tape.Marked sources) :
    (unwind frames machine).Marked sources := by
  induction frames generalizing machine with
  | nil => exact marked.withFrames callers
  | cons frame outer ih =>
    have outside : ∀ tape address, .call tape address ∈ outer → tape.Marked sources :=
      fun tape address member => callers tape address (List.mem_cons_of_mem _ member)
    cases frame with
    | call tape address =>
      exact ⟨callers tape address List.mem_cons_self, marked.functions, outside, marked.pending, marked.fault⟩
    | cell stop address =>
      have closed := marked.dropCell outside address
      rw [Machine.unwind]
      split
      · rename_i dropped
        rw [dropped] at closed
        exact ih closed outside
      · rename_i dropped
        rwa [dropped] at closed
    | branch | repeats | loop => exact ih marked outside

/-- One case for each opcode. The place of the instruction is needed where input is asked for and where a module is
imported. -/
theorem Marked.perform (marked : machine.Marked sources) {instruction : Instruction}
    (here : sources.Marks instruction.place) : (machine.perform instruction).Marked sources := by
  unfold Machine.perform
  cases instruction.opcode with
  | number | string => exact marked.leave _
  | branch => exact marked.branch _ _
  | repeats => exact marked.repeats _ _
  | loop => exact (marked.push (by simp)).change ..
  | bind => exact marked.bind _
  | cell => exact marked.cell _ _
  | call => exact marked.call _ here
  | define => exact marked.define _
  | ret => exact marked.unwind marked.callers
  | imports => exact ⟨here, marked⟩
  | unbind | dropCell | enter | noop => exact marked.change ..

/-- A machine settles, and then it finishes or performs the instruction that stands where it has come to. -/
theorem Marked.step (marked : machine.Marked sources) : machine.step.Marked sources := by
  have settled := marked.settle
  unfold Machine.step
  split
  · rename_i found
    rwa [found] at settled
  · rename_i here found
    rw [found] at settled
    obtain ⟨event, finish, smooth⟩ := here.finish_shows
    rw [finish]
    exact ⟨smooth, settled.tape, settled.functions, settled.callers, settled.pending, settled.fault⟩
  · rename_i here found
    rw [found] at settled
    split
    · rename_i instruction there
      exact settled.perform (settled.tape here.ip instruction there)
    · exact settled

theorem Marked.onward (marked : machine.Marked sources) {progress : Progress} (stepped : machine.step = progress) :
    progress.Marked sources :=
  stepped ▸ marked.step

/-- A failure is shown at the place of the instruction at which the machine stands. -/
theorem Marked.failure (marked : machine.Marked sources) {cause : Cause} {place : Location}
    (located : (machine.failure cause).place = some place) : sources.Shows (machine.failure cause) := by
  obtain ⟨instruction, found, rfl⟩ := Option.map_eq_some_iff.1 located
  exact Sources.shows_of_marks located (marked.tape _ _ found)

/-- An interruption behind the last instruction shows nowhere, and otherwise like any other failure. -/
theorem Marked.interruption (marked : machine.Marked sources) : sources.Shows (machine.failure .interrupted) := by
  cases located : (machine.failure .interrupted).place with
  | some place => exact marked.failure located
  | none =>
    have nowhere : machine.failure .interrupted = ⟨.interrupted, none⟩ := by
      rw [← located]
      rfl
    rw [nowhere]
    exact .nowhere

/-- In the beginning the functions are the builtins, which have no tape. -/
theorem marked_start {items : List Item} (marks : sources.MarksAll (placesOf items)) (capacity : Nat) :
    (Machine.start capacity (.ofItems items)).Marked sources := by
  refine ⟨Tape.marked_ofItems marks, ?_, nofun, nofun, nofun⟩
  intro name tape definition known
  rcases Dictionary.get?_insertAll known with empty | member
  · cases empty
  · obtain ⟨word, -, same⟩ := List.mem_map.1 member
    cases same

/-- An answer that cannot be read is a fault at the place where the question was asked. -/
theorem Marked.enter (marked : machine.Marked sources) (line : String) : (machine.enter line).Marked sources := by
  unfold Machine.enter
  split
  · exact marked
  · rename_i kind place asked
    have here := marked.pending kind place asked
    dsimp only
    split
    · refine ⟨marked.tape, marked.functions, marked.callers, nofun, ?_⟩
      rintro _ ⟨⟩
      exact .token here
    · split
      · exact ⟨marked.tape, marked.functions, marked.callers, nofun, marked.fault⟩
      · refine ⟨marked.tape, marked.functions, marked.callers, nofun, ?_⟩
        rintro _ ⟨⟩
        exact .token here

theorem Marked.closeInput (marked : machine.Marked sources) : machine.closeInput.Marked sources := by
  unfold Machine.closeInput
  split
  · exact marked.enter _
  · exact marked.enter _
  · exact marked

end Machine

end TapeMachine
