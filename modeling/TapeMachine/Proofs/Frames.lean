import Mathlib
import TapeMachine.Proofs.Activations
import TapeMachine.Proofs.Turns

namespace TapeMachine

namespace Dictionary

variable {α β : Type}

theorem get?_of_mem {dictionary : Dictionary α} {name : String} {value : α}
    (member : (name, value) ∈ dictionary.entries) : dictionary.get? name = some value := by
  obtain ⟨entries, nodup⟩ := dictionary
  unfold get?
  induction entries with
  | nil => cases member
  | cons entry rest ih =>
    rw [List.map_cons, List.nodup_cons] at nodup
    rcases List.mem_cons.1 member with rfl | later
    · simp
    · have other : entry.1 ≠ name := fun same => nodup.1 (same ▸ List.mem_map_of_mem later)
      rw [List.find?_cons_of_neg (by simpa using other)]
      exact ih nodup.2 later

theorem get?_merge {first second : Dictionary α} {name : String} {value : α}
    (found : (first.merge second).get? name = some value) :
    first.get? name = some value ∨ second.get? name = some value :=
  (get?_insertAll found).imp_right get?_of_mem

theorem map_merge (f : α → β) (first second : Dictionary α) :
    (first.merge second).map f = (first.map f).merge (second.map f) :=
  map_insertAll f first second.entries

end Dictionary

namespace Walker

variable {walker : Walker} {name : String} {place : Location}

/-- A walker imports where an import stands. -/
theorem code_of_imports (moved : walker.move = .imports name place) :
    ∃ rest, walker.code = .item (.imports place name) :: rest := by
  unfold move at moved
  split at moved
  · cases moved
  · rename_i item rest code
    cases item with
    | imports =>
      cases moved
      exact ⟨rest, code⟩
    | number | string | word | branch | choice | repeats | loop | bind | cell | define =>
      simp only [perform, word, builtin, Move.after] at moved
      (repeat' split at moved) <;> cases moved
  · rename_i block outer _ _
    cases block <;> simp only [close, Move.after] at moved <;> (repeat' split at moved) <;> cases moved
  · cases moved

/-- A walker goes on behind an import with the functions of another one. -/
def resume (walker other : Walker) (rest : List Piece) : Walker :=
  { walker.goto (walker.ip + 1) rest with functions := walker.functions.merge other.functions }

theorem resume_orderly {other : Walker} {rest : List Piece} (orderly : walker.Orderly) (theirs : other.Orderly)
    (code : walker.code = .item (.imports place name) :: rest) : (walker.resume other rest).Orderly := by
  obtain ⟨program, within⟩ := orderly
  obtain ⟨_, their⟩ := theirs
  have next := within.next code rfl rfl rfl
  refine ⟨program, next.tape, next.stands, next.nested, next.scopes, ?_⟩
  intro name tape definition place body found
  rcases Dictionary.get?_merge found with mine | new
  · exact within.functions _ _ _ _ _ mine
  · exact their.functions _ _ _ _ _ new

theorem resume_placed {other : Walker} {rest : List Piece} (placed : walker.Placed) (theirs : other.Placed)
    (code : walker.code = .item (.imports place name) :: rest) : (walker.resume other rest).Placed := by
  have carried := placed.carried
  rw [code] at carried
  have next := placed.next code rfl walker.store carried.2
  refine ⟨next.carried, next.enclosed, ?_⟩
  intro name tape definition place body found
  rcases Dictionary.get?_merge found with mine | new
  · exact placed.functions _ _ _ _ _ mine
  · exact theirs.functions _ _ _ _ _ new

end Walker

theorem Machine.expected_interruption (machine : Machine) : (machine.failure .interrupted).Expected := by
  have other : Code.interrupted ≠ .internalError := by decide
  exact Cause.expected_of_code rfl other

theorem Failure.expected_of_none (failure : Failure) (faulty : none = some failure) : failure.Expected := by
  cases faulty

/-- The machine is that of a walker who stands where he should, whatever has come in from outside. -/
inductive Machine.Guided : Machine → Prop
  | intro {walker : Walker} {phase : Phase} {pending : Option (InputKind × Location)} {fault : Option Failure}
      {interrupted : Bool} : walker.Orderly → walker.Placed → (phase = .running → pending = none) →
      (∀ failure, fault = some failure → failure.Expected) →
      Machine.Guided { walker.machine with phase, pending, fault, interrupted }

namespace Machine

variable {machine : Machine}

theorem Guided.of_walker {walker : Walker} (orderly : walker.Orderly) (placed : walker.Placed) :
    walker.machine.Guided :=
  @Guided.intro walker .running none none false orderly placed (fun _ => rfl) Failure.expected_of_none

theorem Guided.of_finished {walker : Walker} (orderly : walker.Orderly) (placed : walker.Placed) :
    { walker.machine with phase := .finished }.Guided :=
  @Guided.intro walker .finished none none false orderly placed nofun Failure.expected_of_none

/-- What a step comes to of a machine that stands where it should: so does the next machine, at an import that is to be
entered, or the step has failed for a reason to be expected. -/
def Progress.Lawful : Progress → Prop
  | .ran next => next.Guided
  | .shows event next => next.Guided ∧ event.isError = false
  | .failed cause next => (next.failure cause).Expected ∧ next.Calm
  | .imports name _ next => ∃ (walker : Walker) (place : Location) (rest : List Piece), walker.Orderly ∧
      walker.Placed ∧ walker.code = .item (.imports place name) :: rest ∧ next = walker.machine

theorem lawful_step {walker : Walker} (orderly : walker.Orderly) (placed : walker.Placed) :
    walker.machine.step.Lawful := by
  obtain ⟨last, orderly, placed, same, still⟩ := orderly.turn placed
  have onward := orderly.onward placed
  have agrees := placed.agrees
  rw [Machine.step_of_settle same]
  cases moved : last.move with
  | crossed next => exact (still next moved).elim
  | ran next =>
    rw [moved] at onward agrees
    rw [agrees.1]
    exact .of_walker onward agrees.2
  | prints text next =>
    rw [moved] at onward agrees
    rw [agrees.1]
    exact ⟨.of_walker onward agrees.2, rfl⟩
  | asks kind prompt place next =>
    rw [moved] at onward agrees
    rw [agrees.1]
    have idle : Phase.awaiting = .running → some (kind, place) = none := by
      intro running
      cases running
    exact ⟨.intro onward agrees.2 idle Failure.expected_of_none, rfl⟩
  | imports name place =>
    rw [moved] at agrees
    have here : last.machine.step = .imports name place last.machine := agrees
    obtain ⟨rest, code⟩ := Walker.code_of_imports moved
    rw [here]
    exact ⟨last, place, rest, orderly, placed, code, rfl⟩
  | failed failure =>
    rw [moved] at onward agrees
    obtain ⟨cause, after, fails, rfl, calm⟩ := agrees
    rw [fails]
    exact ⟨onward, calm⟩
  | ends =>
    rw [moved] at agrees
    have finishes : last.machine.step = last.machine.finish := agrees
    obtain ⟨event, finish, smooth⟩ := last.machine.finish_shows
    rw [finishes, finish]
    exact ⟨.of_finished orderly placed, smooth⟩

/-- A machine that can take a step is that of a walker as it is. -/
theorem Guided.walker (guided : machine.Guided) (atWork : machine.AtWork) :
    ∃ walker : Walker, walker.Orderly ∧ walker.Placed ∧ machine = walker.machine := by
  cases guided with
  | @intro walker phase pending fault interrupted orderly placed _ _ =>
    cases atWork.phase
    cases atWork.pending
    cases atWork.fault
    cases atWork.interrupted
    exact ⟨walker, orderly, placed, rfl⟩

theorem Guided.onward (guided : machine.Guided) (atWork : machine.AtWork) {progress : Progress}
    (stepped : machine.step = progress) : progress.Lawful := by
  obtain ⟨walker, orderly, placed, rfl⟩ := guided.walker atWork
  exact stepped ▸ lawful_step orderly placed

end Machine

theorem Event.isError_of_more {event : Event} (more : event.ends = false) : event.isError = false := by
  cases event with
  | stopped | error => cases more
  | running | print | input | leak => rfl

namespace Run

/-- The machines that wait for a module stand before an import, and the innermost one stands where it should. -/
inductive Guided : Run → Prop
  | alone {machine : Machine} : machine.Guided → Guided ⟨machine, []⟩
  | waiting {walker : Walker} {place : Location} {name : String} {rest : List Piece} {interrupted : Bool}
      {module : Machine} {inner : List Machine} : walker.Orderly → walker.Placed →
      walker.code = .item (.imports place name) :: rest → Guided ⟨module, inner⟩ →
      Guided ⟨{ walker.machine with interrupted }, module :: inner⟩

/-- The run has failed and cannot go on. -/
structure Broken (run : Run) : Prop where
  alone : run.modules = []
  phase : run.machine.phase = .finished
  pending : run.machine.pending = none
  fault : run.machine.fault = none

/-- What an execution may come to: a run that stands where it should, unless it has failed; and it has failed only for
reasons to be expected. -/
structure Lawful (result : Result) : Prop where
  expected : ∀ failure, result.1 = .error failure → failure.Expected
  guided : result.2.1.Guided ∨ result.2.1.Broken ∧ ∃ failure, result.1 = .error failure

variable {run : Run} {settings : Settings} {workspace : Workspace}

theorem Lawful.of_event {event : Event} {workspace : Workspace} (guided : run.Guided)
    (smooth : event.isError = false) : Lawful (event, run, workspace) := by
  refine ⟨?_, .inl guided⟩
  rintro failure rfl
  cases smooth

theorem Lawful.guided_of_smooth {result : Result} (lawful : Lawful result) (smooth : result.1.isError = false) :
    result.2.1.Guided := by
  rcases lawful.guided with guided | ⟨-, failure, shown⟩
  · exact guided
  · rw [shown] at smooth
    cases smooth

theorem Lawful.of_failure {failure : Failure} {workspace : Workspace} (expected : failure.Expected)
    (state : run.Guided ∨ run.Broken) : Lawful (.error failure, run, workspace) := by
  refine ⟨?_, state.imp_right fun broken => ⟨broken, failure, rfl⟩⟩
  intro other shown
  cases shown
  exact expected

theorem guided_start (capacity : Nat) (items : List Item) : Guided ⟨.start capacity (.ofItems items), []⟩ := by
  rw [← Walker.start_machine]
  exact .alone (.of_walker (Walker.start_orderly capacity items) (Walker.start_placed capacity items))

/-- A run that is broken off by its outermost machine. -/
theorem Guided.fail (guided : run.Guided) {failure : Failure} (expected : failure.Expected) (workspace : Workspace)
    (interrupted : Bool) (fault : Option Failure) (harmless : ∀ failure, fault = some failure → failure.Expected) :
    Lawful (fail ⟨{ run.machine with interrupted, fault }, run.modules⟩ failure workspace) := by
  refine .of_failure expected (.inl ?_)
  cases guided with
  | alone guided =>
    cases guided with
    | intro orderly placed idle _ => exact .alone (.intro orderly placed nofun harmless)
  | waiting orderly placed _ _ => exact .alone (.intro orderly placed nofun harmless)

/-- A run that has not failed has the functions of a walker who stands where he should. -/
theorem Guided.functions (guided : run.Guided) : ∃ walker : Walker, walker.Orderly ∧ walker.Placed ∧
    run.machine.functions = walker.functions.map Routine.callable := by
  cases guided with
  | alone guided =>
    cases guided with
    | intro orderly placed _ _ => exact ⟨_, orderly, placed, rfl⟩
  | waiting orderly placed _ _ => exact ⟨_, orderly, placed, rfl⟩

/-- A machine that goes on with the functions of a walker is that of a walker who does. -/
theorem adopt_machine {walker other : Walker} {finished : Run} (rest : List Piece)
    (functions : finished.machine.functions = other.functions.map Routine.callable) :
    adopt ⟨walker.machine, []⟩ finished = ⟨(walker.resume other rest).machine, []⟩ := by
  rw [adopt, functions, Walker.resume, Walker.machine, Walker.machine, Dictionary.map_merge]
  rfl

/-- What turns come to is lawful, if that is so for the executions of a module. -/
theorem ComesTo.lawful {execute : Run → Workspace → Result} {result : Result}
    (inside : ∀ {run : Run}, run.Guided → ∀ workspace, Lawful (execute run workspace))
    (comes : ComesTo settings execute run workspace result) (guided : run.Guided) (atWork : run.machine.AtWork) :
    Lawful result := by
  induction comes with
  | out => exact .of_event guided rfl
  | ran stepped _ ih =>
    cases guided with
    | alone guided => exact ih (.alone (guided.onward atWork stepped)) (atWork.onward stepped)
  | shows stepped =>
    cases guided with
    | alone guided =>
      obtain ⟨guided, smooth⟩ := guided.onward atWork stepped
      exact .of_event (.alone guided) smooth
  | failed stepped =>
    cases guided with
    | alone guided =>
      obtain ⟨expected, calm⟩ := guided.onward atWork stepped
      exact .of_failure expected (.inr ⟨rfl, rfl, calm.pending, calm.fault⟩)
  | @refused _ _ name place _ workspace _ stepped entered =>
    cases guided with
    | alone guided =>
      obtain ⟨walker, _, rest, orderly, placed, _, rfl⟩ := guided.onward atWork stepped
      have expects := settings.expects_enterModule name place workspace
      rw [entered] at expects
      exact .of_failure expects (.inl (.alone (.of_finished orderly placed)))
  | entered stepped _ _ ih =>
    cases guided with
    | alone guided =>
      obtain ⟨walker, _, rest, orderly, placed, code, rfl⟩ := guided.onward atWork stepped
      exact ih (.waiting orderly placed code (guided_start ..)) (atWork.onward stepped)
  | @adopted _ _ _ finished workspace _ _ executed _ ih =>
    cases guided with
    | @waiting walker place name rest interrupted module inner orderly placed code guided =>
      cases atWork.interrupted
      have lawful := inside guided workspace
      rw [executed] at lawful
      obtain ⟨other, theirs, theirPlaces, functions⟩ := (lawful.guided_of_smooth rfl).functions
      have guided := Machine.Guided.of_walker (Walker.resume_orderly orderly theirs code)
        (Walker.resume_placed placed theirPlaces code)
      exact ih (adopt_machine rest functions ▸ .alone guided) ⟨⟨rfl, rfl, rfl⟩, rfl⟩
  | @broken _ _ _ failure _ workspace _ executed =>
    cases guided with
    | waiting orderly placed _ guided =>
      cases atWork.interrupted
      have lawful := inside guided workspace
      rw [executed] at lawful
      exact .of_failure (lawful.expected failure rfl) (.inl (.alone (.of_finished orderly placed)))
  | @waits _ _ _ _ _ workspace _ executed more =>
    have smooth := Event.isError_of_more more
    cases guided with
    | waiting orderly placed code guided =>
      have lawful := inside guided workspace
      rw [executed] at lawful
      exact .of_event (.waiting orderly placed code (lawful.guided_of_smooth smooth)) smooth

theorem Guided.idle (guided : run.Guided) (running : run.machine.phase = .running) : run.machine.pending = none := by
  cases guided with
  | alone guided =>
    cases guided with
    | intro _ _ idle _ => exact idle running
  | waiting => rfl

theorem Guided.harmless (guided : run.Guided) (failure : Failure) (faulty : run.machine.fault = some failure) :
    failure.Expected := by
  cases guided with
  | alone guided =>
    cases guided with
    | intro _ _ _ harmless => exact harmless failure faulty
  | waiting => cases faulty

/-- An execution of a run that stands where it should. -/
theorem Guided.executeWithin (guided : run.Guided) (settings : Settings) (cycles depth : Nat) (workspace : Workspace) :
    Lawful (executeWithin settings cycles depth run workspace) := by
  induction depth generalizing run workspace with
  | zero => exact .of_event guided rfl
  | succ depth ih =>
    have executes := executes_executeWithin settings cycles depth run workspace
    generalize Run.executeWithin settings cycles (depth + 1) run workspace = result at executes ⊢
    cases executes with
    | interrupted => exact guided.fail (Machine.expected_interruption _) workspace false _ guided.harmless
    | faulty _ faulty => exact guided.fail (guided.harmless _ faulty) workspace _ none Failure.expected_of_none
    | finished | awaiting => exact .of_event guided rfl
    | running quiet clean running comes =>
      exact comes.lawful ih guided ⟨⟨guided.idle running, clean, quiet⟩, running⟩

theorem Broken.execute (broken : run.Broken) (settings : Settings) (cycles : Nat) (workspace : Workspace) :
    (∀ failure, (run.execute settings cycles workspace).1 = .error failure → failure.Expected) ∧
      (run.execute settings cycles workspace).2.1.Broken := by
  obtain ⟨machine, modules⟩ := run
  have fault : machine.fault = none := broken.fault
  have phase : machine.phase = .finished := broken.phase
  rw [Run.execute, Run.executeWithin]
  split
  · refine ⟨?_, rfl, rfl, broken.pending, fault⟩
    intro failure shown
    cases shown
    exact machine.expected_interruption
  · rw [fault, phase]
    refine ⟨?_, broken⟩
    intro failure shown
    cases shown

end Run

namespace Walker

variable {walker : Walker}

theorem Orderly.withOperands (orderly : walker.Orderly) (operands : Stack Value) :
    { walker with store := { walker.store with operands } }.Orderly := by
  obtain ⟨program, within⟩ := orderly
  exact ⟨program, within.tape, within.stands, within.nested, within.scopes, within.functions⟩

theorem Placed.withOperands (placed : walker.Placed) (operands : Stack Value) :
    { walker with store := { walker.store with operands } }.Placed :=
  ⟨placed.carried, placed.enclosed, placed.functions⟩

end Walker

namespace Machine

theorem expects_readLine (kind : InputKind) (line : String) : Expects Cause.Expected (readLine kind line) := by
  cases kind with
  | number => exact (Decimal.parse_mild line).expects.map _
  | string => trivial

variable {machine : Machine}

/-- An answer leaves a machine where it stands. -/
theorem Guided.enter (guided : machine.Guided) (line : String) : (machine.enter line).Guided := by
  cases guided with
  | @intro walker phase pending fault interrupted orderly placed idle harmless =>
    cases pending with
    | none => exact .intro orderly placed idle harmless
    | some asked =>
      obtain ⟨kind, place⟩ := asked
      have reads := expects_readLine kind (String.ofList (chomp line.toList))
      unfold Machine.enter
      dsimp only
      split
      · rename_i cause failed
        rw [failed] at reads
        refine .intro orderly placed (fun _ => rfl) ?_
        intro failure faulty
        cases faulty
        exact reads
      · rename_i value _
        have pushes := walker.store.operands.expects_push value
        split
        · rename_i operands pushed
          exact .intro (orderly.withOperands operands) (placed.withOperands operands) (fun _ => rfl) harmless
        · rename_i cause operands failed
          rw [show walker.store.operands.push value = _ from failed] at pushes
          refine .intro (orderly.withOperands operands) (placed.withOperands operands) (fun _ => rfl) ?_
          intro failure faulty
          cases faulty
          exact pushes

theorem Guided.closeInput (guided : machine.Guided) : machine.closeInput.Guided := by
  unfold Machine.closeInput
  split
  · exact guided.enter _
  · exact guided.enter _
  · exact guided

end Machine

namespace Run

variable {run : Run}

theorem Guided.onInnermost {change : Machine → Machine} (guided : run.Guided)
    (changes : ∀ machine : Machine, machine.Guided → (change machine).Guided) : (run.onInnermost change).Guided := by
  induction guided with
  | alone guided => exact .alone (changes _ guided)
  | waiting orderly placed code _ ih =>
    rw [onInnermost_cons]
    exact .waiting orderly placed code ih

theorem Guided.interrupt (guided : run.Guided) : run.interrupt.Guided := by
  cases guided with
  | alone guided =>
    cases guided with
    | intro orderly placed idle harmless => exact .alone (.intro orderly placed idle harmless)
  | waiting orderly placed code guided => exact .waiting orderly placed code guided

/-- Every machine of the run that can take a step is that of a walker who stands where he should. -/
theorem Guided.walker (guided : run.Guided) {machine : Machine} (member : machine ∈ run.machine :: run.modules)
    (atWork : machine.AtWork) :
    ∃ walker : Walker, walker.Orderly ∧ walker.Placed ∧ machine = walker.machine := by
  induction guided with
  | alone guided =>
    obtain rfl := List.mem_singleton.1 member
    exact guided.walker atWork
  | @waiting walker _ _ _ interrupted module inner orderly placed _ _ ih =>
    rcases List.mem_cons.1 member with rfl | later
    · cases atWork.interrupted
      exact ⟨walker, orderly, placed, rfl⟩
    · exact ih later

theorem Broken.onInnermost_eq {change : Machine → Machine} (broken : run.Broken)
    (keeps : ∀ machine : Machine, machine.pending = none → change machine = machine) :
    run.onInnermost change = run := by
  obtain ⟨machine, modules⟩ := run
  cases broken.alone
  have same : change machine = machine := keeps machine broken.pending
  exact congrArg (Run.mk · []) same

end Run

/-- The runs of a program, whatever its driver does: he executes slices, hands lines in, closes the input and breaks
off, at any time and in any order. Slices of one cycle come to every step of every machine. -/
inductive Reached (settings : Settings) (program : List Item) (workspace : Workspace) : Run → Workspace → Prop
  | start : Reached settings program workspace (.start settings (.ofItems program)) workspace
  | execute {run : Run} {before : Workspace} (cycles : Nat) : Reached settings program workspace run before →
      Reached settings program workspace (run.execute settings cycles before).2.1
        (run.execute settings cycles before).2.2
  | enter {run : Run} {before : Workspace} (line : String) : Reached settings program workspace run before →
      Reached settings program workspace (run.enter line) before
  | closeInput {run : Run} {before : Workspace} : Reached settings program workspace run before →
      Reached settings program workspace run.closeInput before
  | interrupt {run : Run} {before : Workspace} : Reached settings program workspace run before →
      Reached settings program workspace run.interrupt before

variable {settings : Settings} {program : List Item} {workspace before : Workspace} {run : Run}

theorem Reached.guided (reached : Reached settings program workspace run before) : run.Guided ∨ run.Broken := by
  induction reached with
  | start => exact .inl (Run.guided_start settings.capacity program)
  | @execute run before cycles _ ih =>
    rcases ih with guided | broken
    · exact (guided.executeWithin settings cycles (settings.depth + 1) before).guided.imp_right And.left
    · exact .inr (broken.execute settings cycles before).2
  | enter line _ ih =>
    rcases ih with guided | broken
    · exact .inl (guided.onInnermost fun machine guided => guided.enter line)
    · refine .inr ?_
      rwa [Run.enter, broken.onInnermost_eq fun machine none => by rw [Machine.enter, none]]
  | closeInput _ ih =>
    rcases ih with guided | broken
    · exact .inl (guided.onInnermost fun machine guided => guided.closeInput)
    · refine .inr ?_
      rwa [Run.closeInput, broken.onInnermost_eq fun machine none => by rw [Machine.closeInput, none]]
  | interrupt _ ih =>
    rcases ih with guided | broken
    · exact .inl guided.interrupt
    · exact .inr ⟨broken.alone, broken.phase, broken.pending, broken.fault⟩

/-- Control frames and scope frames stay well nested. Whenever a machine of a run has settled its boundaries, its
frames up to the innermost call are those of the blocks around the place where it stands in its function, innermost
first, and so on for its callers; there is one scope frame for each binding and each cell around these places; a return
has its call before it; and while there are frames, the machine stands inside its tape. When it finishes, there are no
frames left of either kind. And no run ever fails by an error of the machine itself. -/
theorem frames_stay_nested (settings : Settings) (program : List Item) (workspace : Workspace) {run : Run}
    {before : Workspace} (reached : Reached settings program workspace run before) :
    (∀ machine ∈ run.machine :: run.modules, machine.AtWork →
      (∀ more here, machine.settle = (.ok more, here) → here.WellNested) ∧
      ∀ event finished, machine.step = .shows event finished → finished.phase = .finished →
        finished.frames = [] ∧ finished.bindings.frames = []) ∧
    ∀ cycles failure, (run.execute settings cycles before).1 = .error failure →
      failure.cause.code ≠ .internalError := by
  constructor
  · intro machine member atWork
    rcases reached.guided with guided | broken
    · obtain ⟨walker, orderly, placed, rfl⟩ := guided.walker member atWork
      exact ⟨fun more here settles => orderly.settled placed settles,
        fun event finished shown done => orderly.finished placed shown done⟩
    · rw [broken.alone] at member
      obtain rfl := List.mem_singleton.1 member
      cases broken.phase.symm.trans atWork.phase
  · intro cycles failure shown
    rcases reached.guided with guided | broken
    · exact (guided.executeWithin settings cycles (settings.depth + 1) before).expected failure shown
    · exact (broken.execute settings cycles before).1 failure shown

/-- The program `fn f : do let x do x pr end end 2 repeat "y" f end`. -/
def echoing : List Item :=
  [.define ⟨0, 0, 2⟩ ⟨"f", [], []⟩ [.bind ⟨0, 10, 13⟩ ["x"] [.word ⟨0, 19, 20⟩ "x", .word ⟨0, 21, 23⟩ "pr"] ⟨0, 24, 27⟩]
      ⟨0, 28, 31⟩,
    .number ⟨0, 32, 33⟩ .two,
    .repeats ⟨0, 34, 40⟩ [.string ⟨0, 41, 44⟩ "y", .word ⟨0, 45, 46⟩ "f"] ⟨0, 47, 50⟩]

/-- Ten cycles take that program into the binding in the function, which has been called in the repetition. -/
def echoed : Run.Result :=
  (Run.start { library := .memory {}, capacity := 4 } (.ofItems echoing)).execute
    { library := .memory {}, capacity := 4 } 10 {}

theorem echoed_stays_nested :
    Reached { library := .memory {}, capacity := 4 } echoing {} echoed.2.1 echoed.2.2 ∧
    echoed.2.1.machine.frames.map Frame.enclosure? = [none, some (.repeats 12 15)] ∧
    echoed.2.1.machine.bindings.frames.length = 1 ∧
    ∀ machine ∈ echoed.2.1.machine :: echoed.2.1.modules, machine.AtWork →
      (∀ more here, machine.settle = (.ok more, here) → here.WellNested) ∧
      ∀ event finished, machine.step = .shows event finished → finished.phase = .finished →
        finished.frames = [] ∧ finished.bindings.frames = [] := by
  have reached : Reached { library := .memory {}, capacity := 4 } echoing {} echoed.2.1 echoed.2.2 := .execute 10 .start
  exact ⟨reached, by cbv, by cbv, (frames_stay_nested _ _ _ reached).1⟩

end TapeMachine
