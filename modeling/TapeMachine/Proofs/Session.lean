import TapeMachine.Proofs.Slices

namespace TapeMachine

def Event.isError : Event → Bool
  | .error _ => true
  | _ => false

/-- The runs of a program that nobody interrupts, and whether a slice of them has failed. Lines may come
at any time. The first failure ends a run, but slices may still be asked for behind it. -/
inductive Session (settings : Settings) (items : List Item) (workspace : Workspace) :
    (failed : Bool) → Run → Workspace → Prop
  | start : Session settings items workspace false (.start settings (.ofItems items)) workspace
  | execute {failed : Bool} {run : Run} {before : Workspace} (cycles : Nat) :
      Session settings items workspace failed run before →
      Session settings items workspace (failed || (run.execute settings cycles before).1.isError)
        (run.execute settings cycles before).2.1 (run.execute settings cycles before).2.2
  | enter {failed : Bool} {run : Run} {before : Workspace} (line : String) :
      Session settings items workspace failed run before →
      Session settings items workspace failed (run.enter line) before
  | closeInput {failed : Bool} {run : Run} {before : Workspace} :
      Session settings items workspace failed run before →
      Session settings items workspace failed run.closeInput before

theorem Store.answer_of_ok {store next : Store} {kind : InputKind} {line : String}
    (answered : store.answer kind (some line) = .ok next) :
    ∃ value, value.ty = kind.ty ∧ store.push value = .ok next := by
  simp only [answer, Option.getD] at answered
  cases read : Machine.readLine kind (String.ofList (chomp line.toList)) with
  | error => rw [read] at answered; cases answered
  | ok value =>
    rw [read] at answered
    refine ⟨value, ?_, answered⟩
    cases kind with
    | string => cases read; rfl
    | number =>
      unfold Machine.readLine at read
      cases parsed : Decimal.parse (String.ofList (chomp line.toList)) with
      | error => rw [parsed] at read; cases read
      | ok => rw [parsed] at read; cases read; rfl

theorem Store.push_of_error {store : Store} {value : Value} {cause : Cause}
    (failed : store.push value = .error cause) : ∃ label, cause = .stackFull label := by
  simp only [push, Stack.push, Stack.check, Stack.accepted] at failed
  split at failed
  · cases failed
  · cases failed
    exact ⟨_, rfl⟩

theorem Decimal.parse_of_error {text : String} {cause : Cause} (failed : Decimal.parse text = .error cause) :
    ∃ found, cause = .notANumber found := by
  unfold Decimal.parse at failed
  dsimp only at failed
  split at failed
  · cases failed
  · cases failed
    exact ⟨_, rfl⟩

theorem Store.answer_of_error {store : Store} {kind : InputKind} {line : String} {cause : Cause}
    (failed : store.answer kind (some line) = .error cause) :
    (∃ text, cause = .notANumber text) ∨ ∃ label, cause = .stackFull label := by
  simp only [answer, Option.getD] at failed
  cases read : Machine.readLine kind (String.ofList (chomp line.toList)) with
  | ok value =>
    rw [read] at failed
    exact .inr (push_of_error failed)
  | error =>
    rw [read] at failed
    cases failed
    cases kind with
    | string => cases read
    | number =>
      unfold Machine.readLine at read
      cases parsed : Decimal.parse (String.ofList (chomp line.toList)) with
      | ok => rw [parsed] at read; cases read
      | error =>
        rw [parsed] at read
        cases read
        exact .inl (Decimal.parse_of_error parsed)

namespace Walker

/-- The walkers that a move leads to have a property, where any answer of the right type is given to a
question; and if the move fails, its cause is allowed. -/
def Move.Keeps (holds : Walker → Prop) (allowed : Cause → Prop) : Move → Prop
  | .crossed next | .ran next | .prints _ next => holds next
  | .asks kind _ _ next => ∀ value store, value.ty = kind.ty → next.store.push value = .ok store →
      holds { next with store }
  | .failed failure => allowed failure.cause
  | .imports .. | .ends => True

/-- A property of walkers that no run loses, and the causes by which runs may fail. -/
structure Upholds (holds : Walker → Prop) (allowed : Cause → Prop) : Prop where
  keeps : ∀ walker, holds walker → walker.move.Keeps holds allowed
  unreadable : ∀ text, allowed (.notANumber text)
  full : ∀ label, allowed (.stackFull label)

variable {holds : Walker → Prop} {allowed : Cause → Prop}

theorem Upholds.stroll (upholds : Upholds holds allowed) {walker last : Walker} {moves : Nat}
    (stroll : Strolls moves walker last) (before : holds walker) : holds last := by
  refine stroll.preserves ?_ before
  intro walker next moved held
  have keeps := upholds.keeps walker held
  rcases moved with crossed | ran
  · rw [crossed] at keeps
    exact keeps
  · rw [ran] at keeps
    exact keeps

end Walker

namespace Walker

variable {walker : Walker} {here : Machine}

/-- A walker that crosses no boundary stands where its machine settles: before an instruction of its
level, or before the return from a call. -/
theorem Placed.settled (placed : walker.Placed) (still : ∀ next, walker.move ≠ .crossed next)
    (settles : walker.machine.settle = (.ok true, here)) :
    here = walker.machine ∧
      (walker.code = [] → ∃ tape address rest outer, walker.blocks = .call tape address rest :: outer) := by
  cases code : walker.code with
  | cons piece rest =>
    rw [Machine.settle_of_settled (placed.quiet code)] at settles
    cases settles
    exact ⟨rfl, fun none => by cases none⟩
  | nil =>
    have enclosed := placed.enclosed
    -- The level is at its end, and every block but a call is left by crossing a boundary.
    rw [code, Piece.extent_nil, Nat.add_zero] at enclosed
    generalize stands : walker.ip = stop at enclosed
    cases blocks : walker.blocks with
    | nil =>
      rw [blocks] at enclosed
      cases enclosed with
      | program =>
        have settled : walker.machine.boundary = .settled false walker.machine := by
          rw [Machine.boundary, show walker.machine.frames = [] by simp [machine, blocks]]
          simp [machine, stands]
        rw [Machine.settle_of_settled settled] at settles
        cases settles
    | cons block outer =>
      rw [blocks] at enclosed
      have moved : walker.move = walker.close block outer := by rw [move, code, blocks]
      have frames : walker.machine.frames = block.frame :: outer.map Block.frame := by
        show walker.blocks.map Block.frame = _
        rw [blocks]
        rfl
      cases enclosed with
      | consequent => exact (still _ moved).elim
      | @repeats _ _ _ start body remaining closing =>
        cases remaining with
        | zero => exact (still _ moved).elim
        | succ => exact (still _ moved).elim
      | @test _ _ _ loop closing _ parts same =>
        have there : walker.machine.ip = loop.middle := stands.trans same
        have ahead := parts.stop
        have boundary := Machine.boundary_test frames (by omega)
        cases taken : walker.store.takeNumber with
        | ok found =>
          rw [close, taken] at moved
          simp only [Move.after] at moved
          split at moved
          · exact (still _ moved).elim
          · exact (still _ moved).elim
        | error cause =>
          obtain ⟨after, failure, -⟩ :=
            Machine.bodyOrDone_of_error closing.address (outer.map Block.frame) there taken
          rw [Machine.settle_of_failed (boundary.trans failure)] at settles
          cases settles
      | body => exact (still _ moved).elim
      | @cell _ _ _ owned closing _ same =>
        have boundary := Machine.boundary_cell frames (stands.trans same.symm)
        cases released : walker.store.release owned with
        | ok store =>
          rw [close, released] at moved
          exact (still _ moved).elim
        | error cause =>
          change walker.machine.store.release owned = _ at released
          obtain ⟨after, dropped, -⟩ := Machine.dropCell_of_error (outer.map Block.frame) released
          rw [dropped] at boundary
          rw [Machine.settle_of_failed boundary] at settles
          cases settles
      | @call _ _ _ place caller address rest =>
        rw [Machine.settle_of_settled (Machine.boundary_call frames)] at settles
        cases settles
        exact ⟨rfl, fun _ => ⟨_, _, _, _, rfl⟩⟩

end Walker

/-- The states of a run between its slices: it has something to do, waits for an answer, has got a bad
one, is done, or has failed. -/
inductive Stage (holds : Walker → Prop) (allowed : Cause → Prop) : (failed : Bool) → Run → Prop
  | walking {walker : Walker} : walker.Sound → holds walker → Stage holds allowed false ⟨walker.machine, []⟩
  | awaiting {walker : Walker} (kind : InputKind) (place : Location) : walker.Sound →
      (∀ value store, value.ty = kind.ty → walker.store.push value = .ok store → holds { walker with store }) →
      Stage holds allowed false ⟨walker.awaiting kind place, []⟩
  | faulty {after : Machine} {failure : Failure} : after.Calm → allowed failure.cause →
      Stage holds allowed false ⟨{ after with fault := some failure }, []⟩
  | finished {walker : Walker} : holds walker → walker.move = .ends →
      Stage holds allowed false ⟨{ walker.machine with phase := .finished }, []⟩
  | broken {after : Machine} : after.Calm → Stage holds allowed true ⟨{ after with phase := .finished }, []⟩

namespace Stage

variable {holds : Walker → Prop} {allowed : Cause → Prop} {failed : Bool} {run : Run}

/-- A machine that has not asked for anything takes no answer. -/
theorem enter_of_idle {machine : Machine} (idle : machine.pending = none) (line : String) :
    Run.enter ⟨machine, []⟩ line = ⟨machine, []⟩ ∧ Run.closeInput ⟨machine, []⟩ = ⟨machine, []⟩ := by
  have entered : machine.enter line = machine := by rw [Machine.enter, idle]
  have closed : machine.closeInput = machine := by rw [Machine.closeInput, idle]
  exact ⟨congrArg (Run.mk · []) entered, congrArg (Run.mk · []) closed⟩

theorem enter_awaiting (upholds : Walker.Upholds holds allowed) {walker : Walker} {kind : InputKind}
    (place : Location) (sound : walker.Sound)
    (answers : ∀ value store, value.ty = kind.ty → walker.store.push value = .ok store → holds { walker with store })
    (line : String) : Stage holds allowed false ⟨(walker.awaiting kind place).enter line, []⟩ := by
  cases answered : walker.store.answer kind (some line) with
  | ok store =>
    obtain ⟨value, typed, pushed⟩ := Store.answer_of_ok answered
    rw [Walker.enter_of_answer place answered]
    have moved : { walker with store }.Sound :=
      ⟨⟨sound.1.carried, sound.1.enclosed, sound.1.functions⟩, ⟨sound.2.code, sound.2.blocks, sound.2.functions⟩⟩
    exact .walking moved (answers value store typed pushed)
  | error cause =>
    obtain ⟨after, entered, calm⟩ := Walker.enter_of_error place answered
    rw [entered]
    refine .faulty calm ?_
    rcases Store.answer_of_error answered with ⟨text, rfl⟩ | ⟨label, rfl⟩
    · exact upholds.unreadable text
    · exact upholds.full label

theorem enter (upholds : Walker.Upholds holds allowed) (stage : Stage holds allowed failed run) (line : String) :
    Stage holds allowed failed (run.enter line) := by
  cases stage with
  | walking sound held =>
    rw [(enter_of_idle rfl line).1]
    exact .walking sound held
  | awaiting kind place sound answers => exact enter_awaiting upholds place sound answers line
  | @faulty after failure calm harmless =>
    have idle : { after with fault := some failure }.pending = none := calm.pending
    rw [(enter_of_idle idle line).1]
    exact .faulty calm harmless
  | finished held ends =>
    rw [(enter_of_idle rfl line).1]
    exact .finished held ends
  | @broken after calm =>
    have idle : { after with phase := .finished }.pending = none := calm.pending
    rw [(enter_of_idle idle line).1]
    exact .broken calm

theorem closeInput (upholds : Walker.Upholds holds allowed) (stage : Stage holds allowed failed run) :
    Stage holds allowed failed run.closeInput := by
  cases stage with
  | walking sound held =>
    rw [(enter_of_idle rfl "").2]
    exact .walking sound held
  | @awaiting walker kind place sound answers =>
    obtain ⟨line, same, -⟩ := walker.closeInput_awaiting kind place
    have entered := enter_awaiting upholds place sound answers line
    rw [← same] at entered
    exact entered
  | @faulty after failure calm harmless =>
    have idle : { after with fault := some failure }.pending = none := calm.pending
    rw [(enter_of_idle idle "").2]
    exact .faulty calm harmless
  | finished held ends =>
    rw [(enter_of_idle rfl "").2]
    exact .finished held ends
  | @broken after calm =>
    have idle : { after with phase := .finished }.pending = none := calm.pending
    rw [(enter_of_idle idle "").2]
    exact .broken calm

/-- What a slice leads to: the stage behind it, and what its event tells. -/
structure Follows (holds : Walker → Prop) (allowed : Cause → Prop) (failed : Bool) (result : Run.Result) : Prop where
  stage : Stage holds allowed (failed || result.1.isError) result.2.1
  harmless : ∀ failure, result.1 = .error failure → allowed failure.cause
  ended : failed = false → result.1 = .stopped →
    ∃ walker, holds walker ∧ walker.move = .ends ∧ result.2.1.machine.operands = walker.store.operands

/-- An event that is neither an error nor the end tells nothing. -/
theorem Follows.of_event {event : Event} {next : Run} (workspace : Workspace)
    (stage : Stage holds allowed false next) (smooth : ∀ failure, event ≠ .error failure)
    (more : event ≠ .stopped) : Follows holds allowed false (event, next, workspace) := by
  have same : event.isError = false := by
    cases event with
    | error failure => exact (smooth failure rfl).elim
    | stopped | running | print | input | leak => rfl
  refine ⟨?_, fun failure shown => (smooth failure shown).elim, fun _ shown => (more shown).elim⟩
  simpa only [same, Bool.or_false] using stage

theorem Follows.of_failure {after : Machine} {failure : Failure} (workspace : Workspace) (calm : after.Calm)
    (harmless : allowed failure.cause) :
    Follows holds allowed false (.error failure, ⟨{ after with phase := .finished }, []⟩, workspace) := by
  refine ⟨.broken calm, ?_, ?_⟩
  · intro other shown
    cases shown
    exact harmless
  · intro _ shown
    cases shown

theorem Follows.of_end {walker : Walker} (workspace : Workspace) (held : holds walker)
    (ends : walker.move = .ends) :
    Follows holds allowed false (.stopped, ⟨{ walker.machine with phase := .finished }, []⟩, workspace) := by
  refine ⟨.finished held ends, ?_, fun _ _ => ⟨walker, held, ends, rfl⟩⟩
  intro failure shown
  cases shown

theorem follows_reports (upholds : Walker.Upholds holds allowed) {walker : Walker} (sound : walker.Sound)
    (held : holds walker) {workspace : Workspace} {result : Run.Result} (reports : walker.Reports workspace result) :
    Follows holds allowed false result := by
  have keeps := upholds.keeps walker held
  have leads := sound.leads
  unfold Walker.Reports at reports
  cases moved : walker.move with
  | crossed | ran | imports =>
    rw [moved] at reports
    exact reports.elim
  | prints text next =>
    rw [moved] at reports keeps leads
    rw [reports]
    exact .of_event _ (.walking leads keeps) (by intro failure same; cases same) (by intro same; cases same)
  | asks kind prompt place next =>
    rw [moved] at reports keeps leads
    rw [reports]
    exact .of_event _ (.awaiting kind place (leads next.store) keeps) (by intro failure same; cases same)
      (by intro same; cases same)
  | failed failure =>
    rw [moved] at reports keeps
    obtain ⟨after, calm, rfl⟩ := reports
    exact .of_failure _ calm keeps
  | ends =>
    rw [moved] at reports
    obtain ⟨event, later, farewell, rfl⟩ := reports
    rcases Walker.farewell_cases walker.store with stopped | ⟨regions, slots, leak⟩
    · rw [stopped] at farewell
      cases farewell
      exact .of_end _ held moved
    · rw [leak] at farewell
      cases farewell
      exact .of_event _ (.finished held moved) (by intro failure same; cases same) (by intro same; cases same)

theorem execute (upholds : Walker.Upholds holds allowed) (stage : Stage holds allowed failed run)
    (settings : Settings) (cycles : Nat) (workspace : Workspace) :
    Follows holds allowed failed (run.execute settings cycles workspace) := by
  cases stage with
  | walking sound held =>
    obtain ⟨moves, last, stroll, sound', result⟩ := sound.execute settings cycles workspace
    have held' := upholds.stroll stroll held
    rcases result with ⟨-, running⟩ | reports
    · rw [running]
      exact .of_event _ (.walking sound' held') (by intro failure same; cases same) (by intro same; cases same)
    · exact follows_reports upholds sound' held' reports
  | awaiting kind place sound answers =>
    exact .of_event workspace (.awaiting kind place sound answers) (by intro failure same; cases same)
      (by intro same; cases same)
  | faulty calm harmless =>
    rw [Walker.execute_faulty calm]
    exact .of_failure _ calm harmless
  | @finished walker held ends =>
    rw [Walker.execute_finished walker.machine_calm]
    exact .of_end _ held ends
  | broken calm =>
    rw [Walker.execute_finished calm]
    refine ⟨.broken calm, ?_, ?_⟩
    · intro failure shown
      cases shown
    · intro same
      cases same

/-- Where a run is about to carry an instruction out, its walker stands before that instruction. -/
theorem settled (upholds : Walker.Upholds holds allowed) (stage : Stage holds allowed failed run)
    (running : run.machine.phase = .running) (clean : run.machine.fault = none) {here : Machine}
    (settles : run.machine.settle = (.ok true, here)) :
    ∃ walker, holds walker ∧ here = walker.machine ∧
      (walker.code = [] → ∃ tape address rest outer, walker.blocks = .call tape address rest :: outer) := by
  cases stage with
  | walking sound held =>
    obtain ⟨moves, last, stroll, sound', same, still⟩ := sound.turn
    obtain ⟨stands, returns⟩ := sound'.1.settled still (same.symm.trans settles)
    exact ⟨last, upholds.stroll stroll held, stands, returns⟩
  | awaiting | finished | broken => cases running
  | faulty => cases clean

end Stage

/-- A property that no walk loses is with a run through all its slices. -/
theorem Session.stage {settings : Settings} {items : List Item} {workspace before : Workspace} {failed : Bool}
    {run : Run} {holds : Walker → Prop} {allowed : Cause → Prop}
    (session : Session settings items workspace failed run before) (upholds : Walker.Upholds holds allowed)
    (free : standAlone items = true) (held : holds (Walker.start settings.capacity items)) :
    Stage holds allowed failed run := by
  induction session with
  | start =>
    have sound : (Walker.start settings.capacity items).Sound :=
      ⟨Walker.start_placed _ items, Walker.start_alone _ free⟩
    have stage : Stage holds allowed false ⟨(Walker.start settings.capacity items).machine, []⟩ :=
      .walking sound held
    rw [Walker.start_machine] at stage
    exact stage
  | execute cycles _ ih => exact (ih.execute upholds settings cycles _).stage
  | enter line _ ih => exact ih.enter upholds line
  | closeInput _ ih => exact ih.closeInput upholds

end TapeMachine
