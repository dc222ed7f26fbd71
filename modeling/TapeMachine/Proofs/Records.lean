import TapeMachine.Proofs.Steadiness
import TapeMachine.Proofs.Tidiness

namespace TapeMachine

/-- The past of a machine behind a turn, in which it takes a step. A machine that is interrupted, has a fault to report
or is not running takes none. -/
def Machine.remember (machine : Machine) (past : List Deed) : List Deed :=
  if machine.interrupted = false ∧ machine.fault = none ∧ machine.phase = .running then machine.deed?.toList ++ past
  else past

namespace Run

/-- The pasts of the machines of a run, outermost first, behind a turn on at most `depth` levels. It is the innermost
machine that takes a step. -/
def note : (depth : Nat) → Run → List (List Deed) → List (List Deed)
  | _ + 1, ⟨machine, []⟩, past :: pasts => machine.remember past :: pasts
  | depth + 1, ⟨_, module :: inner⟩, past :: pasts => past :: note depth ⟨module, inner⟩ pasts
  | _, _, pasts => pasts

/-- The pasts behind a turn that has led to `after`. A module that has been entered has no past yet, and the pasts of
modules that have been left are forgotten. -/
def remember (depth : Nat) (run after : Run) (pasts : List (List Deed)) : List (List Deed) :=
  (run.note depth pasts ++ [[]]).take (after.modules.length + 1)

end Run

/-- The runs of a program, whatever its driver does, with what each of its machines has done with its memory. The driver
executes slices of one cycle, so that nothing is left out. -/
inductive Recorded (settings : Settings) (program : List Item) (workspace : Workspace) :
    Run → Workspace → List (List Deed) → Prop
  | start : Recorded settings program workspace (.start settings (.ofItems program)) workspace [[]]
  | execute {run : Run} {before : Workspace} {pasts : List (List Deed)} :
      Recorded settings program workspace run before pasts →
      Recorded settings program workspace (run.execute settings 1 before).2.1 (run.execute settings 1 before).2.2
        (run.remember (settings.depth + 1) (run.execute settings 1 before).2.1 pasts)
  | enter {run : Run} {before : Workspace} {pasts : List (List Deed)} (line : String) :
      Recorded settings program workspace run before pasts →
      Recorded settings program workspace (run.enter line) before pasts
  | closeInput {run : Run} {before : Workspace} {pasts : List (List Deed)} :
      Recorded settings program workspace run before pasts →
      Recorded settings program workspace run.closeInput before pasts
  | interrupt {run : Run} {before : Workspace} {pasts : List (List Deed)} :
      Recorded settings program workspace run before pasts →
      Recorded settings program workspace run.interrupt before pasts

variable {settings : Settings} {program : List Item} {workspace before : Workspace} {run : Run} {past : List Deed}
  {pasts : List (List Deed)}

/-- What is recorded are runs of the program. -/
theorem Recorded.forget (recorded : Recorded settings program workspace run before pasts) :
    Reached settings program workspace run before := by
  induction recorded with
  | start => exact .start
  | execute _ ih => exact .execute 1 ih
  | enter line _ ih => exact .enter line ih
  | closeInput _ ih => exact .closeInput ih
  | interrupt _ ih => exact .interrupt ih

namespace Walker

variable {walker : Walker}

theorem Tended.withOperands (tended : walker.Tended past) (operands : Stack Value) :
    { walker with store := { walker.store with operands } }.Tended past where
  orderly := tended.orderly.withOperands operands
  placed := tended.placed.withOperands operands
  tends prudent := (tended.tends prudent).stay rfl rfl rfl

theorem Tended.resume (tended : walker.Tended past) {other : Walker} (theirs : other.Orderly)
    (theirPlaces : other.Placed) {place : Location} {name : String} {rest : List Piece}
    (code : walker.code = .item (.imports place name) :: rest) : (walker.resume other rest).Tended past where
  orderly := resume_orderly tended.orderly theirs code
  placed := resume_placed tended.placed theirPlaces code
  tends prudent := (tended.tends prudent).stay rfl rfl rfl

end Walker

namespace Machine

variable {machine : Machine}

/-- A machine that can take a step is that of a walker as it is. -/
theorem Tended.walker (tended : machine.Tended past) (atWork : machine.AtWork) :
    ∃ walker : Walker, walker.Tended past ∧ machine = walker.machine := by
  cases tended with
  | @intro walker phase pending fault interrupted tended _ =>
    cases atWork.phase
    cases atWork.pending
    cases atWork.fault
    cases atWork.interrupted
    exact ⟨walker, tended, rfl⟩

theorem Tended.tidy (tended : machine.Tended past) (prudent : Deed.Prudent past) : machine.Tidy past := by
  by_cases atWork : machine.AtWork
  · obtain ⟨walker, known, rfl⟩ := tended.walker atWork
    exact tidy_of_tended known prudent
  · refine Owns.tidy ?_ atWork
    cases tended with
    | intro tended _ => exact (tended.tends prudent).owns.change rfl rfl rfl

theorem Tended.enter (tended : machine.Tended past) (line : String) : (machine.enter line).Tended past := by
  cases tended with
  | @intro walker phase pending fault interrupted tended idle =>
    cases pending with
    | none => exact .intro tended idle
    | some asked =>
      obtain ⟨kind, place⟩ := asked
      unfold Machine.enter
      dsimp only
      split
      · exact .intro tended fun _ => rfl
      · split
        · rename_i operands _
          exact .intro (tended.withOperands operands) fun _ => rfl
        · rename_i operands _
          exact .intro (tended.withOperands operands) fun _ => rfl

theorem Tended.closeInput (tended : machine.Tended past) : machine.closeInput.Tended past := by
  unfold Machine.closeInput
  split
  · exact tended.enter _
  · exact tended.enter _
  · exact tended

/-- A machine that breaks off stands where it should. -/
theorem Tended.breakOff (tended : machine.Tended past) (fault : Option Failure) (interrupted : Bool) :
    { machine with phase := .finished, fault, interrupted }.Tended past := by
  cases tended with
  | intro tended _ => exact .intro tended nofun

theorem Tended.interrupt (tended : machine.Tended past) : { machine with interrupted := true }.Tended past := by
  cases tended with
  | intro tended idle => exact .intro tended idle

end Machine

namespace Run

/-- The machines that wait for a module stand before an import, and the innermost one stands where it should; and they
have their pasts. -/
inductive Tended : Run → List (List Deed) → Prop
  | alone {machine : Machine} {past : List Deed} : machine.Tended past → Tended ⟨machine, []⟩ [past]
  | waiting {walker : Walker} {place : Location} {name : String} {rest : List Piece} {interrupted : Bool}
      {module : Machine} {inner : List Machine} {past : List Deed} {pasts : List (List Deed)} : walker.Tended past →
      walker.code = .item (.imports place name) :: rest → Tended ⟨module, inner⟩ pasts →
      Tended ⟨{ walker.machine with interrupted }, module :: inner⟩ (past :: pasts)

/-- The run has failed, and the machine that is left of it owns its cells. -/
def Wrecked (run : Run) (pasts : List (List Deed)) : Prop :=
  run.Broken ∧ ∃ past, pasts = [past] ∧ (Deed.Prudent past → run.machine.Owns past)

/-- What a turn may come to: a run that stands where it should, unless it has failed. -/
def Recalls (result : Result) (pasts : List (List Deed)) : Prop :=
  result.2.1.Tended pasts ∨ (∃ failure, result.1 = .error failure) ∧ result.2.1.Wrecked pasts

theorem Tended.length (tended : run.Tended pasts) : pasts.length = run.modules.length + 1 := by
  induction tended with
  | alone => rfl
  | waiting _ _ _ ih => exact congrArg (· + 1) ih

/-- The outermost machine of a run may break it off. -/
theorem Tended.outermost (tended : run.Tended (past :: pasts)) : run.machine.Tended past := by
  cases tended with
  | alone tended => exact tended
  | @waiting walker _ _ _ interrupted _ _ _ _ tended _ _ =>
    exact @Machine.Tended.intro past walker .running none none interrupted tended fun _ => rfl

theorem Tended.functions (tended : run.Tended pasts) : ∃ walker : Walker, walker.Orderly ∧ walker.Placed ∧
    run.machine.functions = walker.functions.map Routine.callable := by
  cases tended with
  | alone tended =>
    cases tended with
    | intro tended _ => exact ⟨_, tended.orderly, tended.placed, rfl⟩
  | waiting tended _ _ => exact ⟨_, tended.orderly, tended.placed, rfl⟩

/-- Of a run that fails only the outermost machine is left. -/
theorem Tended.fail (tended : run.Tended (past :: pasts)) (failure : Failure) (fault : Option Failure)
    (interrupted : Bool) (workspace : Workspace) :
    Recalls (fail ⟨{ run.machine with fault, interrupted }, run.modules⟩ failure workspace) [past] :=
  .inl (.alone (tended.outermost.breakOff fault interrupted))

theorem remember_idle (tended : run.Tended pasts) : remember 0 run run pasts = pasts := by
  unfold remember note
  rw [← tended.length]
  exact List.take_left ..

/-- A machine at work takes a step. -/
theorem turn_atWork {machine : Machine} (tended : machine.Tended past) (atWork : machine.AtWork)
    (execute : Run → Workspace → Result) (workspace : Workspace) :
    Recalls (advance settings execute 1 ⟨machine, []⟩ workspace)
      (([machine.deed?.toList ++ past] ++ [[]]).take
        ((advance settings execute 1 ⟨machine, []⟩ workspace).2.1.modules.length + 1)) := by
  have onward := atWork.step
  have steps : machine.step.Tended (machine.deed?.toList ++ past) := by
    obtain ⟨walker, known, rfl⟩ := tended.walker atWork
    exact known.step
  rw [advance]
  cases stepped : machine.step with
  | ran next =>
    rw [stepped] at steps
    exact .inl (.alone steps)
  | shows event next =>
    rw [stepped] at steps
    exact .inl (.alone steps)
  | failed cause next =>
    rw [stepped] at steps onward
    refine .inr ⟨⟨_, rfl⟩, ⟨rfl, rfl, onward.pending, onward.fault⟩, _, rfl, fun prudent => ?_⟩
    exact (steps prudent).change rfl rfl rfl
  | imports name place next =>
    rw [stepped] at steps
    obtain ⟨walker, tended, rfl, rest, code⟩ := steps
    dsimp only
    split
    · exact .inl (.alone ((Machine.Tended.of_walker tended).breakOff none false))
    · rename_i items after _
      have fresh : Machine.Tended [] (.start settings.capacity (.ofItems items)) :=
        Walker.start_machine settings.capacity items ▸ .of_walker (.start settings.capacity items)
      exact .inl (@Tended.waiting walker place name rest false _ _ _ _ tended code (.alone fresh))

/-- One turn of a machine that is alone. -/
theorem turn_alone {machine : Machine} (tended : machine.Tended past) (depth : Nat) (workspace : Workspace) :
    Recalls (executeWithin settings 1 (depth + 1) ⟨machine, []⟩ workspace)
      (remember (depth + 1) ⟨machine, []⟩
        (executeWithin settings 1 (depth + 1) ⟨machine, []⟩ workspace).2.1 [past]) := by
  have idle : ¬(machine.interrupted = false ∧ machine.fault = none ∧ machine.phase = .running) →
      machine.remember past = past := fun still => if_neg still
  have executes := executes_executeWithin settings 1 depth ⟨machine, []⟩ workspace
  generalize made : executeWithin settings 1 (depth + 1) ⟨machine, []⟩ workspace = result at executes ⊢
  cases executes with
  | interrupted interrupted =>
    show Recalls _ [machine.remember past]
    rw [idle (by simp [interrupted])]
    exact .inl (.alone (tended.breakOff machine.fault false))
  | faulty _ faulty =>
    show Recalls _ [machine.remember past]
    rw [idle (by simp [faulty])]
    exact .inl (.alone (tended.breakOff none machine.interrupted))
  | finished _ _ phase | awaiting _ _ phase =>
    show Recalls _ [machine.remember past]
    rw [idle (by simp [phase])]
    exact .inl (.alone tended)
  | running quiet clean running =>
    have acts : machine.remember past = machine.deed?.toList ++ past := if_pos ⟨quiet, clean, running⟩
    have pending : machine.pending = none := by
      cases tended with
      | intro _ asked => exact asked running
    have atWork : machine.AtWork := ⟨⟨pending, clean, quiet⟩, running⟩
    rw [← made, executeWithin_of_atWork atWork]
    unfold remember note
    rw [acts]
    exact turn_atWork tended atWork _ workspace

/-- One turn of a run. -/
theorem Tended.turn (tended : run.Tended pasts) (depth : Nat) (workspace : Workspace) :
    Recalls (executeWithin settings 1 depth run workspace)
      (remember depth run (executeWithin settings 1 depth run workspace).2.1 pasts) := by
  induction depth generalizing run pasts workspace with
  | zero => exact .inl ((remember_idle tended).symm ▸ tended)
  | succ depth ih =>
    cases tended with
    | alone tended => exact turn_alone tended depth workspace
    | @waiting walker place name rest interrupted module inner past pasts tended code inside =>
      have whole := @Tended.waiting walker place name rest interrupted module inner past pasts tended code inside
      cases interrupted with
      | true => exact whole.fail _ none false workspace
      | false =>
        have executed := ih inside workspace
        show Recalls (executeWithin settings 1 (depth + 1) ⟨walker.machine, module :: inner⟩ workspace)
          (remember (depth + 1) ⟨walker.machine, module :: inner⟩
            (executeWithin settings 1 (depth + 1) ⟨walker.machine, module :: inner⟩ workspace).2.1 (past :: pasts))
        rw [executeWithin_of_atWork ⟨walker.machine_calm, rfl⟩, advance]
        cases result : executeWithin settings 1 depth ⟨module, inner⟩ workspace with
        | mk event result' =>
        obtain ⟨⟨next, modules⟩, after⟩ := result'
        rw [result] at executed
        have kept : event.isError = false →
            Tended ⟨next, modules⟩ (remember depth ⟨module, inner⟩ ⟨next, modules⟩ pasts) := by
          intro smooth
          rcases executed with tended | ⟨⟨failure, shown⟩, -⟩
          · exact tended
          · rw [show event = .error failure from shown] at smooth
            cases smooth
        have waits := fun smooth => @Tended.waiting walker place name rest false _ _ _ _ tended code (kept smooth)
        cases event with
        | stopped =>
          obtain ⟨other, theirs, theirPlaces, functions⟩ := (kept rfl).functions
          dsimp only
          rw [adopt_machine rest functions]
          exact .inl (.alone (.of_walker (tended.resume theirs theirPlaces code)))
        | error failure => exact whole.fail failure none false after
        | running | print | input | leak => exact .inl (waits rfl)

theorem Tended.onInnermost {change : Machine → Machine} (tended : run.Tended pasts)
    (changes : ∀ (machine : Machine) (past : List Deed), machine.Tended past → (change machine).Tended past) :
    (run.onInnermost change).Tended pasts := by
  induction tended with
  | alone tended => exact .alone (changes _ _ tended)
  | waiting tended code _ ih =>
    rw [onInnermost_cons]
    exact .waiting tended code ih

theorem Tended.interrupt (tended : run.Tended pasts) : run.interrupt.Tended pasts := by
  cases tended with
  | alone tended => exact .alone tended.interrupt
  | waiting tended code inside => exact .waiting tended code inside

theorem Wrecked.execute (wrecked : run.Wrecked pasts) (settings : Settings) (workspace : Workspace) :
    (run.execute settings 1 workspace).2.1.Wrecked
      (remember (settings.depth + 1) run (run.execute settings 1 workspace).2.1 pasts) := by
  obtain ⟨machine, modules⟩ := run
  obtain ⟨⟨alone, phase, pending, fault⟩, past, rfl, owns⟩ := wrecked
  dsimp only at alone phase pending fault owns
  subst alone
  have still : machine.remember past = past := if_neg (by simp [phase])
  rw [Run.execute, Run.executeWithin]
  split
  · exact ⟨⟨rfl, rfl, pending, fault⟩, past, congrArg (fun past => [past]) still, fun prudent =>
      (owns prudent).change rfl rfl rfl⟩
  · rw [fault, phase]
    exact ⟨⟨rfl, phase, pending, fault⟩, past, congrArg (fun past => [past]) still, owns⟩

theorem Wrecked.onInnermost_eq {change : Machine → Machine} (wrecked : run.Wrecked pasts)
    (keeps : ∀ machine : Machine, machine.pending = none → change machine = machine) : run.onInnermost change = run :=
  wrecked.1.onInnermost_eq keeps

theorem Wrecked.interrupt (wrecked : run.Wrecked pasts) : run.interrupt.Wrecked pasts := by
  obtain ⟨broken, past, rfl, owns⟩ := wrecked
  exact ⟨⟨broken.alone, broken.phase, broken.pending, broken.fault⟩, past, rfl, fun prudent =>
    (owns prudent).change rfl rfl rfl⟩

/-- Every machine of a run is tidy, if its program has been prudent. -/
theorem Tended.tidy (tended : run.Tended pasts) :
    List.Forall₂ (fun machine past => Deed.Prudent past → machine.Tidy past) (run.machine :: run.modules) pasts := by
  induction tended with
  | alone tended => exact .cons tended.tidy .nil
  | @waiting walker place name rest interrupted module inner past pasts tended code inside ih =>
    exact .cons (@Tended.waiting walker place name rest interrupted _ _ _ _ tended code inside).outermost.tidy ih

theorem Wrecked.tidy (wrecked : run.Wrecked pasts) :
    List.Forall₂ (fun machine past => Deed.Prudent past → machine.Tidy past) (run.machine :: run.modules) pasts := by
  obtain ⟨broken, past, rfl, owns⟩ := wrecked
  rw [broken.alone]
  refine .cons (fun prudent => (owns prudent).tidy fun atWork => ?_) .nil
  cases broken.phase.symm.trans atWork.phase

end Run

theorem Recorded.kept (recorded : Recorded settings program workspace run before pasts) :
    run.Tended pasts ∨ run.Wrecked pasts := by
  induction recorded with
  | start =>
    have fresh := Machine.Tended.of_walker (.start settings.capacity program)
    rw [Walker.start_machine] at fresh
    exact .inl (.alone fresh)
  | @execute run before pasts _ ih =>
    rcases ih with tended | wrecked
    · exact (tended.turn (settings.depth + 1) before).imp_right And.right
    · exact .inr (wrecked.execute settings before)
  | enter line _ ih =>
    rcases ih with tended | wrecked
    · exact .inl (tended.onInnermost fun _ _ tended => tended.enter line)
    · refine .inr ?_
      rwa [Run.enter, wrecked.onInnermost_eq fun machine none => by rw [Machine.enter, none]]
  | closeInput _ ih =>
    rcases ih with tended | wrecked
    · exact .inl (tended.onInnermost fun _ _ tended => tended.closeInput)
    · refine .inr ?_
      rwa [Run.closeInput, wrecked.onInnermost_eq fun machine none => by rw [Machine.closeInput, none]]
  | interrupt _ ih => exact ih.imp Run.Tended.interrupt Run.Wrecked.interrupt

theorem Recorded.steady (recorded : Recorded settings program workspace run before pasts) : run.Steady := by
  induction recorded with
  | start => exact (Run.poised_start settings _).steady
  | execute _ ih => exact (ih.execute 1 _).2
  | enter line _ ih =>
    exact ih.onInnermost (·.calmed_enter line) (fun machine none => by rw [Machine.enter, none]) fun _ asked =>
      .of_enter asked line
  | closeInput _ ih =>
    exact ih.onInnermost Machine.calmed_closeInput (fun machine none => by rw [Machine.closeInput, none]) fun _ =>
      .of_closeInput
  | interrupt _ ih => exact ih

/-- Every run of a program can be recorded. -/
theorem Reached.recorded (reached : Reached settings program workspace run before) :
    ∃ pasts, Recorded settings program workspace run before pasts := by
  induction reached with
  | start => exact ⟨_, .start⟩
  | @execute run before cycles _ ih =>
    obtain ⟨pasts, recorded⟩ := ih
    obtain ⟨last, ticks, shown⟩ := (recorded.steady.execute cycles before).1
    have turned : ∃ pasts, Recorded settings program workspace last.1 last.2 pasts := by
      clear shown
      induction ticks with
      | refl => exact ⟨pasts, recorded⟩
      | tail _ tick ih =>
        obtain ⟨pasts, recorded⟩ := ih
        have next := recorded.execute
        rw [Run.execute, tick] at next
        exact ⟨_, next⟩
    obtain ⟨pasts, recorded⟩ := turned
    rcases shown with shown | ⟨-, shown⟩
    · rw [shown]
      exact ⟨pasts, recorded⟩
    · rw [shown]
      exact ⟨_, recorded.execute⟩
  | enter line _ ih => exact ih.imp fun _ recorded => recorded.enter line
  | closeInput _ ih => exact ih.imp fun _ recorded => recorded.closeInput
  | interrupt _ ih => exact ih.imp fun _ recorded => recorded.interrupt

/-- What a number of turns makes of a program, with what is recorded of it. -/
def recording (settings : Settings) (program : List Item) (workspace : Workspace) :
    (turns : Nat) → Run × Workspace × List (List Deed)
  | 0 => (.start settings (.ofItems program), workspace, [[]])
  | turns + 1 =>
    let (run, before, pasts) := recording settings program workspace turns
    let (after, behind) := (run.execute settings 1 before).2
    (after, behind, run.remember (settings.depth + 1) after pasts)

theorem recorded_recording (settings : Settings) (program : List Item) (workspace : Workspace) (turns : Nat) :
    Recorded settings program workspace (recording settings program workspace turns).1
      (recording settings program workspace turns).2.1 (recording settings program workspace turns).2.2 := by
  induction turns with
  | zero => exact .start
  | succ turns ih => exact .execute ih

/-- `var` blocks own their cells. Every run of a program can be recorded; and as long as `memfree` has not been applied
to the cell of a block that was open, each machine of a recorded run is tidy: the cells of its blocks are regions in use
of size one, no two blocks have the same cell, and the names of the blocks are bound to their cells; at the end of a
block just its cell is freed, which never fails; and when the machine finishes, just those regions are in use that
`memalloc` and `str2countstr` have returned and nobody has freed. -/
theorem var_blocks_own_their_cells (settings : Settings) (program : List Item) (workspace : Workspace) :
    (∀ run before, Reached settings program workspace run before ↔
      ∃ pasts, Recorded settings program workspace run before pasts) ∧
    ∀ run before pasts, Recorded settings program workspace run before pasts →
      List.Forall₂ (fun machine past => Deed.Prudent past → machine.Tidy past) (run.machine :: run.modules) pasts :=
  ⟨fun _ _ => ⟨Reached.recorded, fun ⟨_, recorded⟩ => recorded.forget⟩,
    fun _ _ _ recorded => recorded.kept.elim Run.Tended.tidy Run.Wrecked.tidy⟩

/-- The program `2 memalloc var v 1 v memsave memfree end`. -/
def lending : List Item :=
  [.number ⟨0, 0, 1⟩ .two, .word ⟨0, 2, 10⟩ "memalloc",
    .cell ⟨0, 11, 14⟩ "v" [.number ⟨0, 17, 18⟩ .one, .word ⟨0, 19, 20⟩ "v", .word ⟨0, 21, 28⟩ "memsave",
      .word ⟨0, 29, 36⟩ "memfree"] ⟨0, 37, 40⟩]

/-- Seven turns take that program to the end of its block. -/
def lent : Run × Workspace × List (List Deed) :=
  recording { library := .memory {}, capacity := 4 } lending {} 7

theorem lent_is_tidy :
    Recorded { library := .memory {}, capacity := 4 } lending {} lent.1 lent.2.1 lent.2.2 ∧
    ∃ past, lent.2.2 = [past] ∧ past = [.frees 0 [2], .opens "v" 2 [.ofList [("v", .pointer 2)]], .claims 0 2] ∧
      lent.1.machine.cells = [2] ∧ Deed.Prudent past ∧ lent.1.machine.Tidy past := by
  have recorded : Recorded { library := .memory {}, capacity := 4 } lending {} lent.1 lent.2.1 lent.2.2 :=
    recorded_recording _ _ _ 7
  have pasts : lent.2.2 = [[.frees 0 [2], .opens "v" 2 [.ofList [("v", .pointer 2)]], .claims 0 2]] := by cbv
  have prudent : Deed.Prudent [.frees 0 [2], .opens "v" 2 [.ofList [("v", .pointer 2)]], .claims 0 2] := by
    intro address cells freed
    simp only [List.mem_cons, List.not_mem_nil, Deed.frees.injEq, reduceCtorEq, or_false] at freed
    obtain ⟨rfl, rfl⟩ := freed
    decide
  have tidy := (var_blocks_own_their_cells _ _ _).2 _ _ _ recorded
  rw [pasts] at tidy
  cases tidy with
  | cons tidy _ => exact ⟨recorded, _, pasts, rfl, by cbv, prudent, tidy prudent⟩

end TapeMachine
