import TapeMachine.Proofs.Playback
import TapeMachine.Proofs.Slices

namespace TapeMachine

namespace Run

/-- Answer the input that was asked for by a line, or by none where input has ended. -/
def answer (run : Run) (line : Option String) : Run :=
  match line with
  | some line => run.enter line
  | none => run.closeInput

/-- The log of a run that is executed slice by slice. The next question is answered by the next line. -/
def log (settings : Settings) : (slices : List Nat) → Run → Workspace → Dialogue → Log
  | [], _, _, dialogue => dialogue.cut
  | cycles :: slices, run, workspace, dialogue =>
    match run.execute settings cycles workspace with
    | (.running, next, after) => log settings slices next after dialogue
    | (.error failure, _, _) => dialogue.fail failure
    | (.stopped, next, _) =>
      ⟨dialogue.shown ++ [.stopped],
        .stopped next.machine.operands next.machine.heap next.machine.functions.names⟩
    | (.input prompt, next, after) =>
      log settings slices (next.answer dialogue.lines.head?) after (dialogue.ask prompt)
    | (event, next, after) => log settings slices next after (dialogue.say event)

theorem shown_log (settings : Settings) (slices : List Nat) (run : Run) (workspace : Workspace)
    (dialogue : Dialogue) : dialogue.shown <+: (run.log settings slices workspace dialogue).shown := by
  induction slices generalizing run workspace dialogue with
  | nil => exact List.prefix_refl _
  | cons cycles slices ih =>
    rw [log]
    split
    · exact ih ..
    · exact List.prefix_append _ _
    · exact List.prefix_append _ _
    · exact (List.prefix_append _ _).trans (ih _ _ (dialogue.ask _))
    · exact (List.prefix_append _ _).trans (ih _ _ (dialogue.say _))

end Run

namespace Log

/-- The log leads nowhere but to a play, and `count` slices get as far as all but two moves. -/
structure Tracks (log : Log) (play : Nat → Log) (count : Nat) : Prop where
  below : ∃ moves, log.Below (play moves)
  above : ∀ moves, moves + 2 ≤ count → (play moves).Below log

theorem Tracks.mono {log : Log} {play : Nat → Log} {fewer more : Nat} (tracks : log.Tracks play more)
    (le : fewer ≤ more) : log.Tracks play fewer where
  below := tracks.below
  above moves bound := tracks.above moves (by omega)

end Log

namespace Walker

variable {walker next : Walker} {dialogue later : Dialogue} {log : Log}

theorem Strolls.travels {moves : Nat} (stroll : Strolls moves walker next) (dialogue : Dialogue) :
    Travels moves walker dialogue next dialogue := by
  induction stroll with
  | refl => exact .refl _ _
  | crossed moved _ ih =>
    rw [Nat.add_comm]
    exact (travels_of_crossed moved).trans ih
  | ran moved _ ih =>
    rw [Nat.add_comm]
    exact (travels_of_ran moved).trans ih

theorem Travels.play_move {moves : Nat} (travel : Travels moves walker dialogue next later) (more : Nat) :
    walker.play (moves + 1 + more) dialogue = next.move.log (play more) next later := by
  rw [Nat.add_assoc, travel, Nat.add_comm, play]

/-- Slices that follow the rest of a play follow the whole, and one more may be spent on its moves. -/
theorem Travels.tracks {moves count spent : Nat} (travel : Travels moves walker dialogue next later)
    (shown : later.shown <+: log.shown) (enough : spent ≤ moves)
    (tracks : log.Tracks (fun moves => next.play moves later) count) :
    log.Tracks (fun moves => walker.play moves dialogue) (count + spent) where
  below := by
    obtain ⟨more, below⟩ := tracks.below
    exact ⟨moves + more, travel more ▸ below⟩
  above := by
    intro few bound
    rcases Nat.le_total moves few with le | le
    · have rest := tracks.above (few - moves) (by omega)
      rw [← travel, Nat.add_sub_cancel' le] at rest
      exact rest
    · refine (play_below le walker dialogue).trans ?_
      have there := travel 0
      rw [Nat.add_zero] at there
      rw [there]
      exact .of_cut shown

/-- A log that is the end of a play follows it. -/
theorem tracks_of_ended {moves : Nat} (count : Nat) (ended : ∀ more, walker.play (moves + more) dialogue = log) :
    log.Tracks (fun moves => walker.play moves dialogue) count where
  below := ⟨moves, .of_eq (ended 0).symm⟩
  above := by
    intro few _
    refine (play_below (Nat.le_add_left few moves) walker dialogue).trans ?_
    exact .of_eq (ended few)

/-- A log that is cut off before the end of a play follows it as far as it goes. -/
theorem tracks_of_cut {moves : Nat} {full : Log} (ended : walker.play moves dialogue = full)
    (shown : later.shown <+: full.shown) :
    later.cut.Tracks (fun moves => walker.play moves dialogue) 1 where
  below := ⟨moves, ended ▸ .of_cut shown⟩
  above := by
    intro few bound
    omega

/-- The machine answers a question as its walker does; a fault is left for the next slice. -/
theorem answer_awaiting (walker : Walker) (kind : InputKind) (place : Location) (line : Option String) :
    match walker.store.answer kind line with
    | .ok store => Run.answer ⟨walker.awaiting kind place, []⟩ line = ⟨{ walker with store }.machine, []⟩
    | .error cause => ∃ after : Machine, Run.answer ⟨walker.awaiting kind place, []⟩ line =
        ⟨{ after with fault := some ⟨cause, some place⟩ }, []⟩ ∧ after.Calm := by
  obtain ⟨text, entered, same⟩ : ∃ text, Run.answer ⟨walker.awaiting kind place, []⟩ line =
      ⟨(walker.awaiting kind place).enter text, []⟩ ∧
        walker.store.answer kind line = walker.store.answer kind (some text) := by
    cases line with
    | some text => exact ⟨text, rfl, rfl⟩
    | none =>
      obtain ⟨text, entered, same⟩ := walker.closeInput_awaiting kind place
      refine ⟨text, ?_, same _⟩
      rw [← entered]
      rfl
  rw [same, entered]
  cases answered : walker.store.answer kind (some text) with
  | ok store => simp only [enter_of_answer place answered]
  | error cause =>
    obtain ⟨after, faulty, calm⟩ := enter_of_error place answered
    exact ⟨after, by rw [faulty], calm⟩

/-- A question that is answered badly ends the play, and the slice behind it shows the failure. -/
theorem tracks_of_fault {moves : Nat} {after : Machine} {failure : Failure} (calm : after.Calm)
    (settings : Settings) (slices : List Nat) (workspace : Workspace)
    (ended : ∀ more, walker.play (moves + more) dialogue = later.fail failure) :
    (Run.log settings slices ⟨{ after with fault := some failure }, []⟩ workspace later).Tracks
      (fun moves => walker.play moves dialogue) (slices.countP (0 < ·) + 1) := by
  cases slices with
  | nil => exact tracks_of_cut (ended 0) (List.prefix_append _ _)
  | cons cycles slices =>
    rw [Run.log, execute_faulty calm]
    exact tracks_of_ended _ ended

/-- Behind a leak there is nothing left to show but the end. -/
theorem tracks_of_leak {moves regions slots : Nat} {last : Walker}
    (farewell : last.store.farewell = [.leak regions slots, .stopped]) (settings : Settings) (slices : List Nat)
    (workspace : Workspace)
    (ended : ∀ more, walker.play (moves + more) dialogue = dialogue.close last.store last.functions.names) :
    (Run.log settings slices ⟨{ last.machine with phase := .finished }, []⟩ workspace
      (dialogue.say (.leak regions slots))).Tracks
      (fun moves => walker.play moves dialogue) (slices.countP (0 < ·) + 1) := by
  have closed : (dialogue.close last.store last.functions.names).shown =
      (dialogue.say (.leak regions slots)).shown ++ [.stopped] := by
    simp [Dialogue.close, Dialogue.say, farewell]
  cases slices with
  | nil =>
    refine tracks_of_cut (ended 0) ?_
    rw [closed]
    exact List.prefix_append _ _
  | cons cycles slices =>
    rw [Run.log, execute_finished last.machine_calm]
    refine tracks_of_ended _ (fun more => (ended more).trans ?_)
    rw [← closed, ← names_map Routine.callable]
    rfl

/-- A slice that shows something follows the walker up to the move that shows it, if the rest of the slices follows him
from there. -/
theorem Sound.tracks_of_reports {last : Walker} {moves cycles : Nat} {slices : List Nat} (sound : last.Sound)
    (stroll : Strolls moves walker last) (settings : Settings) (workspace : Workspace) (dialogue : Dialogue)
    (reports : last.Reports workspace (Run.execute settings cycles ⟨walker.machine, []⟩ workspace))
    (rest : ∀ {next : Walker}, next.Sound → ∀ later : Dialogue,
      (Run.log settings slices ⟨next.machine, []⟩ workspace later).Tracks (fun moves => next.play moves later)
        (slices.countP (0 < ·))) :
    (Run.log settings (cycles :: slices) ⟨walker.machine, []⟩ workspace dialogue).Tracks
      (fun moves => walker.play moves dialogue) (slices.countP (0 < ·) + 1) := by
  have travel := stroll.travels dialogue
  have leads := sound.leads
  rw [Run.log]
  unfold Reports at reports
  cases moved : last.move with
  | crossed | ran | imports =>
    rw [moved] at reports
    exact reports.elim
  | prints text next =>
    rw [moved] at reports leads
    rw [reports]
    have print : Travels 1 last dialogue next (dialogue.say (.print text)) := by
      intro more
      rw [Nat.add_comm, play, moved]
      rfl
    exact (travel.trans print).tracks (Run.shown_log ..) (Nat.le_add_left _ _) (rest leads _)
  | asks kind prompt place next =>
    rw [moved] at reports leads
    rw [reports]
    have answer := next.answer_awaiting kind place dialogue.lines.head?
    dsimp only
    cases answered : next.store.answer kind dialogue.lines.head? with
    | ok store =>
      rw [answered] at answer
      have ask : Travels 1 last dialogue { next with store } (dialogue.ask prompt) := by
        intro more
        rw [Nat.add_comm, play, moved]
        simp only [Move.log, answered]
      rw [show Run.answer _ _ = _ from answer]
      exact (travel.trans ask).tracks (Run.shown_log ..) (Nat.le_add_left _ _) (rest (leads store) _)
    | error cause =>
      rw [answered] at answer
      obtain ⟨after, faulty, calm⟩ := answer
      rw [faulty]
      have ended : ∀ more, walker.play (moves + 1 + more) dialogue =
          (dialogue.ask prompt).fail ⟨cause, some place⟩ := by
        intro more
        rw [travel.play_move, moved]
        simp only [Move.log, answered]
      exact tracks_of_fault calm settings slices workspace ended
  | failed failure =>
    rw [moved] at reports
    obtain ⟨after, -, result⟩ := reports
    rw [result]
    have ended : ∀ more, walker.play (moves + 1 + more) dialogue = dialogue.fail failure := by
      intro more
      rw [travel.play_move, moved]
      rfl
    exact tracks_of_ended _ ended
  | ends =>
    rw [moved] at reports
    obtain ⟨event, others, farewell, result⟩ := reports
    rw [result]
    have ended : ∀ more, walker.play (moves + 1 + more) dialogue =
        dialogue.close last.store last.functions.names := by
      intro more
      rw [travel.play_move, moved]
      rfl
    rcases farewell_cases last.store with stopped | ⟨regions, slots, leak⟩
    · rw [stopped] at farewell
      cases farewell
      refine tracks_of_ended _ (fun more => (ended more).trans ?_)
      rw [Dialogue.close, stopped, ← names_map Routine.callable]
      rfl
    · rw [leak] at farewell
      cases farewell
      exact tracks_of_leak leak settings slices workspace ended

/-- However a program is cut into slices, they follow the walker. -/
theorem Sound.tracks (sound : walker.Sound) (settings : Settings) (slices : List Nat) (workspace : Workspace)
    (dialogue : Dialogue) :
    (Run.log settings slices ⟨walker.machine, []⟩ workspace dialogue).Tracks
      (fun moves => walker.play moves dialogue) (slices.countP (0 < ·)) := by
  -- A slice strolls up to a move that shows something or to the end of its cycles; the rest of the slices goes on from
  -- there. A slice without cycles makes no move, so it must not count.
  induction slices generalizing walker dialogue with
  | nil =>
    refine ⟨⟨0, .refl _⟩, ?_⟩
    intro moves bound
    cases bound
  | cons cycles slices ih =>
    obtain ⟨moves, last, stroll, sound', ⟨enough, running⟩ | reports⟩ := sound.execute settings cycles workspace
    · have spent : (if 0 < cycles then 1 else 0) ≤ moves := by split <;> omega
      have tracks := (stroll.travels dialogue).tracks (Run.shown_log ..) spent (ih sound' dialogue)
      rw [Run.log, running, List.countP_cons]
      simpa using tracks
    · have count : (cycles :: slices).countP (0 < ·) ≤ slices.countP (0 < ·) + 1 := by
        rw [List.countP_cons]
        split <;> omega
      exact (sound'.tracks_of_reports stroll settings workspace dialogue reports ih).mono count

end Walker

/-- The machine runs trees faithfully. However its run is cut into slices, the log of the run goes no
further than that of the evaluator with enough fuel; and the log of the evaluator goes no further than
that of a run with enough slices. Both show the same, therefore, and one ends if and only if the other
one ends, in the same way. -/
theorem machine_runs_faithfully (settings : Settings) (items : List Item) (free : standAlone items = true)
    (workspace : Workspace) (lines : List String) :
    (∀ slices, ∃ fuel,
      (Run.log settings slices (.start settings (.ofItems items)) workspace { lines }).Below
        (evaluateProgram settings.capacity fuel items lines)) ∧
    ∀ fuel, ∃ count, ∀ slices : List Nat, count ≤ slices.countP (0 < ·) →
      (evaluateProgram settings.capacity fuel items lines).Below
        (Run.log settings slices (.start settings (.ofItems items)) workspace { lines }) := by
  have sound : (Walker.start settings.capacity items).Sound :=
    ⟨Walker.start_placed _ items, Walker.start_alone _ free⟩
  have start : Run.start settings (.ofItems items) = ⟨(Walker.start settings.capacity items).machine, []⟩ := by
    rw [Walker.start_machine]
    rfl
  rw [start]
  constructor
  · intro slices
    obtain ⟨moves, below⟩ := (sound.tracks settings slices workspace { lines }).below
    obtain ⟨more, enough, same⟩ := Walker.exists_play_eq_evaluate settings.capacity moves items lines
    exact ⟨moves, below.trans (same ▸ Walker.play_below enough _ _)⟩
  · intro fuel
    obtain ⟨moves, -, same⟩ := Walker.exists_play_eq_evaluate settings.capacity fuel items lines
    refine ⟨moves + 2, ?_⟩
    intro slices enough
    exact same ▸ (sound.tracks settings slices workspace { lines }).above moves enough

/-- The program `2 repeat "x" pr end`. -/
def twice : List Item :=
  [.number ⟨0, 0, 1⟩ .two,
    .repeats ⟨0, 2, 8⟩ [.string ⟨0, 9, 12⟩ "x", .word ⟨0, 13, 15⟩ "pr"] ⟨0, 16, 19⟩]

/-- With enough slices that program prints twice and stops. -/
theorem machine_runs_twice : standAlone twice = true ∧
    ∃ count, ∀ slices : List Nat, count ≤ slices.countP (0 < ·) →
      (Run.log { library := .memory {}, capacity := 4 } slices
        (.start { library := .memory {}, capacity := 4 } (.ofItems twice)) {} { lines := [] }).shown =
          [.print "x", .print "x", .stopped] := by
  refine ⟨rfl, ?_⟩
  obtain ⟨count, enough⟩ :=
    (machine_runs_faithfully { library := .memory {}, capacity := 4 } twice rfl {} []).2 1
  refine ⟨count, ?_⟩
  intro slices bound
  have shown : (evaluateProgram 4 1 twice []).shown = [.print "x", .print "x", .stopped] := by rfl
  have below := enough slices bound
  rw [← below.ended (by intro unfinished; cases unfinished)]
  exact shown

end TapeMachine
