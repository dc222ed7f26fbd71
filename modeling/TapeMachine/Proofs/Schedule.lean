import Mathlib
import TapeMachine.Proofs.Turns

namespace TapeMachine

namespace Run

/-- What a driver may do to a run. -/
inductive Call
  | execute (cycles : Nat)
  | enter (line : String)
  | closeInput

/-- What can be seen of a run when it shows an event. -/
structure Sight where
  event : Event
  operands : Stack Value
  heap : Heap
  functions : Dictionary Callable

end Run

/-- A run in the hands of a driver, who has been asked for input or has not, has lines to answer with, and has seen
something of the run. -/
structure Drive where
  run : Run
  workspace : Workspace
  asked : Bool := false
  lines : List String
  seen : List Run.Sight := []

namespace Drive

def start (settings : Settings) (tape : Tape) (workspace : Workspace) (lines : List String) : Drive where
  run := .start settings tape
  workspace := workspace
  lines := lines

/-- Take note of what a slice has come to. -/
def note (drive : Drive) : Run.Result → Drive
  | (.running, run, workspace) => { drive with run, workspace }
  | (event, run, workspace) =>
    { drive with
      run
      workspace
      asked := drive.asked || event.asks
      seen := drive.seen ++ [⟨event, run.machine.operands, run.machine.heap, run.machine.functions⟩] }

/-- The same driver with the run in another state. -/
def onto (drive : Drive) (state : Run × Workspace) : Drive :=
  { drive with run := state.1, workspace := state.2 }

def execute (settings : Settings) (cycles : Nat) (drive : Drive) : Drive :=
  drive.note (drive.run.execute settings cycles drive.workspace)

/-- Hand something in. If it is the answer to a question, a line has been used. -/
def handIn (answer : Run → Run) (drive : Drive) : Drive where
  run := answer drive.run
  workspace := drive.workspace
  lines := if drive.asked then drive.lines.tail else drive.lines
  seen := drive.seen

def after (settings : Settings) (drive : Drive) : Run.Call → Drive
  | .execute cycles => drive.execute settings cycles
  | .enter line => drive.handIn fun run => run.enter line
  | .closeInput => drive.handIn Run.closeInput

/-- A driver who has been asked for input answers with the next line, and closes input if there is none. While nothing
is asked for, anything may be handed in; and a slice may be executed at any time. -/
def Permits (drive : Drive) : Run.Call → Prop
  | .execute _ => True
  | .enter line => drive.asked = true → drive.lines.head? = some line
  | .closeInput => drive.asked = true → drive.lines = []

/-- The driver makes permitted calls only. -/
def PermitsAll (settings : Settings) : Drive → List Run.Call → Prop
  | _, [] => True
  | drive, call :: rest => drive.Permits call ∧ (drive.after settings call).PermitsAll settings rest

def afterAll (settings : Settings) (drive : Drive) (calls : List Run.Call) : Drive :=
  calls.foldl (after settings) drive

/-- The call of a driver who makes no unneeded ones. -/
def due (drive : Drive) : Run.Call :=
  if drive.asked then
    match drive.lines with
    | [] => .closeInput
    | line :: _ => .enter line
  else .execute 1

/-- A driver who makes no unneeded calls comes from one state to the other. -/
def Leads (settings : Settings) (drive next : Drive) : Prop :=
  drive.after settings drive.due = next

variable {settings : Settings} {drive next : Drive}

/-- There is one next thing to do, whatever the schedule. -/
theorem Leads.unique : Relator.RightUnique (Leads settings) := by
  rintro drive first second rfl rfl
  rfl

theorem seen_note (drive : Drive) (result : Run.Result) : drive.seen <+: (drive.note result).seen := by
  unfold note
  split
  · exact List.prefix_refl _
  · exact List.prefix_append _ _

@[simp]
theorem lines_note (drive : Drive) (result : Run.Result) : (drive.note result).lines = drive.lines := by
  unfold note
  split <;> rfl

/-- Nothing that has been seen is lost. -/
theorem seen_after (settings : Settings) (drive : Drive) (call : Run.Call) :
    drive.seen <+: (drive.after settings call).seen := by
  cases call with
  | execute cycles => exact seen_note ..
  | enter | closeInput => exact List.prefix_refl _

theorem seen_of_leads (leads : Relation.ReflTransGen (Leads settings) drive next) : drive.seen <+: next.seen := by
  induction leads with
  | refl => exact List.prefix_refl _
  | tail _ last ih => exact ih.trans (last ▸ seen_after ..)

/-- The driver knows whether the run has asked for input. -/
def Sound (drive : Drive) : Prop :=
  drive.run.Poised drive.asked

theorem sound_start (settings : Settings) (tape : Tape) (workspace : Workspace) (lines : List String) :
    (start settings tape workspace lines).Sound :=
  Run.poised_start settings tape

/-- Executing a run that waits for a line shows nothing. -/
theorem Sound.execute_asked (sound : drive.Sound) (asked : drive.asked = true) (cycles : Nat) :
    drive.execute settings cycles = drive := by
  unfold Sound at sound
  rw [asked] at sound
  rw [Drive.execute, Run.execute, sound.executeWithin_asked]
  rfl

/-- A line that comes too early is dropped. -/
theorem handIn_unasked {answer : Run → Run} (asked : drive.asked = false) (same : answer drive.run = drive.run) :
    drive.handIn answer = drive := by
  obtain ⟨run, workspace, _, lines, seen⟩ := drive
  cases asked
  simp only [handIn, same, Bool.false_eq_true, if_false]

theorem sound_note {result : Run.Result} (asked : drive.asked = false) (poised : result.2.1.Poised result.1.asks) :
    (drive.note result).Sound := by
  obtain ⟨event, run, workspace⟩ := result
  unfold note Sound
  split
  · rename_i same
    cases same
    rw [asked]
    exact poised
  · rename_i same
    cases same
    rw [asked, Bool.false_or]
    exact poised

theorem Sound.leads (sound : drive.Sound) (leads : Leads settings drive next) : next.Sound := by
  subst leads
  unfold Sound at sound
  cases asked : drive.asked with
  | true =>
    rw [asked] at sound
    cases lines : drive.lines with
    | nil =>
      have due : drive.due = .closeInput := by simp [due, asked, lines]
      rw [due]
      exact @Run.Poised.onInnermost _ _ false _ sound fun _ awaits => awaits.closeInput
    | cons line rest =>
      have due : drive.due = .enter line := by simp [due, asked, lines]
      rw [due]
      exact @Run.Poised.onInnermost _ _ false _ sound fun _ awaits => awaits.enter line
  | false =>
    rw [asked] at sound
    have due : drive.due = .execute 1 := by simp [due, asked]
    rw [due]
    exact sound_note asked (sound.executeWithin 1 (settings.depth + 1) drive.workspace)

theorem Sound.of_leads (sound : drive.Sound) (led : Relation.ReflTransGen (Leads settings) drive next) :
    next.Sound := by
  induction led with
  | refl => exact sound
  | tail _ last ih => exact ih.leads last

theorem note_onto (drive : Drive) (state : Run × Workspace) (result : Run.Result) :
    (drive.onto state).note result = drive.note result := by
  unfold note
  split <;> rfl

/-- A driver who has not been asked executes a turn. -/
theorem leads_turn (settings : Settings) (asked : drive.asked = false) (state : Run × Workspace) :
    Leads settings (drive.onto state)
      (drive.note (Run.executeWithin settings 1 (settings.depth + 1) state.1 state.2)) := by
  have due : (drive.onto state).due = .execute 1 := by simp [due, onto, asked]
  unfold Leads
  rw [due]
  exact note_onto ..

/-- Turns that show nothing change the run and leave the rest of the drive alone. -/
theorem leads_ticks (asked : drive.asked = false) {last : Run × Workspace}
    (ticks : Relation.ReflTransGen (Run.Tick settings (settings.depth + 1)) (drive.run, drive.workspace) last) :
    Relation.ReflTransGen (Leads settings) drive (drive.onto last) := by
  refine ticks.lift drive.onto ?_
  intro before after tick
  have led := leads_turn settings asked before
  rw [show Run.executeWithin settings 1 (settings.depth + 1) before.1 before.2 = _ from tick] at led
  exact led

/-- A slice is what a driver comes to who executes turn by turn. -/
theorem Sound.leads_execute (sound : drive.Sound) (cycles : Nat) :
    Relation.ReflTransGen (Leads settings) drive (drive.execute settings cycles) := by
  cases asked : drive.asked with
  | true => rw [sound.execute_asked asked]
  | false =>
    unfold Sound at sound
    rw [asked] at sound
    obtain ⟨last, ticks, shown⟩ :=
      @Run.Poised.reaches _ settings sound cycles (settings.depth + 1) drive.workspace
    have led := leads_ticks asked ticks
    unfold Drive.execute Run.execute
    rcases shown with running | ⟨-, same⟩
    · rw [running]
      exact led
    · rw [same]
      exact led.tail (leads_turn settings asked last)

/-- Whatever a driver does who is permitted to, he comes to a state of the driver who makes no unneeded calls. -/
theorem Sound.leads_after (sound : drive.Sound) {call : Run.Call} (permitted : drive.Permits call) :
    Relation.ReflTransGen (Leads settings) drive (drive.after settings call) := by
  cases call with
  | execute cycles => exact sound.leads_execute cycles
  | enter line =>
    cases asked : drive.asked with
    | true =>
      obtain ⟨rest, lines⟩ := List.head?_eq_some_iff.1 (permitted asked)
      refine .single ?_
      rw [Leads, due, asked, lines]
      rfl
    | false =>
      unfold Sound at sound
      rw [asked] at sound
      rw [after, handIn_unasked asked (sound.onInnermost_eq fun _ answered => answered.enter line)]
  | closeInput =>
    cases asked : drive.asked with
    | true =>
      have lines := permitted asked
      refine .single ?_
      rw [Leads, due, asked, lines]
      rfl
    | false =>
      unfold Sound at sound
      rw [asked] at sound
      rw [after, handIn_unasked asked (sound.onInnermost_eq fun _ answered => answered.closeInput)]

theorem Sound.leads_afterAll (sound : drive.Sound) {calls : List Run.Call}
    (permitted : drive.PermitsAll settings calls) :
    Relation.ReflTransGen (Leads settings) drive (drive.afterAll settings calls) := by
  induction calls generalizing drive with
  | nil => exact .refl
  | cons call rest ih =>
    obtain ⟨first, others⟩ := permitted
    have led : Relation.ReflTransGen (Leads settings) drive (drive.after settings call) := sound.leads_after first
    exact led.trans (ih (sound.of_leads led) others)

end Drive

/-- A run does not depend on how its driver goes about it. Two drivers who answer each question of the run with the
next line, or close the input where there is none left, see the same events, as far as both have come, and with each of
them the same operands, heap and functions of the outermost machine. How many cycles their slices have does not matter,
nor does it if they execute slices while an answer is awaited, or hand in what nobody has asked for. -/
theorem schedules_agree (settings : Settings) (tape : Tape) (workspace : Workspace) (lines : List String)
    (calls calls' : List Run.Call) (permitted : (Drive.start settings tape workspace lines).PermitsAll settings calls)
    (permitted' : (Drive.start settings tape workspace lines).PermitsAll settings calls') :
    ((Drive.start settings tape workspace lines).afterAll settings calls).seen <+:
        ((Drive.start settings tape workspace lines).afterAll settings calls').seen ∨
      ((Drive.start settings tape workspace lines).afterAll settings calls').seen <+:
        ((Drive.start settings tape workspace lines).afterAll settings calls).seen := by
  have sound := Drive.sound_start settings tape workspace lines
  have led := sound.leads_afterAll permitted
  have led' := sound.leads_afterAll permitted'
  rcases Relation.ReflTransGen.total_of_right_unique Drive.Leads.unique led led' with first | second
  · exact .inl (Drive.seen_of_leads first)
  · exact .inr (Drive.seen_of_leads second)

/-- The program `"?" ips pr` in the hands of a driver with one line. -/
def Drive.echo : Drive :=
  .start { library := .memory {}, capacity := 4 }
    (.ofItems [.string ⟨0, 0, 3⟩ "?", .word ⟨0, 4, 7⟩ "ips", .word ⟨0, 8, 10⟩ "pr"]) {} ["x"]

/-- A patient driver and one who goes step by step, and has much to say, see the same. -/
theorem echo_schedules_agree :
    Drive.echo.PermitsAll { library := .memory {}, capacity := 4 } [.execute 9, .enter "x", .closeInput, .execute 9] ∧
    Drive.echo.PermitsAll { library := .memory {}, capacity := 4 }
      [.enter "y", .execute 1, .execute 0, .execute 1, .execute 7, .enter "x", .execute 1, .execute 1] ∧
    (Drive.echo.afterAll { library := .memory {}, capacity := 4 }
      [.enter "y", .execute 1, .execute 0, .execute 1, .execute 7, .enter "x", .execute 1, .execute 1]).seen.map
        Run.Sight.event = [.input "?", .print "x", .stopped] ∧
    ((Drive.echo.afterAll { library := .memory {}, capacity := 4 }
      [.execute 9, .enter "x", .closeInput, .execute 9]).seen <+:
        (Drive.echo.afterAll { library := .memory {}, capacity := 4 }
          [.enter "y", .execute 1, .execute 0, .execute 1, .execute 7, .enter "x", .execute 1, .execute 1]).seen ∨
      (Drive.echo.afterAll { library := .memory {}, capacity := 4 }
        [.enter "y", .execute 1, .execute 0, .execute 1, .execute 7, .enter "x", .execute 1, .execute 1]).seen <+:
        (Drive.echo.afterAll { library := .memory {}, capacity := 4 }
          [.execute 9, .enter "x", .closeInput, .execute 9]).seen) := by
  have patient : Drive.echo.PermitsAll { library := .memory {}, capacity := 4 }
      [.execute 9, .enter "x", .closeInput, .execute 9] := by
    refine ⟨trivial, fun _ => ?_, fun asked => absurd asked Bool.false_ne_true, trivial, trivial⟩
    simp [Drive.after, Drive.execute, Drive.echo, Drive.start]
  have talkative : Drive.echo.PermitsAll { library := .memory {}, capacity := 4 }
      [.enter "y", .execute 1, .execute 0, .execute 1, .execute 7, .enter "x", .execute 1, .execute 1] := by
    refine ⟨fun asked => absurd asked Bool.false_ne_true, trivial, trivial, trivial, trivial, fun _ => ?_, trivial,
      trivial, trivial⟩
    simp [Drive.after, Drive.execute, Drive.handIn, Drive.echo, Drive.start]
  exact ⟨patient, talkative, by cbv, schedules_agree _ _ _ _ _ _ patient talkative⟩

end TapeMachine
