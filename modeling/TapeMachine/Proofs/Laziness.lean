import Mathlib
import TapeMachine.Diagnostic
import TapeMachine.Proofs.Lockstep
import TapeMachine.Proofs.Schedule

namespace TapeMachine

section

variable {modules : Dictionary String} {settings : Settings}

theorem Settings.grown_enterModule (library : settings.library = .memory modules) (name : String) (place : Location)
    (workspace : Workspace) :
    Sources.Grown modules workspace.sources (settings.enterModule name place workspace).2.sources := by
  have opening := workspace.grown_openModule modules name place
  have imports : ∀ name place workspace,
      Sources.Grown modules workspace.sources (settings.importer name place workspace).2.sources := by
    intro name place workspace
    rw [Settings.importer, library]
    split
    · exact Assembly.grown_spliceImports modules settings.depth name place workspace
    · exact .refl _
  rw [enterModule, library]
  cases opened : workspace.openModule (.memory modules) name place with
  | mk outcome after =>
  rw [opened] at opening
  cases outcome with
  | error failure => exact opening
  | ok tokens =>
    have assembling := Assembly.grown_run imports {} tokens after
    simp only [Build.andThen]
    split
    · rename_i assembled
      rw [show Assembly.run settings.importer {} tokens after = _ from assembled] at assembling
      exact opening.trans assembling
    · rename_i assembled
      rw [show Assembly.run settings.importer {} tokens after = _ from assembled] at assembling
      exact opening.trans assembling

namespace Run

theorem sources_fail (run : Run) (failure : Failure) (workspace : Workspace) :
    (run.fail failure workspace).2.2.sources = workspace.sources := by
  unfold fail
  dsimp only
  induction run.modules generalizing workspace with
  | nil => rfl
  | cons module inner ih => exact ih workspace.close

theorem ComesTo.grown (library : settings.library = .memory modules) {execute : Run → Workspace → Result}
    {run : Run} {workspace : Workspace} {result : Result}
    (inside : ∀ run workspace, Sources.Grown modules workspace.sources (execute run workspace).2.2.sources)
    (comes : ComesTo settings execute run workspace result) :
    Sources.Grown modules workspace.sources result.2.2.sources := by
  induction comes with
  | out | shows | failed => exact .refl _
  | ran _ _ ih => exact ih
  | @refused _ _ name place _ workspace _ _ entered =>
    have entering := Settings.grown_enterModule library name place workspace
    rwa [entered] at entering
  | @entered _ _ name place _ workspace _ _ _ entered _ ih =>
    have entering := Settings.grown_enterModule library name place workspace
    rw [entered] at entering
    exact entering.trans ih
  | @adopted _ module inner _ workspace _ _ executed _ ih =>
    have executing := inside ⟨module, inner⟩ workspace
    rw [executed] at executing
    exact executing.trans ih
  | @broken _ module inner _ _ workspace _ executed =>
    have executing := inside ⟨module, inner⟩ workspace
    rw [executed] at executing
    rwa [sources_fail]
  | @waits _ module inner _ _ workspace _ executed _ =>
    have executing := inside ⟨module, inner⟩ workspace
    rwa [executed] at executing

theorem grown_executeWithin (library : settings.library = .memory modules) (cycles depth : Nat) (run : Run)
    (workspace : Workspace) :
    Sources.Grown modules workspace.sources (executeWithin settings cycles depth run workspace).2.2.sources := by
  induction depth generalizing run workspace with
  | zero => exact .refl _
  | succ depth ih =>
    have executes := executes_executeWithin settings cycles depth run workspace
    generalize executeWithin settings cycles (depth + 1) run workspace = result at executes ⊢
    cases executes with
    | interrupted | faulty =>
      rw [sources_fail]
      exact .refl _
    | finished | awaiting => exact .refl _
    | running _ _ _ comes => exact comes.grown library ih

end Run

namespace Drive

variable {drive next : Drive}

theorem workspace_note (drive : Drive) (result : Run.Result) : (drive.note result).workspace = result.2.2 := by
  obtain ⟨event, run, workspace⟩ := result
  cases event <;> rfl

theorem grown_of_leads (library : settings.library = .memory modules)
    (led : Relation.ReflTransGen (Leads settings) drive next) :
    Sources.Grown modules drive.workspace.sources next.workspace.sources := by
  induction led with
  | refl => exact .refl _
  | @tail before after _ last ih =>
    refine ih.trans ?_
    subst last
    cases before.due with
    | execute cycles =>
      rw [Drive.after, Drive.execute, workspace_note]
      exact Run.grown_executeWithin library cycles _ before.run before.workspace
    | enter | closeInput => exact .refl _

end Drive

end

/-- What a reader sees of a failure: its kind and its words, and where it happened, by the name of the file and the bytes
in it. -/
structure Notice where
  code : Code
  text : String
  file : Option String
  bytes : Option (Nat × Nat)
  deriving DecidableEq

def Failure.notice (sources : Sources) (failure : Failure) : Notice where
  code := failure.cause.code
  text := failure.cause.text
  file := failure.place.bind fun place => (sources.get? place.file).map SourceFile.name
  bytes := failure.place.map fun place => (place.start, place.stop)

/-- An event as a reader sees it, who knows the names of the files. -/
def Event.told (sources : Sources) : Event → Except Notice Event
  | .error failure => .error (failure.notice sources)
  | event => .ok event

/-- The events that a driver has seen, as he tells them. -/
def Drive.told (drive : Drive) : List (Except Notice Event) :=
  (drive.seen.map Run.Sight.event).map (Event.told drive.workspace.sources)

/-- The same event, or a failure for the same cause at the same bytes of files of the same name. -/
inductive Event.Near (sources final : Sources) : Event → Event → Prop
  | same {event : Event} : event.isError = false → Event.Near sources final event event
  | failed {cause : Cause} {place place' : Location} : sources.Near final place place' →
      Event.Near sources final (.error ⟨cause, some place⟩) (.error ⟨cause, some place'⟩)

section

variable {modules : Dictionary String} {sources final later later' : Sources} {event event' : Event}

theorem Event.Near.grow (grown : Sources.Grown modules sources later) (near : Event.Near sources final event event') :
    Event.Near later final event event' := by
  cases near with
  | same smooth => exact .same smooth
  | failed near => exact .failed (near.grow grown)

theorem Event.Near.told (near : Event.Near sources final event event') (grown : Sources.Grown modules sources later)
    (grown' : Sources.Grown modules final later') : event.told later = event'.told later' := by
  cases near with
  | same smooth =>
    cases event with
    | error => cases smooth
    | stopped | running | print | input | leak => rfl
  | failed near =>
    obtain ⟨file, file', here, there, same⟩ := near.file
    simp only [Event.told, Failure.notice, Option.bind_some, Option.map_some, grown.get? here, grown'.get? there, same,
      near.start, near.stop]

end

namespace Drive

section

variable {settings settings' : Settings} {drive drive' next next' reached : Drive}

/-- The driver goes on without seeing anything, and then makes one call more. -/
def Quietly (settings : Settings) (drive next : Drive) : Prop :=
  ∃ last, Relation.ReflTransGen (Leads settings) drive last ∧ last.seen = drive.seen ∧ Leads settings last next

theorem Quietly.leads (quietly : drive.Quietly settings next) : Relation.ReflTransGen (Leads settings) drive next := by
  obtain ⟨last, led, -, call⟩ := quietly
  exact led.tail call

theorem quietly_of_comes (asked : drive.asked = false) {result : Run.Result}
    (comes : Run.Comes settings (settings.depth + 1) (drive.run, drive.workspace) result) :
    drive.Quietly settings (drive.note result) := by
  obtain ⟨last, ticks, rfl⟩ := comes
  exact ⟨drive.onto last, leads_ticks asked ticks, rfl, leads_turn settings asked last⟩

/-- The next call is the last one, or the driver goes on without seeing anything. -/
theorem Quietly.step (quietly : drive.Quietly settings next) (step : Leads settings drive reached) :
    reached = next ∨ reached.seen = drive.seen ∧ reached.Quietly settings next := by
  obtain ⟨last, led, quiet, call⟩ := quietly
  rcases led.cases_head with rfl | ⟨other, first, ahead⟩
  · exact .inl (Leads.unique step call)
  · obtain rfl : reached = other := Leads.unique step first
    have seen := seen_of_leads (.single step)
    have same : reached.seen = drive.seen :=
      (seen.eq_of_length_le (quiet ▸ (seen_of_leads ahead).length_le)).symm
    exact .inr ⟨same, last, ahead, quiet.trans same.symm, call⟩

/-- If two drivers who are alike can always go on to where they are alike again, then wherever one of them comes, they
have been alike since the last event. -/
theorem catches_up {alike : Drive → Drive → Prop}
    (goesOn : ∀ {drive drive'}, alike drive drive' →
      ∃ next next', drive.Quietly settings next ∧ drive'.Quietly settings' next' ∧ alike next next')
    (start : alike drive drive') (led : Relation.ReflTransGen (Leads settings) drive reached) :
    ∃ first first', alike first first' ∧ Relation.ReflTransGen (Leads settings') drive' first' ∧
      Relation.ReflTransGen (Leads settings) first reached ∧ first.seen = reached.seen := by
  -- The driver stands between two calls behind which they are alike.
  have between : ∃ first first' next next', alike first first' ∧
      Relation.ReflTransGen (Leads settings') drive' first' ∧ Relation.ReflTransGen (Leads settings) first reached ∧
      first.seen = reached.seen ∧ reached.Quietly settings next ∧ first'.Quietly settings' next' ∧ alike next next' := by
    induction led with
    | refl =>
      obtain ⟨next, next', quietly, quietly', onward⟩ := goesOn start
      exact ⟨drive, drive', next, next', start, .refl, .refl, rfl, quietly, quietly', onward⟩
    | @tail before after _ step ih =>
      obtain ⟨first, first', next, next', here, led', behind, seen, quietly, quietly', onward⟩ := ih
      rcases quietly.step step with rfl | ⟨same, quietly⟩
      · obtain ⟨second, second', ahead, ahead', later⟩ := goesOn onward
        exact ⟨after, next', second, second', onward, led'.trans quietly'.leads, .refl, rfl, ahead, ahead', later⟩
      · exact ⟨first, first', next, next', here, led', behind.tail step, seen.trans same.symm, quietly, quietly', onward⟩
  obtain ⟨first, first', -, -, here, led', behind, seen, -⟩ := between
  exact ⟨first, first', here, led', behind, seen⟩

/-- Where a driver comes who makes no unneeded calls, he comes by permitted calls. -/
theorem calls_of_leads (led : Relation.ReflTransGen (Leads settings) drive reached) :
    ∃ calls, drive.PermitsAll settings calls ∧ drive.afterAll settings calls = reached := by
  induction led using Relation.ReflTransGen.head_induction_on with
  | refl => exact ⟨[], trivial, rfl⟩
  | @head first second call _ ih =>
    obtain ⟨calls, permitted, same⟩ := ih
    subst call
    refine ⟨first.due :: calls, ⟨?_, permitted⟩, same⟩
    unfold due
    split
    · rename_i asked
      cases lines : first.lines with
      | nil => exact fun _ => lines
      | cons line rest => exact fun _ => by rw [lines]; rfl
    · trivial

end

section

variable {modules : Dictionary String} {there : Workspace} {lazy spliced : Settings} {drive drive' : Drive}

/-- Where the run of a driver stands whose modules are run when they are reached, and the run of the other one, whose
modules are spliced. They have asked for input, or have not. -/
inductive Stage (modules : Dictionary String) (final : Sources) : (asked : Bool) → Run → Workspace → Run → Prop
  | walking {pair : Pair} : pair.Level modules final →
      Stage modules final false ⟨pair.lazy.machine, []⟩ pair.workspace ⟨pair.spliced.machine, []⟩
  | awaiting {pair : Pair} {kind : InputKind} {place place' : Location} :
      pair.workspace.sources.Near final place place' → pair.Level modules final →
      Stage modules final true ⟨pair.lazy.awaiting kind place, []⟩ pair.workspace ⟨pair.spliced.awaiting kind place', []⟩
  | faulty {cause : Cause} {place place' : Location} {last last' : Machine} {workspace : Workspace} :
      workspace.sources.Near final place place' → last.Calm → last'.Calm →
      Stage modules final false ⟨{ last with fault := some ⟨cause, some place⟩ }, []⟩ workspace
        ⟨{ last' with fault := some ⟨cause, some place'⟩ }, []⟩
  | finished {last last' : Machine} {workspace : Workspace} : last.Calm → last'.Calm →
      Stage modules final false ⟨{ last with phase := .finished }, []⟩ workspace ⟨{ last' with phase := .finished }, []⟩

/-- The two drivers have seen the same, and stand at the same place. -/
structure Abreast (modules : Dictionary String) (there : Workspace) (drive drive' : Drive) : Prop where
  stage : Stage modules there.sources drive.asked drive.run drive.workspace drive'.run
  settled : drive'.workspace = there
  asked : drive'.asked = drive.asked
  lines : drive'.lines = drive.lines
  seen : List.Forall₂ (fun sight sight' => Event.Near drive.workspace.sources there.sources sight.event sight'.event)
    drive.seen drive'.seen

/-- Both take note of the same event. -/
theorem Abreast.note (abreast : drive.Abreast modules there drive') (asked : drive.asked = false) {event event' : Event}
    {run run' : Run} {workspace : Workspace} (grown : Sources.Grown modules drive.workspace.sources workspace.sources)
    (near : Event.Near workspace.sources there.sources event event')
    (stage : Stage modules there.sources event.asks run workspace run') :
    (drive.note (event, run, workspace)).Abreast modules there (drive'.note (event', run', there)) := by
  have seen := abreast.seen.imp fun _ _ near => near.grow grown
  have poised : Stage modules there.sources (drive.asked || event.asks) run workspace run' := by
    rw [asked]
    exact stage
  have asked' : (drive'.asked || event.asks) = (drive.asked || event.asks) := by rw [abreast.asked]
  cases near with
  | failed near => exact ⟨poised, rfl, asked', abreast.lines, List.rel_append seen (.cons (.failed near) .nil)⟩
  | same smooth =>
    cases event with
    | running => exact ⟨asked ▸ stage, rfl, abreast.asked, abreast.lines, seen⟩
    | error failure => cases smooth
    | stopped | print | input | leak =>
      exact ⟨poised, rfl, asked', abreast.lines, List.rel_append seen (.cons (.same rfl) .nil)⟩

/-- While they walk, both come to the same. -/
theorem Abreast.goes_on_walking {pair : Pair} (abreast : drive.Abreast modules there drive')
    (library : lazy.library = .memory modules) (kept : lazy.splice = false) (spliced : Settings)
    (level : pair.Level modules there.sources) (asked : drive.asked = false)
    (here : (drive.run, drive.workspace) = pair.state) (here' : drive'.run = ⟨pair.spliced.machine, []⟩) :
    ∃ next next', drive.Quietly lazy next ∧ drive'.Quietly spliced next' ∧ next.Abreast modules there next' := by
  obtain ⟨result, result', comes, comes', outcome⟩ := level.turn library kept spliced there
  rw [← here] at comes
  rw [Pair.state', ← here', ← abreast.settled] at comes'
  have quietly := quietly_of_comes asked comes
  refine ⟨_, _, quietly, quietly_of_comes (abreast.asked.trans asked) comes', ?_⟩
  have grown := grown_of_leads library quietly.leads
  rw [workspace_note] at grown
  cases outcome with
  | running level => exact abreast.note asked grown (.same rfl) (.walking level)
  | prints level => exact abreast.note asked grown (.same rfl) (.walking level)
  | asks near level => exact abreast.note asked grown (.same rfl) (.awaiting near level)
  | fails near calm calm' => exact abreast.note asked grown (.failed near) (.finished calm calm')
  | @ends event last last' store later workspace farewell calm calm' =>
    rcases Walker.farewell_cases store with stopped | ⟨regions, slots, leak⟩
    · cases stopped.symm.trans farewell
      exact abreast.note asked grown (.same rfl) (.finished calm calm')
    · cases leak.symm.trans farewell
      exact abreast.note asked grown (.same rfl) (.finished calm calm')

/-- Both make the same of an answer. -/
theorem stage_enter {pair : Pair} {final : Sources} {place place' : Location}
    (near : pair.workspace.sources.Near final place place') (level : pair.Level modules final) (kind : InputKind)
    (line : String) :
    Stage modules final false ⟨(pair.lazy.awaiting kind place).enter line, []⟩ pair.workspace
      ⟨(pair.spliced.awaiting kind place').enter line, []⟩ := by
  have same := level.mirrors.store
  cases answered : pair.lazy.store.answer kind (some line) with
  | ok store =>
    rw [Walker.enter_of_answer place answered, Walker.enter_of_answer place' (same ▸ answered)]
    have mirrors := level.mirrors
    have onward : Pair.Level modules final
        ⟨{ pair.lazy with store }, { pair.spliced with store }, pair.workspace⟩ :=
      ⟨⟨mirrors.code, mirrors.blocks, mirrors.functions, mirrors.builtins, rfl⟩,
        ⟨level.placed.carried, level.placed.enclosed, level.placed.functions⟩,
        ⟨level.placed'.carried, level.placed'.enclosed, level.placed'.functions⟩, level.ready⟩
    exact .walking onward
  | error cause =>
    obtain ⟨last, entered, calm⟩ := Walker.enter_of_error place answered
    obtain ⟨last', entered', calm'⟩ := Walker.enter_of_error place' (same ▸ answered)
    rw [entered, entered']
    exact .faulty near calm calm'

theorem Abreast.handIn (abreast : drive.Abreast modules there drive') (answer : Run → Run)
    (stage : Stage modules there.sources false (answer drive.run) drive.workspace (answer drive'.run)) :
    (drive.handIn answer).Abreast modules there (drive'.handIn answer) := by
  refine ⟨stage, abreast.settled, rfl, ?_, abreast.seen⟩
  simp only [Drive.handIn, abreast.asked, abreast.lines]

/-- The two drivers can always go on. -/
theorem Abreast.goes_on (abreast : drive.Abreast modules there drive') (library : lazy.library = .memory modules)
    (kept : lazy.splice = false) (spliced : Settings) :
    ∃ next next', drive.Quietly lazy next ∧ drive'.Quietly spliced next' ∧ next.Abreast modules there next' := by
  have stage := abreast.stage
  generalize asked : drive.asked = waits at stage
  generalize here : drive.run = run at stage
  generalize held : drive.workspace = workspace at stage
  generalize here' : drive'.run = run' at stage
  have settled := abreast.settled
  have asked' := abreast.asked.trans asked
  cases stage with
  | walking level =>
    exact abreast.goes_on_walking library kept spliced level asked (Prod.ext here held) here'
  | @awaiting pair kind place place' near level =>
    have lines' := abreast.lines
    refine ⟨_, _, ⟨drive, .refl, rfl, rfl⟩, ⟨drive', .refl, rfl, rfl⟩, ?_⟩
    cases lines : drive.lines with
    | nil =>
      have due : drive.due = .closeInput := by simp [due, asked, lines]
      have due' : drive'.due = .closeInput := by simp [Drive.due, asked', lines', lines]
      rw [due, due']
      refine abreast.handIn Run.closeInput ?_
      rw [here, here', held]
      cases kind with
      | number => exact stage_enter near level .number "0"
      | string => exact stage_enter near level .string ""
    | cons line rest =>
      have due : drive.due = .enter line := by simp [due, asked, lines]
      have due' : drive'.due = .enter line := by simp [Drive.due, asked', lines', lines]
      rw [due, due']
      refine abreast.handIn (fun run => run.enter line) ?_
      rw [here, here', held]
      exact stage_enter near level kind line
  | @faulty cause place place' _ _ _ near calm calm' =>
    have turn := @Walker.execute_faulty _ ⟨cause, some place⟩ calm lazy 1 workspace
    have turn' := @Walker.execute_faulty _ ⟨cause, some place'⟩ calm' spliced 1 there
    rw [← here, ← held] at turn
    rw [← here', ← settled] at turn'
    refine ⟨_, _, quietly_of_comes asked (.of_turn turn), quietly_of_comes asked' (.of_turn turn'), ?_⟩
    rw [settled]
    exact abreast.note asked (.refl _) (.failed (held ▸ near)) (.finished calm calm')
  | finished calm calm' =>
    have turn := Walker.execute_finished calm lazy 1 workspace
    have turn' := Walker.execute_finished calm' spliced 1 there
    rw [← here, ← held] at turn
    rw [← here', ← settled] at turn'
    refine ⟨_, _, quietly_of_comes asked (.of_turn turn), quietly_of_comes asked' (.of_turn turn'), ?_⟩
    rw [settled, here, here']
    exact abreast.note asked (.refl _) (.same rfl) (.finished calm calm')

end

end Drive

/-- Both walkers stand at the beginning of the program. -/
theorem Pair.start_level {modules : Dictionary String} {name text : String} {kept program : List Item} {final : Sources}
    {depth : Nat} {chain : List String} (grown : Sources.Grown modules (({} : Sources).add name text) final)
    (unfolds : Unfolds (Resolves modules final depth chain) (Location.Moved 0 0) kept program)
    (spared : spareBuiltins program = true) (capacity : Nat) :
    Pair.Level modules final
      ⟨.start capacity kept, .start capacity program, { sources := ({} : Sources).add name text }⟩ := by
  have root : (({} : Sources).add name text).get? 0 = some ⟨name, text⟩ := rfl
  have resolving := fun name included resolved => (⟨depth, chain, resolved⟩ : Resolved modules final name included)
  have nearing := fun place place' => @Sources.near_of_moved _ final place place' _ _ _ _ root (grown.get? root) rfl
  refine ⟨⟨.ofItems ⟨unfolds.mono resolving nearing, spared⟩, .nil, ?_, start_builtins capacity kept, rfl⟩,
    Walker.start_placed capacity kept, Walker.start_placed capacity program, ?_⟩
  · intro name
    show Routine.Mirrors _ _ ((Walker.start capacity kept).functions.get? name)
      ((Walker.start capacity kept).functions.get? name)
    cases found : (Walker.start capacity kept).functions.get? name with
    | none => exact .none
    | some routine =>
      cases routine with
      | builtin word => exact .builtin
      | user => exact (Walker.start_functions found).elim
  · exact ⟨fun name => (grown.textOf name).symm, nofun, .nil, nofun⟩

/-- Whatever a driver comes to see by permitted calls, the other one may come to see. -/
def Drive.Followed (settings settings' : Settings) (drive drive' : Drive) : Prop :=
  ∀ calls, drive.PermitsAll settings calls →
    ∃ calls', drive'.PermitsAll settings' calls' ∧
      (drive'.afterAll settings' calls').told = (drive.afterAll settings calls).told

namespace Drive

variable {modules : Dictionary String} {there : Workspace} {lazy spliced : Settings} {drive drive' : Drive}

/-- Two drivers who were abreast tell the same, whatever has been read since. -/
theorem Abreast.told (abreast : drive.Abreast modules there drive') {reached reached' : Drive}
    (seen : drive.seen = reached.seen) (seen' : drive'.seen = reached'.seen)
    (grown : Sources.Grown modules drive.workspace.sources reached.workspace.sources)
    (grown' : Sources.Grown modules drive'.workspace.sources reached'.workspace.sources) :
    reached.told = reached'.told := by
  have same := abreast.seen
  rw [abreast.settled] at grown'
  rw [seen, seen'] at same
  unfold Drive.told
  generalize reached.seen = sights at same ⊢
  generalize reached'.seen = sights' at same ⊢
  induction same with
  | nil => rfl
  | cons near _ ih => simp only [List.map_cons, near.told grown grown', ih]

theorem Abreast.followed (abreast : drive.Abreast modules there drive') (library : lazy.library = .memory modules)
    (kept : lazy.splice = false) (sound : drive.Sound) : drive.Followed lazy spliced drive' := by
  intro calls permitted
  have led := sound.leads_afterAll permitted
  obtain ⟨first, first', alike, led', behind, seen⟩ :=
    catches_up (fun abreast => Abreast.goes_on abreast library kept spliced) abreast led
  obtain ⟨calls', permitted', same⟩ := calls_of_leads led'
  refine ⟨calls', permitted', ?_⟩
  rw [same]
  exact (alike.told seen rfl (grown_of_leads library behind) (.refl _)).symm

theorem Abreast.follows (abreast : drive.Abreast modules there drive') (library : lazy.library = .memory modules)
    (kept : lazy.splice = false) (library' : spliced.library = .memory modules) (sound : drive'.Sound) :
    drive'.Followed spliced lazy drive := by
  intro calls permitted
  have led := sound.leads_afterAll permitted
  have goesOn : ∀ {drive' drive}, Abreast modules there drive drive' →
      ∃ next' next, drive'.Quietly spliced next' ∧ drive.Quietly lazy next ∧ Abreast modules there next next' := by
    intro drive' drive abreast
    obtain ⟨next, next', quietly, quietly', onward⟩ := abreast.goes_on library kept spliced
    exact ⟨next', next, quietly', quietly, onward⟩
  obtain ⟨first', first, alike, led', behind, seen⟩ := catches_up goesOn abreast led
  obtain ⟨calls', permitted', same⟩ := calls_of_leads led'
  refine ⟨calls', permitted', ?_⟩
  rw [same]
  exact alike.told rfl seen (.refl _) (grown_of_leads library' behind)

end Drive

/-- Imports may be spliced, or run when they are reached, if the modules of the library hold nothing but definitions and
imports outside all blocks, and no function has the name of a builtin. If the program can be compiled with its imports
spliced, it can be compiled with its imports kept; and whatever a driver of the one comes to see, a driver of the other
one comes to see who has the same lines: the same events in the same order, and of a failure the same code and words,
and the same bytes of a file of the same name. -/
theorem lazy_and_spliced_imports_run_alike (modules : Dictionary String) (capacity : Nat) (name text : String)
    (lines : List String) {program : List Item} {after : Workspace} {lazy spliced : Settings}
    (lazily : lazy = { library := .memory modules, splice := false, capacity })
    (splicing : spliced = { library := .memory modules, splice := true, capacity })
    (compiled : spliced.compile name text {} = (.ok program, after))
    (definitions : ∀ name text items, modules.get? name = some text → Assembly.keptProgram 0 text = some items →
      onlyDefines items = true)
    (spared : spareBuiltins program = true) :
    ∃ kept before, lazy.compile name text {} = (.ok kept, before) ∧
      Drive.Followed lazy spliced (.start lazy (.ofItems kept) before lines)
        (.start spliced (.ofItems program) after lines) ∧
      Drive.Followed spliced lazy (.start spliced (.ofItems program) after lines)
        (.start lazy (.ofItems kept) before lines) := by
  subst lazily splicing
  obtain ⟨grown, kept, depth, chain, built, unfolds⟩ := unfolds_of_compile rfl rfl definitions compiled
  obtain ⟨tokens, read, runs⟩ := Assembly.run_of_keptProgram built { sources := ({} : Sources).add name text }
  refine ⟨kept, { sources := ({} : Sources).add name text }, ?_, ?_⟩
  · rw [Settings.compile, show Token.ofText ({} : Workspace).sources.size text = _ from read]
    exact runs
  · have level := Pair.start_level grown unfolds spared capacity
    have abreast : Drive.Abreast modules after
        (.start { library := .memory modules, splice := false, capacity } (.ofItems kept)
          { sources := ({} : Sources).add name text } lines)
        (.start { library := .memory modules, splice := true, capacity } (.ofItems program) after lines) := by
      have stage := Drive.Stage.walking level
      rw [Walker.start_machine, Walker.start_machine] at stage
      exact ⟨stage, rfl, rfl, rfl, .nil⟩
    exact ⟨abreast.followed rfl rfl (Drive.sound_start ..), abreast.follows rfl rfl rfl (Drive.sound_start ..)⟩

/-- A library of two modules, of which one imports the other when its function is called. -/
def deferring : Dictionary String :=
  .ofList [("a", "fn f : do import b g end"), ("b", "fn g : do pr end")]

def Settings.deferring (splice : Bool) : Settings :=
  { library := .memory TapeMachine.deferring, splice, capacity := 4 }

/-- The program `import a f`, with the items of the modules in it. -/
def deferred : List Item :=
  let inner := Item.define ⟨2, 0, 2⟩ ⟨"g", [], []⟩ [.word ⟨2, 10, 12⟩ "pr"] ⟨2, 13, 16⟩
  [.define ⟨1, 0, 2⟩ ⟨"f", [], []⟩ [inner, .word ⟨1, 19, 20⟩ "g"] ⟨1, 21, 24⟩, .word ⟨0, 9, 10⟩ "f"]

def Workspace.deferred : Workspace :=
  { sources := ⟨[⟨"r", "import a f"⟩, ⟨"a", "fn f : do import b g end"⟩, ⟨"b", "fn g : do pr end"⟩]⟩ }

/-- Whoever runs that program without splicing sees that `pr` fails in the module `b`. -/
theorem deferred_runs_alike :
    (Settings.deferring true).compile "r" "import a f" {} = (.ok deferred, .deferred) ∧
    ∃ kept before, (Settings.deferring false).compile "r" "import a f" {} = (.ok kept, before) ∧
      ∃ calls, (Drive.start (.deferring false) (.ofItems kept) before []).PermitsAll (.deferring false) calls ∧
        ((Drive.start (.deferring false) (.ofItems kept) before []).afterAll (.deferring false) calls).told =
          [.error (Failure.notice Workspace.deferred.sources ⟨.tooFew 1 0, some ⟨2, 10, 12⟩⟩)] := by
  have compiled : (Settings.deferring true).compile "r" "import a f" {} = (.ok deferred, .deferred) := by cbv
  have first : Assembly.keptProgram 0 "fn f : do import b g end" = some
      [.define ⟨0, 0, 2⟩ ⟨"f", [], []⟩ [.imports ⟨0, 10, 16⟩ "b", .word ⟨0, 19, 20⟩ "g"] ⟨0, 21, 24⟩] := by cbv
  have second : Assembly.keptProgram 0 "fn g : do pr end" = some
      [.define ⟨0, 0, 2⟩ ⟨"g", [], []⟩ [.word ⟨0, 10, 12⟩ "pr"] ⟨0, 13, 16⟩] := by cbv
  have definitions : ∀ name text items, deferring.get? name = some text → Assembly.keptProgram 0 text = some items →
      onlyDefines items = true := by
    intro name text items known built
    rcases Dictionary.get?_insertAll known with none | listed
    · cases none
    · rcases List.mem_cons.1 listed with same | later
      · cases same
        cases first.symm.trans built
        rfl
      · cases List.mem_singleton.1 later
        cases second.symm.trans built
        rfl
  have keeping : Settings.deferring false = { library := .memory deferring, splice := false, capacity := 4 } := rfl
  have splicing : Settings.deferring true = { library := .memory deferring, splice := true, capacity := 4 } := rfl
  obtain ⟨kept, before, compiles, -, follows⟩ := lazy_and_spliced_imports_run_alike deferring 4 "r" "import a f" []
    keeping splicing compiled definitions (by decide)
  obtain ⟨calls, permitted, told⟩ := follows [.execute 13] ⟨trivial, trivial⟩
  have seen : ((Drive.start (.deferring true) (.ofItems deferred) .deferred []).afterAll (.deferring true)
      [.execute 13]).seen.map Run.Sight.event = [.error ⟨.tooFew 1 0, some ⟨2, 10, 12⟩⟩] := by cbv
  have files : ((Drive.start (.deferring true) (.ofItems deferred) .deferred []).afterAll (.deferring true)
      [.execute 13]).workspace = .deferred := by cbv
  refine ⟨compiled, kept, before, compiles, calls, permitted, told.trans ?_⟩
  rw [Drive.told, seen, files]
  rfl

end TapeMachine
