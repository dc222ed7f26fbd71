import TapeMachine.Proofs.Laziness
import TapeMachine.Proofs.Marking

namespace TapeMachine

namespace Walker

variable {walker : Walker}

/-- If the move fails, it does so somewhere. -/
def Move.Located : Move → Prop
  | .failed failure => ∃ place, failure.place = some place
  | _ => True

theorem located_after {α : Type} {outcome : Outcome α} {place : Location} {onward : α → Move}
    (later : ∀ found, (onward found).Located) : (Move.after outcome place onward).Located := by
  cases outcome with
  | ok found => exact later found
  | error cause => exact ⟨place, rfl⟩

theorem located_word (walker : Walker) (name : String) (place : Location) (rest : List Piece) :
    (walker.word name place rest).Located := by
  unfold word
  split
  · refine located_after ?_
    rintro ⟨effect, store⟩
    cases effect <;> trivial
  · trivial
  · exact located_after fun _ => trivial

theorem located_perform (walker : Walker) (item : Item) (rest : List Piece) : (walker.perform item rest).Located := by
  cases item with
  | number | string | bind | cell => exact located_after fun _ => trivial
  | word place name => exact walker.located_word name place rest
  | imports | loop | define => trivial
  | branch | choice | repeats =>
    refine located_after fun found => ?_
    dsimp only
    split <;> trivial

theorem located_close (walker : Walker) (block : Block) (outer : List Block) : (walker.close block outer).Located := by
  cases block with
  | consequent | body | call => trivial
  | repeats start body remaining closing => cases remaining <;> trivial
  | test loop closing =>
    refine located_after fun found => ?_
    dsimp only
    split <;> trivial
  | cell => exact located_after fun _ => trivial

theorem located_move (walker : Walker) : walker.move.Located := by
  unfold move
  split
  · trivial
  · exact walker.located_perform _ _
  · exact walker.located_close _ _
  · trivial

end Walker

/-- A machine that stands where it should fails at an instruction. -/
theorem Machine.Guided.located {machine next : Machine} {cause : Cause} (guided : machine.Guided)
    (atWork : machine.AtWork) (failed : machine.step = .failed cause next) :
    ∃ place, (next.failure cause).place = some place := by
  obtain ⟨walker, orderly, placed, rfl⟩ := guided.walker atWork
  obtain ⟨last, orderly, placed, same, still⟩ := orderly.turn placed
  have agrees := placed.agrees
  rw [Machine.step_of_settle same] at failed
  have located := last.located_move
  cases moved : last.move with
  | crossed next => exact (still next moved).elim
  | ran | prints | asks =>
    rw [moved] at agrees
    cases failed.symm.trans agrees.1
  | imports =>
    rw [moved] at agrees
    cases failed.symm.trans agrees
  | ends =>
    rw [moved] at agrees
    obtain ⟨event, finish, -⟩ := last.machine.finish_shows
    cases failed.symm.trans (Eq.trans agrees finish)
  | failed failure =>
    rw [moved] at agrees located
    obtain ⟨cause, after, fails, rfl, -⟩ := agrees
    cases failed.symm.trans fails
    exact located

namespace Run

variable {sources later : Sources} {settings : Settings} {run : Run} {workspace : Workspace}

/-- All that the machines of a run know of places comes from tokens. -/
def Marked (sources : Sources) (run : Run) : Prop :=
  ∀ machine ∈ run.machine :: run.modules, machine.Marked sources

theorem Marked.onInnermost {change : Machine → Machine} (marked : run.Marked sources)
    (changes : ∀ machine : Machine, machine.Marked sources → (change machine).Marked sources) :
    (run.onInnermost change).Marked sources := by
  obtain ⟨machine, modules⟩ := run
  induction modules generalizing machine with
  | nil => exact List.forall_mem_singleton.2 (changes machine (List.forall_mem_singleton.1 marked))
  | cons module inner ih =>
    obtain ⟨mine, others⟩ := List.forall_mem_cons.1 marked
    rw [onInnermost_cons]
    exact List.forall_mem_cons.2 ⟨mine, ih module others⟩

/-- What an execution comes to: files stay, places come from tokens, and a failure shows where it has happened. -/
structure Pinpoints (before : Sources) (result : Result) : Prop where
  grows : before.Grows result.2.2.sources
  marked : result.2.1.Marked result.2.2.sources
  failed : ∀ failure, result.1 = .error failure → result.2.2.sources.Shows failure

theorem Pinpoints.since {before between : Sources} {result : Result} (pinpoints : Pinpoints between result)
    (grows : before.Grows between) : Pinpoints before result :=
  ⟨grows.trans pinpoints.grows, pinpoints.marked, pinpoints.failed⟩

theorem Pinpoints.of_event {event : Event} (marked : run.Marked workspace.sources) (smooth : event.isError = false) :
    Pinpoints workspace.sources (event, run, workspace) := by
  refine ⟨.refl _, marked, ?_⟩
  rintro failure rfl
  cases smooth

theorem Pinpoints.of_failure {failure : Failure} (marked : run.machine.Marked workspace.sources)
    (shown : workspace.sources.Shows failure) : Pinpoints workspace.sources (run.fail failure workspace) := by
  have same := run.sources_fail failure workspace
  refine ⟨?_, ?_, ?_⟩
  · rw [same]
    exact .refl _
  · rw [same]
    exact List.forall_mem_singleton.2
      ⟨marked.tape, marked.functions, marked.callers, marked.pending, marked.fault⟩
  · rintro _ ⟨⟩
    rw [same]
    exact shown

theorem Guided.inner {machine module : Machine} {inner : List Machine}
    (guided : Guided ⟨machine, module :: inner⟩) : Guided ⟨module, inner⟩ := by
  cases guided with
  | waiting _ _ _ inside => exact inside

/-- Turns come to what shows where it has failed, if that is so for the executions of a module. -/
theorem ComesTo.pinpoints {execute : Run → Workspace → Result} {result : Result}
    (lawful : ∀ {run : Run}, run.Guided → ∀ workspace, Lawful (execute run workspace))
    (inside : ∀ {run : Run} {workspace : Workspace}, run.Guided → run.Marked workspace.sources →
      Pinpoints workspace.sources (execute run workspace))
    (comes : ComesTo settings execute run workspace result) (guided : run.Guided)
    (marked : run.Marked workspace.sources) (atWork : run.machine.AtWork) : Pinpoints workspace.sources result := by
  induction comes with
  | out => exact .of_event marked rfl
  | @ran machine next workspace _ stepped _ ih =>
    have turn : ComesTo settings execute ⟨machine, []⟩ workspace (.running, ⟨next, []⟩, workspace) := .ran stepped .out
    have onward := (turn.lawful lawful guided atWork).guided_of_smooth rfl
    have stepping : Machine.Marked _ _ := (marked _ List.mem_cons_self).onward stepped
    exact ih onward (List.forall_mem_singleton.2 stepping) (atWork.onward stepped)
  | shows stepped =>
    obtain ⟨smooth, stepping⟩ := (marked _ List.mem_cons_self).onward stepped
    exact .of_event (List.forall_mem_singleton.2 stepping) smooth
  | failed stepped =>
    have stepping : Machine.Marked _ _ := (marked _ List.mem_cons_self).onward stepped
    cases guided with
    | alone guided =>
      obtain ⟨place, located⟩ := guided.located atWork stepped
      exact .of_failure stepping (stepping.failure located)
  | @refused _ _ name _ failure workspace _ stepped entered =>
    obtain ⟨marks, stepping⟩ := (marked _ List.mem_cons_self).onward stepped
    have traced := settings.traced_enterModule name workspace marks
    rw [entered] at traced
    exact (Pinpoints.of_failure (stepping.grow traced.grows) (traced.failed failure rfl)).since traced.grows
  | @entered machine next name _ items workspace after _ stepped entered _ ih =>
    have turn : ComesTo settings execute ⟨machine, []⟩ workspace (.running, ⟨next, [_]⟩, after) :=
      .entered stepped entered .out
    have onward := (turn.lawful lawful guided atWork).guided_of_smooth rfl
    obtain ⟨marks, stepping⟩ := (marked _ List.mem_cons_self).onward stepped
    have traced := settings.traced_enterModule name workspace marks
    rw [entered] at traced
    have module := Machine.marked_start (traced.marks items rfl) settings.capacity
    have both := List.forall_mem_cons.2 ⟨stepping.grow traced.grows, List.forall_mem_singleton.2 module⟩
    exact (ih onward both (atWork.onward stepped)).since traced.grows
  | @adopted machine module inner finished workspace after _ executed _ ih =>
    have turn : ComesTo settings execute ⟨machine, module :: inner⟩ workspace
      (.running, adopt ⟨machine, []⟩ finished, after.close) := .adopted executed .out
    have onward := (turn.lawful lawful guided atWork).guided_of_smooth rfl
    have pinpoints := inside guided.inner (List.forall_mem_cons.1 marked).2
    rw [executed] at pinpoints
    have mine := (marked _ List.mem_cons_self).grow pinpoints.grows
    have adopted : (adopt ⟨machine, []⟩ finished).machine.Marked after.sources := by
      refine ⟨mine.tape, ?_, mine.callers, mine.pending, mine.fault⟩
      intro name tape definition known
      rcases Dictionary.get?_merge known with known | known
      · exact mine.functions name tape definition known
      · exact (pinpoints.marked finished.machine List.mem_cons_self).functions name tape definition known
    exact (ih onward (List.forall_mem_singleton.2 adopted) (atWork.change ..)).since pinpoints.grows
  | @broken machine _ _ failure ended _ after executed =>
    have pinpoints := inside guided.inner (List.forall_mem_cons.1 marked).2
    rw [executed] at pinpoints
    have mine := (marked _ List.mem_cons_self).grow pinpoints.grows
    have failed : Pinpoints after.sources (fail ⟨machine, ended.machine :: ended.modules⟩ failure after) :=
      .of_failure mine (pinpoints.failed failure rfl)
    exact failed.since pinpoints.grows
  | @waits machine _ _ _ next _ after executed more =>
    have pinpoints := inside guided.inner (List.forall_mem_cons.1 marked).2
    rw [executed] at pinpoints
    have both : Run.Marked after.sources ⟨machine, next.machine :: next.modules⟩ :=
      List.forall_mem_cons.2 ⟨(marked _ List.mem_cons_self).grow pinpoints.grows, pinpoints.marked⟩
    exact (Pinpoints.of_event both (Event.isError_of_more more)).since pinpoints.grows

/-- A run is broken off by its outermost machine, which forgets why. -/
theorem Marked.fail (marked : run.Marked workspace.sources) {failure : Failure}
    (shown : workspace.sources.Shows failure) (interrupted : Bool) {fault : Option Failure}
    (waits : ∀ failure, fault = some failure → workspace.sources.Shows failure) :
    Pinpoints workspace.sources (fail ⟨{ run.machine with interrupted, fault }, run.modules⟩ failure workspace) := by
  have mine := marked run.machine List.mem_cons_self
  exact Pinpoints.of_failure ⟨mine.tape, mine.functions, mine.callers, mine.pending, waits⟩ shown

theorem Guided.pinpoints (guided : run.Guided) (settings : Settings) (cycles depth : Nat)
    (marked : run.Marked workspace.sources) :
    Pinpoints workspace.sources (Run.executeWithin settings cycles depth run workspace) := by
  induction depth generalizing run workspace with
  | zero => exact .of_event marked rfl
  | succ depth ih =>
    have mine := marked run.machine List.mem_cons_self
    have executes := executes_executeWithin settings cycles depth run workspace
    generalize Run.executeWithin settings cycles (depth + 1) run workspace = result at executes ⊢
    cases executes with
    | interrupted => exact marked.fail mine.interruption false mine.fault
    | faulty _ faulty => exact marked.fail (mine.fault _ faulty) _ fun _ absent => by cases absent
    | finished | awaiting => exact .of_event marked rfl
    | running quiet clean running comes =>
      exact comes.pinpoints (fun guided => guided.executeWithin settings cycles depth) ih guided marked
        ⟨⟨guided.idle running, clean, quiet⟩, running⟩

theorem Broken.pinpoints (broken : run.Broken) (settings : Settings) (cycles : Nat)
    (marked : run.Marked workspace.sources) : Pinpoints workspace.sources (run.execute settings cycles workspace) := by
  obtain ⟨machine, modules⟩ := run
  have fault : machine.fault = none := broken.fault
  have phase : machine.phase = .finished := broken.phase
  have mine := marked machine List.mem_cons_self
  rw [Run.execute, Run.executeWithin]
  split
  · exact marked.fail mine.interruption false mine.fault
  · rw [fault, phase]
    exact .of_event marked rfl

end Run

variable {settings : Settings} {program : List Item} {workspace before : Workspace} {run : Run}

theorem Reached.execute_pinpoints (reached : Reached settings program workspace run before)
    (marked : run.Marked before.sources) (cycles : Nat) :
    Run.Pinpoints before.sources (run.execute settings cycles before) := by
  rcases reached.guided with guided | broken
  · exact guided.pinpoints settings cycles (settings.depth + 1) marked
  · exact broken.pinpoints settings cycles marked

theorem Reached.marked (reached : Reached settings program workspace run before)
    (marks : workspace.sources.MarksAll (placesOf program)) :
    workspace.sources.Grows before.sources ∧ run.Marked before.sources := by
  induction reached with
  | start => exact ⟨.refl _, List.forall_mem_singleton.2 (Machine.marked_start marks settings.capacity)⟩
  | execute cycles reached ih =>
    have executed := reached.execute_pinpoints ih.2 cycles
    exact ⟨ih.1.trans executed.grows, executed.marked⟩
  | enter line _ ih => exact ⟨ih.1, ih.2.onInnermost fun machine marked => marked.enter line⟩
  | closeInput _ ih => exact ⟨ih.1, ih.2.onInnermost fun machine marked => marked.closeInput⟩
  | @interrupt run _ _ ih =>
    obtain ⟨mine, others⟩ := List.forall_mem_cons.1 ih.2
    exact ⟨ih.1, List.forall_mem_cons.2
      ⟨⟨mine.tape, mine.functions, mine.callers, mine.pending, mine.fault⟩, others⟩⟩

namespace Sources

variable {sources : Sources} {failure : Failure}

/-- The place is that of whole characters, at least one, of a file in the table. They are a token of the file, or what
is wrong with a literal in it: the literal that is not closed, or the escape that is none. -/
structure PointsAt (sources : Sources) (failure : Failure) (place : Location) (file : SourceFile) : Prop where
  known : sources.get? place.file = some file
  nonempty : place.start < place.stop
  inside : place.stop ≤ file.text.utf8ByteSize
  begins : String.Pos.Raw.IsValid file.text ⟨place.start⟩
  ends : String.Pos.Raw.IsValid file.text ⟨place.stop⟩
  span : (∃ tokens, Token.ofText place.file file.text = .ok tokens ∧ ∃ token ∈ tokens, token.place = place) ∨
    Token.ofText place.file file.text = .error failure ∧ Lexer.GoesAstray place.file 0 file.text.toList failure

/-- A failure that is no interruption has a place, and a place that it has points at the text of a file. That is so for
good, however many files come behind. -/
def Explains (sources : Sources) (failure : Failure) : Prop :=
  (failure.cause.code ≠ .interrupted → failure.place ≠ none) ∧
    ∀ place, failure.place = some place → ∀ later, sources.Grows later → ∃ file, later.PointsAt failure place file

theorem Marks.pointsAt {place : Location} (marks : sources.Marks place) (failure : Failure) :
    ∃ file, sources.PointsAt failure place file := by
  obtain ⟨file, tokens, known, read, token, member, rfl⟩ := marks
  obtain ⟨-, covers⟩ := (Lexer.reads_ofText _ _).covers read member
  obtain ⟨some, inside, begins, ends⟩ := covers.spans
  exact ⟨file, known, some, inside, begins, ends, .inl ⟨tokens, read, token, member, rfl⟩⟩

theorem Shows.pointsAt (shown : sources.Shows failure) {place : Location} (located : failure.place = some place) :
    ∃ file, sources.PointsAt failure place file := by
  cases shown with
  | token marks =>
    cases located
    exact marks.pointsAt _
  | @misspelled number file failure known failed =>
    have astray := (Lexer.reads_ofText number file.text).goesAstray failed
    obtain ⟨found, located', here, covers⟩ := astray.covers
    cases located.symm.trans located'
    subst here
    obtain ⟨some, inside, begins, ends⟩ := covers.spans
    exact ⟨file, known, some, inside, begins, ends, .inr ⟨failed, astray⟩⟩
  | nowhere => cases located

theorem Shows.explains (shown : sources.Shows failure) : sources.Explains failure := by
  refine ⟨?_, fun place located later grows => (shown.grow grows).pointsAt located⟩
  cases shown with
  | token => simp
  | misspelled known failed =>
    obtain ⟨place, located, -⟩ := ((Lexer.reads_ofText _ _).goesAstray failed).covers
    simp [located]
  | nowhere => exact fun other => (other rfl).elim

end Sources

/-- Every failure points at real text. Whether a program is compiled, checked or run, in whatever way its driver does
so, each failure has a place, unless it is an interruption, and each place that a failure has is that of a token of a
file in the table, or of what is wrong with a literal there. The files of the table stay where they are, from the first
stage to the last, so that the places stay good. Checks and runs may begin as soon as the program has been compiled, or
at any time later. -/
theorem failures_point_at_text (settings : Settings) (name text : String) (workspace : Workspace) :
    workspace.sources.Grows (settings.compile name text workspace).2.sources ∧
    (∀ failure, (settings.compile name text workspace).1 = .error failure →
      (settings.compile name text workspace).2.sources.Explains failure) ∧
    ∀ program, (settings.compile name text workspace).1 = .ok program →
      ∀ started : Workspace, (settings.compile name text workspace).2.sources.Grows started.sources →
        started.sources.Grows (settings.check program started).2.sources ∧
        (∀ failure, (settings.check program started).1 = .error failure →
          (settings.check program started).2.sources.Explains failure) ∧
        ∀ run before, Reached settings program started run before →
          started.sources.Grows before.sources ∧
          ∀ cycles, before.sources.Grows (run.execute settings cycles before).2.2.sources ∧
            ∀ failure, (run.execute settings cycles before).1 = .error failure →
              (run.execute settings cycles before).2.2.sources.Explains failure := by
  have compiled := settings.traced_compile name text workspace
  refine ⟨compiled.grows, fun failure failed => (compiled.failed failure failed).explains, ?_⟩
  intro program made started grows
  have marks := (compiled.marks program made).grow grows
  have checked := settings.traced_check marks
  refine ⟨checked.grows, fun failure failed => (checked.failed failure failed).explains, ?_⟩
  intro run before reached
  obtain ⟨kept, marked⟩ := reached.marked marks
  refine ⟨kept, fun cycles => ?_⟩
  have executed := reached.execute_pinpoints marked cycles
  exact ⟨executed.grows, fun failure failed => (executed.failed failure failed).explains⟩

/-- A library of one module, which adds a text and a number. -/
def mixing : Settings where
  library := .memory (.ofList [("m", "\"é\" 1 +")])
  splice := false
  capacity := 4

/-- The program `import m`, run until the module fails. -/
def mixed : Run.Result :=
  (Run.start mixing (.ofItems [.imports ⟨0, 0, 6⟩ "m"])).execute mixing 9 { sources := ⟨[⟨"r", "import m"⟩]⟩ }

/-- The failure points at the last token of the module, which has become the second file. -/
theorem mixed_points_at_text :
    mixing.compile "r" "import m" {} = (.ok [.imports ⟨0, 0, 6⟩ "m"], { sources := ⟨[⟨"r", "import m"⟩]⟩ }) ∧
    mixed.1 = .error ⟨.operands "+" [.number, .number] [.string, .number], some ⟨1, 7, 8⟩⟩ ∧
    mixed.2.2.sources.Explains ⟨.operands "+" [.number, .number] [.string, .number], some ⟨1, 7, 8⟩⟩ := by
  have compiled : mixing.compile "r" "import m" {} =
      (.ok [.imports ⟨0, 0, 6⟩ "m"], { sources := ⟨[⟨"r", "import m"⟩]⟩ }) := by cbv
  have failed : mixed.1 = .error ⟨.operands "+" [.number, .number] [.string, .number], some ⟨1, 7, 8⟩⟩ := by cbv
  have points := (failures_point_at_text mixing "r" "import m" {}).2.2
  rw [compiled] at points
  obtain ⟨-, -, runs⟩ := points _ rfl { sources := ⟨[⟨"r", "import m"⟩]⟩ } (.refl _)
  exact ⟨compiled, failed, ((runs _ _ .start).2 9).2 _ failed⟩

end TapeMachine
