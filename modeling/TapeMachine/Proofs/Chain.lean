import Mathlib
import TapeMachine.Proofs.Frames
import TapeMachine.Typing

namespace TapeMachine

theorem Build.chain_andThen {α β : Type} {build : Build α} {next : α → Workspace → Build β} {chain : List String}
    (first : build.2.chain = chain)
    (later : ∀ made after, build = (.ok made, after) → (next made after).2.chain = after.chain) :
    (build.andThen next).2.chain = chain := by
  obtain ⟨outcome, after⟩ := build
  cases outcome with
  | error failure => exact first
  | ok made => exact (later made after rfl).trans first

namespace Workspace

variable {workspace after : Workspace} {library : Library} {name : String} {place : Location}

theorem chain_enlist (workspace : Workspace) (path text : String) :
    (workspace.enlist path text).2.chain = workspace.chain := by
  unfold enlist
  split <;> rfl

/-- A module that has been opened is the newest on the chain, on which it was not before. -/
theorem chain_of_opened {tokens : List Token}
    (opened : workspace.openModule library name place = (.ok tokens, after)) :
    name ∉ workspace.chain ∧ after.chain = workspace.chain ++ [name] := by
  unfold openModule at opened
  split at opened
  · cases opened
  · split at opened
    · cases opened
    · rename_i fresh
      split at opened
      · cases opened
      · dsimp only at opened
        split at opened
        · cases opened
        · cases opened
          exact ⟨fresh, by rw [chain_enlist]⟩

theorem chain_of_notOpened {failure : Failure}
    (failed : workspace.openModule library name place = (.error failure, after)) :
    after.chain = workspace.chain := by
  unfold openModule at failed
  split at failed
  · cases failed
    rfl
  · split at failed
    · cases failed
      rfl
    · split at failed
      · cases failed
        rfl
      · dsimp only at failed
        split at failed
        · cases failed
          exact chain_enlist ..
        · cases failed

/-- What is done between the opening and the closing of a module leaves the chain as it was, if it does so itself. -/
theorem chain_close {chain : List String} (grown : workspace.chain = chain ++ [name]) :
    workspace.close.chain = chain := by
  rw [close, grown, List.dropLast_concat]

end Workspace

namespace Assembly

/-- What holds between the workspaces before and behind each import holds between those before and behind a program, if
it may be chained. -/
theorem run_related {importer : Importer} {related : Workspace → Workspace → Prop}
    (refl : ∀ workspace, related workspace workspace)
    (trans : ∀ {first second third}, related first second → related second third → related first third)
    (imports : ∀ name place workspace, related workspace (importer name place workspace).2) (assembly : Assembly)
    (tokens : List Token) (workspace : Workspace) : related workspace (run importer assembly tokens workspace).2 := by
  induction tokens generalizing assembly workspace with
  | nil => exact refl workspace
  | cons token rest ih =>
    rw [run]
    split
    · exact refl workspace
    · exact ih ..
    · rename_i name place next _
      have resolved := imports name place workspace
      split
      · rename_i failed
        rw [failed] at resolved
        exact resolved
      · rename_i found
        rw [found] at resolved
        exact trans resolved (ih ..)

/-- Whatever becomes of an import, the modules in progress are the same behind it. -/
def Importer.KeepsChain (importer : Importer) : Prop :=
  ∀ name place workspace, (importer name place workspace).2.chain = workspace.chain

theorem chain_run {importer : Importer} (keeps : importer.KeepsChain) (assembly : Assembly) (tokens : List Token)
    (workspace : Workspace) : (run importer assembly tokens workspace).2.chain = workspace.chain := by
  refine @run_related importer (fun before after => after.chain = before.chain) (fun _ => rfl) ?_ keeps assembly tokens
    workspace
  intro first second third earlier later
  exact later.trans earlier

theorem keepImports_keepsChain : keepImports.KeepsChain :=
  fun _ _ _ => rfl

theorem spliceImports_keepsChain (library : Library) (depth : Nat) : (spliceImports library depth).KeepsChain := by
  induction depth with
  | zero => exact fun _ _ _ => rfl
  | succ depth ih =>
    intro name place workspace
    rw [spliceImports]
    cases opened : workspace.openModule library name place with
    | mk outcome after =>
    cases outcome with
    | error failure => exact Workspace.chain_of_notOpened opened
    | ok tokens =>
      have inside := chain_run ih {} tokens after
      rw [(Workspace.chain_of_opened opened).2] at inside
      exact Workspace.chain_close inside

end Assembly

namespace Settings

variable {settings : Settings} {name : String} {place : Location} {workspace after : Workspace}

theorem chain_assemble (settings : Settings) (tokens : List Token) (workspace : Workspace) :
    (settings.assemble tokens workspace).2.chain = workspace.chain := by
  refine Assembly.chain_run ?_ {} tokens workspace
  unfold importer
  split
  · exact Assembly.spliceImports_keepsChain settings.library settings.depth
  · exact Assembly.keepImports_keepsChain

theorem chain_compile (settings : Settings) (name text : String) (workspace : Workspace) :
    (settings.compile name text workspace).2.chain = workspace.chain := by
  rw [compile]
  split
  · rfl
  · exact chain_assemble ..

/-- A module that has been entered stays on the chain. -/
theorem chain_of_entered {items : List Item} (entered : settings.enterModule name place workspace = (.ok items, after)) :
    name ∉ workspace.chain ∧ after.chain = workspace.chain ++ [name] := by
  unfold enterModule at entered
  cases opened : workspace.openModule settings.library name place with
  | mk outcome between =>
  rw [opened] at entered
  cases outcome with
  | error failure => cases entered
  | ok tokens =>
    obtain ⟨fresh, grown⟩ := Workspace.chain_of_opened opened
    have inside := settings.chain_assemble tokens between
    simp only [Build.andThen] at entered
    split at entered
    · cases entered
    · rename_i assembled
      cases entered
      rw [assembled] at inside
      exact ⟨fresh, inside.trans grown⟩

theorem chain_of_notEntered {failure : Failure}
    (failed : settings.enterModule name place workspace = (.error failure, after)) :
    after.chain = workspace.chain := by
  unfold enterModule at failed
  cases opened : workspace.openModule settings.library name place with
  | mk outcome between =>
  rw [opened] at failed
  cases outcome with
  | error failure =>
    cases failed
    exact Workspace.chain_of_notOpened opened
  | ok tokens =>
    have inside := settings.chain_assemble tokens between
    rw [(Workspace.chain_of_opened opened).2] at inside
    simp only [Build.andThen] at failed
    split at failed
    · rename_i assembled
      cases failed
      rw [assembled] at inside
      exact Workspace.chain_close inside
    · cases failed

/-- The program of the module `name`, which is closed at once. -/
def moduleProgram (settings : Settings) (name : String) (place : Location) (workspace : Workspace) :
    Build (List Item) :=
  (settings.enterModule name place workspace).andThen fun items after => (.ok items, after.close)

theorem chain_moduleProgram (settings : Settings) (name : String) (place : Location) (workspace : Workspace) :
    (settings.moduleProgram name place workspace).2.chain = workspace.chain := by
  rw [moduleProgram]
  cases entered : settings.enterModule name place workspace with
  | mk outcome after =>
  cases outcome with
  | error failure => exact chain_of_notEntered entered
  | ok items => exact Workspace.chain_close (chain_of_entered entered).2

end Settings

namespace Typing

/-- Whatever becomes of a module, the modules in progress are the same behind it. -/
def Modules.KeepsChain (modules : Modules) : Prop :=
  ∀ name place workspace, (modules name place workspace).2.chain = workspace.chain

mutual

theorem chain_check {modules : Modules} (keeps : modules.KeepsChain) (typing : Typing) (item : Item)
    (workspace : Workspace) : (check modules typing item workspace).2.chain = workspace.chain := by
  cases item with
  | number | string | word => rfl
  | imports place name => exact Build.chain_andThen (keeps ..) fun _ _ _ => rfl
  | branch place body stop =>
    refine Build.chain_andThen rfl fun opened after _ => ?_
    refine Build.chain_andThen (chain_checkAll keeps opened body after) fun closed after _ => ?_
    split <;> rfl
  | choice place consequent middle alternative stop =>
    refine Build.chain_andThen rfl fun opened after _ => ?_
    refine Build.chain_andThen (chain_checkAll keeps opened consequent after) fun first after _ => ?_
    refine Build.chain_andThen (chain_checkAll keeps _ alternative after) fun second after _ => ?_
    split <;> rfl
  | repeats place body stop =>
    exact Build.chain_andThen rfl fun opened after _ => chain_checkAll keeps opened body after
  | loop place test middle body stop =>
    refine Build.chain_andThen (chain_checkAll keeps typing test workspace) fun tested after _ => ?_
    split
    · exact Build.chain_andThen rfl fun opened after _ => chain_checkAll keeps opened body after
    · rfl
  | bind place names body stop =>
    refine Build.chain_andThen rfl fun opened after _ => ?_
    exact Build.chain_andThen (chain_checkAll keeps opened body after) fun _ _ _ => rfl
  | cell place name body stop =>
    exact Build.chain_andThen (chain_checkAll keeps _ body workspace) fun _ _ _ => rfl
  | define place heading body stop =>
    refine Build.chain_andThen rfl fun signature after _ => ?_
    refine Build.chain_andThen rfl fun opened after _ => ?_
    refine Build.chain_andThen (chain_checkAll keeps opened body after) fun closed after _ => ?_
    exact Build.chain_andThen rfl fun _ _ _ => rfl

theorem chain_checkAll {modules : Modules} (keeps : modules.KeepsChain) (typing : Typing) (items : List Item)
    (workspace : Workspace) : (checkAll modules typing items workspace).2.chain = workspace.chain := by
  match items with
  | [] => rfl
  | item :: rest =>
    exact Build.chain_andThen (chain_check keeps typing item workspace) fun next after _ =>
      chain_checkAll keeps next rest after

end

theorem chain_checkProgram {modules : Modules} (keeps : modules.KeepsChain) (items : List Item)
    (workspace : Workspace) : (checkProgram modules items workspace).2.chain = workspace.chain := by
  refine Build.chain_andThen (chain_checkAll keeps start items workspace) fun typing after _ => ?_
  split <;> rfl

end Typing

namespace Settings

theorem moduleSignatures_keepsChain (settings : Settings) (depth : Nat) :
    (settings.moduleSignatures depth).KeepsChain := by
  induction depth with
  | zero => exact fun _ _ _ => rfl
  | succ depth ih =>
    intro name place workspace
    rw [moduleSignatures]
    cases entered : settings.enterModule name place workspace with
    | mk outcome after =>
    cases outcome with
    | error failure => exact chain_of_notEntered entered
    | ok items =>
      have inside := Typing.chain_checkProgram ih items after
      rw [(chain_of_entered entered).2] at inside
      exact Workspace.chain_close inside

theorem chain_check (settings : Settings) (items : List Item) (workspace : Workspace) :
    (settings.check items workspace).2.chain = workspace.chain :=
  Typing.chain_checkProgram (settings.moduleSignatures_keepsChain settings.depth) items workspace

end Settings

namespace Machine

/-- The name in the import at which a machine stands. -/
def importing? (machine : Machine) : Option String :=
  match machine.tape[machine.ip]? with
  | some ⟨.imports name, _⟩ => some name
  | _ => none

/-- What an instruction tells of the machine behind it: if it is an import, the machine stands at it, and if it shows
something, there is more to come. -/
def Progress.GoesOn (machine : Machine) : Progress → Prop
  | .imports name _ next => next.importing? = some name
  | .shows event next => event.ends = false ∧ next.fault = machine.fault
  | .ran _ | .failed .. => True

theorem goesOn_leave (machine : Machine) (value : Value) : (machine.leave value).GoesOn machine := by
  unfold leave
  split <;> trivial

theorem goesOn_builtin (machine : Machine) (word : Builtin) (place : Location) :
    (machine.builtin word place).GoesOn machine := by
  unfold Machine.builtin
  split
  · trivial
  · rename_i effect _ _ _
    cases effect with
    | «continue» => trivial
    | print | input => exact ⟨rfl, rfl⟩

theorem goesOn_unwind (here : Machine) (frames : List Frame) (machine : Machine) :
    (unwind frames machine).GoesOn here := by
  induction frames generalizing machine with
  | nil => trivial
  | cons frame outer ih =>
    cases frame with
    | call => trivial
    | branch | repeats | loop => exact ih machine
    | cell stop address =>
      rw [unwind]
      split
      · exact ih _
      · trivial

theorem goesOn_perform {machine : Machine} {instruction : Instruction}
    (here : machine.tape[machine.ip]? = some instruction) : (machine.perform instruction).GoesOn machine := by
  obtain ⟨opcode, place⟩ := instruction
  unfold perform
  cases opcode with
  | imports name => simp [Progress.GoesOn, importing?, here]
  | number | string => exact goesOn_leave ..
  | ret => exact goesOn_unwind ..
  | loop | unbind | define | dropCell | enter | noop => trivial
  | branch | repeats =>
    simp only [branch, repeats]
    (repeat' split) <;> trivial
  | bind | cell =>
    simp only [bind, cell]
    split <;> trivial
  | call name =>
    simp only [call]
    split
    · exact goesOn_builtin ..
    · trivial
    · split
      · exact goesOn_leave ..
      · trivial

/-- A machine that meets an import stands at it. -/
theorem importing?_of_step {machine next : Machine} {name : String} {place : Location}
    (stepped : machine.step = .imports name place next) : next.importing? = some name := by
  unfold step at stepped
  split at stepped
  · cases stepped
  · unfold finish at stepped
    dsimp only at stepped
    split at stepped <;> cases stepped
  · split at stepped
    · rename_i here
      have goesOn := goesOn_perform here
      rw [stepped] at goesOn
      exact goesOn
    · cases stepped

end Machine

namespace Run

/-- The machines of a run are nested as the chain says: each one that waits stands at the import of the module it
waits for, and the name of the module was not on the chain before. -/
inductive Linked (chain : List String) : (base : List String) → Run → Prop
  | alone {machine : Machine} : (machine.phase = .running → machine.pending = none) →
      Linked chain chain ⟨machine, []⟩
  | waiting {base : List String} {name : String} {machine module : Machine} {inner : List Machine} :
      machine.phase = .running → machine.pending = none → machine.importing? = some name → name ∉ base →
      Linked chain (base ++ [name]) ⟨module, inner⟩ → Linked chain base ⟨machine, module :: inner⟩

variable {settings : Settings} {chain base : List String} {run : Run} {workspace : Workspace}

/-- The names on the chain behind `base` are those of the modules that the machines of a run wait for. -/
theorem Linked.names (linked : Linked chain base run) :
    ∃ names, chain = base ++ names ∧
      (run.machine :: run.modules).dropLast.map Machine.importing? = names.map some ∧
      names.Nodup ∧ ∀ name ∈ names, name ∉ base := by
  induction linked with
  | alone => exact ⟨[], by simp, rfl, List.nodup_nil, by simp⟩
  | @waiting base name machine module inner _ _ stands fresh _ ih =>
    obtain ⟨names, rfl, others, nodup, apart⟩ := ih
    refine ⟨name :: names, by simp, ?_, ?_, ?_⟩
    · rw [List.dropLast_cons_cons, List.map_cons, List.map_cons, stands, others]
    · refine List.nodup_cons.2 ⟨fun member => ?_, nodup⟩
      exact apart name member (List.mem_append_right base (List.mem_singleton_self name))
    · rintro other (_ | ⟨_, later⟩)
      · exact fresh
      · exact fun member => apart other later (List.mem_append_left [name] member)

theorem foldl_close (modules : List Machine) (workspace : Workspace) :
    (modules.foldl (fun workspace _ => workspace.close) workspace).chain =
      List.dropLast^[modules.length] workspace.chain := by
  induction modules generalizing workspace with
  | nil => rfl
  | cons module inner ih => exact ih workspace.close

/-- When the modules in progress are given up, the chain is what it was before them. -/
theorem Linked.dropLast (linked : Linked chain base run) : List.dropLast^[run.modules.length] chain = base := by
  induction linked with
  | alone => rfl
  | waiting _ _ _ _ _ ih =>
    rw [List.length_cons, Function.iterate_succ_apply', ih, List.dropLast_concat]

/-- What an execution comes to: a run that is nested as the chain says, and has no modules left if it has ended. -/
structure Keeps (base : List String) (result : Result) : Prop where
  linked : Linked result.2.2.chain base result.2.1
  ended : result.1.ends = true → result.2.1.modules = []

theorem Keeps.chain_of_ends {result : Result} (keeps : Keeps base result) (ends : result.1.ends = true) :
    result.2.2.chain = base := by
  have dropped := keeps.linked.dropLast
  rw [keeps.ended ends] at dropped
  exact dropped

theorem Linked.fail (linked : Linked workspace.chain base run) (failure : Failure) :
    Keeps base (fail run failure workspace) := by
  refine ⟨?_, fun _ => rfl⟩
  have dropped := linked.dropLast
  rw [← foldl_close] at dropped
  rw [Run.fail]
  dsimp only
  rw [dropped]
  exact .alone (fun running => by cases running)

/-- A machine that is broken off may have been told so, or have got a bad answer. -/
theorem Linked.outside (linked : Linked chain base run) (interrupted : Bool) (fault : Option Failure) :
    Linked chain base ⟨{ run.machine with interrupted, fault }, run.modules⟩ := by
  cases linked with
  | alone idle => exact .alone idle
  | waiting running idle stands fresh linked => exact .waiting running idle stands fresh linked

/-- What turns come to keeps the chain, if that is so for the executions of a module. -/
theorem ComesTo.keeps {execute : Run → Workspace → Result} {result : Result}
    (inside : ∀ {base run workspace}, Linked workspace.chain base run → Keeps base (execute run workspace))
    (comes : ComesTo settings execute run workspace result) (linked : Linked workspace.chain base run)
    (atWork : run.machine.AtWork) : Keeps base result := by
  induction comes with
  | out => exact ⟨linked, fun ends => by cases ends⟩
  | ran stepped _ ih =>
    have onward : Machine.AtWork _ := atWork.onward stepped
    cases linked with
    | alone => exact ih (.alone fun _ => onward.pending) onward
  | @shows _ next event _ stepped =>
    have poised : next.Poised event.asks := atWork.onward stepped
    cases linked with
    | alone =>
      refine ⟨.alone fun running => ?_, fun _ => rfl⟩
      cases asks : event.asks with
      | true =>
        rw [asks] at poised
        have awaits : next.Awaits := poised
        cases awaits.phase.symm.trans running
      | false =>
        rw [asks] at poised
        exact Machine.Answered.pending poised
  | failed stepped =>
    have onward : Machine.AtWork _ := atWork.onward stepped
    cases linked with
    | alone => exact (Linked.alone fun _ => onward.pending).fail _
  | refused stepped entered =>
    have onward : Machine.AtWork _ := atWork.onward stepped
    cases linked with
    | alone =>
      rw [← Settings.chain_of_notEntered entered]
      exact (Linked.alone fun _ => onward.pending).fail _
  | entered stepped entered _ ih =>
    have onward : Machine.AtWork _ := atWork.onward stepped
    obtain ⟨fresh, longer⟩ := Settings.chain_of_entered entered
    cases linked with
    | alone =>
      refine ih (.waiting onward.phase onward.pending (Machine.importing?_of_step stepped) fresh ?_) onward
      rw [longer]
      exact .alone fun _ => rfl
  | adopted executed _ ih =>
    cases linked with
    | waiting _ idle _ _ linked =>
      have kept := inside linked
      rw [executed] at kept
      refine ih ?_ (atWork.change ..)
      rw [Workspace.chain_close (kept.chain_of_ends rfl)]
      exact .alone fun _ => idle
  | broken executed =>
    cases linked with
    | waiting running idle stands fresh linked =>
      have kept := inside linked
      rw [executed] at kept
      exact (Linked.waiting running idle stands fresh kept.linked).fail _
  | waits executed more =>
    cases linked with
    | waiting running idle stands fresh linked =>
      have kept := inside linked
      rw [executed] at kept
      exact ⟨.waiting running idle stands fresh kept.linked, fun ends => by cases more.symm.trans ends⟩

theorem Linked.alone_of_finished (linked : Linked chain base run) (finished : run.machine.phase = .finished) :
    run.modules = [] := by
  cases linked with
  | alone => rfl
  | waiting running => cases running.symm.trans finished

theorem Linked.idle (linked : Linked chain base run) (running : run.machine.phase = .running) :
    run.machine.pending = none := by
  cases linked with
  | alone idle => exact idle running
  | waiting _ idle => exact idle

theorem Linked.executeWithin (linked : Linked workspace.chain base run) (settings : Settings) (cycles depth : Nat) :
    Keeps base (executeWithin settings cycles depth run workspace) := by
  induction depth generalizing base run workspace with
  | zero => exact ⟨linked, fun ends => by cases ends⟩
  | succ depth ih =>
    have executes := executes_executeWithin settings cycles depth run workspace
    generalize Run.executeWithin settings cycles (depth + 1) run workspace = result at executes ⊢
    cases executes with
    | interrupted => exact (linked.outside false _).fail _
    | faulty => exact (linked.outside _ none).fail _
    | finished _ _ finished => exact ⟨linked, fun _ => linked.alone_of_finished finished⟩
    | awaiting => exact ⟨linked, fun ends => by cases ends⟩
    | running quiet clean running comes =>
      exact comes.keeps ih linked ⟨⟨linked.idle running, clean, quiet⟩, running⟩

theorem Linked.onInnermost {change : Machine → Machine} (linked : Linked chain base run)
    (idle : ∀ machine : Machine, (change machine).pending = none) : Linked chain base (run.onInnermost change) := by
  induction linked with
  | alone => exact .alone fun _ => idle _
  | waiting running idle stands fresh _ ih =>
    rw [onInnermost_cons]
    exact .waiting running idle stands fresh ih

end Run

namespace Machine

/-- Whatever is handed in, no question is open behind it. -/
theorem pending_enter (machine : Machine) (line : String) : (machine.enter line).pending = none := by
  unfold enter
  split
  · rename_i none
    exact none
  · dsimp only
    split
    · rfl
    · split <;> rfl

theorem pending_closeInput (machine : Machine) : machine.closeInput.pending = none := by
  unfold closeInput
  split
  · exact machine.pending_enter _
  · exact machine.pending_enter _
  · rename_i none
    exact none

end Machine

variable {settings : Settings} {program : List Item} {workspace before : Workspace} {run : Run}

theorem Reached.linked (reached : Reached settings program workspace run before) :
    run.Linked before.chain workspace.chain := by
  induction reached with
  | start => exact .alone fun _ => rfl
  | execute cycles _ ih => exact (ih.executeWithin settings cycles (settings.depth + 1)).linked
  | enter line _ ih => exact ih.onInnermost fun machine => machine.pending_enter line
  | closeInput _ ih => exact ih.onInnermost Machine.pending_closeInput
  | @interrupt run _ _ ih => exact ih.outside true run.machine.fault

/-- The chain is always that of the modules in progress. No compilation and no check changes it, whatever comes of them.
While a program runs there is one name more on the chain for each machine that waits for a module, outermost first: the
name in the import at which the machine stands, which was not on the chain before. When the run stops or fails, these
names are gone. -/
theorem chain_is_modules_in_progress (settings : Settings) :
    (∀ name text workspace, (settings.compile name text workspace).2.chain = workspace.chain) ∧
    (∀ name place workspace, (settings.moduleProgram name place workspace).2.chain = workspace.chain) ∧
    (∀ items workspace, (settings.check items workspace).2.chain = workspace.chain) ∧
    ∀ program workspace run before, Reached settings program workspace run before →
      (∃ names, before.chain = workspace.chain ++ names ∧
        (run.machine :: run.modules).dropLast.map Machine.importing? = names.map some ∧
        names.Nodup ∧ ∀ name ∈ names, name ∉ workspace.chain) ∧
      ∀ cycles, (run.execute settings cycles before).1.ends = true →
        (run.execute settings cycles before).2.2.chain = workspace.chain := by
  refine ⟨settings.chain_compile, settings.chain_moduleProgram, settings.chain_check, ?_⟩
  intro program workspace run before reached
  have linked := reached.linked
  refine ⟨linked.names, fun cycles ends => ?_⟩
  exact (linked.executeWithin settings cycles (settings.depth + 1)).chain_of_ends ends

/-- A library of two modules, of which one imports the other, which asks a question. -/
def asking : Settings where
  library := .memory (.ofList [("a", "import b"), ("b", "\"?\" ips drop")])
  splice := false
  capacity := 4

/-- The program `import a`, executed up to the question. -/
def asked : Run.Result :=
  (Run.start asking (.ofItems [.imports ⟨0, 0, 6⟩ "a"])).execute asking 9 {}

/-- While the question is open both modules are in progress. If the run is broken off then, none is. -/
theorem asked_chain :
    Reached asking [.imports ⟨0, 0, 6⟩ "a"] {} asked.2.1.interrupt asked.2.2 ∧
    asked.2.2.chain = ["a", "b"] ∧
    (asked.2.1.interrupt.execute asking 1 asked.2.2).1.ends = true ∧
    (asked.2.1.interrupt.execute asking 1 asked.2.2).2.2.chain = [] := by
  have reached : Reached asking [.imports ⟨0, 0, 6⟩ "a"] {} asked.2.1.interrupt asked.2.2 :=
    .interrupt (.execute 9 .start)
  have ends : (asked.2.1.interrupt.execute asking 1 asked.2.2).1.ends = true := by cbv
  have chain : asked.2.2.chain = ["a", "b"] := by cbv
  have closed := ((chain_is_modules_in_progress asking).2.2.2 _ _ _ _ reached).2 1 ends
  exact ⟨reached, chain, ends, closed⟩

end TapeMachine
