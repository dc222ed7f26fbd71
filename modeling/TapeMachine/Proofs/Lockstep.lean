import Mathlib
import TapeMachine.Proofs.Modules
import TapeMachine.Proofs.Slices

namespace TapeMachine

namespace Run

variable {settings : Settings} {depth : Nat} {earlier later : Run × Workspace} {result : Result}

/-- Some turns that show nothing, and one turn more, come to the result. -/
def Comes (settings : Settings) (depth : Nat) (before : Run × Workspace) (result : Result) : Prop :=
  ∃ last, Relation.ReflTransGen (Tick settings depth) before last ∧
    executeWithin settings 1 depth last.1 last.2 = result

theorem Comes.of_turn (turn : executeWithin settings 1 depth earlier.1 earlier.2 = result) :
    Comes settings depth earlier result :=
  ⟨earlier, .refl, turn⟩

theorem Comes.of_ticks (ticks : Relation.TransGen (Tick settings depth) earlier later) :
    Comes settings depth earlier (.running, later) :=
  Relation.TransGen.tail'_iff.1 ticks

theorem Comes.before (ticks : Relation.ReflTransGen (Tick settings depth) earlier later)
    (comes : Comes settings depth later result) : Comes settings depth earlier result := by
  obtain ⟨last, more, turn⟩ := comes
  exact ⟨last, ticks.trans more, turn⟩

/-- What two runs come to depends on their next turn only. -/
theorem Comes.of_same
    (same : executeWithin settings 1 depth earlier.1 earlier.2 = executeWithin settings 1 depth later.1 later.2)
    (comes : Comes settings depth later result) : Comes settings depth earlier result := by
  obtain ⟨last, ticks, turn⟩ := comes
  rcases ticks.cases_head with rfl | ⟨next, first, rest⟩
  · exact .of_turn (same.trans turn)
  · exact ⟨last, .head (same.trans first) rest, turn⟩

/-- A walker's turn, by the move at the end of the boundaries he crosses. -/
theorem executeWithin_of_settle {walker next : Walker} (same : walker.machine.settle = next.machine.settle)
    (workspace : Workspace) :
    executeWithin settings 1 (depth + 1) ⟨walker.machine, []⟩ workspace =
      executeWithin settings 1 (depth + 1) ⟨next.machine, []⟩ workspace := by
  rw [executeWithin_of_atWork walker.machine_atWork, executeWithin_of_atWork next.machine_atWork, advance, advance,
    Machine.step_of_settle same]

end Run

namespace Pair

variable {modules : Dictionary String} {final : Sources} {pair next : Pair} {there : Workspace}

/-- The spliced one, where he stands. His workspace does not change any more. -/
def state' (pair : Pair) (there : Workspace) : Run × Workspace :=
  (⟨pair.spliced.machine, []⟩, there)

/-- The two stand at the same place of the program, and no module is being imported. -/
structure Level (modules : Dictionary String) (final : Sources) (pair : Pair) : Prop where
  mirrors : pair.lazy.Mirrors (Resolved modules final) (pair.workspace.sources.Near final) pair.spliced
  placed : pair.lazy.Placed
  placed' : pair.spliced.Placed
  ready : pair.workspace.Ready modules final []

/-- What the turns of the two come to. -/
inductive Outcome (modules : Dictionary String) (final : Sources) (there : Workspace) : Run.Result → Run.Result → Prop
  | running {next : Pair} : next.Level modules final →
      Outcome modules final there (.running, next.state) (.running, next.state' there)
  | prints {text : String} {next : Pair} : next.Level modules final →
      Outcome modules final there (.print text, next.state) (.print text, next.state' there)
  | asks {kind : InputKind} {prompt : String} {place place' : Location} {next : Pair} :
      next.workspace.sources.Near final place place' → next.Level modules final →
      Outcome modules final there (.input prompt, ⟨next.lazy.awaiting kind place, []⟩, next.workspace)
        (.input prompt, ⟨next.spliced.awaiting kind place', []⟩, there)
  | fails {cause : Cause} {place place' : Location} {last last' : Machine} {workspace : Workspace} :
      workspace.sources.Near final place place' → last.Calm → last'.Calm →
      Outcome modules final there (.error ⟨cause, some place⟩, ⟨{ last with phase := .finished }, []⟩, workspace)
        (.error ⟨cause, some place'⟩, ⟨{ last' with phase := .finished }, []⟩, there)
  | ends {event : Event} {last last' : Machine} {store : Store} {later : List Event} {workspace : Workspace} :
      store.farewell = event :: later → last.Calm → last'.Calm →
      Outcome modules final there (event, ⟨{ last with phase := .finished }, []⟩, workspace)
        (event, ⟨{ last' with phase := .finished }, []⟩, there)

/-- The lazy one runs a module, and the other one what stands in its place. -/
theorem Level.passes_import {settings : Settings} {place : Location} {name : String} {rest rest' : List Piece}
    {included : List Item} (level : pair.Level modules final) (library : settings.library = .memory modules)
    (lazy : settings.splice = false)
    (here : pair.lazy.AtImport (Resolved modules final) (pair.workspace.sources.Near final) pair.spliced place name rest
      included rest') :
    ∃ next : Pair, Relation.TransGen (Run.Tick settings (settings.depth + 1)) pair.state next.state ∧
      Relation.ReflTransGen Walker.Ran pair.spliced next.spliced ∧ next.lazy.code = rest ∧ next.Level modules final := by
  obtain ⟨depth, chain, resolved⟩ := here.resolved
  have unnested : pair.workspace.chain = [] := List.eq_nil_iff_forall_not_mem.2 fun name member =>
    List.not_mem_nil (level.ready.within name member)
  have ready : pair.workspace.Ready modules final chain :=
    ⟨level.ready.texts, by simp [unnested], level.ready.nodup, level.ready.known⟩
  have room : modules.entries.length < settings.depth + pair.workspace.chain.length := by
    simp [Settings.depth, library, Library.names, unnested]
  have shares : pair.Shares modules final (fun _ => none) := by
    refine ⟨level.placed, fun name => ?_, level.mirrors.builtins⟩
    rw [Option.or_none]
    exact level.mirrors.functions name
  obtain ⟨next, ticks, passes, shares⟩ :=
    passesImports library lazy depth resolved here.spares ready room here.code here.code' shares
  have nearing := fun place place' near => @Sources.Near.grow _ _ _ final place place' passes.grown near
  refine ⟨next, ticks, passes.spliced.ran, passes.code, ⟨?_, ?_, ?_, shares.builtins, ?_⟩, shares.placed, ?_, ?_⟩
  · rw [passes.code, passes.spliced.code]
    exact here.later.mono nearing
  · rw [passes.blocks, passes.spliced.blocks]
    exact level.mirrors.blocks.imp fun _ _ block => block.mono nearing
  · intro name
    have shared := shares.functions name
    rwa [Option.or_none] at shared
  · rw [passes.store, passes.spliced.store, level.mirrors.store]
  · exact (level.placed'.ticks_of_ran passes.spliced.ran settings 0 {}).2
  · exact level.ready.grow passes.grown passes.chain

/-- A move that both make, unless it only crosses a boundary. -/
theorem Level.outcome {lazy spliced : Settings} (level : pair.Level modules final)
    (moves : pair.lazy.move.Mirrors (Resolved modules final) (pair.workspace.sources.Near final) pair.spliced.move)
    (still : ∀ next, pair.spliced.move ≠ .crossed next) (levels levels' : Nat) (there : Workspace) :
    Outcome modules final there
      (Run.executeWithin lazy 1 (levels + 1) ⟨pair.lazy.machine, []⟩ pair.workspace)
      (Run.executeWithin spliced 1 (levels' + 1) ⟨pair.spliced.machine, []⟩ there) := by
  rw [Run.executeWithin_of_atWork pair.lazy.machine_atWork, Run.executeWithin_of_atWork pair.spliced.machine_atWork]
  have shown := fun shows => level.placed.reports shows rfl lazy (Run.executeWithin lazy 1 levels) 0 pair.workspace
  have shown' := fun shows => level.placed'.reports shows rfl spliced (Run.executeWithin spliced 1 levels') 0 there
  have agrees := level.placed.agrees
  have agrees' := level.placed'.agrees
  generalize moved : pair.lazy.move = move at moves
  generalize moved' : pair.spliced.move = move' at moves
  rw [Walker.Reports, moved] at shown
  rw [Walker.Reports, moved'] at shown'
  rw [moved] at agrees
  rw [moved'] at agrees'
  cases moves with
  | crossed => exact (still _ moved').elim
  | @ran next next' onward =>
    rw [Run.advance, Run.advance, agrees.1, agrees'.1]
    exact @Outcome.running _ _ _ ⟨next, next', pair.workspace⟩ ⟨onward, agrees.2, agrees'.2, level.ready⟩
  | @prints text next next' onward =>
    rw [shown trivial, shown' trivial]
    exact @Outcome.prints _ _ _ _ ⟨next, next', pair.workspace⟩ ⟨onward, agrees.2, agrees'.2, level.ready⟩
  | @asks kind prompt place place' next next' near onward =>
    rw [shown trivial, shown' trivial]
    exact @Outcome.asks _ _ _ _ _ _ _ ⟨next, next', pair.workspace⟩ near ⟨onward, agrees.2, agrees'.2, level.ready⟩
  | failed near =>
    obtain ⟨last, calm, result⟩ := shown trivial
    obtain ⟨last', calm', result'⟩ := shown' trivial
    rw [result, result']
    exact .fails near calm calm'
  | ends =>
    obtain ⟨event, later, farewell, result⟩ := shown trivial
    obtain ⟨event', later', farewell', result'⟩ := shown' trivial
    rw [← level.mirrors.store, farewell] at farewell'
    cases farewell'
    rw [result, result']
    exact .ends farewell pair.lazy.machine_calm pair.spliced.machine_calm

/-- The next thing that the lazy one comes to, the other one comes to. -/
theorem Level.turn {lazy : Settings} {pair : Pair} (level : pair.Level modules final)
    (library : lazy.library = .memory modules) (kept : lazy.splice = false) (spliced : Settings) (there : Workspace) :
    ∃ result result', Run.Comes lazy (lazy.depth + 1) pair.state result ∧
      Run.Comes spliced (spliced.depth + 1) (pair.state' there) result' ∧ Outcome modules final there result result' := by
  rcases level.mirrors.move with ⟨place, name, rest, included, rest', here⟩ | moves
  · obtain ⟨next, ticks, ran, code, onward⟩ := level.passes_import library kept here
    rcases ran.cases_head with same | ⟨first, begins, later⟩
    · -- The module has nothing in it, and the spliced one has not moved.
      have shorter : next.lazy.code.length < pair.lazy.code.length := by
        rw [code, here.code]
        exact Nat.lt_succ_self _
      obtain ⟨result, result', comes, comes', outcome⟩ := onward.turn library kept spliced there
      rw [state', ← same] at comes'
      exact ⟨result, result', .before ticks.to_reflTransGen comes, comes', outcome⟩
    · have moved := (level.placed'.tick_of_ran begins spliced spliced.depth there)
      have moves := (moved.2.ticks_of_ran later spliced spliced.depth there).1
      exact ⟨_, _, .of_ticks ticks, .of_ticks (.head' moved.1 moves), .running onward⟩
  · by_cases crosses : ∃ next', pair.spliced.move = .crossed next'
    · obtain ⟨crossed', moved'⟩ := crosses
      have smaller := Walker.slack_of_crossed moved'
      have agrees := level.placed.agrees
      have agrees' := level.placed'.agrees
      generalize moved : pair.lazy.move = move at moves agrees
      rw [moved'] at moves agrees'
      cases moves with
      | @crossed crossed _ onward =>
        have level : Level modules final ⟨crossed, crossed', pair.workspace⟩ :=
          ⟨onward, agrees.2, agrees'.2, level.ready⟩
        obtain ⟨result, result', comes, comes', outcome⟩ := level.turn library kept spliced there
        exact ⟨result, result', .of_same (Run.executeWithin_of_settle agrees.1 _) comes,
          .of_same (Run.executeWithin_of_settle agrees'.1 _) comes', outcome⟩
    · exact ⟨_, _, .of_turn rfl, .of_turn rfl, level.outcome moves (fun next moved' => crosses ⟨next, moved'⟩) _ _ there⟩
termination_by (pair.spliced.slack, pair.lazy.code.length)
decreasing_by
  · rw [← same]
    exact Prod.Lex.right _ shorter
  · exact Prod.Lex.left _ _ smaller

end Pair

end TapeMachine
