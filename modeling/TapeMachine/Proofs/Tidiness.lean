import TapeMachine.Proofs.Ownership

namespace TapeMachine

namespace Machine

variable {machine next : Machine} {past : List Deed}

/-- The `var` blocks of a machine that are open own their cells: each cell is a region of one slot in use, and no two
blocks have the same one; and the scope frame that a block has opened is still there, with all those around it, and
binds the name to the cell. -/
structure Owns (past : List Deed) (machine : Machine) : Prop where
  tiled : machine.heap.Tiled
  held : ∀ address ∈ machine.cells, (address, 1) ∈ machine.heap.holdings
  distinct : machine.cells.Nodup
  bound : ∀ address ∈ machine.cells, ∃ name below,
    Deed.opening? address past = some (name, Dictionary.ofList [(name, .pointer address)] :: below) ∧
      Dictionary.ofList [(name, .pointer address)] :: below <:+ machine.bindings.frames

namespace Owns

/-- A cell can be given back, and nothing else goes with it. -/
theorem dropCell (owns : machine.Owns past) {address : Nat} (member : address ∈ machine.cells) (outer : List Frame) :
    ∃ heap, machine.dropCell address outer =
        (.ok (), { machine with frames := outer, bindings := machine.bindings.pop, heap }) ∧
      heap.usedRegions = machine.heap.usedRegions.filter fun region => region.start ≠ address := by
  obtain ⟨heap, freed, left⟩ := owns.tiled.free_held (owns.held address member)
  refine ⟨heap, ?_, left⟩
  rw [Machine.dropCell, freed]

theorem boundary (owns : machine.Owns past) {stop address : Nat} {outer : List Frame}
    (frames : machine.frames = .cell stop address :: outer) (here : machine.ip = stop) :
    ∃ heap, machine.boundary =
        .settled true { machine with frames := outer, bindings := machine.bindings.pop, heap } ∧
      heap.usedRegions = machine.heap.usedRegions.filter fun region => region.start ≠ address := by
  have member : address ∈ machine.cells := by
    rw [cells, frames]
    exact List.mem_cons_self
  obtain ⟨heap, dropped, left⟩ := owns.dropCell member outer
  refine ⟨heap, ?_, left⟩
  rw [boundary_cell frames here, dropped]

/-- It stays so while cells and bindings stay the same and no region goes out of use. -/
theorem spared (owns : machine.Owns past) (cells : next.cells = machine.cells)
    (bindings : next.bindings = machine.bindings) (tiled : next.heap.Tiled)
    (held : machine.heap.holdings ⊆ next.heap.holdings) : next.Owns past where
  tiled := tiled
  held address member := held (owns.held address (cells ▸ member))
  distinct := cells ▸ owns.distinct
  bound address member := bindings ▸ owns.bound address (cells ▸ member)

theorem change (owns : machine.Owns past) (cells : next.cells = machine.cells)
    (bindings : next.bindings = machine.bindings) (heap : next.heap = machine.heap) : next.Owns past :=
  owns.spared cells bindings (heap ▸ owns.tiled) (heap ▸ List.Subset.refl _)

end Owns

/-- Machines that cross a boundary, or fail at it, own what they owned. -/
def Boundary.Owns (past : List Deed) : Boundary → Prop
  | .crossed next | .failed _ next => next.Owns past
  | .settled .. => True

theorem Owns.keeps_boundary (owns : machine.Owns past) : machine.boundary.Owns past := by
  unfold Machine.boundary
  split
  · trivial
  · rename_i bound resume outer frames
    split
    · exact owns.change (by rw [cells, cells, frames]; rfl) rfl rfl
    · trivial
  · rename_i start stop remaining outer frames
    split
    · unfold againOrDone
      split
      · trivial
      · exact owns.change (by rw [cells, cells, frames]; rfl) rfl rfl
    · trivial
  · rename_i test body stop outer frames
    have back : (machine.backToTest test stop).Owns past := by
      unfold backToTest
      split
      · exact owns.change rfl rfl rfl
      · exact owns
    unfold bodyOrDone
    split
    · split
      · exact back
      · split
        · exact back.change rfl rfl rfl
        · split
          · trivial
          · exact back.change rfl rfl rfl
    · trivial
  · rename_i stop address outer frames
    split
    · have member : address ∈ machine.cells := by
        rw [cells, frames]
        exact List.mem_cons_self
      obtain ⟨heap, dropped, -⟩ := owns.dropCell member outer
      rw [dropped]
      trivial
    · trivial
  · trivial

theorem Owns.crossed (owns : machine.Owns past) (crossed : machine.boundary = .crossed next) : next.Owns past := by
  have kept := owns.keeps_boundary
  rwa [crossed] at kept

/-- A machine that fails while it settles owns what it owned. -/
theorem Owns.settle (owns : machine.Owns past) {cause : Cause} (failed : machine.settle = (.error cause, next)) :
    next.Owns past := by
  induction machine using Machine.settle.induct with
  | case1 machine more here found =>
    rw [settle_of_settled found] at failed
    cases failed
  | case2 machine cause here found =>
    have kept := owns.keeps_boundary
    rw [found] at kept
    rw [settle_of_failed found] at failed
    cases failed
    exact kept
  | case3 machine here found _ ih =>
    rw [settle_of_crossed found] at failed
    exact ih (owns.crossed found) failed

/-- A machine that fails here owns what it owned. -/
def Progress.FailsOwning (past : List Deed) : Progress → Prop
  | .failed _ next => next.Owns past
  | .ran _ | .shows .. | .imports .. => True

theorem Owns.leave (owns : machine.Owns past) (value : Value) : (machine.leave value).FailsOwning past := by
  unfold Machine.leave
  split
  · trivial
  · exact owns.change rfl rfl rfl

theorem Owns.builtin (owns : machine.Owns past) (word : Builtin) (place : Location) :
    (machine.builtin word place).FailsOwning past := by
  unfold Machine.builtin
  split
  · rename_i cause operands heap failed
    obtain ⟨tiled, held⟩ := Builtin.held_of_failed owns.tiled failed
    exact owns.spared rfl rfl tiled held
  · rename_i effect _ _ _
    cases effect <;> trivial

theorem Owns.call (owns : machine.Owns past) (name : String) (place : Location) :
    (machine.call name place).FailsOwning past := by
  unfold Machine.call
  split
  · exact owns.builtin _ _
  · trivial
  · split
    · exact owns.leave _
    · exact owns

theorem Owns.perform (owns : machine.Owns past) {instruction : Instruction} (noReturn : instruction.opcode ≠ .ret) :
    (machine.perform instruction).FailsOwning past := by
  unfold Machine.perform
  split
  · exact owns.leave _
  · exact owns.leave _
  · unfold Machine.branch
    split
    · exact owns
    · split
      · exact owns.change rfl rfl rfl
      · split <;> trivial
  · unfold Machine.repeats
    split
    · exact owns
    · split
      · exact owns.change rfl rfl rfl
      · trivial
      · trivial
  · trivial
  · unfold Machine.bind
    split
    · exact owns
    · trivial
  · trivial
  · unfold Machine.cell
    split
    · exact owns
    · trivial
  · exact owns.call _ _
  · trivial
  · rename_i ret
    exact (noReturn ret).elim
  · trivial
  · trivial
  · trivial
  · trivial

end Machine

namespace Walker

variable {walker next : Walker} {past : List Deed} {here : Machine}

theorem Owning.owns (owning : walker.Owning past) : walker.machine.Owns past where
  tiled := owning.tiled
  held _ owned := owning.balanced.mem_cells owned
  distinct := (List.nodup_append.1 (owning.balanced.nodup owning.tiled.nodup_holdings)).1
  bound address owned := by
    rw [cells_machine] at owned
    obtain ⟨room, member, rfl⟩ := List.mem_map.1 owned
    obtain ⟨name, below, opened, stands, -⟩ := owning.anchored room member
    exact ⟨name, below, opened, stands⟩

/-- A walker who stands where he should, in a program that has the given past. -/
structure Tended (past : List Deed) (walker : Walker) : Prop where
  orderly : walker.Orderly
  placed : walker.Placed
  tends : walker.Tends past

theorem Tended.crossed (tended : walker.Tended past) (moved : walker.move = .crossed next) : next.Tended past := by
  have onward := tended.orderly.onward tended.placed
  have agrees := tended.placed.agrees
  obtain ⟨program, within⟩ := tended.orderly
  rw [moved] at onward agrees
  refine ⟨onward, agrees.2, fun prudent => ?_⟩
  have brings := (tended.tends prudent).brings within tended.placed
  rw [moved] at brings
  exact brings

/-- Before its next turn a machine crosses as many boundaries as its walker. -/
theorem Tended.turn (tended : walker.Tended past) :
    ∃ last : Walker, last.Tended past ∧ walker.machine.settle = last.machine.settle ∧
      ∀ next, last.move ≠ .crossed next := by
  induction bound : walker.slack using Nat.strongRecOn generalizing walker with
  | ind slack ih =>
    cases moved : walker.move with
    | crossed next =>
      have agrees := tended.placed.agrees
      rw [moved] at agrees
      obtain ⟨last, tended', same, still⟩ := ih next.slack (bound ▸ slack_of_crossed moved) (tended.crossed moved) rfl
      exact ⟨last, tended', agrees.1.trans same, still⟩
    | ran | prints | asks | imports | failed | ends =>
      refine ⟨walker, tended, rfl, ?_⟩
      intro next crossed
      rw [moved] at crossed
      cases crossed

theorem Tended.start (capacity : Nat) (items : List Item) : (start capacity items).Tended [] :=
  ⟨start_orderly capacity items, start_placed capacity items, fun _ => start_owning capacity items⟩

/-- A walker who meets no boundary stands where his machine settles. -/
theorem Tended.settled (tended : walker.Tended past) (still : ∀ next, walker.move ≠ .crossed next) {more : Bool}
    (settles : walker.machine.settle = (.ok more, here)) : here = walker.machine := by
  cases more with
  | true => exact (tended.placed.settled still settles).1
  | false =>
    obtain ⟨program, within⟩ := tended.orderly
    have finishes : walker.machine.step = here.finish := by rw [Machine.step, settles]
    obtain ⟨event, finish, -⟩ := here.finish_shows
    have ends := tended.placed.ends_of_finished still (finishes.trans finish) rfl
    obtain ⟨-, frames, -⟩ := within.ended tended.placed ends
    have settled : walker.machine.boundary =
        .settled (decide (walker.machine.ip < walker.machine.tape.size)) walker.machine := by
      rw [Machine.boundary, frames]
    rw [Machine.settle_of_settled settled] at settles
    exact (congrArg Prod.snd settles).symm

end Walker

namespace Machine

variable {machine : Machine} {past : List Deed}

/-- A step does to the memory what the step from any place further on does that the machine reaches by crossing
boundaries. -/
theorem deed?_of_settle {next : Machine} (same : machine.settle = next.settle) : machine.deed? = next.deed? := by
  rw [deed?, same, deed?]

/-- A step that enters a `var` block does not fail. -/
theorem ran_of_opens {name : String} {address : Nat} {scopes : List (Dictionary Value)}
    (opens : machine.deed? = some (.opens name address scopes)) : ∃ next, machine.step = .ran next := by
  unfold deed? at opens
  split at opens
  · rename_i here settles
    cases found : here.tape[here.ip]? with
    | none =>
      rw [found] at opens
      cases opens
    | some instruction =>
      have performs : machine.step = here.perform instruction := by
        rw [step, settles]
        simp only [found]
      rw [found, Option.bind_some] at opens
      unfold deedOf? at opens
      split at opens
      · rename_i opcode
        split at opens
        · rename_i inside entered
          rw [performs, perform, opcode]
          exact ⟨inside, entered⟩
        · cases opens
      · split at opens
        · rename_i word _
          rcases word.deed?_cases here.operands here.heap here.cells with none | ⟨_, _, claims⟩ | ⟨_, frees⟩
          · cases none.symm.trans opens
          · cases claims.symm.trans opens
          · cases frees.symm.trans opens
        · cases opens
      · cases opens
  · cases opens

/-- What a machine owns does not depend on what words have done. -/
theorem Owns.remember (owns : machine.Owns past) {deed : Option Deed}
    (noCell : ∀ name address scopes, deed ≠ some (.opens name address scopes)) :
    machine.Owns (deed.toList ++ past) where
  tiled := owns.tiled
  held := owns.held
  distinct := owns.distinct
  bound address owned := by
    obtain ⟨name, below, opened, stands⟩ := owns.bound address owned
    refine ⟨name, below, ?_, stands⟩
    cases deed with
    | none => exact opened
    | some deed =>
      cases deed with
      | opens name address scopes => exact absurd rfl (noCell _ _ _)
      | claims | frees => exact opened

/-- The machine is that of a walker who stands where he should, whatever has come in from outside. -/
inductive Tended (past : List Deed) : Machine → Prop
  | intro {walker : Walker} {phase : Phase} {pending : Option (InputKind × Location)} {fault : Option Failure}
      {interrupted : Bool} : walker.Tended past → (phase = .running → pending = none) →
      Tended past { walker.machine with phase, pending, fault, interrupted }

/-- What a step of such a machine leads to, if the past includes what the step does. -/
def Progress.Tended (past : List Deed) : Progress → Prop
  | .ran next | .shows _ next => next.Tended past
  | .imports name place next => ∃ walker : Walker, walker.Tended past ∧ next = walker.machine ∧
      ∃ rest, walker.code = .item (.imports place name) :: rest
  | .failed _ next => Deed.Prudent past → next.Owns past

theorem Tended.of_walker {walker : Walker} (tended : walker.Tended past) : walker.machine.Tended past :=
  @Tended.intro past walker .running none none false tended fun _ => rfl

end Machine

namespace Walker

variable {walker : Walker} {past : List Deed}

/-- A machine that fails owns what it owned. -/
theorem Tended.failed (tended : walker.Tended past) (still : ∀ next, walker.move ≠ .crossed next)
    (prudent : Deed.Prudent past) {cause : Cause} {after : Machine}
    (failed : walker.machine.step = .failed cause after) : after.Owns past := by
  have owns := (tended.tends prudent).owns
  unfold Machine.step at failed
  split at failed
  · rename_i settles
    cases failed
    exact owns.settle settles
  · rename_i here settles
    obtain ⟨event, finish, -⟩ := here.finish_shows
    cases failed.symm.trans finish
  · rename_i here settles
    have nested := tended.orderly.settled tended.placed settles
    obtain rfl := tended.settled still settles
    split at failed
    · rename_i instruction found
      by_cases ret : instruction.opcode = .ret
      · obtain ⟨opcode, place⟩ := instruction
        cases ret
        obtain ⟨caller, address, outer, frames⟩ := nested.returns place found
        rw [Machine.perform, frames] at failed
        cases failed
      · have kept := owns.perform ret
        rw [failed] at kept
        exact kept
    · cases failed
      exact owns

/-- At the end of a program nothing is done to the memory. -/
theorem Tended.deed?_of_ends (tended : walker.Tended past) (ends : walker.move = .ends) :
    walker.machine.deed? = none := by
  obtain ⟨code, blocks⟩ := nil_of_ends ends
  have enclosed := tended.placed.enclosed
  rw [code, blocks, Piece.extent_nil, Nat.add_zero] at enclosed
  have last : walker.machine.ip = walker.machine.tape.size := by
    show walker.ip = walker.tape.size
    generalize walker.ip = stop at enclosed
    cases enclosed with
    | program => rfl
  have frames : walker.machine.frames = [] := by
    show walker.blocks.map Block.frame = []
    rw [blocks]
    rfl
  have settled : walker.machine.boundary = .settled false walker.machine := by
    rw [Machine.boundary, frames, last]
    simp
  rw [Machine.deed?, Machine.settle_of_settled settled]

/-- One step of the machine of a walker, with what it does to the memory. -/
theorem Tended.step (tended : walker.Tended past) :
    walker.machine.step.Tended (walker.machine.deed?.toList ++ past) := by
  obtain ⟨last, tended, same, still⟩ := tended.turn
  rw [Machine.step_of_settle same, Machine.deed?_of_settle same]
  have later : Deed.Prudent (last.machine.deed?.toList ++ past) → Deed.Prudent past :=
    fun prudent address cells member => prudent address cells (List.mem_append_right _ member)
  have onward := tended.orderly.onward tended.placed
  have agrees := tended.placed.agrees
  obtain ⟨program, within⟩ := tended.orderly
  have brings := fun prudent => (tended.tends prudent).brings within tended.placed
  cases moved : last.move with
  | crossed next => exact (still next moved).elim
  | ran next =>
    rw [moved] at onward agrees brings
    rw [agrees.1]
    exact .of_walker ⟨onward, agrees.2, fun prudent => brings (later prudent) prudent⟩
  | prints text next =>
    rw [moved] at onward agrees brings
    rw [agrees.1]
    exact .of_walker ⟨onward, agrees.2, fun prudent => brings (later prudent) prudent⟩
  | asks kind prompt place next =>
    rw [moved] at onward agrees brings
    rw [agrees.1]
    exact @Machine.Tended.intro _ next .awaiting (some (kind, place)) none false
      ⟨onward, agrees.2, fun prudent => brings (later prudent) prudent⟩ nofun
  | imports name place =>
    rw [moved] at agrees
    have here : last.machine.step = .imports name place last.machine := agrees
    obtain ⟨rest, code⟩ := Walker.code_of_imports moved
    rw [here, tended.placed.deed?_item code nofun nofun]
    exact ⟨last, tended, rfl, rest, code⟩
  | failed failure =>
    rw [moved] at agrees
    obtain ⟨cause, after, fails, -⟩ := agrees
    rw [fails]
    intro prudent
    refine (tended.failed still (later prudent) fails).remember fun name address scopes opens => ?_
    obtain ⟨next, ran⟩ := Machine.ran_of_opens opens
    cases fails.symm.trans ran
  | ends =>
    rw [moved] at agrees
    have finishes : last.machine.step = last.machine.finish := agrees
    obtain ⟨event, finish, -⟩ := last.machine.finish_shows
    rw [finishes, finish, tended.deed?_of_ends moved]
    exact @Machine.Tended.intro _ last .finished none none false tended nofun

end Walker

namespace Machine

variable {machine : Machine} {past : List Deed}

/-- The machine comes to another place by crossing a boundary. -/
def Crosses (machine next : Machine) : Prop :=
  machine.boundary = .crossed next

/-- The `var` blocks of a machine own their cells, and go on to do so while it settles. Cells can be given back, and
nothing else goes with them: that is what happens at the end of a block, and a return never finds a block open that has
been entered since the call. When the machine finishes, just those regions are in use that words have returned and
nobody has freed. -/
structure Tidy (past : List Deed) (machine : Machine) : Prop where
  owns : machine.Owns past
  drops : ∀ address ∈ machine.cells, ∀ outer, ∃ heap,
    machine.dropCell address outer =
        (.ok (), { machine with frames := outer, bindings := machine.bindings.pop, heap }) ∧
      heap.usedRegions = machine.heap.usedRegions.filter fun region => region.start ≠ address
  crosses : ∀ here, Relation.ReflTransGen Crosses machine here → here.Owns past
  closes : ∀ here, Relation.ReflTransGen Crosses machine here → ∀ stop address outer,
    here.frames = .cell stop address :: outer → here.ip = stop → ∃ heap,
      here.boundary = .settled true { here with frames := outer, bindings := here.bindings.pop, heap } ∧
        heap.usedRegions = here.heap.usedRegions.filter fun region => region.start ≠ address
  settles : machine.AtWork → ∀ more here, machine.settle = (.ok more, here) →
    here.Owns past ∧ ∀ place, here.tape[here.ip]? = some ⟨.ret, place⟩ →
      ∃ caller address outer, here.frames = .call caller address :: outer
  finishes : machine.AtWork → ∀ event finished, machine.step = .shows event finished → finished.phase = .finished →
    finished.heap.holdings.Perm (Deed.outstanding past)

theorem Owns.crosses (owns : machine.Owns past) {here : Machine}
    (crosses : Relation.ReflTransGen Crosses machine here) : here.Owns past := by
  induction crosses with
  | refl => exact owns
  | tail _ crossed ih => exact ih.crossed crossed

/-- A machine that takes no step has only to own its cells. -/
theorem Owns.tidy (owns : machine.Owns past) (idle : ¬machine.AtWork) : machine.Tidy past where
  owns := owns
  drops _ owned outer := owns.dropCell owned outer
  crosses _ crosses := owns.crosses crosses
  closes _ crosses _ _ _ frames here := (owns.crosses crosses).boundary frames here
  settles atWork := absurd atWork idle
  finishes atWork := absurd atWork idle

theorem tidy_of_tended {walker : Walker} (tended : walker.Tended past) (prudent : Deed.Prudent past) :
    walker.machine.Tidy past where
  owns := (tended.tends prudent).owns
  drops _ owned outer := (tended.tends prudent).owns.dropCell owned outer
  crosses _ crosses := (tended.tends prudent).owns.crosses crosses
  closes _ crosses _ _ _ frames here := ((tended.tends prudent).owns.crosses crosses).boundary frames here
  settles _ more here settles := by
    obtain ⟨last, tended', same, still⟩ := tended.turn
    have nested := tended.orderly.settled tended.placed settles
    rw [same] at settles
    obtain rfl := tended'.settled still settles
    exact ⟨(tended'.tends prudent).owns, nested.returns⟩
  finishes _ event finished shown done := by
    obtain ⟨last, tended, same, still⟩ := tended.turn
    rw [Machine.step_of_settle same] at shown
    have ends := tended.placed.ends_of_finished still shown done
    have agrees := tended.placed.agrees
    rw [ends] at agrees
    have finishes : last.machine.step = last.machine.finish := agrees
    obtain ⟨_, finish, -⟩ := last.machine.finish_shows
    obtain ⟨-, rfl⟩ := Progress.shows.inj (shown.symm.trans (finishes.trans finish))
    have balanced := (tended.tends prudent).balanced
    obtain ⟨program, within⟩ := tended.orderly
    obtain ⟨-, frames, -⟩ := within.ended tended.placed ends
    rw [Machine.cells, frames] at balanced
    exact balanced

end Machine

end TapeMachine
