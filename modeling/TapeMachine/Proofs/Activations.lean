import TapeMachine.Proofs.Nesting
import TapeMachine.Proofs.Safety

namespace TapeMachine

/-- The block that a frame belongs to; a call belongs to none. -/
def Frame.enclosure? : Frame → Option Enclosure
  | branch bound resume => some (.consequent bound resume)
  | repeats start stop _ => some (.repeats start stop)
  | loop test body stop => some (.loop test body stop)
  | cell stop _ => some (.cell stop)
  | call .. => none

/-- The frames of a machine that stands at `ip` are, from the innermost one up to the innermost call, those of the
blocks around `ip` that have frames; from there up to the next call, those of the blocks around the place on the
caller's tape from which the call was made; and so on. There are as many scope frames as there are bindings and cells
around all these places. -/
inductive Activations : Tape → (ip : Nat) → List Frame → (scopes : Nat) → Prop
  | outermost {program : List Item} {ip : Nat} {frames : List Frame} :
      frames.map Frame.enclosure? = ((enclosing program ip).filter Enclosure.hasFrame).map some →
      Activations (.ofItems program) ip frames ((enclosing program ip).countP Enclosure.hasScope)
  | called {program : List Item} {ip : Nat} {frames outer : List Frame} {caller : Tape} {address scopes : Nat}
      {name : String} {place : Location} :
      frames.map Frame.enclosure? = ((enclosing program ip).filter Enclosure.hasFrame).map some →
      caller[address]? = some ⟨.call name, place⟩ → Activations caller address outer scopes →
      Activations (.ofItems program) ip (frames ++ .call caller (address + 1) :: outer)
        ((enclosing program ip).countP Enclosure.hasScope + scopes)

@[simp]
theorem Piece.filter_lets (pieces : List Piece) : (lets pieces).filter Enclosure.hasFrame = [] := by
  induction pieces with
  | nil => rfl
  | cons piece rest ih =>
    cases piece with
    | item whole => exact ih
    | mark meant place => cases meant <;> exact ih

@[simp]
theorem Piece.countP_lets (pieces : List Piece) : (lets pieces).countP Enclosure.hasScope = (lets pieces).length := by
  induction pieces with
  | nil => rfl
  | cons piece rest ih =>
    cases piece with
    | item whole => exact ih
    | mark meant place =>
      cases meant with
      | unbind names => rw [lets, List.countP_cons_of_pos rfl, ih, List.length_cons]
      | noop | enter | dropCell => exact ih

variable {program : List Item} {stop ip : Nat} {blocks outer : List Block}

/-- The frames around a level are what they should be, whichever frames `upper` and blocks `inner` are inside it. -/
def Block.Accounted (program : List Item) (blocks : List Block) : Prop :=
  ∀ {ip : Nat} {upper : List Frame} {inner : List Enclosure}, enclosing program ip = inner ++ Block.path blocks →
    upper.map Frame.enclosure? = (inner.filter Enclosure.hasFrame).map some →
    Activations (.ofItems program) ip (upper ++ blocks.map Block.frame)
      (inner.countP Enclosure.hasScope + Block.scopes blocks)

/-- One more block that has a frame, and the bindings around it, do not change that. -/
theorem Block.Accounted.framed (accounted : Block.Accounted program outer) {block : Block} {enclosure : Enclosure}
    {rest : List Piece} (frame : block.frame.enclosure? = some enclosure) (framed : enclosure.hasFrame = true)
    (path : Block.path (block :: outer) = enclosure :: (Piece.lets rest ++ Block.path outer))
    (scopes : Block.scopes (block :: outer) =
      [enclosure].countP Enclosure.hasScope + (Piece.lets rest).length + Block.scopes outer) :
    Block.Accounted program (block :: outer) := by
  intro ip upper inner around frames
  have around' : enclosing program ip = (inner ++ enclosure :: Piece.lets rest) ++ Block.path outer := by
    rw [around, path, List.append_assoc, List.cons_append]
  have frames' : (upper ++ [block.frame]).map Frame.enclosure? =
      ((inner ++ enclosure :: Piece.lets rest).filter Enclosure.hasFrame).map some := by
    simp [frames, frame, framed]
  have later := accounted around' frames'
  have count : (inner ++ enclosure :: Piece.lets rest).countP Enclosure.hasScope + Block.scopes outer =
      inner.countP Enclosure.hasScope + Block.scopes (block :: outer) := by
    rw [scopes, ← List.singleton_append, List.countP_append, List.countP_append, Piece.countP_lets]
    omega
  rw [count, List.append_assoc] at later
  exact later

theorem Nested.accounted (nested : Nested program stop blocks) : Block.Accounted program blocks := by
  induction nested with
  | program =>
    intro ip upper inner around frames
    rw [Block.path, List.append_nil] at around
    subst around
    rw [List.map_nil, List.append_nil]
    exact .outermost frames
  | @consequent _ _ _ closing _ _ _ ih => exact ih.framed rfl rfl rfl (by simp [Block.scopes, Enclosure.hasScope])
  | @repeats _ _ _ _ _ closing _ _ _ _ ih => exact ih.framed rfl rfl rfl (by simp [Block.scopes, Enclosure.hasScope])
  | @test _ _ _ closing _ _ _ _ _ ih => exact ih.framed rfl rfl rfl (by simp [Block.scopes, Enclosure.hasScope])
  | @body _ _ _ closing _ _ _ _ _ ih => exact ih.framed rfl rfl rfl (by simp [Block.scopes, Enclosure.hasScope])
  | @cell _ _ _ closing _ _ _ ih => exact ih.framed rfl rfl rfl (by simp [Block.scopes, Enclosure.hasScope])
  | @call program stop caller address place name rest outer _ stands _ here ih =>
    intro ip upper inner around frames
    rw [Block.path, List.append_nil] at around
    subst around
    have below := @ih address [] (Piece.lets rest) stands.here (by simp)
    rw [List.nil_append, Piece.countP_lets] at below
    exact .called frames here below

/-- The frames of the machine are those of the blocks around the places where it and its callers stand; a return has
its call before it; and while there are frames, there is an instruction. -/
structure Machine.WellNested (machine : Machine) : Prop where
  activations : Activations machine.tape machine.ip machine.frames machine.bindings.frames.length
  returns : ∀ place, machine.tape[machine.ip]? = some ⟨.ret, place⟩ →
    ∃ caller address outer, machine.frames = .call caller address :: outer
  inside : machine.frames ≠ [] → machine.ip < machine.tape.size

/-- No piece begins with a return. -/
theorem Tape.Carries.ne_ret {tape : Tape} {start : Nat} {piece : Piece} {rest : List Piece}
    (carried : tape.Carries start (piece :: rest)) :
    ∃ instruction, tape[start]? = some instruction ∧ instruction.opcode ≠ .ret := by
  cases piece with
  | mark meant place => cases meant <;> exact ⟨_, carried.1, nofun⟩
  | item whole => cases whole <;> exact ⟨_, carried.1, nofun⟩

theorem Machine.finish_shows (machine : Machine) :
    ∃ event, machine.finish = .shows event { machine with phase := .finished } ∧ event.isError = false := by
  unfold finish
  dsimp only
  split
  · exact ⟨_, rfl, rfl⟩
  · exact ⟨_, rfl, rfl⟩

namespace Walker

variable {walker : Walker} {here : Machine}

theorem Within.activations (within : walker.Within program)
    (around : enclosing program walker.ip = Piece.lets walker.code ++ Block.path walker.blocks) :
    Activations walker.machine.tape walker.machine.ip walker.machine.frames
      walker.machine.bindings.frames.length := by
  have activations : Activations (.ofItems program) walker.ip ([] ++ walker.blocks.map Block.frame) _ :=
    within.nested.accounted around (by simp)
  rw [Piece.countP_lets, ← within.scopes, ← within.tape] at activations
  exact activations

/-- Before a piece of its code the machine of a walker is well nested. -/
theorem Within.wellNested (within : walker.Within program) (placed : walker.Placed) {piece : Piece}
    {rest : List Piece} (code : walker.code = piece :: rest) : walker.machine.WellNested := by
  have stands := within.stands
  have carried := placed.carried
  rw [code] at stands carried
  obtain ⟨instruction, found, other⟩ := carried.ne_ret
  refine ⟨within.activations (code ▸ stands.here), ?_, fun _ => ?_⟩
  · intro place ret
    rw [show walker.machine.tape[walker.machine.ip]? = _ from found] at ret
    cases ret
    exact (other rfl).elim
  · exact (Array.getElem?_eq_some_iff.1 found).1

/-- So it is before a return. -/
theorem Within.wellNested_call (within : walker.Within program) (placed : walker.Placed) {tape : Tape} {address : Nat}
    {rest : List Piece} {outer : List Block} (code : walker.code = [])
    (blocks : walker.blocks = .call tape address rest :: outer) : walker.machine.WellNested := by
  have nested := within.nested
  have enclosed := placed.enclosed
  rw [code, blocks, Piece.extent_nil, Nat.add_zero] at nested enclosed
  have frames : walker.machine.frames = .call tape address :: outer.map Block.frame := by
    show walker.blocks.map Block.frame = _
    rw [blocks]
    rfl
  have ret : ∃ place, walker.tape[walker.ip]? = some ⟨.ret, place⟩ := by
    generalize walker.ip = stop at enclosed
    cases enclosed with
    | call ret => exact ⟨_, ret⟩
  obtain ⟨place, found⟩ := ret
  refine ⟨within.activations ?_, fun _ _ => ⟨_, _, _, frames⟩, fun _ => (Array.getElem?_eq_some_iff.1 found).1⟩
  cases nested with
  | call none =>
    rw [none, code, blocks]
    rfl

/-- At the end of a program nothing is open. -/
theorem Within.ended (within : walker.Within program) (placed : walker.Placed) (ends : walker.move = .ends) :
    walker.machine.WellNested ∧ walker.machine.frames = [] ∧ walker.machine.bindings.frames = [] := by
  obtain ⟨code, blocks⟩ := nil_of_ends ends
  have enclosed := placed.enclosed
  rw [code, blocks, Piece.extent_nil, Nat.add_zero] at enclosed
  have last : walker.ip = walker.tape.size := by
    generalize walker.ip = stop at enclosed
    cases enclosed with
    | program => rfl
  have frames : walker.machine.frames = [] := by
    show walker.blocks.map Block.frame = []
    rw [blocks]
    rfl
  have scopes : walker.machine.bindings.frames = [] := by
    have count := within.scopes
    rw [code, blocks] at count
    exact List.eq_nil_of_length_eq_zero count
  refine ⟨⟨within.activations ?_, ?_, fun some => absurd frames some⟩, frames, scopes⟩
  · rw [code, blocks, last, within.tape, Tape.size_ofItems]
    exact aroundAll_of_span_le [] (Nat.le_of_eq (Nat.zero_add _))
  · intro place found
    have none : walker.tape[walker.ip]? = none := by
      rw [last]
      exact Array.getElem?_size
    rw [show walker.machine.tape[walker.machine.ip]? = _ from none] at found
    cases found

/-- A machine finishes at the end of its program only. -/
theorem Placed.ends_of_finished (placed : walker.Placed) (still : ∀ next, walker.move ≠ .crossed next) {event : Event}
    {finished : Machine} (shown : walker.machine.step = .shows event finished) (done : finished.phase = .finished) :
    walker.move = .ends := by
  have agrees := placed.agrees
  cases moved : walker.move with
  | crossed next => exact (still next moved).elim
  | ends => rfl
  | ran next =>
    rw [moved] at agrees
    cases shown.symm.trans agrees.1
  | imports name place =>
    rw [moved] at agrees
    cases shown.symm.trans agrees
  | failed failure =>
    rw [moved] at agrees
    obtain ⟨cause, after, fails, -⟩ := agrees
    cases shown.symm.trans fails
  | prints text next =>
    rw [moved] at agrees
    obtain ⟨-, rfl⟩ := Machine.Progress.shows.inj (shown.symm.trans agrees.1)
    cases done
  | asks kind prompt place next =>
    rw [moved] at agrees
    obtain ⟨-, rfl⟩ := Machine.Progress.shows.inj (shown.symm.trans agrees.1)
    cases done

/-- Wherever the machine of a walker settles, it is well nested. -/
theorem Orderly.settled (orderly : walker.Orderly) (placed : walker.Placed) {more : Bool}
    (settles : walker.machine.settle = (.ok more, here)) : here.WellNested := by
  obtain ⟨last, ⟨program, within⟩, placed, same, still⟩ := orderly.turn placed
  rw [same] at settles
  cases more with
  | true =>
    obtain ⟨rfl, returns⟩ := placed.settled still settles
    cases code : last.code with
    | nil =>
      obtain ⟨tape, address, rest, outer, blocks⟩ := returns code
      exact within.wellNested_call placed code blocks
    | cons piece rest => exact within.wellNested placed code
  | false =>
    have finishes : last.machine.step = here.finish := by rw [Machine.step, settles]
    obtain ⟨event, finish, -⟩ := here.finish_shows
    have ends := placed.ends_of_finished still (finishes.trans finish) rfl
    obtain ⟨nested, frames, -⟩ := within.ended placed ends
    have settled : last.machine.boundary =
        .settled (decide (last.machine.ip < last.machine.tape.size)) last.machine := by
      rw [Machine.boundary, frames]
    rw [Machine.settle_of_settled settled] at settles
    obtain rfl : last.machine = here := congrArg Prod.snd settles
    exact nested

/-- A machine that finishes has no frames left. -/
theorem Orderly.finished (orderly : walker.Orderly) (placed : walker.Placed) {event : Event} {finished : Machine}
    (shown : walker.machine.step = .shows event finished) (done : finished.phase = .finished) :
    finished.frames = [] ∧ finished.bindings.frames = [] := by
  obtain ⟨last, ⟨program, within⟩, placed, same, still⟩ := orderly.turn placed
  rw [Machine.step_of_settle same] at shown
  have ends := placed.ends_of_finished still shown done
  have agrees := placed.agrees
  rw [ends] at agrees
  have finishes : last.machine.step = last.machine.finish := agrees
  obtain ⟨_, finish, -⟩ := last.machine.finish_shows
  obtain ⟨-, rfl⟩ := Machine.Progress.shows.inj (shown.symm.trans (finishes.trans finish))
  exact (within.ended placed ends).2

end Walker

end TapeMachine
