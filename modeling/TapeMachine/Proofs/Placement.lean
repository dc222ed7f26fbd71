import TapeMachine.Proofs.Walker

namespace TapeMachine

namespace Piece

@[simp]
theorem extent_nil : extent [] = 0 :=
  rfl

@[simp]
theorem extent_cons (piece : Piece) (rest : List Piece) :
    extent (piece :: rest) = piece.width + extent rest :=
  rfl

@[simp]
theorem extent_append (first second : List Piece) :
    extent (first ++ second) = extent first + extent second := by
  induction first with
  | nil => simp
  | cons piece rest ih => simp [ih, Nat.add_assoc]

@[simp]
theorem extent_ofItems (items : List Item) : extent (ofItems items) = span items := by
  induction items with
  | nil => rfl
  | cons item rest ih => simpa [ofItems, width] using ih

@[simp]
theorem width_mark (mark : Mark) (place : Location) : (Piece.mark mark place).width = 1 :=
  rfl

theorem codeFrom_append (first second : List Piece) (start : Nat) :
    codeFrom start (first ++ second) = codeFrom start first ++ codeFrom (start + extent first) second := by
  induction first generalizing start with
  | nil => rfl
  | cons piece rest ih => simp [codeFrom, ih, Nat.add_assoc]

theorem codeFrom_ofItems (items : List Item) (start : Nat) :
    codeFrom start (ofItems items) = codeOf start items := by
  induction items generalizing start with
  | nil => rfl
  | cons item rest ih =>
    have tail := ih (start + item.width)
    rw [ofItems] at tail
    simp [ofItems, codeFrom, codeOf, code, width, length_code, tail]

end Piece

namespace Tape

/-- The instructions of the pieces stand on the tape from `start` on. -/
def Carries (tape : Tape) (start : Nat) (pieces : List Piece) : Prop :=
  tape.Holds start (Piece.codeFrom start pieces)

variable {tape : Tape} {start : Nat} {rest : List Piece} {place middle stop : Location}

/-- A mark takes one address. -/
theorem carries_mark {mark : Mark} :
    tape.Carries start (.mark mark place :: rest) ↔
      tape[start]? = some ⟨mark.opcode, place⟩ ∧ tape.Carries (start + 1) rest :=
  Iff.rfl

theorem length_codeFrom (pieces : List Piece) (start : Nat) :
    (Piece.codeFrom start pieces).length = Piece.extent pieces := by
  induction pieces generalizing start with
  | nil => rfl
  | cons piece rest ih =>
    cases piece with
    | item whole => simp [Piece.codeFrom, Piece.code, Piece.width, length_code, ih]
    | mark meant place =>
      simp [Piece.codeFrom, Piece.code, ih]
      omega

/-- Pieces that a tape carries in two parts are carried as a whole. -/
theorem carries_append {first second : List Piece} :
    tape.Carries start (first ++ second) ↔
      tape.Carries start first ∧ tape.Carries (start + Piece.extent first) second := by
  rw [Carries, Piece.codeFrom_append, holds_append, length_codeFrom]
  rfl

/-- A level that is cut open at a mark: the pieces before it, the mark, and the pieces behind it. -/
theorem carries_items_mark {items : List Item} {mark : Mark} :
    tape.Carries start (Piece.ofItems items ++ .mark mark place :: rest) ↔
      tape.Carries start (Piece.ofItems items) ∧
        tape[start + span items]? = some ⟨mark.opcode, place⟩ ∧
        tape.Carries (start + span items + 1) rest := by
  rw [carries_append, carries_mark, Piece.extent_ofItems]

/-- A block is its opening instruction and the pieces inside it. -/
theorem carries_opened {item : Item} {opening : Instruction} {inner : List Piece}
    (code : item.code start = opening :: Piece.codeFrom (start + 1) inner) :
    tape.Carries start (.item item :: rest) ↔
      tape[start]? = some opening ∧ tape.Carries (start + 1) (inner ++ rest) := by
  have width : item.width = 1 + Piece.extent inner := by
    rw [← length_code item start, code, List.length_cons, length_codeFrom, Nat.add_comm]
  rw [Carries, Carries, Piece.codeFrom, Piece.code, code, Piece.width, width,
    Piece.codeFrom_append, ← Nat.add_assoc]
  rfl

/-- The block's opening knows the address of its `end`, which stands behind the body. -/
theorem carries_branch {body : List Item} :
    tape.Carries start (.item (.branch place body stop) :: rest) ↔
      tape[start]? = some ⟨.branch none (start + 1 + span body), place⟩ ∧
        tape.Carries (start + 1) (Piece.ofItems body ++ .mark .noop stop :: rest) := by
  have code : (Item.branch place body stop).code start =
      ⟨.branch none (start + 1 + span body), place⟩ ::
        Piece.codeFrom (start + 1) (Piece.ofItems body ++ [.mark .noop stop]) := by
    rw [Item.code, Piece.codeFrom_append, Piece.codeFrom_ofItems, length_codeOf]
    rfl
  rw [carries_opened code, List.append_assoc, List.singleton_append]

/-- Two bodies, with the `else` between them and the `end` behind the second. -/
theorem carries_choice {consequent alternative : List Item} :
    tape.Carries start (.item (.choice place consequent middle alternative stop) :: rest) ↔
      tape[start]? = some ⟨.branch (some (start + 1 + span consequent))
        (start + 1 + span consequent + 1 + span alternative), place⟩ ∧
        tape.Carries (start + 1) (Piece.ofItems consequent ++ .mark .noop middle ::
          (Piece.ofItems alternative ++ .mark .noop stop :: rest)) := by
  have code : (Item.choice place consequent middle alternative stop).code start =
      ⟨.branch (some (start + 1 + span consequent))
        (start + 1 + span consequent + 1 + span alternative), place⟩ ::
        Piece.codeFrom (start + 1) (Piece.ofItems consequent ++ .mark .noop middle ::
          (Piece.ofItems alternative ++ [.mark .noop stop])) := by
    simp only [Item.code, Piece.codeFrom, Piece.codeFrom_append, Piece.codeFrom_ofItems,
      length_codeOf, Piece.extent_ofItems, List.cons_append, List.append_assoc]
    rfl
  simp only [carries_opened code, List.append_assoc, List.cons_append, List.nil_append]

theorem carries_repeats {body : List Item} :
    tape.Carries start (.item (.repeats place body stop) :: rest) ↔
      tape[start]? = some ⟨.repeats start (start + 1 + span body), place⟩ ∧
        tape.Carries (start + 1) (Piece.ofItems body ++ .mark .noop stop :: rest) := by
  have code : (Item.repeats place body stop).code start =
      ⟨.repeats start (start + 1 + span body), place⟩ ::
        Piece.codeFrom (start + 1) (Piece.ofItems body ++ [.mark .noop stop]) := by
    rw [Item.code, Piece.codeFrom_append, Piece.codeFrom_ofItems, length_codeOf]
    rfl
  rw [carries_opened code, List.append_assoc, List.singleton_append]

/-- The test stands before the body, and the opening knows where both of them end. -/
theorem carries_loop {test body : List Item} :
    tape.Carries start (.item (.loop place test middle body stop) :: rest) ↔
      tape[start]? = some ⟨.loop start (start + 1 + span test)
        (start + 1 + span test + 1 + span body), place⟩ ∧
        tape.Carries (start + 1) (Piece.ofItems test ++ .mark .noop middle ::
          (Piece.ofItems body ++ .mark .noop stop :: rest)) := by
  have code : (Item.loop place test middle body stop).code start =
      ⟨.loop start (start + 1 + span test) (start + 1 + span test + 1 + span body), place⟩ ::
        Piece.codeFrom (start + 1) (Piece.ofItems test ++ .mark .noop middle ::
          (Piece.ofItems body ++ [.mark .noop stop])) := by
    simp only [Item.code, Piece.codeFrom, Piece.codeFrom_append, Piece.codeFrom_ofItems,
      length_codeOf, Piece.extent_ofItems, List.cons_append, List.append_assoc]
    rfl
  simp only [carries_opened code, List.append_assoc, List.cons_append, List.nil_append]

theorem carries_bind {names : List String} {body : List Item} :
    tape.Carries start (.item (.bind place names body stop) :: rest) ↔
      tape[start]? = some ⟨.bind names, place⟩ ∧
        tape.Carries (start + 1)
          (Piece.ofItems body ++ .mark (.unbind names) stop :: .mark .noop stop :: rest) := by
  have code : (Item.bind place names body stop).code start =
      ⟨.bind names, place⟩ :: Piece.codeFrom (start + 1)
        (Piece.ofItems body ++ [.mark (.unbind names) stop, .mark .noop stop]) := by
    rw [Item.code, Piece.codeFrom_append, Piece.codeFrom_ofItems]
    rfl
  simp only [carries_opened code, List.append_assoc, List.cons_append, List.nil_append]

theorem carries_cell {name : String} {body : List Item} :
    tape.Carries start (.item (.cell place name body stop) :: rest) ↔
      tape[start]? = some ⟨.cell name (start + 1 + span body), place⟩ ∧
        tape.Carries (start + 1) (Piece.ofItems body ++ .mark .noop stop :: rest) := by
  have code : (Item.cell place name body stop).code start =
      ⟨.cell name (start + 1 + span body), place⟩ ::
        Piece.codeFrom (start + 1) (Piece.ofItems body ++ [.mark .noop stop]) := by
    rw [Item.code, Piece.codeFrom_append, Piece.codeFrom_ofItems, length_codeOf]
    rfl
  rw [carries_opened code, List.append_assoc, List.singleton_append]

/-- The code of a function from its start to its return. -/
def HoldsBody (tape : Tape) (start : Nat) (place : Location) (body : List Item) : Prop :=
  tape.Carries start (.mark .noop place :: .mark .enter place :: Piece.ofItems body) ∧
    ∃ stop, tape[start + 2 + span body]? = some ⟨.ret, stop⟩

/-- A definition knows two addresses, that where its body begins and that of its `end`. -/
theorem carries_define {heading : Heading} {body : List Item}
    (carried : tape.Carries start (.item (.define place heading body stop) :: rest)) :
    tape[start]? = some ⟨.define ⟨heading, start + 1, start + 3 + span body⟩, place⟩ ∧
      tape.HoldsBody (start + 1) place body ∧
      tape.Carries (start + 3 + span body + 1) (.mark .dropCell stop :: .mark .noop stop :: rest) := by
  have width : start + (Item.define place heading body stop).width = start + 3 + span body + 1 + 1 + 1 :=
    Item.add_width _ _
  have there : start + 1 + 2 + span body = start + 3 + span body := by omega
  simp only [Carries, Piece.codeFrom, Piece.code, Piece.width, width, Item.code, length_codeOf,
    List.cons_append, List.append_assoc, holds_append, Holds] at carried
  obtain ⟨opening, noop, enter, inside, ret, drop, noop', -, behind⟩ := carried
  refine ⟨opening, ⟨⟨noop, enter, ?_⟩, _, there ▸ ret⟩, drop, noop', behind⟩
  rw [Piece.codeFrom_ofItems]
  exact inside

end Tape

/-- The parts of a loop stand on the tape, and its `end` at `stop`. -/
structure Loop.Placed (loop : Loop) (tape : Tape) (stop : Nat) : Prop where
  test : tape.Carries (loop.start + 1) (Piece.ofItems loop.test)
  middle : tape[loop.middle]? = some ⟨.noop, loop.place⟩
  body : tape.Carries (loop.middle + 1) (Piece.ofItems loop.body)
  stop : stop = loop.middle + 1 + span loop.body

/-- A level of code on `tape` that ends at `stop` stands inside these blocks. No address from `lower` up
to `stop` is a bound of the innermost frame. -/
inductive Enclosed : Tape → (lower stop : Nat) → List Block → Prop
  | program {tape lower} : Enclosed tape lower tape.size []
  | consequent {tape lower stop closing outer} :
      tape.Carries closing.address closing.code →
      Enclosed tape closing.address (closing.address + Piece.extent closing.code) outer →
      Enclosed tape lower stop (.consequent stop closing :: outer)
  | repeats {tape lower stop start body remaining closing outer} :
      tape.Carries (start + 1) (Piece.ofItems body) → stop = start + 1 + span body →
      closing.address = stop → tape.Carries closing.address closing.code →
      Enclosed tape closing.address (closing.address + Piece.extent closing.code) outer →
      Enclosed tape lower stop (.repeats start body remaining closing :: outer)
  | test {tape lower stop loop closing outer} :
      loop.Placed tape closing.address → stop = loop.middle →
      tape.Carries closing.address closing.code →
      Enclosed tape closing.address (closing.address + Piece.extent closing.code) outer →
      Enclosed tape lower stop (.test loop closing :: outer)
  | body {tape lower stop loop closing outer} :
      loop.Placed tape closing.address → loop.middle < lower → closing.address = stop →
      tape.Carries closing.address closing.code →
      Enclosed tape closing.address (closing.address + Piece.extent closing.code) outer →
      Enclosed tape lower stop (.body loop closing :: outer)
  | cell {tape lower stop owned closing outer} :
      closing.address = stop → tape.Carries closing.address closing.code →
      Enclosed tape closing.address (closing.address + Piece.extent closing.code) outer →
      Enclosed tape lower stop (.cell owned closing :: outer)
  | call {tape lower stop place caller address rest outer} :
      tape[stop]? = some ⟨.ret, place⟩ → caller.Carries address rest →
      Enclosed caller address (address + Piece.extent rest) outer →
      Enclosed tape lower stop (.call caller address rest :: outer)

/-- A narrower range of addresses has no bound of the innermost frame in it either. -/
theorem Enclosed.mono {tape : Tape} {lower higher stop : Nat} {blocks : List Block}
    (enclosed : Enclosed tape lower stop blocks) (above : lower ≤ higher) :
    Enclosed tape higher stop blocks := by
  cases enclosed with
  | program => exact .program
  | consequent carried outside => exact .consequent carried outside
  | repeats inside width same carried outside => exact .repeats inside width same carried outside
  | test placed same carried outside => exact .test placed same carried outside
  | body placed before same carried outside => exact .body placed (by omega) same carried outside
  | cell same carried outside => exact .cell same carried outside
  | call ret carried outside => exact .call ret carried outside

/-- Between its bounds a loop has no boundary. -/
theorem Machine.loop_quiet {machine : Machine} {body stop test : Nat} (outer : List Frame)
    (notBody : machine.ip ≠ body) (notStop : machine.ip ≠ stop) :
    (machine.backToTest test stop).bodyOrDone body stop outer = .settled true machine := by
  rw [backToTest, if_neg notStop, bodyOrDone, if_neg notBody]

/-- Inside a level there is no boundary. -/
theorem Enclosed.boundary {machine : Machine} {lower stop : Nat} {blocks : List Block}
    (enclosed : Enclosed machine.tape lower stop blocks) (frames : machine.frames = blocks.map Block.frame)
    (above : lower ≤ machine.ip) (below : machine.ip < stop) :
    machine.boundary = .settled true machine := by
  unfold Machine.boundary
  rw [frames]
  generalize tapeEq : machine.tape = tape at enclosed
  cases enclosed with
  | program => simp [below]
  | consequent => simp [Block.frame, Nat.ne_of_lt below]
  | repeats _ _ same => simp [Block.frame, same, Nat.ne_of_lt below]
  | test placed same =>
    have later := placed.stop
    exact Machine.loop_quiet _ (by omega) (by omega)
  | body placed before same => exact Machine.loop_quiet _ (by omega) (by omega)
  | cell same => simp [Block.frame, same, Nat.ne_of_lt below]
  | call => simp [Block.frame]

namespace Machine

/-- At the `else` of a choice the first branch is done, and the machine jumps over the second. -/
theorem boundary_branch {machine : Machine} {bound resume : Nat} {outer : List Frame}
    (frames : machine.frames = .branch bound resume :: outer) (here : machine.ip = bound) :
    machine.boundary = .crossed { machine with ip := resume, frames := outer } := by
  rw [boundary, frames]
  exact if_pos here

theorem boundary_repeats {machine : Machine} {start stop remaining : Nat} {outer : List Frame}
    (frames : machine.frames = .repeats start stop remaining :: outer) (here : machine.ip = stop) :
    machine.boundary = machine.againOrDone start stop remaining outer := by
  rw [boundary, frames]
  exact if_pos here

/-- Anywhere but at its `end`, a loop looks whether the test is done. -/
theorem boundary_test {machine : Machine} {test body stop : Nat} {outer : List Frame}
    (frames : machine.frames = .loop test body stop :: outer) (before : machine.ip ≠ stop) :
    machine.boundary = machine.bodyOrDone body stop outer := by
  rw [boundary, frames]
  exact congrArg (bodyOrDone · body stop outer) (if_neg before)

/-- At its `end` a loop goes back to the test, which may be empty: then the number on top decides at once. -/
theorem boundary_body {machine : Machine} {test body stop : Nat} {outer : List Frame}
    (frames : machine.frames = .loop test body stop :: outer) (here : machine.ip = stop) :
    machine.boundary = { machine with ip := test + 1 }.bodyOrDone body stop outer := by
  unfold boundary
  split <;> simp_all [backToTest]

/-- At the end of its block a cell is given back, which can fail. -/
theorem boundary_cell {machine : Machine} {stop address : Nat} {outer : List Frame}
    (frames : machine.frames = .cell stop address :: outer) (here : machine.ip = stop) :
    machine.boundary =
      match machine.dropCell address outer with
      | (.ok _, closed) => .settled true closed
      | (.error cause, closed) => .failed cause closed := by
  rw [boundary, frames]
  exact if_pos here

theorem boundary_call {machine : Machine} {tape : Tape} {address : Nat} {outer : List Frame}
    (frames : machine.frames = .call tape address :: outer) :
    machine.boundary = .settled true machine := by
  rw [boundary, frames]

theorem settle_of_crossed {machine next : Machine} (crossing : machine.boundary = .crossed next) :
    machine.settle = next.settle := by
  rw [settle]
  split <;> simp_all

theorem settle_of_settled {machine next : Machine} {more : Bool}
    (settled : machine.boundary = .settled more next) : machine.settle = (.ok more, next) := by
  rw [settle]
  split <;> simp_all

theorem settle_of_failed {machine next : Machine} {cause : Cause}
    (failed : machine.boundary = .failed cause next) : machine.settle = (.error cause, next) := by
  rw [settle]
  split <;> simp_all

/-- Where there is no boundary, a step carries out the instruction. -/
theorem step_of_quiet {machine : Machine} {instruction : Instruction}
    (quiet : machine.boundary = .settled true machine)
    (here : machine.tape[machine.ip]? = some instruction) :
    machine.step = machine.perform instruction := by
  rw [step, settle_of_settled quiet]
  simp only [here]

/-- A boundary that is settled elsewhere may as well have been crossed. -/
theorem settle_of_quiet {machine next : Machine} (settled : machine.boundary = .settled true next)
    (quiet : next.boundary = .settled true next) : machine.settle = next.settle := by
  rw [settle_of_settled settled, settle_of_settled quiet]

theorem step_of_failed {machine next : Machine} {cause : Cause}
    (failed : machine.boundary = .failed cause next) : machine.step = .failed cause next := by
  rw [step, settle_of_failed failed]

/-- The boundary that a machine meets is all that settling sees of the place where it stands. -/
theorem settle_of_same_boundary {machine next : Machine} (same : machine.boundary = next.boundary) :
    machine.settle = next.settle := by
  cases found : next.boundary with
  | crossed beyond => rw [settle_of_crossed (same.trans found), settle_of_crossed found]
  | settled more beyond => rw [settle_of_settled (same.trans found), settle_of_settled found]
  | failed cause beyond => rw [settle_of_failed (same.trans found), settle_of_failed found]

theorem step_of_settle {machine next : Machine} (same : machine.settle = next.settle) :
    machine.step = next.step := by
  rw [step, same, step]

theorem failure_at {machine : Machine} {instruction : Instruction}
    (here : machine.tape[machine.ip]? = some instruction) (cause : Cause) :
    machine.failure cause = ⟨cause, some instruction.place⟩ := by
  rw [failure, here]
  rfl

end Machine

end TapeMachine
