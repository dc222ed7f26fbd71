import TapeMachine.Proofs.Placement

namespace TapeMachine

namespace Dictionary

variable {α β : Type}

theorem get?_map (f : α → β) (dictionary : Dictionary α) (name : String) :
    (dictionary.map f).get? name = (dictionary.get? name).map f := by
  simp [get?, map, List.find?_map, Function.comp_def]

theorem insertEntry_map (f : α → β) (key : String) (value : α) (entries : List (String × α)) :
    insertEntry key (f value) (entries.map fun entry => (entry.1, f entry.2)) =
      (insertEntry key value entries).map fun entry => (entry.1, f entry.2) := by
  induction entries with
  | nil => rfl
  | cons entry rest ih =>
    by_cases same : entry.1 = key
    · simp [insertEntry, same]
    · simp [insertEntry, same, ih]

theorem map_insert (f : α → β) (dictionary : Dictionary α) (key : String) (value : α) :
    (dictionary.insert key value).map f = (dictionary.map f).insert key (f value) := by
  simp only [map, insert, insertEntry_map]

theorem map_insertAll (f : α → β) (dictionary : Dictionary α) (entries : List (String × α)) :
    (dictionary.insertAll entries).map f =
      (dictionary.map f).insertAll (entries.map fun entry => (entry.1, f entry.2)) := by
  induction entries generalizing dictionary with
  | nil => rfl
  | cons entry rest ih =>
    show ((dictionary.insert entry.1 entry.2).insertAll rest).map f = _
    rw [ih, map_insert]
    rfl

/-- What is found behind many insertions was there before, or is one of them. -/
theorem get?_insertAll {dictionary : Dictionary α} {entries : List (String × α)} {name : String} {value : α}
    (found : (dictionary.insertAll entries).get? name = some value) :
    dictionary.get? name = some value ∨ (name, value) ∈ entries := by
  induction entries generalizing dictionary with
  | nil => exact .inl found
  | cons entry rest ih =>
    rcases ih found with before | later
    · rw [get?_insert] at before
      split at before
      · rename_i same
        cases before
        exact .inr (same ▸ List.mem_cons_self)
      · exact .inl before
    · exact .inr (List.mem_cons_of_mem _ later)

end Dictionary

/-- Every function of the table stands on the tape it was defined on. -/
def Dictionary.Placed (functions : Dictionary Routine) : Prop :=
  ∀ name tape definition place body, functions.get? name = some (.user tape definition place body) →
    tape.HoldsBody definition.start place body

/-- Nothing has come in from outside that the machine has not dealt with. -/
structure Machine.Calm (machine : Machine) : Prop where
  pending : machine.pending = none
  fault : machine.fault = none
  interrupted : machine.interrupted = false

theorem Piece.width_pos (piece : Piece) : 0 < piece.width := by
  cases piece with
  | mark => exact Nat.one_pos
  | item whole =>
    rw [Piece.width]
    cases whole <;> simp only [Item.width, widthFrom_eq] <;> omega

namespace Walker

/-- The tapes of a walker hold the trees it believes to run. -/
structure Placed (walker : Walker) : Prop where
  carried : walker.tape.Carries walker.ip walker.code
  enclosed : Enclosed walker.tape walker.ip (walker.ip + Piece.extent walker.code) walker.blocks
  functions : walker.functions.Placed

/-- The machine of a walker does what the walker does. A boundary that the walker crosses belongs to the
step in which the machine crosses it. -/
def Agrees (walker : Walker) : Move → Prop
  | .crossed next => walker.machine.settle = next.machine.settle ∧ next.Placed
  | .ran next => walker.machine.step = .ran next.machine ∧ next.Placed
  | .prints text next => walker.machine.step = .shows (.print text) next.machine ∧ next.Placed
  | .asks kind prompt place next =>
    walker.machine.step = .shows (.input prompt)
      { next.machine with pending := some (kind, place), phase := .awaiting } ∧ next.Placed
  | .imports name place => walker.machine.step = .imports name place walker.machine
  | .failed failure => ∃ cause after,
      walker.machine.step = .failed cause after ∧ after.failure cause = failure ∧ after.Calm
  | .ends => walker.machine.step = walker.machine.finish

variable {walker : Walker}

/-- Before a piece of the code there is no boundary. -/
theorem Placed.quiet (placed : walker.Placed) {piece : Piece} {rest : List Piece}
    (code : walker.code = piece :: rest) : walker.machine.boundary = .settled true walker.machine := by
  refine placed.enclosed.boundary rfl (Nat.le_refl _) ?_
  have positive := piece.width_pos
  rw [code, Piece.extent_cons]
  exact Nat.lt_add_of_pos_right (by omega)

/-- What stands at the head of the code is carried out. -/
theorem Placed.step (placed : walker.Placed) {piece : Piece} {rest : List Piece}
    (code : walker.code = piece :: rest) {instruction : Instruction}
    (here : walker.tape[walker.ip]? = some instruction) :
    walker.machine.step = walker.machine.perform instruction :=
  Machine.step_of_quiet (placed.quiet code) here

/-- A walker may go to any code that ends where its level ends. -/
theorem Placed.goto (placed : walker.Placed) {address : Nat} {code : List Piece} (store : Store)
    (carried : walker.tape.Carries address code) (above : walker.ip ≤ address)
    (stop : address + Piece.extent code = walker.ip + Piece.extent walker.code) :
    ({ walker with store }.goto address code).Placed where
  carried := carried
  enclosed := by
    have enclosed := placed.enclosed.mono above
    rw [← stop] at enclosed
    exact enclosed
  functions := placed.functions

theorem Placed.next (placed : walker.Placed) {piece : Piece} {rest : List Piece}
    (code : walker.code = piece :: rest) (width : piece.width = 1) (store : Store)
    (carried : walker.tape.Carries (walker.ip + 1) rest) : (walker.next rest store).Placed := by
  have stop : walker.ip + 1 + Piece.extent rest = walker.ip + Piece.extent walker.code := by
    rw [code, Piece.extent_cons, width]
    omega
  exact placed.goto store carried (Nat.le_succ _) stop

/-- A walker may enter a block whose inside and surroundings are on the tape. -/
theorem Placed.inside (placed : walker.Placed) {block : Block} {address : Nat} {body : List Item}
    {outer : List Block} (store : Store) (carried : walker.tape.Carries address (Piece.ofItems body))
    (enclosed : Enclosed walker.tape address (address + span body) (block :: outer)) :
    ({ walker with store }.inside block address body outer).Placed where
  carried := carried
  enclosed := by
    rw [← Piece.extent_ofItems] at enclosed
    exact enclosed
  functions := placed.functions

theorem Placed.leave (placed : walker.Placed) {closing : Closing} {outer : List Block} (store : Store)
    (carried : walker.tape.Carries closing.address closing.code)
    (enclosed : Enclosed walker.tape closing.address (closing.address + Piece.extent closing.code) outer) :
    ({ walker with store }.leave closing outer).Placed where
  carried := carried
  enclosed := enclosed
  functions := placed.functions

/-- A walker that has left a block stands before its `end`, where there is no boundary. -/
theorem Placed.leave_quiet {closing : Closing} {outer : List Block}
    (placed : (walker.leave closing outer).Placed) :
    (walker.leave closing outer).machine.boundary = .settled true (walker.leave closing outer).machine := by
  have inside : closing.address < closing.address + Piece.extent closing.code := by
    rw [Closing.code, Piece.extent_cons, Piece.width_mark]
    omega
  exact placed.enclosed.boundary rfl (Nat.le_refl _) inside

/-- An instruction that a walker and its machine both fail at leaves the machine where it stands. -/
theorem agrees_after {α : Type} {outcome : Outcome α} {opcode : Opcode} {place : Location} {next : α → Move}
    (here : walker.tape[walker.ip]? = some ⟨opcode, place⟩)
    (fails : ∀ cause, outcome = .error cause → walker.machine.FailsHere walker.machine.step cause)
    (goes : ∀ found, outcome = .ok found → walker.Agrees (next found)) :
    walker.Agrees (.after outcome place next) := by
  cases result : outcome with
  | ok found => exact goes found result
  | error cause =>
    obtain ⟨after, step, stays⟩ := fails cause result
    have place := Machine.failure_at (show after.tape[after.ip]? = _ by rw [stays.tape, stays.ip]; exact here) cause
    exact ⟨cause, after, step, place, stays.pending, stays.fault, stays.interrupted⟩

theorem Placed.agrees_push (placed : walker.Placed) {piece : Piece} {rest : List Piece} {value : Value}
    {opcode : Opcode} {place : Location} (code : walker.code = piece :: rest) (width : piece.width = 1)
    (carried : walker.tape.Holds walker.ip [⟨opcode, place⟩] ∧ walker.tape.Carries (walker.ip + 1) rest)
    (performs : walker.machine.perform ⟨opcode, place⟩ = walker.machine.leave value) :
    walker.Agrees (.after (walker.store.push value) place fun store => .ran (walker.next rest store)) := by
  have here := carried.1.1
  have step := placed.step code here
  rw [performs] at step
  refine agrees_after here ?_ ?_
  · intro cause failed
    rw [step]
    exact Machine.leave_of_error failed
  · intro store pushed
    refine ⟨?_, placed.next code width store carried.2⟩
    rw [step]
    exact Machine.leave_of_push pushed

theorem Placed.agrees_mark (placed : walker.Placed) {mark : Mark} {place : Location} {rest : List Piece}
    (code : walker.code = .mark mark place :: rest) : walker.Agrees (.ran (walker.pass mark rest)) := by
  have carried := placed.carried
  rw [code, Tape.carries_mark] at carried
  have step := placed.step code carried.1
  cases mark with
  | noop | enter | dropCell => exact ⟨step, placed.next code rfl walker.store carried.2⟩
  | unbind names => exact ⟨step, placed.next code rfl walker.store.unbind carried.2⟩

theorem Placed.agrees_builtin (placed : walker.Placed) {name : String} {place : Location}
    {rest : List Piece} {word : Builtin} (code : walker.code = .item (.word place name) :: rest)
    (found : walker.functions.get? name = some (.builtin word)) :
    walker.Agrees (walker.builtin word place rest) := by
  have carried := placed.carried
  rw [code] at carried
  have here : walker.tape[walker.ip]? = some ⟨.call name, place⟩ := carried.1
  have step := placed.step code here
  have known : walker.machine.functions.get? name = some (.builtin word) := by
    show (walker.functions.map Routine.callable).get? name = _
    rw [Dictionary.get?_map, found]
    rfl
  simp only [Machine.perform, Machine.call, known] at step
  refine agrees_after here ?_ ?_
  · intro cause failed
    rw [step]
    exact Machine.builtin_of_error place failed
  · rintro ⟨effect, store⟩ invoked
    change walker.machine.store.invoke word = _ at invoked
    rw [Machine.builtin_of_invoked place invoked] at step
    have next := placed.next code rfl store carried.2
    cases effect <;> exact ⟨step, next⟩

theorem Placed.agrees_word (placed : walker.Placed) {name : String} {place : Location}
    {rest : List Piece} (code : walker.code = .item (.word place name) :: rest) :
    walker.Agrees (walker.word name place rest) := by
  have carried := placed.carried
  rw [code] at carried
  have here : walker.tape[walker.ip]? = some ⟨.call name, place⟩ := carried.1
  have step := placed.step code here
  have known : walker.machine.functions.get? name = (walker.functions.get? name).map Routine.callable :=
    Dictionary.get?_map _ _ _
  unfold word
  split
  · rename_i word found
    exact placed.agrees_builtin code found
  · rename_i tape definition from_ body found
    simp only [Machine.perform, Machine.call, known, found, Option.map_some, Routine.callable] at step
    obtain ⟨inside, stop, ret⟩ := placed.functions _ _ _ _ _ found
    have outside : Enclosed walker.tape (walker.ip + 1) (walker.ip + 1 + Piece.extent rest) walker.blocks := by
      have enclosed := placed.enclosed.mono (Nat.le_succ walker.ip)
      rw [code, Piece.extent_cons, ← Nat.add_assoc] at enclosed
      exact enclosed
    refine ⟨step, inside, ?_, placed.functions⟩
    simp only [Piece.extent_cons, Piece.width_mark, Piece.extent_ofItems, ← Nat.add_assoc]
    exact .call ret carried.2 outside
  · rename_i found
    simp only [Machine.perform, Machine.call, known, found, Option.map_none] at step
    have same : walker.machine.bindings = walker.store.bindings := rfl
    rw [same] at step
    rw [Store.fetch]
    cases bound : walker.store.bindings.get? name with
    | some value =>
      rw [bound] at step
      have leaves : walker.machine.step = walker.machine.leave value := step
      refine agrees_after here ?_ ?_
      · intro cause failed
        rw [leaves]
        exact Machine.leave_of_error failed
      · intro store pushed
        refine ⟨?_, placed.next code rfl store carried.2⟩
        rw [leaves]
        exact Machine.leave_of_push pushed
    | none =>
      rw [bound] at step
      refine agrees_after here ?_ ?_
      · intro cause failed
        cases failed
        exact ⟨_, step, ⟨rfl, rfl, rfl, rfl, rfl⟩⟩
      · intro store pushed
        cases pushed

/-- The addresses of a block: it begins at the walker's, and ends before the `rest` does. -/
theorem extent_item {item : Item} {rest : List Piece} (code : walker.code = .item item :: rest) :
    Piece.extent walker.code = item.width + Piece.extent rest := by
  rw [code, Piece.extent_cons]
  rfl

/-- What is around a block is also around its `end` and what stands behind. -/
theorem Placed.enclosed_closing (placed : walker.Placed) {item : Item} (closing : Closing)
    (code : walker.code = .item item :: closing.rest) (stop : walker.ip + item.width = closing.address + 1) :
    Enclosed walker.tape closing.address (closing.address + Piece.extent closing.code) walker.blocks := by
  have positive := (Piece.item item).width_pos
  have enclosed := placed.enclosed.mono (by simp only [Piece.width] at positive; omega :
    walker.ip ≤ closing.address)
  have same : walker.ip + Piece.extent walker.code = closing.address + Piece.extent closing.code := by
    rw [extent_item code, Closing.code, Piece.extent_cons, Piece.width_mark]
    omega
  rw [same] at enclosed
  exact enclosed

theorem Placed.agrees_branch (placed : walker.Placed) {place stop : Location} {body : List Item}
    {rest : List Piece} (code : walker.code = .item (.branch place body stop) :: rest) :
    walker.Agrees (walker.perform (.branch place body stop) rest) := by
  have carried := placed.carried
  rw [code, Tape.carries_branch] at carried
  obtain ⟨here, inside⟩ := carried
  have extent := extent_item code
  have width : walker.ip + (Item.branch place body stop).width = walker.ip + 1 + span body + 1 := Item.add_width _ _
  have step := placed.step code here
  refine agrees_after here ?_ ?_
  · intro cause failed
    rw [step]
    exact Machine.branch_of_error _ _ failed
  · rintro ⟨n, store⟩ taken
    change _ = walker.machine.branch none _ at step
    change walker.machine.store.takeNumber = _ at taken
    rw [Machine.branch_of_taken none _ taken] at step
    dsimp only
    split
    · rename_i holds
      rw [if_pos holds] at step
      refine ⟨step, placed.goto store inside (Nat.le_succ _) ?_⟩
      simp only [Piece.extent_append, Piece.extent_ofItems, Piece.extent_cons, Piece.width_mark]
      omega
    · rename_i holds
      rw [if_neg holds] at step
      refine ⟨step, placed.goto store (Tape.carries_items_mark.1 inside).2 (by omega) ?_⟩
      simp only [Piece.extent_cons, Piece.width_mark]
      omega

theorem Placed.agrees_choice (placed : walker.Placed) {place middle stop : Location}
    {consequent alternative : List Item} {rest : List Piece}
    (code : walker.code = .item (.choice place consequent middle alternative stop) :: rest) :
    walker.Agrees (walker.perform (.choice place consequent middle alternative stop) rest) := by
  have carried := placed.carried
  rw [code, Tape.carries_choice] at carried
  obtain ⟨here, inside⟩ := carried
  have width : walker.ip + (Item.choice place consequent middle alternative stop).width =
      walker.ip + 1 + span consequent + 1 + span alternative + 1 := Item.add_width _ _
  obtain ⟨first, second⟩ := Tape.carries_append.1 inside
  rw [Piece.extent_ofItems] at second
  have closing := (Tape.carries_items_mark.1 (Tape.carries_mark.1 second).2).2
  have step := placed.step code here
  refine agrees_after here ?_ ?_
  · intro cause failed
    rw [step]
    exact Machine.branch_of_error _ _ failed
  · rintro ⟨n, store⟩ taken
    change _ = walker.machine.branch (some _) _ at step
    change walker.machine.store.takeNumber = _ at taken
    rw [Machine.branch_of_taken (some _) _ taken] at step
    dsimp only
    split
    · rename_i holds
      rw [if_pos holds] at step
      have outside := placed.enclosed_closing
        ⟨walker.ip + 1 + span consequent + 1 + span alternative, stop, rest⟩ code width
      exact ⟨step, placed.inside store first (.consequent closing outside)⟩
    · rename_i holds
      rw [if_neg holds] at step
      refine ⟨step, placed.goto store second (by omega) ?_⟩
      simp only [extent_item code, Piece.extent_append, Piece.extent_ofItems,
        Piece.extent_cons, Piece.width_mark, Closing.code]
      omega

theorem Placed.agrees_repeats (placed : walker.Placed) {place stop : Location} {body : List Item}
    {rest : List Piece} (code : walker.code = .item (.repeats place body stop) :: rest) :
    walker.Agrees (walker.perform (.repeats place body stop) rest) := by
  have carried := placed.carried
  rw [code, Tape.carries_repeats] at carried
  obtain ⟨here, inside⟩ := carried
  have width : walker.ip + (Item.repeats place body stop).width = walker.ip + 1 + span body + 1 := Item.add_width _ _
  obtain ⟨body', closing⟩ := Tape.carries_append.1 inside
  rw [Piece.extent_ofItems] at closing
  have step := placed.step code here
  refine agrees_after here ?_ ?_
  · intro cause failed
    rw [step]
    exact Machine.repeats_of_error _ _ failed
  · rintro ⟨count, store⟩ taken
    change _ = walker.machine.repeats _ _ at step
    change walker.machine.store.takeCount = _ at taken
    cases count with
    | zero =>
      rw [Machine.repeats_of_none _ _ taken] at step
      have above : walker.ip ≤ walker.ip + 1 + span body := by omega
      refine ⟨step, placed.goto store closing above ?_⟩
      simp only [extent_item code, Closing.code, Piece.extent_cons, Piece.width_mark]
      omega
    | succ more =>
      rw [Machine.repeats_of_more _ _ taken] at step
      have outside := placed.enclosed_closing ⟨walker.ip + 1 + span body, stop, rest⟩ code width
      exact ⟨step, placed.inside store body' (.repeats body' rfl rfl closing outside)⟩

theorem Placed.agrees_loop (placed : walker.Placed) {place middle stop : Location}
    {test body : List Item} {rest : List Piece}
    (code : walker.code = .item (.loop place test middle body stop) :: rest) :
    walker.Agrees (walker.perform (.loop place test middle body stop) rest) := by
  have carried := placed.carried
  rw [code, Tape.carries_loop] at carried
  obtain ⟨here, inside⟩ := carried
  obtain ⟨first, atMiddle, second⟩ := Tape.carries_items_mark.1 inside
  obtain ⟨body', closing⟩ := Tape.carries_append.1 second
  rw [Piece.extent_ofItems] at closing
  have outside := placed.enclosed_closing ⟨walker.ip + 1 + span test + 1 + span body, stop, rest⟩ code
    (Item.add_width _ _)
  have step := placed.step code here
  exact ⟨step, placed.inside walker.store first (.test ⟨first, atMiddle, body', rfl⟩ rfl closing outside)⟩

theorem Placed.agrees_bind (placed : walker.Placed) {place stop : Location} {names : List String}
    {body : List Item} {rest : List Piece} (code : walker.code = .item (.bind place names body stop) :: rest) :
    walker.Agrees (walker.perform (.bind place names body stop) rest) := by
  have carried := placed.carried
  rw [code, Tape.carries_bind] at carried
  obtain ⟨here, inside⟩ := carried
  have width : walker.ip + (Item.bind place names body stop).width = walker.ip + 1 + span body + 1 + 1 :=
    Item.add_width _ _
  have step := placed.step code here
  refine agrees_after here ?_ ?_
  · intro cause failed
    rw [step]
    exact Machine.bind_of_error failed
  · intro store bound
    change _ = walker.machine.bind _ at step
    change walker.machine.store.bind _ = _ at bound
    rw [Machine.bind_of_bound bound] at step
    refine ⟨step, placed.goto store inside (Nat.le_succ _) ?_⟩
    simp only [extent_item code, Piece.extent_append, Piece.extent_ofItems,
      Piece.extent_cons, Piece.width_mark]
    omega

theorem Placed.agrees_cell (placed : walker.Placed) {place stop : Location} {name : String}
    {body : List Item} {rest : List Piece} (code : walker.code = .item (.cell place name body stop) :: rest) :
    walker.Agrees (walker.perform (.cell place name body stop) rest) := by
  have carried := placed.carried
  rw [code, Tape.carries_cell] at carried
  obtain ⟨here, inside⟩ := carried
  obtain ⟨body', closing⟩ := Tape.carries_append.1 inside
  rw [Piece.extent_ofItems] at closing
  have step := placed.step code here
  refine agrees_after here ?_ ?_
  · intro cause failed
    rw [step]
    exact Machine.cell_of_error _ failed
  · rintro ⟨owned, store⟩ claimed
    change _ = walker.machine.cell _ _ at step
    change walker.machine.store.claim _ = _ at claimed
    rw [Machine.cell_of_claimed _ claimed] at step
    have outside := placed.enclosed_closing ⟨walker.ip + 1 + span body, stop, rest⟩ code (Item.add_width _ _)
    exact ⟨step, placed.inside store body' (.cell rfl closing outside)⟩

theorem Placed.agrees_define (placed : walker.Placed) {place stop : Location} {heading : Heading}
    {body : List Item} {rest : List Piece}
    (code : walker.code = .item (.define place heading body stop) :: rest) :
    walker.Agrees (walker.perform (.define place heading body stop) rest) := by
  have carried := placed.carried
  rw [code] at carried
  obtain ⟨here, holdsBody, behind⟩ := Tape.carries_define carried
  have width : walker.ip + (Item.define place heading body stop).width = walker.ip + 3 + span body + 1 + 1 + 1 :=
    Item.add_width _ _
  have step := placed.step code here
  have behind' := placed.goto walker.store behind (by omega) (by
    simp only [extent_item code, Piece.extent_cons, Piece.width_mark]
    omega)
  refine ⟨?_, behind'.carried, behind'.enclosed, ?_⟩
  · rw [step]
    simp only [Machine.perform, Machine.define, machine, Dictionary.map_insert]
    rfl
  · intro name tape definition from_ inner found
    rw [Dictionary.get?_insert] at found
    split at found
    · cases found
      exact holdsBody
    · exact placed.functions _ _ _ _ _ found

/-- Whatever a walker begins, its machine begins. -/
theorem Placed.agrees_perform (placed : walker.Placed) {item : Item} {rest : List Piece}
    (code : walker.code = .item item :: rest) : walker.Agrees (walker.perform item rest) := by
  have carried := placed.carried
  rw [code] at carried
  cases item with
  | number place n => exact placed.agrees_push code rfl ⟨⟨carried.1, trivial⟩, carried.2⟩ rfl
  | string place text => exact placed.agrees_push code rfl ⟨⟨carried.1, trivial⟩, carried.2⟩ rfl
  | word place name => exact placed.agrees_word code
  | imports place name => exact placed.step code carried.1
  | branch => exact placed.agrees_branch code
  | choice => exact placed.agrees_choice code
  | repeats => exact placed.agrees_repeats code
  | loop => exact placed.agrees_loop code
  | bind => exact placed.agrees_bind code
  | cell => exact placed.agrees_cell code
  | define => exact placed.agrees_define code

/-- A machine whose blocks end where it stands. -/
theorem machine_with_frames {closing : Closing} (outer : List Block) (store : Store)
    (here : walker.ip = closing.address) :
    { walker.machine.withStore store with frames := outer.map Block.frame } =
      ({ walker with store }.leave closing outer).machine := by
  rw [leave, ← here]
  rfl

/-- The level is done, and the walker crosses the boundary of the block around it. -/
theorem Placed.agrees_close (placed : walker.Placed) {block : Block} {outer : List Block}
    (code : walker.code = []) (blocks : walker.blocks = block :: outer) :
    walker.Agrees (walker.close block outer) := by
  have enclosed := placed.enclosed
  have frames : walker.machine.frames = block.frame :: outer.map Block.frame := by
    show walker.blocks.map Block.frame = _
    rw [blocks]
    rfl
  rw [code, blocks, Piece.extent_nil, Nat.add_zero] at enclosed
  generalize here : walker.ip = stop at enclosed
  cases enclosed with
  | @consequent _ _ _ closing _ carried outside =>
    exact ⟨Machine.settle_of_crossed (Machine.boundary_branch frames here),
      placed.leave walker.store carried outside⟩
  | @repeats _ _ _ start body remaining closing _ inside width same carried outside =>
    have boundary := Machine.boundary_repeats frames (here.trans same.symm)
    cases remaining with
    | zero =>
      have left := placed.leave walker.store carried outside
      have same := congrArg (Machine.Boundary.settled true)
        (machine_with_frames outer walker.store (here.trans same.symm))
      exact ⟨Machine.settle_of_quiet (boundary.trans same) left.leave_quiet, left⟩
    | succ remaining =>
      refine ⟨Machine.settle_of_crossed boundary, placed.inside walker.store inside ?_⟩
      exact .repeats inside rfl (same.trans width) carried outside
  | @test _ _ _ loop closing _ parts same carried outside =>
    have ahead := parts.stop
    have there : walker.machine.ip = loop.middle := here.trans same
    have boundary := Machine.boundary_test frames (by omega)
    refine agrees_after (here.trans same ▸ parts.middle) ?_ ?_
    · intro cause failed
      obtain ⟨after, failure, stays⟩ :=
        Machine.bodyOrDone_of_error closing.address (outer.map Block.frame) there failed
      exact ⟨after, Machine.step_of_failed (boundary.trans failure), stays⟩
    · rintro ⟨n, store⟩ taken
      change walker.machine.store.takeNumber = _ at taken
      rw [Machine.bodyOrDone_of_taken closing.address _ there taken] at boundary
      dsimp only
      split
      · rename_i zero
        rw [if_pos zero] at boundary
        have left := placed.leave store carried outside
        exact ⟨Machine.settle_of_quiet boundary left.leave_quiet, left⟩
      · rename_i more
        rw [if_neg more] at boundary
        refine ⟨Machine.settle_of_crossed ?_, placed.inside store parts.body ?_⟩
        · rw [boundary]
          simp only [Machine.withStore, frames]
          rfl
        · exact .body parts (Nat.lt_succ_self _) parts.stop carried outside
  | @body _ _ _ loop closing _ parts before same carried outside =>
    have there : walker.machine.ip = closing.address := here.trans same.symm
    have ahead := parts.stop
    have again : loop.start + 1 ≠ closing.address := by rw [Loop.middle] at ahead; omega
    have inside := placed.inside walker.store parts.test (.test parts rfl carried outside)
    refine ⟨Machine.settle_of_same_boundary ?_, inside⟩
    rw [Machine.boundary_body frames there, frames]
    exact (Machine.boundary_test rfl again).symm
  | @cell _ _ _ owned closing _ same carried outside =>
    have there : walker.ip = closing.address := here.trans same.symm
    have boundary := Machine.boundary_cell frames there
    refine agrees_after (there ▸ carried.1) ?_ ?_
    · intro cause failed
      change walker.machine.store.release _ = _ at failed
      obtain ⟨after, dropped, stays⟩ := Machine.dropCell_of_error (outer.map Block.frame) failed
      rw [dropped] at boundary
      exact ⟨after, Machine.step_of_failed boundary, stays⟩
    · intro store released
      change walker.machine.store.release _ = _ at released
      rw [Machine.dropCell_of_released _ released] at boundary
      have left := placed.leave store carried outside
      refine ⟨Machine.settle_of_quiet (boundary.trans ?_) left.leave_quiet, left⟩
      exact congrArg (Machine.Boundary.settled true) (machine_with_frames outer store there)
  | @call _ _ _ place caller address rest _ ret carried outside =>
    have step := Machine.step_of_quiet (Machine.boundary_call frames) (here ▸ ret)
    rw [Machine.perform, frames] at step
    exact ⟨step, carried, outside, placed.functions⟩

/-- A machine does what the walker does that knows its tree. -/
theorem Placed.agrees (placed : walker.Placed) : walker.Agrees walker.move := by
  unfold move
  split
  · rename_i code
    exact placed.agrees_mark code
  · rename_i code
    exact placed.agrees_perform code
  · rename_i code blocks
    exact placed.agrees_close code blocks
  · rename_i code blocks
    have enclosed := placed.enclosed
    rw [code, blocks, Piece.extent_nil, Nat.add_zero] at enclosed
    generalize here : walker.ip = stop at enclosed
    cases enclosed with
    | program =>
      have settled : walker.machine.boundary = .settled false walker.machine := by
        rw [Machine.boundary, show walker.machine.frames = [] by simp [machine, blocks]]
        simp [machine, here]
      show walker.machine.step = _
      rw [Machine.step, Machine.settle_of_settled settled]

/-- In the beginning there are no functions but builtins. -/
theorem start_functions {capacity : Nat} {items : List Item} {name : String} {tape : Tape}
    {definition : Definition} {place : Location} {body : List Item} :
    (start capacity items).functions.get? name ≠ some (.user tape definition place body) := by
  intro found
  rcases Dictionary.get?_insertAll found with before | listed
  · cases before
  · obtain ⟨word, -, same⟩ := List.mem_map.1 listed
    cases same

theorem start_placed (capacity : Nat) (items : List Item) : (start capacity items).Placed where
  carried := by
    rw [Tape.Carries, start, Piece.codeFrom_ofItems]
    exact Tape.holds_ofItems items
  enclosed := by
    rw [start, Piece.extent_ofItems, Nat.zero_add, ← Tape.size_ofItems]
    exact .program
  functions := by
    intro name tape definition place body found
    exact (start_functions found).elim

theorem start_machine (capacity : Nat) (items : List Item) :
    (start capacity items).machine = .start capacity (.ofItems items) := by
  simp only [machine, start, Machine.start, Dictionary.ofList, Dictionary.map_insertAll, List.map_map]
  rfl

end Walker

end TapeMachine
