import TapeMachine.Proofs.Deeds
import TapeMachine.Proofs.Frames

namespace TapeMachine

theorem suffix_tail {α : Type} {short whole : List α} (stands : short <:+ whole) (less : short.length < whole.length) :
    short <:+ whole.tail := by
  cases whole with
  | nil => cases less
  | cons first rest =>
    rcases List.suffix_cons_iff.1 stands with rfl | inside
    · exact absurd less (Nat.lt_irrefl _)
    · exact inside

/-- The cells of the `var` blocks among these, innermost first, each with the number of scope frames around its
block. -/
def Block.rooms : List Block → List (Nat × Nat)
  | [] => []
  | .cell owned closing :: outer => (owned, (Piece.lets closing.rest).length + Block.scopes outer) :: rooms outer
  | .consequent .. :: outer | .repeats .. :: outer | .test .. :: outer | .body .. :: outer | .call .. :: outer =>
    rooms outer

theorem Block.cells_of_rooms (blocks : List Block) :
    (Block.rooms blocks).map Prod.fst = (blocks.map Block.frame).filterMap Frame.cell? := by
  induction blocks with
  | nil => rfl
  | cons block outer ih =>
    cases block with
    | cell owned closing => exact congrArg (owned :: ·) ih
    | consequent | repeats | test | body | call => exact ih

/-- Inside a `var` block there is at least its own scope frame more. -/
theorem Block.room_lt {blocks : List Block} {room : Nat × Nat} (member : room ∈ Block.rooms blocks) :
    room.2 < Block.scopes blocks := by
  induction blocks with
  | nil => cases member
  | cons block outer ih =>
    cases block with
    | cell owned closing =>
      rcases List.mem_cons.1 member with rfl | later
      · simp only [Block.scopes]
        omega
      · have inside := ih later
        simp only [Block.scopes]
        omega
    | consequent | repeats | test | body | call => exact Nat.lt_add_left _ (ih member)

/-- The scope frame that a `var` block has opened is still there, with all those around it, and binds the name to the
cell of the block. -/
def Deed.Anchors (past : List Deed) (frames : List (Dictionary Value)) (room : Nat × Nat) : Prop :=
  ∃ name below, opening? room.1 past = some (name, Dictionary.ofList [(name, .pointer room.1)] :: below) ∧
    Dictionary.ofList [(name, .pointer room.1)] :: below <:+ frames ∧ below.length = room.2

namespace Store

variable {store next : Store}

theorem heap_of_push {value : Value} (pushed : store.push value = .ok next) : next.heap = store.heap := by
  obtain ⟨operands, -, rfl⟩ := push_eq_ok pushed
  rfl

theorem heap_of_takeNumber {n : Decimal} (taken : store.takeNumber = .ok (n, next)) : next.heap = store.heap := by
  obtain ⟨value, operands, -, -, rfl⟩ := take_of_ok taken
  rfl

theorem heap_of_takeCount {count : Nat} (taken : store.takeCount = .ok (count, next)) : next.heap = store.heap := by
  obtain ⟨value, operands, -, -, rfl⟩ := take_of_ok taken
  rfl

theorem of_fetch {name : String} (fetched : store.fetch name = .ok next) : ∃ value, store.push value = .ok next := by
  unfold fetch at fetched
  split at fetched
  · exact ⟨_, fetched⟩
  · cases fetched

end Store

namespace Walker

/-- The `var` blocks around a walker own their cells. -/
structure Owning (past : List Deed) (walker : Walker) : Prop where
  tiled : walker.store.heap.Tiled
  balanced : Deed.Balanced past walker.machine.cells walker.store.heap.holdings
  anchored : ∀ room ∈ Block.rooms walker.blocks, Deed.Anchors past walker.store.bindings.frames room

/-- They do so if the program has been prudent. -/
def Tends (past : List Deed) (walker : Walker) : Prop :=
  Deed.Prudent past → walker.Owning past

/-- The walkers that a move leads to have a property: the first one where a boundary is crossed, and the other one where
an instruction has been carried out. -/
def Move.Brings (crossing acting : Walker → Prop) : Move → Prop
  | .crossed next => crossing next
  | .ran next | .prints _ next | .asks _ _ _ next => acting next
  | .imports .. | .failed _ | .ends => True

variable {program : List Item} {walker next : Walker} {piece : Piece} {rest : List Piece} {past : List Deed}

theorem brings_after {α : Type} {crossing acting : Walker → Prop} {outcome : Outcome α} {place : Location}
    {onward : α → Move} (brings : ∀ found, outcome = .ok found → (onward found).Brings crossing acting) :
    (Move.after outcome place onward).Brings crossing acting := by
  cases outcome with
  | ok found => exact brings found rfl
  | error cause => trivial

theorem cells_machine (walker : Walker) : walker.machine.cells = (Block.rooms walker.blocks).map Prod.fst :=
  (Block.cells_of_rooms walker.blocks).symm

namespace Owning

/-- Cells stay owned while no cell comes or goes, the heap stays the same, and so do the scope frames that were opened
before the level was begun. -/
theorem carry (owning : walker.Owning past) (heap : next.store.heap = walker.store.heap)
    (rooms : Block.rooms next.blocks = Block.rooms walker.blocks)
    (scopes : ∀ frames, frames <:+ walker.store.bindings.frames → frames.length ≤ Block.scopes walker.blocks →
      frames <:+ next.store.bindings.frames) : next.Owning past where
  tiled := heap ▸ owning.tiled
  balanced := by
    rw [heap, cells_machine, rooms, ← cells_machine]
    exact owning.balanced
  anchored := by
    intro room member
    rw [rooms] at member
    obtain ⟨name, below, opened, stands, height⟩ := owning.anchored room member
    have inside := Block.room_lt member
    exact ⟨name, below, opened, scopes _ stands (by rw [List.length_cons, height]; omega), height⟩

/-- So it is in particular where the bindings stay the same. -/
theorem stay (owning : walker.Owning past) (heap : next.store.heap = walker.store.heap)
    (bindings : next.store.bindings = walker.store.bindings)
    (rooms : Block.rooms next.blocks = Block.rooms walker.blocks) : next.Owning past :=
  owning.carry heap rooms fun _ stands _ => bindings ▸ stands

/-- A new scope frame covers nothing. -/
theorem bound (owning : walker.Owning past) (heap : next.store.heap = walker.store.heap) {frame : Dictionary Value}
    (frames : next.store.bindings.frames = frame :: walker.store.bindings.frames)
    (rooms : Block.rooms next.blocks = Block.rooms walker.blocks) : next.Owning past :=
  owning.carry heap rooms fun _ stands _ => frames ▸ stands.trans (List.suffix_cons _ _)

/-- The innermost scope frame may go if it has been opened since the level was begun. -/
theorem unbound (owning : walker.Owning past) (heap : next.store.heap = walker.store.heap)
    (frames : next.store.bindings.frames = walker.store.bindings.frames.tail)
    (more : Block.scopes walker.blocks < walker.store.bindings.frames.length)
    (rooms : Block.rooms next.blocks = Block.rooms walker.blocks) : next.Owning past := by
  refine owning.carry heap rooms fun suffix stands short => ?_
  rw [frames]
  exact suffix_tail stands (by omega)

end Owning

/-- What is done before a piece is done to the memory there. -/
theorem Placed.deed?_eq (placed : walker.Placed) (code : walker.code = piece :: rest) {instruction : Instruction}
    (here : walker.tape[walker.ip]? = some instruction) :
    walker.machine.deed? = walker.machine.deedOf? instruction := by
  have found : walker.machine.tape[walker.machine.ip]? = some instruction := here
  simp only [Machine.deed?, Machine.settle_of_settled (placed.quiet code), found, Option.bind_some]

/-- An instruction that neither calls a word nor enters a `var` block does nothing to the memory. -/
theorem Placed.deed?_eq_none (placed : walker.Placed) (code : walker.code = piece :: rest)
    (other : ∀ instruction, walker.tape[walker.ip]? = some instruction →
      (∀ name, instruction.opcode ≠ .call name) ∧ ∀ name stop, instruction.opcode ≠ .cell name stop) :
    walker.machine.deed? = none := by
  have carried := placed.carried
  rw [code] at carried
  obtain ⟨instruction, here, -⟩ := carried.ne_ret
  obtain ⟨word, cell⟩ := other instruction here
  rw [placed.deed?_eq code here]
  unfold Machine.deedOf?
  split
  · rename_i opcode
    exact (cell _ _ opcode).elim
  · rename_i opcode
    exact (word _ opcode).elim
  · rfl

/-- Where an item stands that neither is a word nor a `var` block, nothing is done to the memory. -/
theorem Placed.deed?_item (placed : walker.Placed) {whole : Item} (code : walker.code = .item whole :: rest)
    (noWord : ∀ place name, whole ≠ .word place name)
    (noCell : ∀ place name body stop, whole ≠ .cell place name body stop) : walker.machine.deed? = none := by
  refine placed.deed?_eq_none code fun instruction found => ?_
  have carried := placed.carried
  rw [code] at carried
  cases whole with
  | word place name => exact (noWord _ _ rfl).elim
  | cell place name body stop => exact (noCell _ _ _ _ rfl).elim
  | _ =>
    cases Option.some.inj (found.symm.trans carried.1)
    exact ⟨nofun, nofun⟩

namespace Owning

variable {place middle stop : Location} {body : List Item}

theorem brings_mark (owning : walker.Owning past) (within : walker.Within program) (placed : walker.Placed)
    {mark : Mark} (code : walker.code = .mark mark place :: rest) :
    (Move.ran (walker.pass mark rest)).Brings (Owning past) (Tends (walker.machine.deed?.toList ++ past)) := by
  have none : walker.machine.deed? = none := by
    refine placed.deed?_eq_none code fun instruction found => ?_
    have carried := placed.carried
    rw [code] at carried
    cases Option.some.inj (found.symm.trans carried.1)
    cases mark <;> exact ⟨nofun, nofun⟩
  rw [none]
  cases mark with
  | noop | enter | dropCell => exact fun _ => owning.stay rfl rfl rfl
  | unbind names =>
    refine fun _ => @Owning.unbound _ _ _ owning rfl rfl ?_ rfl
    rw [within.scopes, code, Piece.lets, List.length_cons]
    omega

theorem brings_push (owning : walker.Owning past) (value : Value) :
    (Move.after (walker.store.push value) place fun store => .ran (walker.next rest store)).Brings (Owning past)
      (Tends past) :=
  brings_after fun _ pushed _ => owning.stay (Store.heap_of_push pushed) (Store.bindings_of_push pushed) rfl

/-- What a word does with the memory, if it has not failed, is entered in the past. -/
theorem invoked (owning : walker.Owning past) {word : Builtin} {effect : Effect} {store : Store}
    (invoked : walker.store.invoke word = .ok (effect, store))
    (prudent : Deed.Prudent
      ((word.deed? walker.store.operands walker.store.heap walker.machine.cells).toList ++ past)) (rest : List Piece) :
    (walker.next rest store).Owning
      ((word.deed? walker.store.operands walker.store.heap walker.machine.cells).toList ++ past) := by
  obtain ⟨operands, heap, called, rfl⟩ := Store.invoke_eq_ok invoked
  obtain ⟨tiled, turns⟩ := Builtin.call_turns owning.tiled called walker.machine.cells
  refine ⟨tiled, owning.balanced.call prudent turns, ?_⟩
  intro room member
  obtain ⟨name, below, opened, stands, height⟩ := owning.anchored room member
  refine ⟨name, below, ?_, stands, height⟩
  rcases word.deed?_cases walker.store.operands walker.store.heap walker.machine.cells with
    none | ⟨address, size, claims⟩ | ⟨address, frees⟩
  · rw [none]
    exact opened
  · rw [claims]
    exact opened
  · rw [frees]
    exact opened

theorem brings_word (owning : walker.Owning past) (placed : walker.Placed) {name : String}
    (code : walker.code = .item (.word place name) :: rest) :
    (walker.word name place rest).Brings (Owning past) (Tends (walker.machine.deed?.toList ++ past)) := by
  have carried := placed.carried
  rw [code] at carried
  rw [placed.deed?_eq code carried.1]
  have known : walker.machine.functions.get? name = (walker.functions.get? name).map Routine.callable :=
    Dictionary.get?_map ..
  unfold Walker.word
  split
  · rename_i word found
    rw [found] at known
    have deed : walker.machine.deedOf? ⟨.call name, place⟩ =
        word.deed? walker.store.operands walker.store.heap walker.machine.cells := by
      simp only [Machine.deedOf?, known, Option.map_some, Routine.callable]
      rfl
    rw [deed]
    refine brings_after ?_
    rintro ⟨effect, store⟩ invoked
    cases effect <;> exact fun prudent => owning.invoked invoked prudent rest
  · rename_i tape definition from_ body found
    rw [found] at known
    have none : walker.machine.deedOf? ⟨.call name, place⟩ = none := by
      simp only [Machine.deedOf?, known, Option.map_some, Routine.callable]
    rw [none]
    exact fun _ => owning.stay rfl rfl rfl
  · rename_i found
    rw [found] at known
    have none : walker.machine.deedOf? ⟨.call name, place⟩ = none := by
      simp only [Machine.deedOf?, known, Option.map_none]
    rw [none]
    refine brings_after fun store fetched _ => ?_
    obtain ⟨value, pushed⟩ := Store.of_fetch fetched
    exact owning.stay (Store.heap_of_push pushed) (Store.bindings_of_push pushed) rfl

/-- A new cell is owned by its block. -/
theorem claimed (owning : walker.Owning past) (within : walker.Within program) {name : String} {address : Nat}
    {store : Store} (code : walker.code = .item (.cell place name body stop) :: rest)
    (claimed : walker.store.claim name = .ok (address, store)) (start : Nat) {closing : Closing}
    (behind : closing.rest = rest) :
    ({ walker with store }.inside (.cell address closing) start body walker.blocks).Owning
      (.opens name address store.bindings.frames :: past) := by
  obtain ⟨heap, allocated, rfl⟩ := Store.claim_eq_ok claimed
  have tiled := owning.tiled.alloc allocated
  have balanced := owning.balanced.opens (Heap.holdings_alloc allocated) name
    (walker.store.bindings.bind [name] [.pointer address]).frames
  have distinct := balanced.nodup tiled.nodup_holdings
  refine ⟨tiled, balanced, ?_⟩
  intro room member
  rcases List.mem_cons.1 member with rfl | later
  · refine ⟨name, walker.store.bindings.frames, ?_, List.suffix_refl _, ?_⟩
    · rw [Deed.opening?, if_pos rfl]
      rfl
    · rw [within.scopes_item code rfl, behind]
  · obtain ⟨other, below, opened, stands, height⟩ := owning.anchored room later
    have elsewhere : address ≠ room.1 := by
      rintro rfl
      rw [List.cons_append, List.nodup_cons, cells_machine] at distinct
      exact distinct.1 (List.mem_append_left _ (List.mem_map_of_mem later))
    refine ⟨other, below, ?_, ?_, height⟩
    · rw [Deed.opening?, if_neg elsewhere]
      exact opened
    · exact stands.trans (List.suffix_cons _ _)

theorem brings_cell (owning : walker.Owning past) (within : walker.Within program) (placed : walker.Placed)
    {name : String} (code : walker.code = .item (.cell place name body stop) :: rest) :
    (walker.perform (.cell place name body stop) rest).Brings (Owning past)
      (Tends (walker.machine.deed?.toList ++ past)) := by
  have carried := placed.carried
  rw [code, Tape.carries_cell] at carried
  rw [placed.deed?_eq code carried.1]
  refine brings_after ?_
  rintro ⟨address, store⟩ claimed
  have opens : walker.machine.deedOf? ⟨.cell name (walker.ip + 1 + span body), place⟩ =
      some (.opens name address store.bindings.frames) := by
    change walker.machine.store.claim name = .ok (address, store) at claimed
    simp only [Machine.deedOf?, Machine.cell_of_claimed _ claimed]
    rfl
  rw [opens]
  exact fun _ => owning.claimed within code claimed _ rfl

theorem released (owning : walker.Owning past) (within : walker.Within program) (code : walker.code = [])
    {address : Nat} {closing : Closing} {outer : List Block} (blocks : walker.blocks = .cell address closing :: outer)
    {store : Store} (released : walker.store.release address = .ok store) :
    ({ walker with store }.leave closing outer).Owning past := by
  have scopes := within.scopes
  rw [code, blocks] at scopes
  obtain ⟨heap, freed, rfl⟩ := Store.release_eq_ok released
  have balanced := owning.balanced
  rw [cells_machine, blocks] at balanced
  refine ⟨owning.tiled.free freed, ?_, ?_⟩
  · rw [cells_machine]
    show Deed.Balanced past _ heap.holdings
    rw [owning.tiled.holdings_free freed]
    exact balanced.closes owning.tiled.nodup_holdings
  · intro room member
    have inside := Block.room_lt (show room ∈ Block.rooms outer from member)
    obtain ⟨name, below, opened, stands, height⟩ := owning.anchored room (blocks ▸ List.mem_cons_of_mem _ member)
    refine ⟨name, below, opened, suffix_tail stands ?_, height⟩
    rw [scopes, List.length_cons, height, Block.scopes]
    omega

theorem brings_close (owning : walker.Owning past) (within : walker.Within program) (placed : walker.Placed)
    {block : Block} {outer : List Block} (code : walker.code = []) (blocks : walker.blocks = block :: outer) :
    (walker.close block outer).Brings (Owning past) (Tends (walker.machine.deed?.toList ++ past)) := by
  cases block with
  | consequent bound closing => exact owning.stay rfl rfl (blocks ▸ rfl)
  | repeats start body remaining closing =>
    cases remaining with
    | zero => exact owning.stay rfl rfl (blocks ▸ rfl)
    | succ more => exact owning.stay rfl rfl (blocks ▸ rfl)
  | test loop closing =>
    refine brings_after ?_
    rintro ⟨n, store⟩ taken
    have heap := Store.heap_of_takeNumber taken
    have bindings := Store.bindings_of_takeNumber taken
    dsimp only
    split
    · exact owning.stay heap bindings (blocks ▸ rfl)
    · exact owning.stay heap bindings (blocks ▸ rfl)
  | body loop closing => exact owning.stay rfl rfl (blocks ▸ rfl)
  | cell address closing => exact brings_after fun store released => owning.released within code blocks released
  | call tape address rest =>
    have enclosed := placed.enclosed
    rw [code, blocks, Piece.extent_nil, Nat.add_zero] at enclosed
    have ret : ∃ place, walker.tape[walker.ip]? = some ⟨.ret, place⟩ := by
      generalize walker.ip = stop at enclosed
      cases enclosed with
      | call ret => exact ⟨_, ret⟩
    obtain ⟨place, here⟩ := ret
    have frames : walker.machine.frames = .call tape address :: outer.map Block.frame := by
      show walker.blocks.map Block.frame = _
      rw [blocks]
      rfl
    have none : walker.machine.deed? = none := by
      have found : walker.machine.tape[walker.machine.ip]? = some ⟨.ret, place⟩ := here
      simp only [Machine.deed?, Machine.settle_of_settled (Machine.boundary_call frames), found, Option.bind_some]
      rfl
    rw [none]
    exact fun _ => owning.stay rfl rfl (blocks ▸ rfl)

theorem brings_perform (owning : walker.Owning past) (within : walker.Within program) (placed : walker.Placed)
    {item : Item} (code : walker.code = .item item :: rest) :
    (walker.perform item rest).Brings (Owning past) (Tends (walker.machine.deed?.toList ++ past)) := by
  have quiet := placed.deed?_item code
  cases item with
  | word place name => exact owning.brings_word placed code
  | cell place name body stop => exact owning.brings_cell within placed code
  | imports place name => trivial
  | number place n =>
    rw [quiet nofun nofun]
    exact owning.brings_push _
  | string place text =>
    rw [quiet nofun nofun]
    exact owning.brings_push _
  | branch place body stop =>
    rw [quiet nofun nofun]
    refine brings_after ?_
    rintro ⟨n, store⟩ taken
    have heap := Store.heap_of_takeNumber taken
    have bindings := Store.bindings_of_takeNumber taken
    dsimp only
    split <;> exact fun _ => owning.stay heap bindings rfl
  | choice place consequent middle alternative stop =>
    rw [quiet nofun nofun]
    refine brings_after ?_
    rintro ⟨n, store⟩ taken
    have heap := Store.heap_of_takeNumber taken
    have bindings := Store.bindings_of_takeNumber taken
    dsimp only
    split <;> exact fun _ => owning.stay heap bindings rfl
  | repeats place body stop =>
    rw [quiet nofun nofun]
    refine brings_after ?_
    rintro ⟨count, store⟩ taken
    have heap := Store.heap_of_takeCount taken
    have bindings := Store.bindings_of_takeCount taken
    cases count <;> exact fun _ => owning.stay heap bindings rfl
  | loop place test middle body stop =>
    rw [quiet nofun nofun]
    exact fun _ => owning.stay rfl rfl rfl
  | bind place names body stop =>
    rw [quiet nofun nofun]
    refine brings_after fun store bound _ => ?_
    obtain ⟨values, operands, -, rfl⟩ := Store.bind_eq_ok bound
    exact owning.bound rfl rfl rfl
  | define place heading body stop =>
    rw [quiet nofun nofun]
    exact fun _ => owning.stay rfl rfl rfl

/-- No move of a walker takes a cell away from its block, unless the program is not prudent. -/
theorem brings (owning : walker.Owning past) (within : walker.Within program) (placed : walker.Placed) :
    walker.move.Brings (Owning past) (Tends (walker.machine.deed?.toList ++ past)) := by
  unfold Walker.move
  split
  · rename_i code
    exact owning.brings_mark within placed code
  · rename_i code
    exact owning.brings_perform within placed code
  · rename_i code blocks
    exact owning.brings_close within placed code blocks
  · trivial

end Owning

theorem start_owning (capacity : Nat) (items : List Item) : (start capacity items).Owning [] where
  tiled := Heap.new_tiled capacity
  balanced := .nil
  anchored := nofun

end Walker

end TapeMachine
