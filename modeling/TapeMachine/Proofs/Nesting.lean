import TapeMachine.Proofs.Causes
import TapeMachine.Proofs.Enclosing
import TapeMachine.Proofs.Slices

namespace TapeMachine

namespace Block

/-- The blocks of the program around a level that stands inside these blocks, up to the function it belongs to. -/
def path : List Block → List Enclosure
  | [] => []
  | consequent bound closing :: outer =>
    .consequent bound closing.address :: (Piece.lets closing.rest ++ path outer)
  | repeats start _ _ closing :: outer =>
    .repeats start closing.address :: (Piece.lets closing.rest ++ path outer)
  | test loop closing :: outer | body loop closing :: outer =>
    .loop loop.start loop.middle closing.address :: (Piece.lets closing.rest ++ path outer)
  | cell _ closing :: outer => .cell closing.address :: (Piece.lets closing.rest ++ path outer)
  | call .. :: _ => []

/-- How many scope frames have been opened around a level that stands inside these blocks. -/
def scopes : List Block → Nat
  | [] => 0
  | consequent _ closing :: outer | repeats _ _ _ closing :: outer | test _ closing :: outer |
    body _ closing :: outer => (Piece.lets closing.rest).length + scopes outer
  | cell _ closing :: outer => 1 + (Piece.lets closing.rest).length + scopes outer
  | call _ _ rest :: outer => (Piece.lets rest).length + scopes outer

end Block

/-- A level of the program that ends at `stop` stands inside these blocks, each of which is where the program has it,
and calls have been made from where the callers have them. -/
inductive Nested : (program : List Item) → (stop : Nat) → List Block → Prop
  | program {program stop} : Nested program stop []
  | consequent {program stop bound closing outer} :
      StandsIn program closing.address closing.code (Block.path outer) →
      Nested program (closing.address + Piece.extent closing.code) outer →
      Nested program stop (.consequent bound closing :: outer)
  | repeats {program stop start body remaining closing outer} :
      StandsIn program (start + 1) (Piece.ofItems body) (Block.path (.repeats start body remaining closing :: outer)) →
      StandsIn program closing.address closing.code (Block.path outer) →
      Nested program (closing.address + Piece.extent closing.code) outer →
      Nested program stop (.repeats start body remaining closing :: outer)
  | test {program stop loop closing outer} :
      StandsIn program (loop.start + 1) (Piece.ofItems loop.test) (Block.path (.test loop closing :: outer)) →
      StandsIn program (loop.middle + 1) (Piece.ofItems loop.body) (Block.path (.body loop closing :: outer)) →
      StandsIn program closing.address closing.code (Block.path outer) →
      Nested program (closing.address + Piece.extent closing.code) outer →
      Nested program stop (.test loop closing :: outer)
  | body {program stop loop closing outer} :
      StandsIn program (loop.start + 1) (Piece.ofItems loop.test) (Block.path (.test loop closing :: outer)) →
      StandsIn program (loop.middle + 1) (Piece.ofItems loop.body) (Block.path (.body loop closing :: outer)) →
      StandsIn program closing.address closing.code (Block.path outer) →
      Nested program (closing.address + Piece.extent closing.code) outer →
      Nested program stop (.body loop closing :: outer)
  | cell {program stop owned closing outer} :
      StandsIn program closing.address closing.code (Block.path outer) →
      Nested program (closing.address + Piece.extent closing.code) outer →
      Nested program stop (.cell owned closing :: outer)
  | call {program stop caller address place name rest outer} : enclosing program stop = [] →
      StandsIn caller address (.item (.word place name) :: rest) (Block.path outer) →
      Nested caller (address + 1 + Piece.extent rest) outer →
      (Tape.ofItems caller)[address]? = some ⟨.call name, place⟩ →
      Nested program stop (.call (.ofItems caller) (address + 1) rest :: outer)

/-- Every function of the table stands in the program on whose tape it is. -/
def Dictionary.Nested (functions : Dictionary Routine) : Prop :=
  ∀ name tape definition place body, functions.get? name = some (.user tape definition place body) →
    ∃ program, tape = .ofItems program ∧
      StandsIn program definition.start (.mark .noop place :: .mark .enter place :: Piece.ofItems body) [] ∧
      enclosing program (definition.start + 2 + span body) = []

namespace Store

variable {store next : Store}

theorem bindings_of_push {value : Value} (pushed : store.push value = .ok next) : next.bindings = store.bindings := by
  obtain ⟨operands, -, rfl⟩ := push_eq_ok pushed
  rfl

theorem bindings_of_takeNumber {n : Decimal} (taken : store.takeNumber = .ok (n, next)) :
    next.bindings = store.bindings := by
  obtain ⟨value, operands, -, -, rfl⟩ := take_of_ok taken
  rfl

theorem bindings_of_takeCount {count : Nat} (taken : store.takeCount = .ok (count, next)) :
    next.bindings = store.bindings := by
  obtain ⟨value, operands, -, -, rfl⟩ := take_of_ok taken
  rfl

theorem bindings_of_invoke {word : Builtin} {effect : Effect} (invoked : store.invoke word = .ok (effect, next)) :
    next.bindings = store.bindings := by
  obtain ⟨operands, heap, -, rfl⟩ := invoke_eq_ok invoked
  rfl

theorem bindings_of_fetch {name : String} (fetched : store.fetch name = .ok next) :
    next.bindings = store.bindings := by
  unfold fetch at fetched
  split at fetched
  · exact bindings_of_push fetched
  · cases fetched

theorem frames_of_bind {names : List String} (bound : store.bind names = .ok next) :
    next.bindings.frames.length = store.bindings.frames.length + 1 := by
  obtain ⟨values, operands, -, rfl⟩ := bind_eq_ok bound
  rfl

theorem frames_of_claim {name : String} {address : Nat} (claimed : store.claim name = .ok (address, next)) :
    next.bindings.frames.length = store.bindings.frames.length + 1 := by
  obtain ⟨heap, -, rfl⟩ := claim_eq_ok claimed
  rfl

theorem frames_unbind (store : Store) :
    store.unbind.bindings.frames.length = store.bindings.frames.length - 1 :=
  List.length_tail

theorem frames_of_release {address : Nat} (released : store.release address = .ok next) :
    next.bindings.frames.length = store.bindings.frames.length - 1 := by
  obtain ⟨heap, -, rfl⟩ := release_eq_ok released
  exact store.frames_unbind

end Store

namespace Walker

/-- The walker stands in the program inside the blocks that the program has there, and has opened as many scope frames
as there are bindings and cells around it. -/
structure Within (program : List Item) (walker : Walker) : Prop where
  tape : walker.tape = .ofItems program
  stands : StandsIn program walker.ip walker.code (Block.path walker.blocks)
  nested : Nested program (walker.ip + Piece.extent walker.code) walker.blocks
  scopes : walker.store.bindings.frames.length = (Piece.lets walker.code).length + Block.scopes walker.blocks
  functions : walker.functions.Nested

/-- The walker stands where it should in some program. -/
def Orderly (walker : Walker) : Prop :=
  ∃ program, walker.Within program

/-- The walkers that a move leads to have a property; and if the move fails, that was to be expected. -/
def Move.Onward (holds : Walker → Prop) : Move → Prop
  | .crossed next | .ran next | .prints _ next | .asks _ _ _ next => holds next
  | .failed failure => failure.Expected
  | .imports .. | .ends => True

variable {program : List Item} {walker : Walker} {piece : Piece} {rest : List Piece}

/-- An instruction that works on the store first goes on with what that leaves, or fails as expected. -/
theorem onward_after {α : Type} {outcome : Outcome α} {place : Location} {onward : α → Move} {holds : Walker → Prop}
    (expects : Expects Cause.Expected outcome) (leads : ∀ found, outcome = .ok found → (onward found).Onward holds) :
    (Move.after outcome place onward).Onward holds := by
  cases outcome with
  | ok found => exact leads found rfl
  | error cause => exact expects

/-- A walker may go to any code of its level that ends where the level ends. -/
theorem Within.goto (within : walker.Within program) {address : Nat} {code : List Piece} {store : Store}
    (stands : StandsIn program address code (Block.path walker.blocks))
    (stop : address + Piece.extent code = walker.ip + Piece.extent walker.code)
    (scopes : store.bindings.frames.length = (Piece.lets code).length + Block.scopes walker.blocks) :
    ({ walker with store }.goto address code).Within program where
  tape := within.tape
  stands := stands
  nested := by
    have nested := within.nested
    rw [← stop] at nested
    exact nested
  scopes := scopes
  functions := within.functions

/-- A walker may go past a piece that takes one address and neither opens nor closes a scope frame. -/
theorem Within.next (within : walker.Within program) (code : walker.code = piece :: rest) (width : piece.width = 1)
    (lets : Piece.lets (piece :: rest) = Piece.lets rest) {store : Store}
    (same : store.bindings = walker.store.bindings) : (walker.next rest store).Within program := by
  have stands := within.stands
  rw [code] at stands
  have behind := stands.tail
  rw [width] at behind
  have stop : walker.ip + 1 + Piece.extent rest = walker.ip + Piece.extent walker.code := by
    rw [code, Piece.extent_cons, width]
    omega
  have scopes : store.bindings.frames.length = (Piece.lets rest).length + Block.scopes walker.blocks := by
    rw [same, within.scopes, code, lets]
  exact within.goto behind stop scopes

/-- A block is entered: the walker stands at the beginning of a body with the block around it. -/
theorem Within.inside (within : walker.Within program) {block : Block} {address : Nat} {body : List Item}
    {outer : List Block} {store : Store}
    (stands : StandsIn program address (Piece.ofItems body) (Block.path (block :: outer)))
    (nested : Nested program (address + span body) (block :: outer))
    (scopes : store.bindings.frames.length = Block.scopes (block :: outer)) :
    ({ walker with store }.inside block address body outer).Within program where
  tape := within.tape
  stands := stands
  nested := by
    rw [← Piece.extent_ofItems] at nested
    exact nested
  scopes := by
    show _ = (Piece.lets (Piece.ofItems body)).length + _
    rw [Piece.lets_ofItems, List.length_nil, Nat.zero_add]
    exact scopes
  functions := within.functions

/-- A block is left: what stands behind it is walked next, in the blocks around it. -/
theorem Within.leave (within : walker.Within program) {closing : Closing} {outer : List Block} {store : Store}
    (stands : StandsIn program closing.address closing.code (Block.path outer))
    (nested : Nested program (closing.address + Piece.extent closing.code) outer)
    (scopes : store.bindings.frames.length = (Piece.lets closing.rest).length + Block.scopes outer) :
    ({ walker with store }.leave closing outer).Within program where
  tape := within.tape
  stands := stands
  nested := nested
  scopes := scopes
  functions := within.functions

theorem Within.onward_mark (within : walker.Within program) {mark : Mark} {place : Location}
    (code : walker.code = .mark mark place :: rest) : (Move.ran (walker.pass mark rest)).Onward Orderly := by
  cases mark with
  | noop | enter | dropCell => exact ⟨program, within.next code rfl rfl rfl⟩
  | unbind names =>
    have stands := within.stands
    have scopes := within.scopes
    rw [code] at stands scopes
    have stop : walker.ip + 1 + Piece.extent rest = walker.ip + Piece.extent walker.code := by
      rw [code, Piece.extent_cons, Piece.width_mark]
      omega
    have fewer : walker.store.unbind.bindings.frames.length =
        (Piece.lets rest).length + Block.scopes walker.blocks := by
      rw [Store.frames_unbind, scopes, Piece.lets, List.length_cons]
      omega
    exact ⟨program, within.goto stands.tail stop fewer⟩

/-- A word is a builtin, a function or a bound name. Only the function opens something, which is a frame with a
program of its own. -/
theorem Within.onward_word (within : walker.Within program) {place : Location} {name : String}
    (code : walker.code = .item (.word place name) :: rest)
    (here : walker.tape[walker.ip]? = some ⟨.call name, place⟩) : (walker.word name place rest).Onward Orderly := by
  unfold word
  split
  · rename_i word _
    refine onward_after (walker.store.expects_invoke word) ?_
    rintro ⟨effect, store⟩ invoked
    have next := within.next code rfl rfl (Store.bindings_of_invoke invoked)
    cases effect <;> exact ⟨program, next⟩
  · rename_i tape definition from_ body found
    obtain ⟨callee, rfl, stands, ret⟩ := within.functions _ _ _ _ _ found
    have caller := within.stands
    have outer := within.nested
    have scopes := within.scopes
    rw [code] at caller outer scopes
    rw [within.tape] at here ⊢
    rw [Piece.extent_cons, ← Nat.add_assoc] at outer
    have nested : Nested callee (definition.start + 2 + span body)
        (.call (.ofItems program) (walker.ip + 1) rest :: walker.blocks) := .call ret caller outer here
    refine ⟨callee, rfl, stands, ?_, ?_, within.functions⟩
    · simp only [Piece.extent_cons, Piece.width_mark, Piece.extent_ofItems, ← Nat.add_assoc]
      exact nested
    · rw [Piece.lets_item] at scopes
      simp only [Piece.lets, Piece.lets_ofItems, List.length_nil, Nat.zero_add]
      exact scopes
  · refine onward_after (walker.store.expects_fetch name) ?_
    intro store fetched
    exact ⟨program, within.next code rfl rfl (Store.bindings_of_fetch fetched)⟩

variable {place middle stop : Location} {body : List Item}

/-- The level of a walker ends where it does behind the block that the walker is about to enter. -/
theorem Within.closing_nested (within : walker.Within program) {item : Item} (closing : Closing)
    (code : walker.code = .item item :: closing.rest) (ends : walker.ip + item.width = closing.address + 1) :
    Nested program (closing.address + Piece.extent closing.code) walker.blocks := by
  have nested := within.nested
  have same : walker.ip + Piece.extent walker.code = closing.address + Piece.extent closing.code := by
    rw [extent_item code, Closing.code, Piece.extent_cons, Piece.width_mark]
    omega
  rwa [same] at nested

/-- The scope frames around an item are those of its level, if the item has bound nothing. -/
theorem Within.scopes_item (within : walker.Within program) {item : Item} (code : walker.code = .item item :: rest)
    {store : Store} (same : store.bindings = walker.store.bindings) :
    store.bindings.frames.length = (Piece.lets rest).length + Block.scopes walker.blocks := by
  rw [same, within.scopes, code, Piece.lets_item]

theorem Within.onward_push (within : walker.Within program) (code : walker.code = piece :: rest)
    (width : piece.width = 1) (lets : Piece.lets (piece :: rest) = Piece.lets rest) (value : Value) :
    (Move.after (walker.store.push value) place fun store => .ran (walker.next rest store)).Onward Orderly := by
  refine onward_after (walker.store.expects_push value) ?_
  intro store pushed
  exact ⟨program, within.next code width lets (Store.bindings_of_push pushed)⟩

theorem Within.onward_branch (within : walker.Within program)
    (code : walker.code = .item (.branch place body stop) :: rest) :
    (walker.perform (.branch place body stop) rest).Onward Orderly := by
  have stands := within.stands
  rw [code] at stands
  have width := Item.add_width (.branch place body stop) walker.ip
  rw [Item.behind] at width
  have extent := extent_item code
  refine onward_after walker.store.expects_takeNumber ?_
  rintro ⟨n, store⟩ taken
  have scopes := within.scopes_item code (Store.bindings_of_takeNumber taken)
  dsimp only
  split
  · have ends : walker.ip + 1 + Piece.extent (Piece.ofItems body ++ .mark .noop stop :: rest) =
        walker.ip + Piece.extent walker.code := by
      simp only [extent, Piece.extent_append, Piece.extent_ofItems, Piece.extent_cons, Piece.width_mark]
      omega
    refine ⟨program, within.goto stands.branch ends ?_⟩
    rw [Piece.lets_append, Piece.lets_ofItems]
    exact scopes
  · have behind := stands.branch.behind
    rw [Piece.extent_ofItems] at behind
    have ends : walker.ip + 1 + span body + Piece.extent (.mark .noop stop :: rest) =
        walker.ip + Piece.extent walker.code := by
      simp only [extent, Piece.extent_cons, Piece.width_mark]
      omega
    exact ⟨program, within.goto behind ends scopes⟩

theorem Within.onward_choice (within : walker.Within program) {consequent alternative : List Item}
    (code : walker.code = .item (.choice place consequent middle alternative stop) :: rest) :
    (walker.perform (.choice place consequent middle alternative stop) rest).Onward Orderly := by
  have stands := within.stands
  rw [code] at stands
  obtain ⟨first, second, closed⟩ := stands.choice
  have width := Item.add_width (.choice place consequent middle alternative stop) walker.ip
  rw [Item.behind] at width
  have extent := extent_item code
  refine onward_after walker.store.expects_takeNumber ?_
  rintro ⟨n, store⟩ taken
  have scopes := within.scopes_item code (Store.bindings_of_takeNumber taken)
  dsimp only
  split
  · have nested := within.closing_nested ⟨_, stop, rest⟩ code width
    exact ⟨program, within.inside first (.consequent closed nested) scopes⟩
  · have ends : walker.ip + 1 + span consequent +
        Piece.extent (.mark .noop middle :: (Piece.ofItems alternative ++ .mark .noop stop :: rest)) =
          walker.ip + Piece.extent walker.code := by
      simp only [extent, Piece.extent_append, Piece.extent_ofItems, Piece.extent_cons, Piece.width_mark]
      omega
    refine ⟨program, within.goto second ends ?_⟩
    simp only [Piece.lets, Piece.lets_append, Piece.lets_ofItems]
    exact scopes

theorem Within.onward_repeats (within : walker.Within program)
    (code : walker.code = .item (.repeats place body stop) :: rest) :
    (walker.perform (.repeats place body stop) rest).Onward Orderly := by
  have stands := within.stands
  rw [code] at stands
  obtain ⟨inner, closed⟩ := stands.repeats
  have width := Item.add_width (.repeats place body stop) walker.ip
  rw [Item.behind] at width
  have extent := extent_item code
  refine onward_after walker.store.expects_takeCount ?_
  rintro ⟨count, store⟩ taken
  have scopes := within.scopes_item code (Store.bindings_of_takeCount taken)
  cases count with
  | zero =>
    have ends : walker.ip + 1 + span body + Piece.extent (.mark .noop stop :: rest) =
        walker.ip + Piece.extent walker.code := by
      simp only [extent, Piece.extent_cons, Piece.width_mark]
      omega
    exact ⟨program, within.goto closed ends scopes⟩
  | succ more =>
    have nested := within.closing_nested ⟨_, stop, rest⟩ code width
    exact ⟨program, within.inside inner (.repeats inner closed nested) scopes⟩

/-- A loop is entered at its test, and the frame stays for the body. -/
theorem Within.onward_loop (within : walker.Within program) {test : List Item}
    (code : walker.code = .item (.loop place test middle body stop) :: rest) :
    (walker.perform (.loop place test middle body stop) rest).Onward Orderly := by
  have stands := within.stands
  rw [code] at stands
  obtain ⟨first, second, closed⟩ := stands.loop
  have width := Item.add_width (.loop place test middle body stop) walker.ip
  rw [Item.behind] at width
  have nested := within.closing_nested ⟨_, stop, rest⟩ code width
  exact ⟨program, within.inside first (.test first second closed nested) (within.scopes_item code rfl)⟩

/-- The names open a scope frame and no block; the `end` that closes it is a mark in the code that remains. -/
theorem Within.onward_bind (within : walker.Within program) {names : List String}
    (code : walker.code = .item (.bind place names body stop) :: rest) :
    (walker.perform (.bind place names body stop) rest).Onward Orderly := by
  have stands := within.stands
  rw [code] at stands
  have width := Item.add_width (.bind place names body stop) walker.ip
  rw [Item.behind] at width
  have extent := extent_item code
  refine onward_after (walker.store.expects_bind names) ?_
  intro store bound
  have ends : walker.ip + 1 +
      Piece.extent (Piece.ofItems body ++ .mark (.unbind names) stop :: .mark .noop stop :: rest) =
        walker.ip + Piece.extent walker.code := by
    simp only [extent, Piece.extent_append, Piece.extent_ofItems, Piece.extent_cons, Piece.width_mark]
    omega
  refine ⟨program, within.goto stands.bind ends ?_⟩
  rw [Store.frames_of_bind bound, within.scopes_item code rfl, Piece.lets_append, Piece.lets_ofItems]
  simp only [Piece.lets, List.nil_append, List.length_cons]
  omega

/-- A cell opens both, a scope frame and a block. -/
theorem Within.onward_cell (within : walker.Within program) {name : String}
    (code : walker.code = .item (.cell place name body stop) :: rest) :
    (walker.perform (.cell place name body stop) rest).Onward Orderly := by
  have stands := within.stands
  rw [code] at stands
  obtain ⟨inner, closed⟩ := stands.cell
  have width := Item.add_width (.cell place name body stop) walker.ip
  rw [Item.behind] at width
  refine onward_after (walker.store.expects_claim name) ?_
  rintro ⟨owned, store⟩ claimed
  have nested := within.closing_nested ⟨_, stop, rest⟩ code width
  have more : store.bindings.frames.length = 1 + (Piece.lets rest).length + Block.scopes walker.blocks := by
    rw [Store.frames_of_claim claimed, within.scopes_item code rfl]
    omega
  exact ⟨program, within.inside inner (.cell closed nested) more⟩

theorem Within.onward_define (within : walker.Within program) {heading : Heading}
    (code : walker.code = .item (.define place heading body stop) :: rest) :
    (walker.perform (.define place heading body stop) rest).Onward Orderly := by
  have stands := within.stands
  rw [code] at stands
  obtain ⟨inner, ret, behind⟩ := stands.define
  have width := Item.add_width (.define place heading body stop) walker.ip
  rw [Item.behind] at width
  have extent := extent_item code
  have ends : walker.ip + 3 + span body + 1 + Piece.extent (.mark .dropCell stop :: .mark .noop stop :: rest) =
      walker.ip + Piece.extent walker.code := by
    simp only [extent, Piece.extent_cons, Piece.width_mark]
    omega
  refine ⟨program, within.tape, behind, ?_, within.scopes_item code rfl, ?_⟩
  · have nested := within.nested
    rw [← ends] at nested
    exact nested
  · intro name tape definition from_ inner' found
    rw [Dictionary.get?_insert] at found
    split at found
    · cases found
      have same : walker.ip + 1 + 2 + span body = walker.ip + 3 + span body := by omega
      exact ⟨program, within.tape, inner, same ▸ ret⟩
    · exact within.functions _ _ _ _ _ found

/-- One case for each kind of item. -/
theorem Within.onward_perform (within : walker.Within program) (placed : walker.Placed) {item : Item}
    (code : walker.code = .item item :: rest) : (walker.perform item rest).Onward Orderly := by
  cases item with
  | number place n => exact within.onward_push code rfl rfl _
  | string place text => exact within.onward_push code rfl rfl _
  | word place name =>
    have carried := placed.carried
    rw [code] at carried
    exact within.onward_word code carried.1
  | imports place name => trivial
  | branch => exact within.onward_branch code
  | choice => exact within.onward_choice code
  | repeats => exact within.onward_repeats code
  | loop => exact within.onward_loop code
  | bind => exact within.onward_bind code
  | cell => exact within.onward_cell code
  | define => exact within.onward_define code

/-- At the end of its code the innermost block closes, in the way of its kind. -/
theorem Within.onward_close (within : walker.Within program) (code : walker.code = []) {block : Block}
    {outer : List Block} (blocks : walker.blocks = block :: outer) : (walker.close block outer).Onward Orderly := by
  have nested := within.nested
  have scopes := within.scopes
  rw [code, blocks] at nested scopes
  rw [show (Piece.lets []).length = 0 from rfl, Nat.zero_add] at scopes
  cases nested with
  | consequent closed around => exact ⟨program, within.leave closed around scopes⟩
  | @repeats _ _ start body remaining closing _ inner closed around =>
    cases remaining with
    | zero => exact ⟨program, within.leave closed around scopes⟩
    | succ remaining => exact ⟨program, within.inside inner (.repeats inner closed around) scopes⟩
  | test first second closed around =>
    refine onward_after walker.store.expects_takeNumber ?_
    rintro ⟨n, store⟩ taken
    rw [← Store.bindings_of_takeNumber taken] at scopes
    dsimp only
    split
    · exact ⟨program, within.leave closed around scopes⟩
    · exact ⟨program, within.inside second (.body first second closed around) scopes⟩
  | body first second closed around =>
    exact ⟨program, within.inside first (.test first second closed around) scopes⟩
  | @cell _ _ owned closing _ closed around =>
    refine onward_after (walker.store.expects_release owned) ?_
    intro store released
    have fewer : store.bindings.frames.length = (Piece.lets closing.rest).length + Block.scopes outer := by
      rw [Store.frames_of_release released, scopes, Block.scopes]
      omega
    exact ⟨program, within.leave closed around fewer⟩
  | @call _ _ caller address place name rest _ _ stands around =>
    exact ⟨caller, rfl, stands.tail, around, scopes, within.functions⟩

/-- Wherever a walker goes, it stands where it should; and it fails for reasons to be expected only. -/
theorem Orderly.onward (orderly : walker.Orderly) (placed : walker.Placed) : walker.move.Onward Orderly := by
  obtain ⟨program, within⟩ := orderly
  unfold move
  split
  · rename_i code
    exact within.onward_mark code
  · rename_i code
    exact within.onward_perform placed code
  · rename_i code blocks
    exact within.onward_close code blocks
  · trivial

/-- In the beginning the whole program is still to be walked, and nothing is open. -/
theorem start_orderly (capacity : Nat) (items : List Item) : (start capacity items).Orderly := by
  refine ⟨items, rfl, .start items, .program, ?_, ?_⟩
  · show 0 = (Piece.lets (Piece.ofItems items)).length + 0
    rw [Piece.lets_ofItems]
    rfl
  · intro name tape definition place body found
    exact (start_functions found).elim

/-- Before its next turn a machine crosses as many boundaries as its walker. -/
theorem Orderly.turn (orderly : walker.Orderly) (placed : walker.Placed) :
    ∃ last : Walker, last.Orderly ∧ last.Placed ∧ walker.machine.settle = last.machine.settle ∧
      ∀ next, last.move ≠ .crossed next := by
  induction bound : walker.slack using Nat.strongRecOn generalizing walker with
  | ind slack ih =>
    cases moved : walker.move with
    | crossed next =>
      have onward := orderly.onward placed
      have agrees := placed.agrees
      rw [moved] at onward agrees
      obtain ⟨last, orderly', placed', same, still⟩ :=
        ih next.slack (bound ▸ slack_of_crossed moved) onward agrees.2 rfl
      exact ⟨last, orderly', placed', agrees.1.trans same, still⟩
    | ran | prints | asks | imports | failed | ends =>
      refine ⟨walker, orderly, placed, rfl, ?_⟩
      intro next crossed
      rw [moved] at crossed
      cases crossed

end Walker

end TapeMachine
