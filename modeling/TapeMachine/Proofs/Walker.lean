import TapeMachine.Proofs.Layout
import TapeMachine.Proofs.Store

namespace TapeMachine

/-- Instructions inside or behind a block that no jump depends on. -/
inductive Mark
  | noop
  | enter
  | unbind (names : List String)
  | dropCell

def Mark.opcode : Mark → Opcode
  | noop => .noop
  | enter => .enter
  | unbind names => .unbind names
  | dropCell => .dropCell

/-- What is left to do on one level of a program is a list of pieces: whole items, and the marks of
blocks that have been opened without a frame. -/
inductive Piece
  | item (whole : Item)
  | mark (meant : Mark) (place : Location)

namespace Piece

def width : Piece → Nat
  | item whole => whole.width
  | mark .. => 1

def code (start : Nat) : Piece → List Instruction
  | item whole => whole.code start
  | mark meant place => [⟨meant.opcode, place⟩]

/-- Items with nothing between them. -/
def ofItems (items : List Item) : List Piece :=
  items.map item

/-- How many addresses pieces take together. -/
def extent : List Piece → Nat
  | [] => 0
  | piece :: rest => piece.width + extent rest

/-- The instructions of pieces that stand one behind the other. -/
def codeFrom (start : Nat) : List Piece → List Instruction
  | [] => []
  | piece :: rest => piece.code start ++ codeFrom (start + piece.width) rest

end Piece

/-- The `end` of a block that has a frame, and what is left to do behind it. -/
structure Closing where
  address : Nat
  place : Location
  rest : List Piece

def Closing.code (closing : Closing) : List Piece :=
  .mark .noop closing.place :: closing.rest

/-- A `while` that begins at `start`; `place` is that of its `do`. -/
structure Loop where
  start : Nat
  test : List Item
  place : Location
  body : List Item

def Loop.middle (loop : Loop) : Nat :=
  loop.start + 1 + span loop.test

/-- A block that is being run and has a frame, or a call, with all that has to be done behind it. -/
inductive Block
  | consequent (bound : Nat) (closing : Closing)
  | repeats (start : Nat) (body : List Item) (remaining : Nat) (closing : Closing)
  | test (loop : Loop) (closing : Closing)
  | body (loop : Loop) (closing : Closing)
  | cell (owned : Nat) (closing : Closing)
  | call (tape : Tape) (address : Nat) (rest : List Piece)

/-- The frame by which a machine remembers a block. -/
def Block.frame : Block → Frame
  | consequent bound closing => .branch bound closing.address
  | repeats start _ remaining closing => .repeats start closing.address remaining
  | test loop closing | body loop closing => .loop loop.start loop.middle closing.address
  | cell owned closing => .cell closing.address owned
  | call tape address _ => .call tape address

/-- A callable together with the tree of its body. -/
inductive Routine
  | builtin (word : Builtin)
  | user (tape : Tape) (definition : Definition) (place : Location) (body : List Item)

def Routine.callable : Routine → Callable
  | builtin word => .builtin word
  | user tape definition _ _ => .user tape definition

/-- A dictionary with every value replaced by what `f` makes of it. -/
def Dictionary.map {α β : Type} (f : α → β) (dictionary : Dictionary α) : Dictionary β where
  entries := dictionary.entries.map fun entry => (entry.1, f entry.2)
  nodup := by
    rw [List.map_map]
    exact dictionary.nodup

/-- A machine that knows the tree of the program it runs: `code` is what is left to do on the innermost
level, and `blocks` what is around it. -/
structure Walker where
  tape : Tape
  ip : Nat := 0
  code : List Piece
  blocks : List Block := []
  functions : Dictionary Routine
  store : Store

namespace Walker

/-- A walker at the beginning of a program. -/
def start (capacity : Nat) (items : List Item) : Walker where
  tape := .ofItems items
  code := Piece.ofItems items
  functions := .ofList (Builtin.all.map fun word => (word.name, .builtin word))
  store := .start capacity

/-- The machine that does not know the tree. -/
def machine (walker : Walker) : Machine where
  tape := walker.tape
  ip := walker.ip
  operands := walker.store.operands
  frames := walker.blocks.map Block.frame
  bindings := walker.store.bindings
  functions := walker.functions.map Routine.callable
  heap := walker.store.heap

/-- What a walker does next. A boundary between blocks is crossed without an instruction. -/
inductive Move
  | crossed (next : Walker)
  | ran (next : Walker)
  | prints (text : String) (next : Walker)
  | asks (kind : InputKind) (prompt : String) (place : Location) (next : Walker)
  | imports (name : String) (place : Location)
  | failed (failure : Failure)
  | ends

/-- Go on with what came of a store, unless the instruction at `place` has failed. -/
def Move.after {α : Type} (outcome : Outcome α) (place : Location) (next : α → Move) : Move :=
  match outcome with
  | .ok found => next found
  | .error cause => .failed ⟨cause, some place⟩

/-- Stand at `address` with `code` to do. -/
def goto (walker : Walker) (address : Nat) (code : List Piece) : Walker :=
  { walker with ip := address, code }

/-- Leave the innermost block. -/
def leave (walker : Walker) (closing : Closing) (outer : List Block) : Walker :=
  { walker with ip := closing.address, code := closing.code, blocks := outer }

/-- Run `body`, which begins at `address`, inside a block. -/
def inside (walker : Walker) (block : Block) (address : Nat) (body : List Item)
    (outer : List Block) : Walker :=
  { walker with ip := address, code := Piece.ofItems body, blocks := block :: outer }

/-- The level is done; `block` is the innermost one around it. -/
def close (walker : Walker) (block : Block) (outer : List Block) : Move :=
  match block with
  | .consequent _ closing => .crossed (walker.leave closing outer)
  | .repeats _ _ 0 closing => .crossed (walker.leave closing outer)
  | .repeats start body (remaining + 1) closing =>
    .crossed (walker.inside (.repeats start body remaining closing) (start + 1) body outer)
  | .test loop closing =>
    .after walker.store.takeNumber loop.place fun (n, store) =>
      let decided := { walker with store }
      if n.isZero then .crossed (decided.leave closing outer)
      else .crossed (decided.inside (.body loop closing) (loop.middle + 1) loop.body outer)
  | .body loop closing =>
    .crossed (walker.inside (.test loop closing) (loop.start + 1) loop.test outer)
  | .cell owned closing =>
    .after (walker.store.release owned) closing.place fun store =>
      .crossed ({ walker with store }.leave closing outer)
  | .call tape address rest => .ran { walker with tape, ip := address, code := rest, blocks := outer }

/-- Carry a mark out. -/
def pass (walker : Walker) (mark : Mark) (rest : List Piece) : Walker :=
  let passed := walker.goto (walker.ip + 1) rest
  match mark with
  | .unbind _ => { passed with store := walker.store.unbind }
  | .noop | .enter | .dropCell => passed

/-- Go past an item that takes one address. -/
def next (walker : Walker) (rest : List Piece) (store : Store) : Walker :=
  { walker.goto (walker.ip + 1) rest with store }

/-- Call a builtin. -/
def builtin (walker : Walker) (word : Builtin) (place : Location) (rest : List Piece) : Move :=
  .after (walker.store.invoke word) place fun (effect, store) =>
    match effect with
    | .continue => .ran (walker.next rest store)
    | .print text => .prints text (walker.next rest store)
    | .input kind prompt => .asks kind prompt place (walker.next rest store)

/-- A word by its name. -/
def word (walker : Walker) (name : String) (place : Location) (rest : List Piece) : Move :=
  match walker.functions.get? name with
  | some (.builtin word) => walker.builtin word place rest
  | some (.user tape definition from_ body) =>
    .ran { walker with
      tape
      ip := definition.start
      code := .mark .noop from_ :: .mark .enter from_ :: Piece.ofItems body
      blocks := .call walker.tape (walker.ip + 1) rest :: walker.blocks }
  | none => .after (walker.store.fetch name) place fun store => .ran (walker.next rest store)

/-- Begin an item, or do it as a whole if it is no block. -/
def perform (walker : Walker) (item : Item) (rest : List Piece) : Move :=
  match item with
  | .number place n =>
    .after (walker.store.push (.number n)) place fun store => .ran (walker.next rest store)
  | .string place text =>
    .after (walker.store.push (.string text)) place fun store => .ran (walker.next rest store)
  | .word place name => walker.word name place rest
  | .imports place name => .imports name place
  | .branch place body stop =>
    .after walker.store.takeNumber place fun (n, store) =>
      let decided := { walker with store }
      let behind := .mark .noop stop :: rest
      if Decimal.one.le n then .ran (decided.goto (walker.ip + 1) (Piece.ofItems body ++ behind))
      else .ran (decided.goto (walker.ip + 1 + span body) behind)
  | .choice place consequent middle alternative stop =>
    .after walker.store.takeNumber place fun (n, store) =>
      let decided := { walker with store }
      let bound := walker.ip + 1 + span consequent
      let closing := ⟨bound + 1 + span alternative, stop, rest⟩
      if Decimal.one.le n then
        .ran (decided.inside (.consequent bound closing) (walker.ip + 1) consequent walker.blocks)
      else
        .ran (decided.goto bound (.mark .noop middle :: (Piece.ofItems alternative ++ closing.code)))
  | .repeats place body stop =>
    .after walker.store.takeCount place fun (count, store) =>
      let decided := { walker with store }
      let closing := ⟨walker.ip + 1 + span body, stop, rest⟩
      match count with
      | 0 => .ran (decided.goto closing.address closing.code)
      | more + 1 =>
        .ran (decided.inside (.repeats walker.ip body more closing) (walker.ip + 1) body walker.blocks)
  | .loop _ test middle body stop =>
    let loop := ⟨walker.ip, test, middle, body⟩
    let closing := ⟨loop.middle + 1 + span body, stop, rest⟩
    .ran (walker.inside (.test loop closing) (walker.ip + 1) test walker.blocks)
  | .bind place names body stop =>
    .after (walker.store.bind names) place fun store =>
      let behind := .mark (.unbind names) stop :: .mark .noop stop :: rest
      .ran ({ walker with store }.goto (walker.ip + 1) (Piece.ofItems body ++ behind))
  | .cell place name body stop =>
    .after (walker.store.claim name) place fun (owned, store) =>
      let closing := ⟨walker.ip + 1 + span body, stop, rest⟩
      .ran ({ walker with store }.inside (.cell owned closing) (walker.ip + 1) body walker.blocks)
  | .define place heading body stop =>
    let definition := ⟨heading, walker.ip + 1, walker.ip + 3 + span body⟩
    .ran { walker with
      functions := walker.functions.insert heading.name (.user walker.tape definition place body)
      ip := definition.stop + 1
      code := .mark .dropCell stop :: .mark .noop stop :: rest }

/-- What a walker does next. -/
def move (walker : Walker) : Move :=
  match walker.code, walker.blocks with
  | .mark mark _ :: rest, _ => .ran (walker.pass mark rest)
  | .item item :: rest, _ => walker.perform item rest
  | [], block :: outer => walker.close block outer
  | [], [] => .ends

end Walker

end TapeMachine
